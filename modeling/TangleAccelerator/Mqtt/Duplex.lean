import TangleAccelerator.Effect.Prog
import TangleAccelerator.Query.Tags

/-!
# The duplex client

`sub_utils.c`, `duplex_callback.c`, `duplex_utils.c` and `pub_utils.c`: the loop that takes requests
from an MQTT broker and publishes the responses.

A round of `duplex_client_start` subscribes, receives one message, handles it, and connects again to
publish.  The request and the response travel through the configuration: `recv_message` is the text
that is handled, and `topic` and `message` are what is published.  All three stay there until they
are overwritten.

A text is a C string and ends before its first null character.  A character stands for a byte.
-/

namespace TangleAccelerator.Mqtt

open Effect Json

/-- `ID_LEN`. -/
def idLen : Nat := 32

/-- The functions of `cJSON` and `mosquitto` that are called. -/
structure Lib where
  /-- `cJSON_Parse`. -/
  parse : String → Option Tree
  /-- `cJSON_PrintUnformatted`. -/
  print : Tree → String
  /-- What `mosquitto_validate_utf8` and `mosquitto_pub_topic_check` let through. -/
  validTopic : String → Bool

/-- The codec of JSON texts. -/
@[reducible] def Lib.codec (L : Lib) : Json.Codec := ⟨String, L.print, L.parse⟩

/-- `mosquitto_message`.  A payload may be missing. -/
structure Message where
  topic : String
  payload : Option String
  retain : Bool

/-- `mosq_config_t`, as far as the callbacks use it. -/
structure MosqConfig where
  recvMessage : Option String := none
  noRetain : Bool := false
  retainedOnly : Bool := false
  removeRetained : Bool := false
  pubTopic : Option String := none
  pubMessage : Option String := none

/-! ## Commands -/

/-- The API functions.  A hash that is missing was never written to its buffer. -/
inductive Api where
  | findTransactionsByTag (tag : List Tryte)
  | findTransactionsObjByTag (tag : List Tryte)
  | findTransactionObjectSingle (hash : Option String)
  | findTransactionObjects (obj : String)
  | sendTransfer (obj : String)
  | sendTrytes (obj : String)

/-- The commands. -/
inductive Cmd where
  /-- An API function is executed for a request. -/
  | execute (req : String) (api : Api)
  /-- `mosquitto_publish_v5` of a response. -/
  | publish (topic : String) (message : Option String)
  /-- `mosquitto_publish` that removes a retained message. -/
  | removeRetained (topic : String)

/-- The answers. -/
@[reducible] def Cmd.Ans : Cmd → Type
  | .execute .. => Except Status String
  | .publish .. => Unit
  | .removeRetained _ => Unit

/-- The signature of the duplex client. -/
@[reducible] def sig : Sig := ⟨Cmd, Cmd.Ans⟩

/-! ## Receiving -/

/-- `strdup` of a payload. -/
def strdup (payload : String) : String := String.ofList (payload.toList.takeWhile (· ≠ '\x00'))

/-- The text of a message, unless `dump_message` refuses it. -/
def textOf (message : Message) : Option String :=
  match message.payload with
  | none => none
  | some payload => if payload = "" then none else some (strdup payload)

/-- `dump_message`. -/
def dumpMessage (cfg : MosqConfig) (message : Message) : MosqConfig :=
  match textOf message with
  | none => cfg
  | some text => { cfg with recvMessage := some text }

/-- `message_callback_sub_func`. -/
def messageCallbackSubFunc (cfg : MosqConfig) (message : Message) : Prog sig MosqConfig := do
  if cfg.removeRetained && message.retain then
    command (S := sig) (.removeRetained message.topic)
  if cfg.retainedOnly && !message.retain then pure cfg
  else if message.retain && cfg.noRetain then pure cfg
  else pure (dumpMessage cfg message)

/-! ## Handling -/

section Handling

variable (L : Lib) (root : String)

/-- `mqtt_device_id_deserialize`. -/
def mqttDeviceIdDeserialize (obj : String) : Except Status String :=
  match L.parse obj with
  | none => .error .serializerJsonParse
  | some json => taJsonGetString json "device_id" (idLen + 1)

/-- `mqtt_transaction_hash_req_deserialize`, into a buffer that holds nothing yet.  Its status is
dropped. -/
def mqttTransactionHashReqDeserialize (obj : String) : Option String :=
  match L.parse obj with
  | none => none
  | some json => (taJsonGetString json "hash" 82).toOption

/-- What a request asks for. -/
inductive Route where
  | api (api : Api)
  | invalidTag
  | unknown (apiSubTopic : String)

/-- The part of a topic after the root. -/
def apiSubTopic (topic : String) : String := String.ofList (topic.toList.drop root.length)

/-- A request for a tag. -/
def tagRoute (f : List Tryte → Api) (req : String) : Route :=
  match mqttTag L.codec req with
  | .ok tag => .api (f tag)
  | .error _ => .invalidTag

/-- The cases of `mqtt_request_handler`. -/
def route (topic req : String) : Route :=
  let sub := apiSubTopic root topic
  if sub = "/tag/hashes" then tagRoute L .findTransactionsByTag req
  else if sub = "/tag/object" then tagRoute L .findTransactionsObjByTag req
  else if sub = "/transaction" then
    .api (.findTransactionObjectSingle (mqttTransactionHashReqDeserialize L req))
  else if sub = "/transaction/object" then .api (.findTransactionObjects req)
  else if sub = "/transaction/send" then .api (.sendTransfer req)
  else if sub = "/tryte" then .api (.sendTrytes req)
  else .unknown sub

/-- The result of a request: its status or its JSON text. -/
def executeRoute (req : String) : Route → Prog sig (Except Status String)
  | .api api => command (S := sig) (.execute req api)
  | .invalidTag => pure (.error .httpUrlNotMatch)
  | .unknown sub => pure (.ok (L.print (.object [("message", .string sub)])))

/-- `set_response_content`. -/
def setResponseContent : Except Status String → String
  | .ok jsonResult => jsonResult
  | .error .cclientNotFound | .error .mamNotFound => "\x7b\"message\": \"Request not found\"\x7d"
  | .error .cclientJsonKey | .error .mamNoPayload | .error .httpUrlNotMatch =>
      "\x7b\"message\": \"Invalid request header\"\x7d"
  | .error .serializerMessageOverrun =>
      "\x7b\"message\": \"In body 'message', requested message is too long.\"\x7d"
  | .error _ => "\x7b\"message\": \"Internal service error\"\x7d"

/-- The topic of a response, as `snprintf` writes it. -/
def resTopic (topic deviceId : String) : String :=
  strncpy (topic ++ "/" ++ deviceId) (topic.length + 1 + idLen)

/-- `gossip_channel_set` with a topic to publish to. -/
def gossipChannelSet (cfg : MosqConfig) (pubTopic : String) : Except Status MosqConfig :=
  if L.validTopic pubTopic then .ok { cfg with pubTopic := some pubTopic }
  else .error .mqttTopicSet

/-- `gossip_message_set`. -/
def gossipMessageSet (cfg : MosqConfig) (message : String) : MosqConfig :=
  { cfg with pubMessage := some message }

/-- `mqtt_request_handler`: the configuration afterwards, and the status. -/
def mqttRequestHandler (cfg : MosqConfig) (topic : String) (req : Option String) :
    Prog sig (MosqConfig × Except Status Unit) :=
  match req with
  | none => pure (cfg, .error .null)
  | some req =>
      match mqttDeviceIdDeserialize L req with
      | .error e => pure (cfg, .error e)
      | .ok deviceId => do
          let ret ← executeRoute L req (route L root topic req)
          match gossipChannelSet L cfg (resTopic topic deviceId) with
          | .error e => pure (cfg, .error e)
          | .ok cfg' => pure (gossipMessageSet cfg' (setResponseContent ret), .ok ())

/-! ## A round -/

/-- `connect_callback_pub_func`.  Without a topic `mosquitto` refuses to publish. -/
def connectCallbackPubFunc (cfg : MosqConfig) : Prog sig Unit :=
  match cfg.pubTopic with
  | none => pure ()
  | some topic => command (S := sig) (.publish topic cfg.pubMessage)

/-- `duplex_client_start`, with the message that is received: the configuration afterwards, and the
status of `mqtt_request_handler`. -/
def duplexClientStart (cfg : MosqConfig) (message : Message) :
    Prog sig (MosqConfig × Except Status Unit) := do
  let cfg ← messageCallbackSubFunc cfg message
  let handled ← mqttRequestHandler L root cfg message.topic cfg.recvMessage
  connectCallbackPubFunc handled.1
  pure handled

end Handling

end TangleAccelerator.Mqtt
