import TangleAccelerator.Mqtt.Duplex

/-!
# Requests and responses of the duplex client

A round should handle the message it received, and publish what it computed for it or nothing.

What carries from round to round is the last text that was copied and the last response that was
set.  Both can be read off the messages (`lastText`, `AnsweredIn`), so whether a round keeps to its
own message is a condition on the messages alone (`Own`):

* a message without a payload has the text of an earlier one handled once more;
* a round that sets no response publishes that of an earlier one;
* a payload is cut at its first null character, and a device ID after `32` characters.

Histories have the newest message first.
-/

namespace TangleAccelerator.Mqtt

open Effect Json

variable {L : Lib} {root : String}

/-! ## What a message says -/

/-- The device ID of a request. -/
def deviceId (L : Lib) (text : String) : Option String :=
  (L.parse text).bind fun json => (json.member "device_id").bind Tree.stringValue

/-- The topic a response goes to, where it can. -/
def responseTopic (topic id : String) : String := resTopic topic (strncpy id (idLen + 1))

theorem mqttDeviceIdDeserialize_of_some {text id : String} (h : deviceId L text = some id) :
    mqttDeviceIdDeserialize L text = .ok (strncpy id (idLen + 1)) := by
  obtain ⟨json, hparse, h⟩ := Option.bind_eq_some_iff.mp h
  obtain ⟨value, hmember, hvalue⟩ := Option.bind_eq_some_iff.mp h
  simp only [mqttDeviceIdDeserialize, taJsonGetString, hparse, hmember, hvalue]

theorem mqttDeviceIdDeserialize_of_none {text : String} (h : deviceId L text = none) :
    ∃ e, mqttDeviceIdDeserialize L text = .error e := by
  cases hparse : L.parse text with
  | none => exact ⟨.serializerJsonParse, by rw [mqttDeviceIdDeserialize, hparse]⟩
  | some json =>
      cases hmember : json.member "device_id" with
      | none =>
          exact ⟨.cclientJsonKey, by
            simp only [mqttDeviceIdDeserialize, taJsonGetString, hparse, hmember]⟩
      | some value =>
          have hvalue : value.stringValue = none := by
            simpa only [deviceId, hparse, hmember, Option.bind_some] using h
          exact ⟨.cclientJsonParse, by
            simp only [mqttDeviceIdDeserialize, taJsonGetString, hparse, hmember, hvalue]⟩

theorem length_append_slash (topic id : String) :
    (topic ++ "/" ++ id).length = topic.length + 1 + id.length := by
  rw [String.length_append, String.length_append]
  rfl

/-- A device ID is complete in the topic up to its limit. -/
theorem responseTopic_eq_iff (topic id : String) :
    responseTopic topic id = topic ++ "/" ++ id ↔ id.length ≤ idLen := by
  constructor
  · intro h
    have hle := length_strncpy_le (topic ++ "/" ++ strncpy id (idLen + 1))
      (topic.length + 1 + idLen)
    have hlen := congrArg String.length h
    rw [length_append_slash] at hlen
    rw [responseTopic, resTopic] at hlen
    omega
  · intro h
    rw [responseTopic, strncpy_of_length_le (Nat.le_succ_of_le h), resTopic]
    apply strncpy_of_length_le
    rw [length_append_slash]
    omega

theorem apiSubTopic_append (root sub : String) : apiSubTopic root (root ++ sub) = sub := by
  rw [apiSubTopic, String.toList_append, ← String.length_toList, List.drop_left,
    String.ofList_toList]

/-! ## What the handler does -/

/-- The text leads to an API. -/
def Executes (L : Lib) (root topic : String) (text : Option String) : Prop :=
  ∃ req id api, text = some req ∧ deviceId L req = some id ∧ route L root topic req = .api api

/-- The text leads to a response. -/
def Answers (L : Lib) (topic : String) (text : Option String) : Prop :=
  ∃ req id, text = some req ∧ deviceId L req = some id ∧
    L.validTopic (responseTopic topic id) = true

/-- The outcomes of `mqtt_request_handler`. -/
inductive Handled (L : Lib) (root topic : String) (text : Option String) (cfg : MosqConfig) :
    List (Event sig) → MosqConfig × Except Status Unit → Prop
  | unread {e : Status} (h : ∀ req, text = some req → deviceId L req = none) :
      Handled L root topic text cfg [] (cfg, .error e)
  | refused {req id : String} {τ : List (Event sig)} {ret : Except Status String} {e : Status}
      (hreq : text = some req) (hid : deviceId L req = some id)
      (hτ : Path (executeRoute L req (route L root topic req)) τ ret)
      (hv : L.validTopic (responseTopic topic id) = false) :
      Handled L root topic text cfg τ (cfg, .error e)
  | answered {req id : String} {τ : List (Event sig)} {ret : Except Status String}
      (hreq : text = some req) (hid : deviceId L req = some id)
      (hτ : Path (executeRoute L req (route L root topic req)) τ ret)
      (hv : L.validTopic (responseTopic topic id) = true) :
      Handled L root topic text cfg τ
        ({ cfg with pubTopic := some (responseTopic topic id)
                    pubMessage := some (setResponseContent ret) }, .ok ())

theorem handled_of_path {cfg : MosqConfig} {topic : String} {text : Option String}
    {τ : List (Event sig)} {out : MosqConfig × Except Status Unit}
    (h : Path (mqttRequestHandler L root cfg topic text) τ out) :
    Handled L root topic text cfg τ out := by
  cases text with
  | none =>
      obtain ⟨rfl, rfl⟩ := h
      exact .unread (by intro req h; cases h)
  | some req =>
      simp only [mqttRequestHandler] at h
      cases hid : deviceId L req with
      | none =>
          obtain ⟨e, he⟩ := mqttDeviceIdDeserialize_of_none hid
          rw [he] at h
          obtain ⟨rfl, rfl⟩ := h
          exact .unread (by intro req' h; cases h; exact hid)
      | some id =>
          rw [mqttDeviceIdDeserialize_of_some hid] at h
          obtain ⟨ret, τ₁, τ₂, rfl, hτ, hset⟩ := (path_bind _ _ _ _).mp h
          rw [gossipChannelSet] at hset
          cases hv : L.validTopic (resTopic topic (strncpy id (idLen + 1))) with
          | false =>
              rw [hv] at hset
              obtain ⟨rfl, rfl⟩ := hset
              rw [List.append_nil]
              exact .refused rfl hid hτ hv
          | true =>
              rw [hv] at hset
              obtain ⟨rfl, rfl⟩ := hset
              rw [List.append_nil]
              exact .answered rfl hid hτ hv

/-- A request executes the API it is routed to, once, and nothing else. -/
theorem path_executeRoute {req : String} {ret : Except Status String} {τ : List (Event sig)} :
    ∀ {r : Route}, Path (executeRoute L req r) τ ret →
      (∃ api, r = .api api ∧ τ = [⟨.execute req api, ret⟩]) ∨ (∀ api, r ≠ .api api) ∧ τ = []
  | .api api, h => .inl ⟨api, rfl, (path_command (S := sig) _ _ _).mp h⟩
  | .invalidTag, h => .inr ⟨(by intro api h; cases h), h.1⟩
  | .unknown _, h => .inr ⟨(by intro api h; cases h), h.1⟩

/-! ## Rounds -/

/-- The text that is handled in the last round of a history. -/
def lastText : List Message → Option String
  | [] => none
  | m :: hist => (textOf m).or (lastText hist)

/-- A round of a history has set a response. -/
def AnsweredIn (L : Lib) : List Message → Prop
  | [] => False
  | m :: hist => Answers L m.topic (lastText (m :: hist)) ∨ AnsweredIn L hist

/-- A configuration after a history.  The flags of the subscription are never set. -/
structure After (L : Lib) (hist : List Message) (cfg : MosqConfig) : Prop where
  noRetain : cfg.noRetain = false
  retainedOnly : cfg.retainedOnly = false
  removeRetained : cfg.removeRetained = false
  recvMessage : cfg.recvMessage = lastText hist
  pubTopic : cfg.pubTopic.isSome = true ↔ AnsweredIn L hist

theorem after_nil : After L [] {} :=
  ⟨rfl, rfl, rfl, rfl, by simp [AnsweredIn]⟩

/-- What `connect_callback_pub_func` publishes. -/
def published (cfg : MosqConfig) : List (Event sig) :=
  match cfg.pubTopic with
  | none => []
  | some topic => [⟨.publish topic cfg.pubMessage, ()⟩]

theorem path_connectCallbackPubFunc {cfg : MosqConfig} {τ : List (Event sig)} {u : Unit}
    (h : Path (connectCallbackPubFunc cfg) τ u) : τ = published cfg := by
  unfold connectCallbackPubFunc at h
  unfold published
  cases htopic : cfg.pubTopic with
  | none =>
      rw [htopic] at h
      exact h.1
  | some topic =>
      rw [htopic] at h
      exact (path_command (S := sig) _ _ _).mp h

variable {hist : List Message} {cfg cfg' : MosqConfig} {m : Message} {τ : List (Event sig)}
  {status : Except Status Unit}

theorem recvMessage_dumpMessage (h : After L hist cfg) :
    (dumpMessage cfg m).recvMessage = lastText (m :: hist) := by
  rw [dumpMessage, lastText]
  cases textOf m with
  | none => exact h.recvMessage
  | some text => rfl

theorem dumpMessage_pubTopic (cfg : MosqConfig) (m : Message) :
    (dumpMessage cfg m).pubTopic = cfg.pubTopic := by
  rw [dumpMessage]
  cases textOf m <;> rfl

/-- A round copies the message, handles the text that is then there, and publishes the response that
is then set. -/
theorem handled_of_round (h : After L hist cfg)
    (hp : Path (duplexClientStart L root cfg m) τ (cfg', status)) :
    ∃ τ₁, τ = τ₁ ++ published cfg' ∧
      Handled L root m.topic (lastText (m :: hist)) (dumpMessage cfg m) τ₁ (cfg', status) := by
  obtain ⟨cfg₁, τ₁, τ₂, rfl, hcopy, hp₂⟩ := (path_bind _ _ _ _).mp hp
  obtain ⟨out, τ₃, τ₄, rfl, hhandle, hp₄⟩ := (path_bind _ _ _ _).mp hp₂
  obtain ⟨u, τ₅, τ₆, rfl, hpublish, rfl, hout⟩ := (path_bind _ _ _ _).mp hp₄
  have hcopy' : τ₁ = [] ∧ cfg₁ = dumpMessage cfg m := by
    simpa [messageCallbackSubFunc, h.noRetain, h.retainedOnly, h.removeRetained] using hcopy
  obtain ⟨rfl, rfl⟩ := hcopy'
  subst hout
  refine ⟨τ₃, ?_, ?_⟩
  · rw [path_connectCallbackPubFunc hpublish, List.append_nil, List.nil_append]
  · rw [← recvMessage_dumpMessage h]
    exact handled_of_path hhandle

theorem not_answers_of_unread {topic : String} {text : Option String}
    (h : ∀ req, text = some req → deviceId L req = none) : ¬Answers L topic text := by
  rintro ⟨req, id, hreq, hid, -⟩
  rw [h req hreq] at hid
  cases hid

theorem not_executes_of_unread {topic : String} {text : Option String}
    (h : ∀ req, text = some req → deviceId L req = none) : ¬Executes L root topic text := by
  rintro ⟨req, id, api, hreq, hid, -⟩
  rw [h req hreq] at hid
  cases hid

theorem not_answers_of_refused {topic req id : String} (hid : deviceId L req = some id)
    (hv : L.validTopic (responseTopic topic id) = false) : ¬Answers L topic (some req) := by
  rintro ⟨req', id', hreq, hid', hv'⟩
  cases hreq
  rw [hid] at hid'
  cases hid'
  rw [hv] at hv'
  cases hv'

/-- A rejected text leaves the configuration as it is, and an accepted one sets a response. -/
theorem Handled.answers_iff {topic : String} {text : Option String}
    (h : Handled L root topic text cfg τ (cfg', status)) :
    (Answers L topic text ∧ status = .ok () ∧ cfg'.pubTopic.isSome = true) ∨
      (¬Answers L topic text ∧ (∃ e, status = .error e) ∧ cfg' = cfg) := by
  cases h with
  | unread h => exact .inr ⟨not_answers_of_unread h, ⟨_, rfl⟩, rfl⟩
  | refused hreq hid _ hv =>
      subst hreq
      exact .inr ⟨not_answers_of_refused hid hv, ⟨_, rfl⟩, rfl⟩
  | answered hreq hid _ hv => exact .inl ⟨⟨_, _, hreq, hid, hv⟩, rfl, rfl⟩

/-- The response to a text that is accepted. -/
theorem Handled.response {topic : String} {text : Option String}
    (h : Handled L root topic text cfg τ (cfg', status)) (hans : Answers L topic text) :
    ∃ req id ret, text = some req ∧ deviceId L req = some id ∧
      L.validTopic (responseTopic topic id) = true ∧
      Path (executeRoute L req (route L root topic req)) τ ret ∧
      cfg'.pubTopic = some (responseTopic topic id) ∧
      cfg'.pubMessage = some (setResponseContent ret) := by
  cases h with
  | unread h => exact absurd hans (not_answers_of_unread h)
  | refused hreq hid _ hv =>
      subst hreq
      exact absurd hans (not_answers_of_refused hid hv)
  | answered hreq hid hτ hv => exact ⟨_, _, _, hreq, hid, hv, hτ, rfl, rfl⟩

theorem Handled.flags {topic : String} {text : Option String}
    (h : Handled L root topic text cfg τ (cfg', status)) :
    cfg'.noRetain = cfg.noRetain ∧ cfg'.retainedOnly = cfg.retainedOnly ∧
      cfg'.removeRetained = cfg.removeRetained ∧ cfg'.recvMessage = cfg.recvMessage := by
  cases h <;> exact ⟨rfl, rfl, rfl, rfl⟩

theorem After.dumpMessage (h : After L hist cfg) (m : Message) :
    (dumpMessage cfg m).noRetain = false ∧ (Mqtt.dumpMessage cfg m).retainedOnly = false ∧
      (Mqtt.dumpMessage cfg m).removeRetained = false := by
  rw [Mqtt.dumpMessage]
  cases textOf m <;> exact ⟨h.noRetain, h.retainedOnly, h.removeRetained⟩

theorem After.next (h : After L hist cfg)
    (hh : Handled L root m.topic (lastText (m :: hist)) (Mqtt.dumpMessage cfg m) τ (cfg', status)) :
    After L (m :: hist) cfg' := by
  obtain ⟨hno, honly, hremove, hrecv⟩ := hh.flags
  obtain ⟨hno', honly', hremove'⟩ := h.dumpMessage m
  refine ⟨hno.trans hno', honly.trans honly', hremove.trans hremove',
    hrecv.trans (recvMessage_dumpMessage h), ?_⟩
  rw [AnsweredIn]
  rcases hh.answers_iff with ⟨hans, -, hsome⟩ | ⟨hans, -, rfl⟩
  · exact ⟨fun _ => .inl hans, fun _ => hsome⟩
  · rw [dumpMessage_pubTopic, h.pubTopic]
    exact ⟨.inr, fun h => h.resolve_left hans⟩

/-! ## Pairing -/

/-- A round: its message, the commands it issued, and the status of the handler. -/
structure Round where
  message : Message
  trace : List (Event sig)
  status : Except Status Unit

/-- An API is executed. -/
def executes (e : Event sig) : Bool :=
  match e.cmd with
  | .execute .. => true
  | _ => false

/-- A round executes the payload of its message, once, and publishes the response to its message or
nothing. -/
structure Paired (L : Lib) (root : String) (r : Round) : Prop where
  executed : ∀ req api ans, ⟨.execute req api, ans⟩ ∈ r.trace → r.message.payload = some req
  once : (r.trace.filter executes).length ≤ 1
  published : ∀ topic message ans, ⟨.publish topic message, ans⟩ ∈ r.trace →
    ∃ req id ret τ, textOf r.message = some req ∧ deviceId L req = some id ∧
      Path (executeRoute L req (route L root r.message.topic req)) τ ret ∧
      r.trace = τ ++ [⟨.publish topic message, ()⟩] ∧
      topic = r.message.topic ++ "/" ++ id ∧ message = some (setResponseContent ret)
  rejected : ∀ e, r.status = .error e → ∀ topic message ans,
    ⟨.publish topic message, ans⟩ ∉ r.trace

/-- The text that is handled is that of the message where it leads to anything, and what is rejected
comes before everything that is answered. -/
structure Own (L : Lib) (root : String) (m : Message) (hist : List Message) : Prop where
  executed : Executes L root m.topic (lastText (m :: hist)) → m.payload = lastText (m :: hist)
  answered : ∀ req id, lastText (m :: hist) = some req → deviceId L req = some id →
    L.validTopic (responseTopic m.topic id) = true → textOf m = some req ∧ id.length ≤ idLen
  rejected : ¬Answers L m.topic (lastText (m :: hist)) → ¬AnsweredIn L hist

theorem trace_of_path_executeRoute {topic req : String} {ret : Except Status String}
    (hτ : Path (executeRoute L req (route L root topic req)) τ ret) :
    (∃ api, route L root topic req = .api api ∧ τ = [⟨.execute req api, ret⟩]) ∨
      (¬Executes L root topic (some req) ∧ τ = []) := by
  rcases path_executeRoute hτ with ⟨api, hapi, hτ⟩ | ⟨hapi, hτ⟩
  · exact .inl ⟨api, hapi, hτ⟩
  · refine .inr ⟨?_, hτ⟩
    rintro ⟨req', id', api, hreq', -, hapi'⟩
    cases hreq'
    exact hapi api hapi'

/-- The handler executes the API of a text that leads to one, and issues no other command. -/
theorem Handled.trace {topic : String} {text : Option String}
    {out : MosqConfig × Except Status Unit} (h : Handled L root topic text cfg τ out) :
    (∃ req id api ret, text = some req ∧ deviceId L req = some id ∧
      route L root topic req = .api api ∧ τ = [⟨.execute req api, ret⟩]) ∨
      (¬Executes L root topic text ∧ τ = []) := by
  cases h with
  | unread h => exact .inr ⟨not_executes_of_unread h, rfl⟩
  | refused hreq hid hτ _ | answered hreq hid hτ _ =>
      subst hreq
      rcases trace_of_path_executeRoute hτ with ⟨api, hapi, hτ⟩ | hnone
      · exact .inl ⟨_, _, api, _, rfl, hid, hapi, hτ⟩
      · exact .inr hnone

theorem executes_of_mem_published {e : Event sig} (h : e ∈ published cfg) : executes e = false := by
  unfold published at h
  split at h
  · cases h
  · rw [List.mem_singleton] at h
    rw [h]
    rfl

theorem filter_published (cfg : MosqConfig) : (published cfg).filter executes = [] := by
  rw [List.filter_eq_nil_iff]
  intro e he
  rw [executes_of_mem_published he]
  exact Bool.false_ne_true

theorem publish_mem_published {topic : String} {message : Option String} {ans : Unit} :
    (⟨.publish topic message, ans⟩ : Event sig) ∈ published cfg ↔
      cfg.pubTopic = some topic ∧ cfg.pubMessage = message := by
  unfold published
  cases cfg.pubTopic with
  | none => simp
  | some topic' =>
      rw [List.mem_singleton, Option.some.injEq]
      constructor
      · intro h
        cases h
        exact ⟨rfl, rfl⟩
      · rintro ⟨rfl, rfl⟩
        rfl

section Round

variable {topic : String} {text : Option String} {out : MosqConfig × Except Status Unit}

theorem Handled.publish_mem {message : Option String} {ans : Unit} {t : String}
    (h : Handled L root topic text cfg τ out) :
    (⟨.publish t message, ans⟩ : Event sig) ∈ τ ++ Mqtt.published cfg' ↔
      cfg'.pubTopic = some t ∧ cfg'.pubMessage = message := by
  rw [List.mem_append, publish_mem_published]
  refine or_iff_right ?_
  rcases h.trace with ⟨req, id, api, ret, -, -, -, rfl⟩ | ⟨-, rfl⟩
  · rw [List.mem_singleton]
    intro h
    cases h
  · exact List.not_mem_nil

theorem Handled.once (h : Handled L root topic text cfg τ out) :
    ((τ ++ Mqtt.published cfg').filter executes).length ≤ 1 := by
  rw [List.filter_append, filter_published, List.append_nil]
  rcases h.trace with ⟨req, id, api, ret, -, -, -, rfl⟩ | ⟨-, rfl⟩
  · exact Nat.le_refl 1
  · exact Nat.zero_le 1

theorem Handled.executed_iff (h : Handled L root topic text cfg τ out) (payload : Option String) :
    (∀ req api ans, (⟨.execute req api, ans⟩ : Event sig) ∈ τ ++ Mqtt.published cfg' →
      payload = some req) ↔ (Executes L root topic text → payload = text) := by
  have hnot : ∀ {req api ans}, (⟨.execute req api, ans⟩ : Event sig) ∉ Mqtt.published cfg' := by
    intro req api ans hmem
    cases executes_of_mem_published hmem
  rcases h.trace with ⟨req, id, api, ret, hreq, hid, hapi, rfl⟩ | ⟨hno, rfl⟩
  · rw [hreq]
    constructor
    · intro h _
      exact h req api ret (List.mem_append_left _ (List.mem_singleton_self _))
    · intro h req' api' ans hmem
      have hpayload := h ⟨req, id, api, rfl, hid, hapi⟩
      rcases List.mem_append.mp hmem with hmem | hmem
      · cases List.mem_singleton.mp hmem
        exact hpayload
      · exact absurd hmem hnot
  · constructor
    · intro _ hex
      exact absurd hex hno
    · intro _ req api ans hmem
      exact absurd hmem hnot

end Round

/-- The message of a round that is paired is its own. -/
theorem Paired.own (h : After L hist cfg)
    (hh : Handled L root m.topic (lastText (m :: hist)) (dumpMessage cfg m) τ (cfg', status))
    (hp : Paired L root ⟨m, τ ++ Mqtt.published cfg', status⟩) : Own L root m hist := by
  refine ⟨(hh.executed_iff _).mp hp.executed, ?_, ?_⟩
  · intro req id hreq hid hv
    obtain ⟨req₁, id₁, ret, hreq₁, hid₁, -, -, htopic, -⟩ := hh.response ⟨req, id, hreq, hid, hv⟩
    rw [hreq] at hreq₁
    cases hreq₁
    rw [hid] at hid₁
    cases hid₁
    obtain ⟨req', id', ret', τ', htext, hid', -, -, hresponse, -⟩ :=
      hp.published _ _ () (hh.publish_mem.mpr ⟨htopic, rfl⟩)
    -- a message with a text of its own has that text handled
    have hsame : lastText (m :: hist) = some req' := by
      rw [lastText, htext]
      rfl
    rw [hreq] at hsame
    cases hsame
    rw [hid] at hid'
    cases hid'
    exact ⟨htext, (responseTopic_eq_iff _ _).mp hresponse⟩
  · intro hno hanswered
    rcases hh.answers_iff with ⟨hans, -⟩ | ⟨-, ⟨e, he⟩, rfl⟩
    · exact hno hans
    · obtain ⟨topic, htopic⟩ := Option.isSome_iff_exists.mp (h.pubTopic.mpr hanswered)
      refine hp.rejected e he topic _ () (hh.publish_mem.mpr ⟨?_, rfl⟩)
      rw [dumpMessage_pubTopic, htopic]

/-- A round whose message is its own is paired. -/
theorem Own.paired (h : After L hist cfg)
    (hh : Handled L root m.topic (lastText (m :: hist)) (dumpMessage cfg m) τ (cfg', status))
    (ho : Own L root m hist) : Paired L root ⟨m, τ ++ published cfg', status⟩ := by
  -- a round that sets no response has none of an earlier round to publish
  have hnone : ¬Answers L m.topic (lastText (m :: hist)) →
      (dumpMessage cfg m).pubTopic = none := by
    intro hno
    rw [dumpMessage_pubTopic, ← Option.not_isSome_iff_eq_none]
    exact fun hsome => ho.rejected hno (h.pubTopic.mp hsome)
  refine ⟨(hh.executed_iff _).mpr ho.executed, hh.once, ?_, ?_⟩
  · intro topic message ans hmem
    obtain ⟨htopic, hmessage⟩ := hh.publish_mem.mp hmem
    rcases hh.answers_iff with ⟨hans, -⟩ | ⟨hno, -, rfl⟩
    · obtain ⟨req, id, ret, hreq, hid, hv, hτ, htopic', hmessage'⟩ := hh.response hans
      obtain ⟨htext, hlen⟩ := ho.answered req id hreq hid hv
      rw [htopic'] at htopic
      cases htopic
      rw [hmessage'] at hmessage
      cases hmessage
      refine ⟨req, id, ret, τ, htext, hid, hτ, ?_, (responseTopic_eq_iff _ _).mpr hlen, rfl⟩
      rw [published, htopic', hmessage']
    · rw [hnone hno] at htopic
      cases htopic
  · intro e he topic message ans hmem
    rcases hh.answers_iff with ⟨-, hok, -⟩ | ⟨hno, -, rfl⟩
    · cases he.symm.trans hok
    · have htopic := (hh.publish_mem.mp hmem).1
      rw [hnone hno] at htopic
      cases htopic

/-- A round is paired exactly where its message is its own. -/
theorem paired_iff_own (h : After L hist cfg)
    (hh : Handled L root m.topic (lastText (m :: hist)) (dumpMessage cfg m) τ (cfg', status)) :
    Paired L root ⟨m, τ ++ published cfg', status⟩ ↔ Own L root m hist :=
  ⟨Paired.own h hh, Own.paired h hh⟩

/-! ## Runs -/

/-- The rounds of the client so far, the newest first, and the configuration they lead to. -/
inductive Rounds (L : Lib) (root : String) : List Round → MosqConfig → Prop
  | start : Rounds L root [] {}
  | next {rs : List Round} {cfg cfg' : MosqConfig} {m : Message} {τ : List (Event sig)}
      {status : Except Status Unit} (hr : Rounds L root rs cfg)
      (hp : Path (duplexClientStart L root cfg m) τ (cfg', status)) :
      Rounds L root (⟨m, τ, status⟩ :: rs) cfg'

/-- Every message of a history is its own. -/
def AllOwn (L : Lib) (root : String) : List Message → Prop
  | [] => True
  | m :: hist => Own L root m hist ∧ AllOwn L root hist

theorem after_of_rounds {rs : List Round} (h : Rounds L root rs cfg) :
    After L (rs.map Round.message) cfg := by
  induction h with
  | start => exact after_nil
  | next _ hp ih =>
      obtain ⟨_, -, hh⟩ := handled_of_round ih hp
      exact ih.next hh

/-- The rounds are all paired exactly where the messages are all their own. -/
theorem rounds_paired_iff {rs : List Round} (h : Rounds L root rs cfg) :
    (∀ r ∈ rs, Paired L root r) ↔ AllOwn L root (rs.map Round.message) := by
  induction h with
  | start => exact ⟨fun _ => trivial, fun _ r hr => absurd hr List.not_mem_nil⟩
  | next hr hp ih =>
      obtain ⟨τ₁, rfl, hh⟩ := handled_of_round (after_of_rounds hr) hp
      rw [List.forall_mem_cons, ih, paired_iff_own (after_of_rounds hr) hh]
      rfl

theorem path_round_of_answers {req id : String} {ret : Except Status String}
    (h : After L hist cfg) (hreq : lastText (m :: hist) = some req) (hid : deviceId L req = some id)
    (hτ : Path (executeRoute L req (route L root m.topic req)) τ ret)
    (hv : L.validTopic (responseTopic m.topic id) = true) :
    Path (duplexClientStart L root cfg m)
      (τ ++ [⟨.publish (responseTopic m.topic id) (some (setResponseContent ret)), ()⟩])
      ({ dumpMessage cfg m with
          pubTopic := some (responseTopic m.topic id)
          pubMessage := some (setResponseContent ret) }, .ok ()) := by
  have hcopy : Path (messageCallbackSubFunc cfg m) [] (dumpMessage cfg m) := by
    simp [messageCallbackSubFunc, h.noRetain, h.retainedOnly, h.removeRetained]
  refine (path_bind _ _ _ _).mpr ⟨_, [], _, rfl, hcopy, ?_⟩
  refine (path_bind _ _ _ _).mpr ⟨(_, _), τ, _, rfl, ?_,
    (path_bind _ _ _ _).mpr ⟨(), [_], [], rfl, ?_, rfl, rfl⟩⟩
  swap
  · exact (path_command (S := sig) _ _ _).mpr rfl
  rw [recvMessage_dumpMessage h, hreq, mqttRequestHandler, mqttDeviceIdDeserialize_of_some hid]
  refine (path_bind _ _ _ _).mpr ⟨ret, τ, [], (List.append_nil τ).symm, hτ, ?_⟩
  rw [responseTopic] at hv
  rw [gossipChannelSet, hv]
  exact ⟨rfl, rfl⟩

/-- A request of a device. -/
def sampleRequest : String := "\x7b\"device_id\":\"1\"\x7d"

/-- A library that can read the request. -/
def sampleLib : Lib where
  parse text := if text = sampleRequest then some (.object [("device_id", .string "1")]) else none
  print _ := ""
  validTopic _ := true

def sampleTopic : String := "root/topics" ++ "/transaction/send"

/-- The request as a message. -/
def sampleMessage : Message := ⟨sampleTopic, some sampleRequest, false⟩

theorem textOf_sampleMessage : textOf sampleMessage = some sampleRequest := by
  simp [textOf, sampleMessage, sampleRequest, strdup]

theorem deviceId_sampleRequest : deviceId sampleLib sampleRequest = some "1" := by
  simp [deviceId, sampleLib, Tree.member, Tree.stringValue]

theorem route_sampleRequest : route sampleLib "root/topics" sampleTopic sampleRequest =
    .api (.sendTransfer sampleRequest) := by
  rw [route, sampleTopic, apiSubTopic_append]
  simp

/-- The request is executed and its response is published. -/
def sampleTrace : List (Event sig) :=
  [⟨.execute sampleRequest (.sendTransfer sampleRequest), .ok "result"⟩,
    ⟨.publish (responseTopic sampleTopic "1") (some "result"), ()⟩]

theorem rounds_sampleTrace {rs : List Round} {payload : Option String} {retain : Bool}
    (h : Rounds sampleLib "root/topics" rs cfg)
    (htext : lastText (⟨sampleTopic, payload, retain⟩ :: rs.map Round.message) =
      some sampleRequest) :
    ∃ cfg', Rounds sampleLib "root/topics"
      (⟨⟨sampleTopic, payload, retain⟩, sampleTrace, .ok ()⟩ :: rs) cfg' := by
  have hexec : Path (executeRoute sampleLib sampleRequest
      (route sampleLib "root/topics" sampleTopic sampleRequest))
      [⟨.execute sampleRequest (.sendTransfer sampleRequest), .ok "result"⟩] (.ok "result") := by
    rw [route_sampleRequest]
    exact (path_command (S := sig) _ _ _).mpr rfl
  exact ⟨_, .next h
    (path_round_of_answers (after_of_rounds h) htext deviceId_sampleRequest hexec rfl)⟩

theorem lastText_sampleMessage (hist : List Message) :
    lastText (sampleMessage :: hist) = some sampleRequest := by
  rw [lastText, textOf_sampleMessage, Option.some_or]

theorem own_sampleMessage : Own sampleLib "root/topics" sampleMessage [] := by
  refine ⟨fun _ => (lastText_sampleMessage []).symm, ?_, fun _ => id⟩
  intro req id hreq hid _
  rw [lastText_sampleMessage] at hreq
  cases hreq
  rw [deviceId_sampleRequest] at hid
  cases hid
  exact ⟨textOf_sampleMessage, by decide⟩

/-- One request is executed and answered. -/
theorem rounds_paired_one :
    (∃ cfg, Rounds sampleLib "root/topics" [⟨sampleMessage, sampleTrace, .ok ()⟩] cfg) ∧
      ∀ r ∈ [(⟨sampleMessage, sampleTrace, .ok ()⟩ : Round)], Paired sampleLib "root/topics" r := by
  obtain ⟨cfg, h⟩ := rounds_sampleTrace .start (lastText_sampleMessage [])
  exact ⟨⟨cfg, h⟩, (rounds_paired_iff h).mpr ⟨own_sampleMessage, trivial⟩⟩

/-- A message with an empty payload has the request before it executed once more, and its response
published once more. -/
theorem rounds_executed_twice :
    (∃ cfg, Rounds sampleLib "root/topics" [⟨⟨sampleTopic, some "", false⟩, sampleTrace, .ok ()⟩,
      ⟨sampleMessage, sampleTrace, .ok ()⟩] cfg) ∧
      ¬Paired sampleLib "root/topics" ⟨⟨sampleTopic, some "", false⟩, sampleTrace, .ok ()⟩ := by
  constructor
  · obtain ⟨cfg, h⟩ := rounds_sampleTrace .start (lastText_sampleMessage [])
    exact rounds_sampleTrace h (lastText_sampleMessage [])
  · intro h
    have hpayload := h.executed _ _ _ List.mem_cons_self
    simp [sampleRequest] at hpayload

end TangleAccelerator.Mqtt
