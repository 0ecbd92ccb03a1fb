import TangleAccelerator.Bytes.Memory

/-!
# The OBD monitor

`obd_query` and `obd_message` of `monitor.c`: a query is sent, and its response is put together from
the CAN frames it comes in.

`obd_message` handles one frame and calls itself for the next one.  One level of that is `obdLevel`.
The number of bytes so far is a `static` variable.  It is zero when the process starts and nothing
sets it back, so a second message is put behind the end of the first one.  And the call is complete
where that number is the declared length, so a message whose last frame is not full has its padding
written behind the buffer.

Frames arrive in order.  Nothing is returned where a write leaves a buffer.  A call that waits for a
frame that does not come is blocked.
-/

namespace TangleAccelerator.Obd

open Bytes

/-! ## Frames -/

/-- `struct can_frame`. -/
structure CanFrame where
  canId : UInt32
  canDlc : UInt8
  data : Vector UInt8 8
deriving DecidableEq

/-- `OBD_BROADCAST_ID`. -/
def obdBroadcastId : UInt32 := 0x7DF

/-- `OBD_FIRST_ECU_RESPONSE`. -/
def obdFirstEcuResponse : UInt32 := 0x7E8

/-- `OBD_REQUEST_RESPONSE_OFFSET`. -/
def obdRequestResponseOffset : UInt32 := 8

/-- A frame of eight bytes, zero where none is given. -/
def frameOf (canId : UInt32) (bytes : List UInt8) : CanFrame := ⟨canId, 8, block 0 8 bytes⟩

/-- `OBD_data_t`.  Before a call its pointer is `NULL`. -/
structure ObdData where
  data : Memory
  dataLen : Nat
deriving DecidableEq

/-- An `OBD_data_t` of zeros. -/
def ObdData.null : ObdData := ⟨[], 0⟩

/-! ## The functions -/

/-- `check_message_type`: `SINGLE`, `FIRST`, `CONSECUTIVE` and `FLOW` are `0` to `3`. -/
def checkMessageType (frame : CanFrame) : Nat := (frame.data[0] >>> 4).toNat

/-- The frame `obd_query` sends. -/
def queryFrame (canId : UInt32) (service pid : UInt8) : CanFrame := frameOf canId [2, service, pid]

/-- The flow control frame for a first frame. -/
def flowControlFrame (frame : CanFrame) : CanFrame :=
  frameOf (frame.canId - obdRequestResponseOffset) [(3 : UInt8) <<< 4]

/-- What one level of `obd_message` leaves: `append_data`, the data, the frame it sends, and whether
it returns. -/
structure Level where
  appendData : Nat
  obdData : ObdData
  flow : Option CanFrame
  done : Bool
deriving DecidableEq

/-- The check that a message is complete. -/
def checkComplete (appendData : Nat) (obdData : ObdData) (flow : Option CanFrame) : Level :=
  ⟨appendData, obdData, flow, obdData.dataLen == appendData⟩

/-- The declared length in a first frame. -/
def declaredSize (frame : CanFrame) : Nat :=
  ((frame.data[0] &&& 0x0F).toNat <<< 8) ||| frame.data[1].toNat

/-- `obd_message`, up to the frame that it receives at the end. -/
def obdLevel (appendData : Nat) (frame : CanFrame) (obdData : ObdData) : Option Level :=
  match checkMessageType frame with
  | 0 => some ⟨appendData, ⟨frame.data.toList.map some, 8⟩, none, true⟩
  | 1 => do
      let size := declaredSize frame
      let buffer ← store (zeroed size) 0 (frame.data.toList.drop 2)
      pure (checkComplete (appendData + 6) ⟨buffer, size⟩ (some (flowControlFrame frame)))
  | 2 => do
      let data ← store obdData.data appendData (frame.data.toList.drop 1)
      pure (checkComplete (appendData + 7) { obdData with data := data } none)
  | _ => some (checkComplete appendData obdData none)

/-- What becomes of a call. -/
inductive Result where
  /-- A write leaves its buffer. -/
  | undefined
  /-- The call waits for a frame. -/
  | blocked
  /-- `append_data`, the data, the frames that were sent, and the frames that are left. -/
  | returned (appendData : Nat) (obdData : ObdData) (sent rest : List CanFrame)
deriving DecidableEq

/-- A result, with frames that were sent before. -/
def Result.after (sent : List CanFrame) : Result → Result
  | returned appendData obdData sent' rest => returned appendData obdData (sent ++ sent') rest
  | result => result

/-- `obd_message`, with the frames that arrive. -/
def obdMessage (appendData : Nat) (frame : CanFrame) (obdData : ObdData)
    (incoming : List CanFrame) : Result :=
  match obdLevel appendData frame obdData with
  | none => .undefined
  | some level =>
      if level.done then .returned level.appendData level.obdData level.flow.toList incoming
      else
        match incoming with
        | [] => .blocked
        | next :: incoming =>
            (obdMessage level.appendData next level.obdData incoming).after level.flow.toList

/-- One query of `get_obd_datasets`: `obd_query` receives a frame and `obd_message` the others. -/
def receive (appendData : Nat) : List CanFrame → Result
  | [] => .blocked
  | frame :: incoming => obdMessage appendData frame .null incoming

/-! ## Messages -/

/-- A message of several frames.  The bytes after the payload in the last frame are any. -/
structure Message where
  canId : UInt32
  payload : List UInt8
  padding : List UInt8
  le_length : 8 ≤ payload.length
  length_le : payload.length ≤ 4095

namespace Message

variable (m : Message)

/-- The number of consecutive frames, `⌈(L - 6) / 7⌉`. -/
def count : Nat := (m.payload.length - 6 + 6) / 7

/-- The first frame: the type, the length and six bytes. -/
def first : CanFrame :=
  frameOf m.canId (UInt8.ofNat (0x10 + m.payload.length / 256) ::
    UInt8.ofNat (m.payload.length % 256) :: m.payload.take 6)

/-- A consecutive frame: the type with a sequence number, and seven bytes. -/
def nth (i : Nat) (bytes : Vector UInt8 7) : CanFrame :=
  frameOf m.canId (UInt8.ofNat (0x20 + (i + 1) % 16) :: bytes.toList)

/-- The bytes of the consecutive frames. -/
def bodies : List (Vector UInt8 7) := blocks 0 7 m.count (m.payload.drop 6 ++ m.padding)

/-- The consecutive frames with numbers from a given one on. -/
def consecutive : Nat → List (Vector UInt8 7) → List CanFrame
  | _, [] => []
  | i, bytes :: bodies => m.nth i bytes :: consecutive (i + 1) bodies

/-- The frames of a message. -/
def frames : List CanFrame := m.first :: m.consecutive 0 m.bodies

end Message

/-- The frames of messages, one after the other. -/
def framesOf (ms : List Message) : List CanFrame := ms.flatMap Message.frames

/-- Every call takes the frames of its message, and leaves its payload. -/
def Received (appendData : Nat) : List Message → Prop
  | [] => True
  | m :: ms => ∃ appendData' sent,
      receive appendData (m.frames ++ framesOf ms) = .returned appendData'
        ⟨m.payload.map some, m.payload.length⟩ sent (framesOf ms) ∧ Received appendData' ms

/-! ## What is in a frame -/

theorem toList_frameOf (canId : UInt32) {bytes : List UInt8} (h : bytes.length = 8) :
    (frameOf canId bytes).data.toList = bytes := by
  rw [frameOf, toList_block, h, Nat.sub_self, List.replicate_zero, List.append_nil,
    List.take_of_length_le h.le]

theorem frameOf_get_zero (canId : UInt32) (b : UInt8) (bytes : List UInt8) :
    (frameOf canId (b :: bytes)).data[0] = b := by
  simp [frameOf, block]

theorem frameOf_get_one (canId : UInt32) (b b' : UInt8) (bytes : List UInt8) :
    (frameOf canId (b :: b' :: bytes)).data[1] = b' := by
  simp [frameOf, block]

/-- The type and the number in the first byte of a frame. -/
theorem nibbles {q : Nat} (h : q < 16) :
    (UInt8.ofNat (0x10 + q) >>> 4).toNat = 1 ∧ (UInt8.ofNat (0x20 + q) >>> 4).toNat = 2 ∧
      (UInt8.ofNat (0x10 + q) &&& 0x0F).toNat = q := by
  interval_cases q <;> decide

namespace Message

variable (m : Message) (i : Nat) (bytes : Vector UInt8 7)

theorem high_lt : m.payload.length / 256 < 16 := by
  have h := m.length_le
  omega

theorem checkMessageType_first : checkMessageType m.first = 1 := by
  rw [checkMessageType, first, frameOf_get_zero]
  exact (nibbles m.high_lt).1

theorem declaredSize_first : declaredSize m.first = m.payload.length := by
  rw [declaredSize, first, frameOf_get_zero, frameOf_get_one, (nibbles m.high_lt).2.2,
    UInt8.toNat_ofNat_of_lt' (Nat.mod_lt _ (by decide)),
    ← Nat.shiftLeft_add_eq_or_of_lt (show m.payload.length % 256 < 2 ^ 8 from
      Nat.mod_lt _ (by decide)), Nat.shiftLeft_eq]
  omega

theorem toList_first : m.first.data.toList.drop 2 = m.payload.take 6 := by
  have h := m.le_length
  rw [first, toList_frameOf]
  · rfl
  · simp only [List.length_cons, List.length_take]
    omega

theorem checkMessageType_nth : checkMessageType (m.nth i bytes) = 2 := by
  rw [checkMessageType, nth, frameOf_get_zero]
  exact (nibbles (Nat.mod_lt (i + 1) (by decide))).2.1

theorem toList_nth : (m.nth i bytes).data.toList.drop 1 = bytes.toList := by
  rw [nth, toList_frameOf]
  · rfl
  · rw [List.length_cons, Vector.length_toList]

end Message

/-! ## The levels -/

section Levels

variable {m : Message} {appendData i : Nat} {bytes : Vector UInt8 7} {obdData : ObdData}

theorem obdLevel_first (m : Message) (appendData : Nat) (obdData : ObdData) :
    ∃ buffer, obdLevel appendData m.first obdData = some (checkComplete (appendData + 6)
        ⟨buffer, m.payload.length⟩ (some (flowControlFrame m.first))) ∧
      buffer.length = m.payload.length ∧ Holds buffer (m.payload.take 6) := by
  have hle := m.le_length
  obtain ⟨buffer, hstore, hlength, hholds⟩ :=
    holds_store (holds_nil (zeroed m.payload.length)) (m.payload.take 6) (by
      rw [List.length_nil, Nat.zero_add, length_zeroed]
      exact List.length_take_le' _ _)
  refine ⟨buffer, ?_, hlength.trans (length_zeroed _), hholds⟩
  rw [List.length_nil] at hstore
  simp only [obdLevel, m.checkMessageType_first, m.declaredSize_first, m.toList_first, hstore,
    Option.bind_eq_bind, Option.bind_some, Option.pure_def]

theorem obdLevel_nth : obdLevel appendData (m.nth i bytes) obdData =
    (store obdData.data appendData bytes.toList).map fun data =>
      checkComplete (appendData + 7) { obdData with data := data } none := by
  simp only [obdLevel, m.checkMessageType_nth, m.toList_nth]
  cases store obdData.data appendData bytes.toList with
  | none => rfl
  | some data => rfl

theorem of_obdLevel_nth {level : Level}
    (h : obdLevel appendData (m.nth i bytes) obdData = some level) :
    level.appendData = appendData + 7 ∧ level.obdData.dataLen = obdData.dataLen ∧
      (level.done = true ↔ obdData.dataLen = appendData + 7) := by
  rw [obdLevel_nth] at h
  obtain ⟨data, -, rfl⟩ := Option.map_eq_some_iff.mp h
  exact ⟨rfl, rfl, beq_iff_eq⟩

end Levels

/-! ## Whole messages -/

section Messages

variable {appendData : Nat} {frame : CanFrame} {obdData : ObdData} {incoming : List CanFrame}
  {level : Level}

theorem obdMessage_done (h : obdLevel appendData frame obdData = some level)
    (hdone : level.done = true) : obdMessage appendData frame obdData incoming =
      .returned level.appendData level.obdData level.flow.toList incoming := by
  unfold obdMessage
  simp only [h, hdone, if_true]

theorem obdMessage_next (h : obdLevel appendData frame obdData = some level)
    (hdone : level.done = false) (next : CanFrame) :
    obdMessage appendData frame obdData (next :: incoming) =
      (obdMessage level.appendData next level.obdData incoming).after level.flow.toList := by
  rw [obdMessage]
  simp only [h, hdone, Bool.false_eq_true, if_false]

theorem Result.of_after {sent sent' rest : List CanFrame} {result : Result}
    (h : result.after sent = .returned appendData obdData sent' rest) :
    ∃ sent'', sent' = sent ++ sent'' ∧ result = .returned appendData obdData sent'' rest := by
  cases result with
  | undefined => cases h
  | blocked => cases h
  | returned a o s r =>
      cases h
      exact ⟨s, rfl, rfl⟩

/-- A call that returns does so at this frame or after another one. -/
theorem of_obdMessage {appendData' : Nat} {obdData' : ObdData} {sent rest : List CanFrame}
    (h : obdMessage appendData frame obdData incoming = .returned appendData' obdData' sent rest) :
    ∃ level, obdLevel appendData frame obdData = some level ∧
      (level = ⟨appendData', obdData', level.flow, true⟩ ∧ sent = level.flow.toList ∧
          rest = incoming ∨
        level.done = false ∧ ∃ next incoming' sent', incoming = next :: incoming' ∧
          sent = level.flow.toList ++ sent' ∧
          obdMessage level.appendData next level.obdData incoming' =
            .returned appendData' obdData' sent' rest) := by
  cases hlevel : obdLevel appendData frame obdData with
  | none =>
      rw [obdMessage.eq_def, hlevel] at h
      cases h
  | some level =>
      refine ⟨level, rfl, ?_⟩
      cases hdone : level.done with
      | true =>
          rw [obdMessage_done hlevel hdone] at h
          cases h
          rw [← hdone]
          exact Or.inl ⟨rfl, rfl, rfl⟩
      | false =>
          cases incoming with
          | nil =>
              rw [obdMessage.eq_def, hlevel] at h
              simp [hdone] at h
          | cons next incoming =>
              rw [obdMessage_next hlevel hdone] at h
              obtain ⟨sent', hsent, h'⟩ := Result.of_after h
              exact Or.inr ⟨rfl, next, incoming, sent', rfl, hsent, h'⟩

/-- A call that returns takes no frame twice. -/
theorem length_rest_le : ∀ {incoming : List CanFrame} {appendData appendData' : Nat}
    {frame : CanFrame} {obdData obdData' : ObdData} {sent rest : List CanFrame},
    obdMessage appendData frame obdData incoming = .returned appendData' obdData' sent rest →
      rest.length ≤ incoming.length := by
  intro incoming
  induction incoming with
  | nil =>
      intro appendData appendData' frame obdData obdData' sent rest h
      obtain ⟨level, -, ⟨-, -, rfl⟩ | ⟨-, next, incoming', sent', hnext, -⟩⟩ := of_obdMessage h
      · exact le_rfl
      · cases hnext
  | cons next incoming ih =>
      intro appendData appendData' frame obdData obdData' sent rest h
      obtain ⟨level, -, ⟨-, -, rfl⟩ | ⟨-, next', incoming', sent', hnext, -, h'⟩⟩ :=
        of_obdMessage h
      · exact le_rfl
      · cases hnext
        exact (ih h').trans (Nat.le_succ _)

/-- The consecutive frames that fill a buffer. -/
theorem obdMessage_fills {m : Message} {size : Nat} (rest : List CanFrame) :
    ∀ (bodies : List (Vector UInt8 7)) {bytes : Vector UInt8 7} {i : Nat} {xs : List UInt8}
      {data : Memory}, data.length = size → Holds data xs →
      xs.length + 7 * (bodies.length + 1) = size →
      ∃ data', obdMessage xs.length (m.nth i bytes) ⟨data, size⟩
          (m.consecutive (i + 1) bodies ++ rest) = .returned size ⟨data', size⟩ [] rest ∧
        data'.length = size ∧ Holds data' (xs ++ join (bytes :: bodies)) := by
  intro bodies
  induction bodies with
  | nil =>
      intro bytes i xs data hlength hholds hsize
      have hbytes : bytes.toList.length = 7 := Vector.length_toList
      obtain ⟨data', hstore, hlength', hholds'⟩ := holds_store hholds bytes.toList (by
        rw [hbytes, hlength]
        exact hsize.le)
      refine ⟨data', ?_, hlength'.trans hlength, by simpa using hholds'⟩
      rw [obdMessage_done (by rw [obdLevel_nth, hstore]; rfl) (by simpa [checkComplete] using
        hsize.symm)]
      exact congrArg (Result.returned · _ _ _) hsize
  | cons next bodies ih =>
      intro bytes i xs data hlength hholds hsize
      have hbytes : bytes.toList.length = 7 := Vector.length_toList
      rw [List.length_cons] at hsize
      obtain ⟨data', hstore, hlength', hholds'⟩ := holds_store hholds bytes.toList (by
        rw [hbytes, hlength]
        omega)
      have hxs : (xs ++ bytes.toList).length = xs.length + 7 := by
        rw [List.length_append, hbytes]
      obtain ⟨data'', hreturned, hlength'', hholds''⟩ :=
        @ih next (i + 1) _ _ (hlength'.trans hlength) hholds' (by omega)
      refine ⟨data'', ?_, hlength'', by simpa using hholds''⟩
      rw [Message.consecutive, List.cons_append,
        obdMessage_next (by rw [obdLevel_nth, hstore]; rfl) (by
          simp only [checkComplete, beq_eq_false_iff_ne]
          omega)]
      rw [hxs] at hreturned
      exact congrArg (Result.after []) hreturned

/-- Where a call returns with the last consecutive frame, the buffer has the size for it. -/
theorem dataLen_of_obdMessage {m : Message} {rest : List CanFrame} {appendData' : Nat}
    {obdData' : ObdData} : ∀ {bodies : List (Vector UInt8 7)} {bytes : Vector UInt8 7} {i : Nat}
      {appendData : Nat} {obdData : ObdData} {sent : List CanFrame},
      obdMessage appendData (m.nth i bytes) obdData (m.consecutive (i + 1) bodies ++ rest) =
        .returned appendData' obdData' sent rest →
      obdData.dataLen = appendData + 7 * (bodies.length + 1) := by
  intro bodies
  induction bodies with
  | nil =>
      intro bytes i appendData obdData sent h
      obtain ⟨level, hlevel, ⟨hdone, -⟩ | ⟨-, next, incoming', sent', hnext, -, h'⟩⟩ :=
        of_obdMessage h
      · exact (of_obdLevel_nth hlevel).2.2.mp (congrArg Level.done hdone)
      · -- another frame was taken from those after the message
        rw [Message.consecutive, List.nil_append] at hnext
        have hle := length_rest_le h'
        rw [hnext, List.length_cons] at hle
        omega
  | cons body bodies ih =>
      intro bytes i appendData obdData sent h
      obtain ⟨level, hlevel, ⟨-, -, hrest⟩ | ⟨-, next, incoming', sent', hnext, -, h'⟩⟩ :=
        of_obdMessage h
      · have hlength := congrArg List.length hrest
        rw [Message.consecutive, List.cons_append, List.length_cons, List.length_append] at hlength
        omega
      · rw [Message.consecutive, List.cons_append] at hnext
        cases hnext
        obtain ⟨happend, hlen, -⟩ := of_obdLevel_nth hlevel
        have hsize := ih h'
        rw [happend, hlen] at hsize
        rw [hsize, List.length_cons]
        ring

/-- A call takes the frames of its message only if its buffer is full with the last one. -/
theorem length_of_receive {m : Message} {appendData appendData' : Nat} {obdData' : ObdData}
    {sent rest : List CanFrame} (h : receive appendData (m.frames ++ rest) =
      .returned appendData' obdData' sent rest) :
    m.payload.length = appendData + 6 + 7 * m.count := by
  have hcount : m.bodies.length = m.count := length_blocks ..
  have hle := m.le_length
  rw [Message.count] at hcount ⊢
  rw [Message.frames, List.cons_append, receive] at h
  obtain ⟨level, hlevel, hcases⟩ := of_obdMessage h
  obtain ⟨buffer, hfirst, -⟩ := obdLevel_first m appendData .null
  cases hlevel.symm.trans hfirst
  cases hbodies : m.bodies with
  | nil =>
      rw [hbodies, List.length_nil] at hcount
      omega
  | cons bytes bodies =>
      rw [hbodies, Message.consecutive, List.cons_append] at hcases
      rw [hbodies, List.length_cons] at hcount
      rcases hcases with ⟨-, -, hrest⟩ | ⟨-, next, incoming', sent', hnext, -, h'⟩
      · have hlength := congrArg List.length hrest
        rw [List.length_cons, List.length_append] at hlength
        omega
      · cases hnext
        have hsize := dataLen_of_obdMessage h'
        rw [hcount] at hsize
        exact hsize

theorem receive_complete {m : Message} (h : m.payload.length = 6 + 7 * m.count)
    (rest : List CanFrame) : receive 0 (m.frames ++ rest) = .returned m.payload.length
      ⟨m.payload.map some, m.payload.length⟩ [flowControlFrame m.first] rest := by
  have hcount : m.bodies.length = m.count := length_blocks ..
  have hle := m.le_length
  obtain ⟨buffer, hfirst, hlength, hholds⟩ := obdLevel_first m 0 .null
  have hjoin : m.payload.take 6 ++ join m.bodies = m.payload := by
    have hdrop : (m.payload.drop 6).length = 7 * m.count := by
      rw [List.length_drop]
      omega
    rw [Message.bodies, join_blocks_of_le 0 7 (by rw [List.length_append]; omega), ← hdrop,
      List.take_left, List.take_append_drop]
  cases hbodies : m.bodies with
  | nil =>
      rw [hbodies, List.length_nil] at hcount
      omega
  | cons bytes bodies =>
      rw [hbodies] at hjoin hcount
      have htake : (m.payload.take 6).length = 6 := by
        rw [List.length_take]
        omega
      obtain ⟨data, hreturned, hlength', hholds'⟩ := obdMessage_fills rest bodies hlength hholds
        (by rw [htake, h, ← hcount, List.length_cons])
      rw [hjoin] at hholds'
      rw [hholds'.eq_of_length hlength', htake] at hreturned
      rw [Message.frames, List.cons_append, receive, hbodies, Message.consecutive,
        List.cons_append, obdMessage_next hfirst (by
          simp only [checkComplete, beq_eq_false_iff_ne]
          omega)]
      exact congrArg (Result.after [flowControlFrame m.first]) hreturned

end Messages

/-- What a call puts behind other bytes cannot be what the frames of its message hold. -/
theorem not_received_of_pos {appendData : Nat} (h : 0 < appendData) (m : Message)
    (ms : List Message) : ¬Received appendData (m :: ms) := by
  rintro ⟨appendData', sent, hreceive, -⟩
  have hlength := length_of_receive hreceive
  rw [Message.count] at hlength
  omega

theorem received_cons_iff (m : Message) (ms : List Message) :
    Received 0 (m :: ms) ↔
      (m.payload.length - 6) % 7 = 0 ∧ Received m.payload.length ms := by
  have hle := m.le_length
  constructor
  · rintro ⟨appendData', sent, hreceive, hms⟩
    have hlength := length_of_receive hreceive
    rw [Nat.zero_add] at hlength
    rw [receive_complete hlength] at hreceive
    cases hreceive
    exact ⟨by omega, hms⟩
  · rintro ⟨hmod, hms⟩
    have hlength : m.payload.length = 6 + 7 * m.count := by
      rw [Message.count]
      omega
    exact ⟨m.payload.length, _, receive_complete hlength _, hms⟩

/-- Messages are put together exactly if there is at most one, and its frames are full. -/
theorem obdMessage_received_iff (ms : List Message) :
    Received 0 ms ↔ ms.length ≤ 1 ∧ ∀ m ∈ ms, (m.payload.length - 6) % 7 = 0 := by
  cases ms with
  | nil => exact iff_of_true trivial ⟨Nat.zero_le _, List.forall_mem_nil _⟩
  | cons m ms =>
      rw [received_cons_iff]
      cases ms with
      | nil => simp [Received]
      | cons m' ms =>
          have hle := m.le_length
          refine iff_of_false (fun h => not_received_of_pos (by omega) m' ms h.2) fun h => ?_
          exact absurd h.1 (by simp)

/-- A message of so many bytes. -/
def zeros (n : Nat) (hle : 8 ≤ n) (hn : n ≤ 4095) : Message where
  canId := obdFirstEcuResponse
  payload := List.replicate n 0
  padding := []
  le_length := by rwa [List.length_replicate]
  length_le := by rwa [List.length_replicate]

/-- A message of eight bytes is not put together, nor is the second of two messages of thirteen. -/
theorem obdMessage_not_received :
    ¬Received 0 [zeros 8 (by decide) (by decide)] ∧
      ¬Received 0 [zeros 13 (by decide) (by decide), zeros 13 (by decide) (by decide)] := by
  constructor
  · rw [received_cons_iff]
    exact fun h => absurd h.1 (by decide)
  · rw [received_cons_iff]
    exact fun h => not_received_of_pos (by decide) _ _ h.2

end TangleAccelerator.Obd
