import TangleAccelerator.Effect.Channel
import TangleAccelerator.Obd.Monitor

/-!
# The exchange of the VIN

The monitor (`monitor.c`) and the emulator (`obd_emulator.c`) as two machines on a bus that delivers
frames in order and loses none.  The monitor asks for the vehicle identification number.  The
emulator answers with a first frame, waits for the flow control frame, and sends the rest.

The frames that the emulator sends are those of one message of `20` bytes (`vinMessage`), and they
are full, so the first query of the monitor puts them together.  No interleaving does anything else
(`Channel.Reaches.complete`).
-/

namespace TangleAccelerator.Obd

open Bytes Channel

/-! ## The monitor -/

/-- Where the monitor is in a query. -/
inductive MonitorState where
  /-- `can_send` of `obd_query`. -/
  | querying
  /-- `can_recv` of `obd_query`. -/
  | awaitingFirst
  /-- `can_send` of `obd_message`. -/
  | sendingFlow (flow : CanFrame) (level : Level)
  /-- `can_recv` of `obd_message`. -/
  | awaitingNext (appendData : Nat) (obdData : ObdData)
  | stored (appendData : Nat) (obdData : ObdData)
  | undefined

/-- After a level of `obd_message` has sent what it had to. -/
def afterLevel (level : Level) : MonitorState :=
  if level.done then .stored level.appendData level.obdData
  else .awaitingNext level.appendData level.obdData

/-- A level of `obd_message` for a frame. -/
def enterLevel (appendData : Nat) (obdData : ObdData) (frame : CanFrame) : MonitorState :=
  match obdLevel appendData frame obdData with
  | none => .undefined
  | some level =>
      match level.flow with
      | none => afterLevel level
      | some flow => .sendingFlow flow level

/-- One query of the monitor, from a number of bytes that other messages left. -/
def monitor (appendData : Nat) (service pid : UInt8) : MonitorState → Act MonitorState CanFrame
  | .querying => .send (queryFrame obdBroadcastId service pid) .awaitingFirst
  | .awaitingFirst => .recv (enterLevel appendData .null)
  | .sendingFlow flow level => .send flow (afterLevel level)
  | .awaitingNext appendData obdData => .recv (enterLevel appendData obdData)
  | .stored .. => .halt
  | .undefined => .halt

/-! ## The emulator -/

/-- What is configured: the VIN, without the NUL, and the noise in the other responses, from `-5`
to `5`. -/
structure EmulatorConfig where
  vin : List UInt8
  noise : UInt8 → Fin 4 → Fin 11

/-- Where the emulator is. -/
inductive EmulatorState where
  /-- `can_recv` of the loop of `main`. -/
  | waiting
  /-- `can_send` of `service_01_response`. -/
  | answering (frame : CanFrame)
  /-- The first `can_send` of `send_vin_message`. -/
  | sendingFirst (frame : CanFrame)
  /-- `can_recv` of `send_vin_message`. -/
  | awaitingFlow
  /-- `can_send` of the loop of `send_vin_message`, and the loop after it. -/
  | sendingNext (frame : CanFrame) (byteSend : Nat) (seqNum : UInt8)
  | undefined

section Emulator

variable (config : EmulatorConfig)

/-- Bytes of the VIN and its NUL. -/
def readVin (i n : Nat) : Option (List UInt8) :=
  if i + n ≤ config.vin.length + 1 then some (((config.vin ++ [0]).drop i).take n) else none

/-- `service_01_response`. -/
def service01Response (pid : UInt8) : EmulatorState :=
  let noisy (i : Fin 4) : UInt8 := UInt8.ofNat (0x0F - 5 + config.noise pid i)
  .answering (frameOf obdFirstEcuResponse
    [7, 0x41, pid, noisy 0, noisy 1, noisy 2, noisy 3, 0x00])

/-- The loop of `send_vin_message`. -/
def sendLoop (byteSend : Nat) (seqNum : UInt8) : EmulatorState :=
  if byteSend ≠ config.vin.length then
    match readVin config byteSend 7 with
    | none => .undefined
    | some bytes =>
        .sendingNext (frameOf obdFirstEcuResponse ((0x20 ||| seqNum) :: bytes)) (byteSend + 7)
          (seqNum + 1)
  else .waiting

/-- `send_vin_message`, up to the first frame. -/
def sendVinMessage (pid : UInt8) : EmulatorState :=
  match readVin config 0 3 with
  | none => .undefined
  | some bytes =>
      .sendingFirst (frameOf obdFirstEcuResponse ([0x10, 0x14, 0x49, pid, 0x01] ++ bytes))

/-- `service_09_response`. -/
def service09Response (pid : UInt8) : EmulatorState :=
  if pid = 0x02 then sendVinMessage config pid else .waiting

/-- The body of the loop of `main`. -/
def dispatch (frame : CanFrame) : EmulatorState :=
  if frame.canId = obdBroadcastId ∧ 2 ≤ frame.canDlc then
    if frame.data.get 1 = 0x01 then service01Response config (frame.data.get 2)
    else if frame.data.get 1 = 0x09 then service09Response config (frame.data.get 2)
    else .waiting
  else .waiting

/-- The emulator. -/
def emulator : EmulatorState → Act EmulatorState CanFrame
  | .waiting => .recv (dispatch config)
  | .answering frame => .send frame .waiting
  | .sendingFirst frame => .send frame .awaitingFlow
  | .awaitingFlow => .recv fun frame =>
      if frame.data.get 0 = 0x30 then sendLoop config 3 1 else .waiting
  | .sendingNext frame byteSend seqNum => .send frame (sendLoop config byteSend seqNum)
  | .undefined => .halt

end Emulator

/-! ## The text -/

/-- `vin_hex_to_string`. -/
def vinHexToString (arr : Memory) (len : Nat) : Option Memory := do
  guard (3 ≤ len ∧ len ≤ arr.length)
  let bytes ← ((arr.drop 3).take (len - 3)).mapM id
  store (zeroed len) 0 bytes

/-! ## Calls of the monitor -/

section Calls

variable {τ : Type} {R : τ → Act τ CanFrame} {service pid : UInt8} {initial : Nat}

theorem enterLevel_of_none {appendData : Nat} {frame : CanFrame} {obdData : ObdData}
    {level : Level} (h : obdLevel appendData frame obdData = some level)
    (hflow : level.flow = none) :
    enterLevel appendData obdData frame = afterLevel level := by
  rw [enterLevel, h]
  simp only [hflow]

theorem enterLevel_of_some {appendData : Nat} {frame flow : CanFrame} {obdData : ObdData}
    {level : Level} (h : obdLevel appendData frame obdData = some level)
    (hflow : level.flow = some flow) :
    enterLevel appendData obdData frame = .sendingFlow flow level := by
  rw [enterLevel, h]
  simp only [hflow]

/-- A level sends what it has to. -/
theorem reaches_afterLevel {appendData : Nat} {frame : CanFrame} {obdData : ObdData} {level : Level}
    (h : obdLevel appendData frame obdData = some level) (t : τ) (toRight toLeft : List CanFrame) :
    ∃ n, Reaches (Step (monitor initial service pid) R) n
      ⟨enterLevel appendData obdData frame, t, toRight, toLeft⟩
      ⟨afterLevel level, t, toRight ++ level.flow.toList, toLeft⟩ := by
  cases hflow : level.flow with
  | none =>
      rw [enterLevel_of_none h hflow, Option.toList_none, List.append_nil]
      exact ⟨0, .refl _⟩
  | some flow =>
      rw [enterLevel_of_some h hflow]
      exact ⟨1, .single (Or.inl rfl)⟩

/-- A call of `obd_message` is a run of the monitor. -/
theorem reaches_of_obdMessage {appendData' : Nat} {obdData' : ObdData} {rest : List CanFrame}
    (t : τ) : ∀ {incoming sent : List CanFrame} {appendData : Nat} {frame : CanFrame}
      {obdData : ObdData} (toRight : List CanFrame),
      obdMessage appendData frame obdData incoming = .returned appendData' obdData' sent rest →
      ∃ n, Reaches (Step (monitor initial service pid) R) n
        ⟨enterLevel appendData obdData frame, t, toRight, incoming⟩
        ⟨.stored appendData' obdData', t, toRight ++ sent, rest⟩ := by
  intro incoming
  induction incoming with
  | nil =>
      intro sent appendData frame obdData toRight h
      obtain ⟨level, hlevel, ⟨hdone, rfl, rfl⟩ | ⟨-, next, incoming', sent', hnext, -⟩⟩ :=
        of_obdMessage h
      · obtain ⟨n, hn⟩ := reaches_afterLevel (R := R) hlevel t toRight []
        rw [hdone] at hn
        exact ⟨n, hdone ▸ hn⟩
      · cases hnext
  | cons next incoming ih =>
      intro sent appendData frame obdData toRight h
      obtain ⟨level, hlevel, hcases⟩ := of_obdMessage h
      rcases hcases with ⟨hdone, rfl, rfl⟩ | ⟨hdone, next', incoming', sent', hnext, rfl, h'⟩
      · obtain ⟨n, hn⟩ := reaches_afterLevel (R := R) hlevel t toRight (next :: incoming)
        rw [hdone] at hn
        exact ⟨n, hdone ▸ hn⟩
      · cases hnext
        obtain ⟨n, hn⟩ := reaches_afterLevel (R := R) hlevel t toRight (next :: incoming)
        obtain ⟨k, hk⟩ := ih (toRight ++ level.flow.toList) h'
        rw [afterLevel, hdone] at hn
        rw [List.append_assoc] at hk
        exact ⟨_, hn.trans (.step (Or.inl rfl) hk)⟩

end Calls

/-! ## The frames of a VIN -/

/-- A VIN: `17` characters, none of them NUL. -/
structure Vin where
  chars : List UInt8
  length_eq : chars.length = 17
  nulFree : 0 ∉ chars

namespace Vin

variable (vin : Vin)

/-- The bytes `49 02 01` and the VIN. -/
def bytes : List UInt8 := [0x49, 0x02, 0x01] ++ vin.chars

theorem length_bytes : vin.bytes.length = 20 := by
  rw [bytes, List.length_append, vin.length_eq]
  rfl

/-- They are one message. -/
def message : Message where
  canId := obdFirstEcuResponse
  payload := vin.bytes
  padding := []
  le_length := by
    rw [length_bytes]
    decide
  length_le := by
    rw [length_bytes]
    decide

/-- The emulator with this VIN. -/
def config (noise : UInt8 → Fin 4 → Fin 11) : EmulatorConfig := ⟨vin.chars, noise⟩

variable {vin} {noise : UInt8 → Fin 4 → Fin 11}

theorem readVin_eq {i n : Nat} (h : i + n ≤ 17) :
    readVin (vin.config noise) i n = some ((vin.chars.drop i).take n) := by
  have hlength := vin.length_eq
  have hvin : (vin.config noise).vin = vin.chars := rfl
  rw [readVin, hvin, if_pos (by omega), List.drop_append_of_le_length (by omega),
    List.take_append_of_le_length (by rw [List.length_drop]; omega)]

theorem sendVinMessage_eq :
    sendVinMessage (vin.config noise) 0x02 = .sendingFirst vin.message.first := by
  rw [sendVinMessage, readVin_eq (by decide)]
  simp only [Message.first, message, length_bytes]
  rfl

/-- The bytes in a consecutive frame. -/
def body (vin : Vin) (i : Nat) : Vector UInt8 7 := block 0 7 (vin.chars.drop i)

theorem toList_body {i : Nat} (h : i + 7 ≤ 17) :
    (vin.body i).toList = (vin.chars.drop i).take 7 := by
  have hlength := vin.length_eq
  rw [body, toList_block, List.length_drop, Nat.sub_eq_zero_of_le (by omega), List.replicate_zero,
    List.append_nil]

theorem sendLoop_first : sendLoop (vin.config noise) 3 1 =
    .sendingNext (vin.message.nth 0 (vin.body 3)) 10 2 := by
  rw [sendLoop, readVin_eq (by decide), if_pos (by simp [config, vin.length_eq]), Message.nth,
    toList_body (by decide)]
  rfl

theorem sendLoop_second : sendLoop (vin.config noise) 10 2 =
    .sendingNext (vin.message.nth 1 (vin.body 10)) 17 3 := by
  rw [sendLoop, readVin_eq (by decide), if_pos (by simp [config, vin.length_eq]), Message.nth,
    toList_body (by decide)]
  rfl

theorem sendLoop_end : sendLoop (vin.config noise) 17 3 = .waiting := by
  rw [sendLoop, if_neg (by simp [config, vin.length_eq])]

/-! ## The exchange -/

theorem flowControlFrame_get_zero (frame : CanFrame) : (flowControlFrame frame).data.get 0 = 0x30 :=
  frameOf_get_zero _ _ _

/-- Before the first query of the monitor. -/
def start : Config MonitorState EmulatorState CanFrame := ⟨.querying, .waiting, [], []⟩

/-- After it. -/
def final (vin : Vin) : Config MonitorState EmulatorState CanFrame :=
  ⟨.stored 20 ⟨vin.bytes.map some, 20⟩, .waiting, [], []⟩

/-- The steps of the two programs. -/
abbrev Exchange (vin : Vin) (noise : UInt8 → Fin 4 → Fin 11) :=
  Step (monitor 0 0x09 0x02) (emulator (vin.config noise))

theorem dispatch_query : dispatch (vin.config noise) (queryFrame obdBroadcastId 0x09 0x02) =
    .sendingFirst vin.message.first := by
  have hquery : dispatch (vin.config noise) (queryFrame obdBroadcastId 0x09 0x02) =
      sendVinMessage (vin.config noise) 0x02 := rfl
  rw [hquery, sendVinMessage_eq]

theorem bytes_eq (vin : Vin) :
    vin.bytes.take 6 ++ (vin.body 3).toList ++ (vin.body 10).toList = vin.bytes := by
  have hlength := vin.length_eq
  have hlast : (vin.chars.drop 10).take 7 = vin.chars.drop 10 :=
    List.take_of_length_le (by rw [List.length_drop]; omega)
  have hfront : vin.chars.take 3 ++ (vin.chars.drop 3).take 7 = vin.chars.take 10 :=
    (List.take_add (i := 3) (j := 7)).symm
  have htake : vin.bytes.take 6 = [0x49, 0x02, 0x01] ++ vin.chars.take 3 := rfl
  rw [toList_body (by decide), toList_body (by decide), hlast, htake, List.append_assoc _ _
    ((vin.chars.drop 3).take 7), hfront, List.append_assoc, List.take_append_drop, bytes]

/-- The levels of `obd_message` for the three frames. -/
theorem levels (vin : Vin) : ∃ first second,
    obdLevel 0 vin.message.first .null = some (checkComplete 6 ⟨first, 20⟩
      (some (flowControlFrame vin.message.first))) ∧
    obdLevel 6 (vin.message.nth 0 (vin.body 3)) ⟨first, 20⟩ =
      some (checkComplete 13 ⟨second, 20⟩ none) ∧
    obdLevel 13 (vin.message.nth 1 (vin.body 10)) ⟨second, 20⟩ =
      some (checkComplete 20 ⟨vin.bytes.map some, 20⟩ none) := by
  have hlength : vin.message.payload.length = 20 := vin.length_bytes
  obtain ⟨first, hfirst, hlen, hholds⟩ := obdLevel_first vin.message 0 .null
  rw [hlength] at hfirst hlen
  have htake : (vin.message.payload.take 6).length = 6 := by
    rw [List.length_take, hlength]
    rfl
  obtain ⟨second, hstore, hlen', hholds'⟩ := holds_store hholds (vin.body 3).toList (by
    rw [htake, hlen, Vector.length_toList]
    decide)
  have hmiddle : (vin.message.payload.take 6 ++ (vin.body 3).toList).length = 13 := by
    rw [List.length_append, htake, Vector.length_toList]
  obtain ⟨third, hstore', hlen'', hholds''⟩ := holds_store hholds' (vin.body 10).toList (by
    rw [hmiddle, hlen', hlen, Vector.length_toList])
  have hthird : third = vin.bytes.map some := by
    have hbytes : vin.message.payload.take 6 ++ (vin.body 3).toList ++ (vin.body 10).toList =
      vin.bytes := vin.bytes_eq
    rw [hbytes] at hholds''
    exact hholds''.eq_of_length (by rw [hlen'', hlen', hlen, length_bytes])
  rw [htake] at hstore
  rw [hmiddle, hthird] at hstore'
  refine ⟨first, second, hfirst, ?_, ?_⟩
  · rw [obdLevel_nth, hstore]
    rfl
  · rw [obdLevel_nth, hstore']
    rfl

theorem reaches_final (vin : Vin) (noise : UInt8 → Fin 4 → Fin 11) :
    Reaches (Exchange vin noise) 10 start vin.final := by
  obtain ⟨first, second, hfirst, hsecond, hthird⟩ := vin.levels
  have hfirst' : afterLevel (checkComplete 6 ⟨first, 20⟩ (some (flowControlFrame
    vin.message.first))) = .awaitingNext 6 ⟨first, 20⟩ := rfl
  have hsecond' : afterLevel (checkComplete 13 ⟨second, 20⟩ none) =
    .awaitingNext 13 ⟨second, 20⟩ := rfl
  -- the query reaches the emulator, which answers with the first frame
  refine .step (step_leftSend rfl) (.step (step_rightRecv rfl) ?_)
  rw [dispatch_query]
  refine .step (step_rightSend rfl) (.step (step_leftRecv rfl) ?_)
  rw [enterLevel_of_some hfirst rfl]
  -- the flow control frame reaches the emulator, which sends the rest
  refine .step (step_leftSend rfl) (.step (step_rightRecv rfl) ?_)
  rw [hfirst', if_pos (flowControlFrame_get_zero _), sendLoop_first]
  refine .step (step_rightSend rfl) ?_
  rw [sendLoop_second]
  refine .step (step_rightSend rfl) ?_
  rw [sendLoop_end]
  -- the monitor puts the rest behind the first six bytes
  refine .step (step_leftRecv rfl) ?_
  rw [enterLevel_of_none hsecond rfl, hsecond']
  refine .step (step_leftRecv rfl) ?_
  rw [enterLevel_of_none hthird rfl]
  exact .refl _

theorem stuck_final (vin : Vin) (noise : UInt8 → Fin 4 → Fin 11) :
    Stuck (Exchange vin noise) vin.final :=
  (stuck_iff _ _ _).mpr ⟨rfl, rfl⟩

theorem vinHexToString_bytes (vin : Vin) : ∃ str,
    vinHexToString (vin.bytes.map some) 20 = some str ∧ readText str = some vin.chars := by
  have hlength := vin.length_eq
  have hdrop : (vin.bytes.map some).drop 3 = vin.chars.map some := rfl
  have hread : (((vin.bytes.map some).drop 3).take (20 - 3)).mapM id = some vin.chars := by
    rw [hdrop, List.take_of_length_le (by rw [List.length_map, hlength]), mapM_id_map_some]
  obtain ⟨str, hstore, hholds⟩ := holds_store_zeroed (show vin.chars.length < 20 by omega)
  refine ⟨str, ?_, readText_of_holds hholds vin.nulFree⟩
  rw [vinHexToString, List.length_map, length_bytes, hread]
  exact hstore

end Vin

/-- Every interleaving of the first query for the VIN and the emulator's response can be completed,
in ten steps in all, to the one end, where the monitor holds `49 02 01` and the VIN, the emulator
waits for the next query, and no frame is under way.  A run that cannot go on has come there.  The
text the monitor makes of the data is the VIN. -/
theorem vin_exchange (vin : Vin) (noise : UInt8 → Fin 4 → Fin 11) :
    (∀ m c, Reaches (vin.Exchange noise) m Vin.start c →
      (∃ k, m + k = 10 ∧ Reaches (vin.Exchange noise) k c vin.final) ∧
        (Stuck (vin.Exchange noise) c → c = vin.final)) ∧
      ∃ str, vinHexToString (vin.bytes.map some) 20 = some str ∧
        readText str = some vin.chars := by
  have hfinal := vin.reaches_final noise
  have hdiamond : Diamond (vin.Exchange noise) := step_diamond _ _
  refine ⟨fun m c hc => ⟨?_, ?_⟩, vin.vinHexToString_bytes⟩
  · exact hfinal.complete hdiamond (vin.stuck_final noise) hc
  · exact hfinal.eq_of_stuck hdiamond (vin.stuck_final noise) hc

end TangleAccelerator.Obd
