import TangleAccelerator.Obd.Vin

/-!
# The OBD message

`get_obd_datasets` and `create_obd2_flatbuffer` of `monitor.c`, up to the arguments of the
constructor of the flatbuffer.  Each response is a single frame.

`hex_to_obd_data` is given the record of a response (`OBD_data_t`) where it takes its data.  So it
reads bytes of the record: with words of eight bytes the upper half of the pointer to the data, with
words of four bytes the length.  It moves its result by four bits for each byte, and once more at
the end.  And one argument of the constructor stands twice: the field of the oil temperature is
given the coolant temperature.
-/

namespace TangleAccelerator.Obd

open Bytes

/-! ## The table of PIDs -/

/-- `ENUM_PID`. -/
inductive EnumPid where
  | vehicleIdentificationNumber
  | calculatedEngineLoad
  | engineCoolantTemperature
  | fuelPressure
  | engineRpm
  | vehicleSpeed
  | intakeAirTemperature
  | massAirFlow
  | fuelTankLevelInput
  | absoluteBarometricPressure
  | controlModuleVoltage
  | throttlePosition
  | ambientAirTemperature
  | relativeAcceleratorPedalPosition
  | engineOilTemperature
  | engineFuelRate
  | serviceDistance
  | antiLockBrakingActive
  | steeringWheelAngle
  | positionOfDoors
  | rightLeftTurnSignalLight
  | alternateBeamHeadLight
  | highBeamHeadLight
deriving DecidableEq

/-- A row of `PIDS_INIT_LIST`. -/
structure Pid where
  enum : EnumPid
  service : UInt8
  pid : UInt16
  name : String
deriving DecidableEq

/-- `PIDS_INIT_LIST`. -/
def pidsInitList : List Pid :=
  [⟨.vehicleIdentificationNumber, 0x09, 0x02, "VEHICLE_IDENTIFICATION_NUMBER"⟩,
    ⟨.calculatedEngineLoad, 0x01, 0x04, "CALCULATED_ENGINE_LOAD"⟩,
    ⟨.engineCoolantTemperature, 0x01, 0x05, "ENGINE_COOLANT_TEMPERATURE"⟩,
    ⟨.fuelPressure, 0x01, 0x0A, "FUEL_PRESSURE"⟩,
    ⟨.engineRpm, 0x01, 0x0C, "ENGINE_RPM"⟩,
    ⟨.vehicleSpeed, 0x01, 0x0D, "VEHICLE_SPEED"⟩,
    ⟨.intakeAirTemperature, 0x01, 0x0F, "INTAKE_AIR_TEMPERATURE"⟩,
    ⟨.massAirFlow, 0x01, 0x10, "MASS_AIR_FLOW"⟩,
    ⟨.fuelTankLevelInput, 0x01, 0x01F, "FUEL_TANK_LEVEL_INPUT"⟩,
    ⟨.absoluteBarometricPressure, 0x01, 0x33, "ABSOLUTE_BAROMETRIC_PRESSURE"⟩,
    ⟨.controlModuleVoltage, 0x01, 0x42, "CONTROL_MODULE_VOLTAGE"⟩,
    ⟨.throttlePosition, 0x01, 0x45, "THROTTLE_POSITION"⟩,
    ⟨.ambientAirTemperature, 0x01, 0x46, "AMBIENT_AIR_TEMPERATURE"⟩,
    ⟨.relativeAcceleratorPedalPosition, 0x01, 0x5A, "RELATIVE_ACCELERATOR_PEDAL_POSITION"⟩,
    ⟨.engineOilTemperature, 0x01, 0x5C, "ENGINE_OIL_TEMPERATURE"⟩,
    ⟨.engineFuelRate, 0x01, 0x5E, "ENGINE_FUEL_RATE"⟩,
    ⟨.serviceDistance, 0x01, 0xE1, "SERVICE_DISTANCE"⟩,
    ⟨.antiLockBrakingActive, 0x01, 0xE2, "ANTI_LOCK_BRAKING_ACTIVE"⟩,
    ⟨.steeringWheelAngle, 0x01, 0xE3, "STEERING_WHEEL_ANGLE"⟩,
    ⟨.positionOfDoors, 0x01, 0xE5, "POSITION_OF_DOORS"⟩,
    ⟨.rightLeftTurnSignalLight, 0x01, 0xE6, "RIGHT_LEFT_TURN_SIGNAL_LIGHT"⟩,
    ⟨.alternateBeamHeadLight, 0x01, 0xE7, "ALTERNATE_BEAM_HEAD_LIGHT"⟩,
    ⟨.highBeamHeadLight, 0x01, 0xE8, "HIGH_BEAM_HEAD_LIGHT"⟩]

/-! ## Records -/

/-- The size of a pointer and of `size_t`. -/
inductive Abi where
  | ilp32
  | lp64
deriving DecidableEq

/-- The bytes of a word, the least significant one first. -/
def wordBytes : Nat → Nat → List UInt8
  | 0, _ => []
  | w + 1, n => UInt8.ofNat (n % 256) :: wordBytes w (n / 256)

/-- The bytes of an `OBD_data_t`: the pointer and the length. -/
def recordBytes (abi : Abi) (address dataLen : Nat) : List UInt8 :=
  match abi with
  | .ilp32 => wordBytes 4 address ++ wordBytes 4 dataLen
  | .lp64 => wordBytes 8 address ++ wordBytes 8 dataLen

/-- A record with the address of its data. -/
structure Dataset where
  address : Nat
  obdData : ObdData

/-! ## The functions -/

/-- `hex_to_obd_data`. -/
def hexToObdData (arr : List UInt8) (offset len : Nat) : UInt32 :=
  ((arr.drop offset).take (len - offset)).foldl (fun result b => (result ||| b.toUInt32) <<< 4) 0

/-- The loop of `get_obd_datasets`, with the response to each query and the address that `malloc`
returns for its data.  Nothing is returned where a query does not return. -/
def getObdDatasets (address : EnumPid → Nat) (response : EnumPid → CanFrame) (appendData : Nat)
    (table : List (String × Dataset)) : List Pid → Option (List (String × Dataset))
  | [] => some table
  | pid :: pids =>
      match receive appendData [response pid.enum] with
      | .returned appendData obdData _ _ =>
          getObdDatasets address response appendData
            ((pid.name, ⟨address pid.enum, obdData⟩) :: table) pids
      | _ => none

/-- The names under which `create_obd2_flatbuffer` looks for its arguments, in the order in which
they are given to the constructor. -/
def arguments : List String :=
  ["CALCULATED_ENGINE_LOAD", "ENGINE_COOLANT_TEMPERATURE", "FUEL_PRESSURE", "ENGINE_RPM",
    "VEHICLE_SPEED", "INTAKE_AIR_TEMPERATURE", "MASS_AIR_FLOW", "FUEL_TANK_LEVEL_INPUT",
    "ABSOLUTE_BAROMETRIC_PRESSURE", "CONTROL_MODULE_VOLTAGE", "THROTTLE_POSITION",
    "AMBIENT_AIR_TEMPERATURE", "RELATIVE_ACCELERATOR_PEDAL_POSITION",
    "ENGINE_COOLANT_TEMPERATURE", "ENGINE_FUEL_RATE", "SERVICE_DISTANCE",
    "ANTI_LOCK_BRAKING_ACTIVE", "STEERING_WHEEL_ANGLE", "POSITION_OF_DOORS",
    "RIGHT_LEFT_TURN_SIGNAL_LIGHT", "ALTERNATE_BEAM_HEAD_LIGHT", "HIGH_BEAM_HEAD_LIGHT"]

/-- The arguments of the constructor. -/
structure Obd2Data where
  vin : Memory
  numbers : List UInt32

/-- `create_obd2_flatbuffer`.  Nothing is returned where it reads a record that is not there. -/
def createObd2Flatbuffer (abi : Abi) (table : List (String × Dataset)) : Option Obd2Data := do
  let vinObdData ← table.lookup "VEHICLE_IDENTIFICATION_NUMBER"
  let vin ← vinHexToString vinObdData.obdData.data vinObdData.obdData.dataLen
  let numbers ← arguments.mapM fun name => do
    let dataset ← table.lookup name
    pure (hexToObdData (recordBytes abi dataset.address dataset.obdData.dataLen) 4 8)
  pure ⟨vin, numbers⟩

/-! ## What the fields are for -/

/-- The sensors of the numeric fields, in the order of the fields. -/
def fields : List EnumPid := pidsInitList.tail.map Pid.enum

/-- Responses that are single frames. -/
structure Responses where
  frame : EnumPid → CanFrame
  single : ∀ p, checkMessageType (frame p) = 0

/-- The number in bytes, the most significant one first. -/
def bigEndian (bytes : List UInt8) : UInt32 :=
  bytes.foldl (fun n b => (n <<< 8) ||| b.toUInt32) 0

/-- The number in the last four bytes of a response. -/
def Responses.value (responses : Responses) (p : EnumPid) : UInt32 :=
  bigEndian ((responses.frame p).data.toList.drop 4)

/-- Each field has the number of the response for its own sensor. -/
def Recovers (abi : Abi) (address : EnumPid → Nat) (responses : Responses) : Prop :=
  ∃ table message, getObdDatasets address responses.frame 0 [] pidsInitList = some table ∧
    createObd2Flatbuffer abi table = some message ∧
    message.numbers = fields.map responses.value

/-- The sensor whose record is read for a field. -/
def source (p : EnumPid) : EnumPid :=
  if p = .engineOilTemperature then .engineCoolantTemperature else p

/-- What is read from the record of a single frame. -/
def misread (abi : Abi) (address : Nat) : UInt32 :=
  let byte (i : Nat) : UInt32 := (UInt8.ofNat (address / 2 ^ (8 * i) % 256)).toUInt32
  match abi with
  | .ilp32 => 0x80000
  | .lp64 => byte 4 <<< 16 ||| byte 5 <<< 12 ||| byte 6 <<< 8 ||| byte 7 <<< 4

/-! ## The table -/

theorem receive_single {frame : CanFrame} (h : checkMessageType frame = 0) (appendData : Nat) :
    receive appendData [frame] =
      .returned appendData ⟨frame.data.toList.map some, 8⟩ [] [] := by
  have hlevel : obdLevel appendData frame .null =
      some ⟨appendData, ⟨frame.data.toList.map some, 8⟩, none, true⟩ := by
    simp only [obdLevel, h]
  rw [receive, obdMessage_done hlevel rfl]
  rfl

section Table

variable {address : EnumPid → Nat} {responses : Responses}

/-- The record of a response. -/
def datasetOf (address : EnumPid → Nat) (responses : Responses) (p : EnumPid) : Dataset :=
  ⟨address p, ⟨(responses.frame p).data.toList.map some, 8⟩⟩

theorem getObdDatasets_eq (appendData : Nat) :
    ∀ (pids : List Pid) (table : List (String × Dataset)),
      getObdDatasets address responses.frame appendData table pids =
        some ((pids.reverse.map fun pid => (pid.name, datasetOf address responses pid.enum)) ++
          table)
  | [], table => rfl
  | pid :: pids, table => by
      rw [getObdDatasets, receive_single (responses.single pid.enum)]
      simp only
      rw [getObdDatasets_eq appendData pids, List.reverse_cons, List.map_append, List.append_assoc]
      rfl

theorem lookup_map (f : EnumPid → Dataset) (name : String) (pids : List Pid) :
    (pids.map fun pid => (pid.name, f pid.enum)).lookup name =
      ((pids.find? fun pid => name == pid.name).map Pid.enum).map f := by
  induction pids with
  | nil => rfl
  | cons pid pids ih =>
      rw [List.map_cons, List.lookup_cons, List.find?_cons]
      cases name == pid.name with
      | true => rfl
      | false => exact ih

/-- The sensor of a name. -/
def enumOf (name : String) : Option EnumPid :=
  (pidsInitList.reverse.find? fun pid => name == pid.name).map Pid.enum

theorem enumOf_arguments : arguments.map enumOf = fields.map fun p => some (source p) := by
  decide

theorem enumOf_vin :
    enumOf "VEHICLE_IDENTIFICATION_NUMBER" = some .vehicleIdentificationNumber := by
  decide

end Table

theorem mapM_of_map {α β γ : Type} {f : α → Option β} {g : γ → β} :
    ∀ {xs : List α} {ys : List γ}, xs.map f = ys.map (fun y => some (g y)) →
      xs.mapM f = some (ys.map g)
  | [], [], _ => rfl
  | [], _ :: _, h => by cases h
  | _ :: _, [], h => by cases h
  | x :: xs, y :: ys, h => by
      obtain ⟨hx, hxs⟩ := List.cons.inj h
      rw [List.mapM_cons, hx, mapM_of_map hxs]
      rfl

/-! ## The numbers -/

theorem hexToObdData_four (b₀ b₁ b₂ b₃ : UInt8) (front back : List UInt8)
    (h : front.length = 4) : hexToObdData (front ++ b₀ :: b₁ :: b₂ :: b₃ :: back) 4 8 =
      b₀.toUInt32 <<< 16 ||| b₁.toUInt32 <<< 12 ||| b₂.toUInt32 <<< 8 ||| b₃.toUInt32 <<< 4 := by
  have hfour : ∀ a : UInt32, a <<< 4 <<< 4 = a <<< 8 := fun a => by
    rw [← UInt32.toBitVec_inj]
    simp
  have height : ∀ a : UInt32, a <<< 8 <<< 4 = a <<< 12 := fun a => by
    rw [← UInt32.toBitVec_inj]
    simp
  have htwelve : ∀ a : UInt32, a <<< 12 <<< 4 = a <<< 16 := fun a => by
    rw [← UInt32.toBitVec_inj]
    simp
  have hfold : hexToObdData (front ++ b₀ :: b₁ :: b₂ :: b₃ :: back) 4 8 =
      ((((0 ||| b₀.toUInt32) <<< 4 ||| b₁.toUInt32) <<< 4 ||| b₂.toUInt32) <<< 4 |||
        b₃.toUInt32) <<< 4 := by
    rw [hexToObdData, List.drop_left' h]
    rfl
  rw [hfold]
  simp only [UInt32.zero_or, UInt32.shiftLeft_or, hfour, height, htwelve]

/-- What `hex_to_obd_data` makes of a record. -/
theorem hexToObdData_record (abi : Abi) (address : Nat) :
    hexToObdData (recordBytes abi address 8) 4 8 = misread abi address := by
  cases abi with
  | ilp32 => exact hexToObdData_four 8 0 0 0 (wordBytes 4 address) [] rfl
  | lp64 =>
      have hbytes : recordBytes .lp64 address 8 = wordBytes 4 address ++
          UInt8.ofNat (address / 2 ^ (8 * 4) % 256) :: UInt8.ofNat (address / 2 ^ (8 * 5) % 256) ::
          UInt8.ofNat (address / 2 ^ (8 * 6) % 256) :: UInt8.ofNat (address / 2 ^ (8 * 7) % 256) ::
          wordBytes 8 8 := by
        simp only [recordBytes, wordBytes, Nat.div_div_eq_div_mul, List.cons_append,
          List.nil_append, Nat.reduceMul, Nat.reducePow]
      rw [hbytes]
      exact hexToObdData_four _ _ _ _ _ _ rfl

/-! ## The message -/

theorem vinHexToString_single (bytes : Vector UInt8 8) :
    ∃ vin, vinHexToString (bytes.toList.map some) 8 = some vin := by
  have hread : (((bytes.toList.map some).drop 3).take (8 - 3)).mapM id =
      some ((bytes.toList.drop 3).take (8 - 3)) := by
    rw [← List.map_drop, ← List.map_take, mapM_id_map_some]
  rw [vinHexToString, List.length_map, Vector.length_toList, hread]
  exact ⟨_, store_of_le (by simp)⟩

theorem createObd2Flatbuffer_eq (abi : Abi) (address : EnumPid → Nat) (responses : Responses) :
    ∃ table vin, getObdDatasets address responses.frame 0 [] pidsInitList = some table ∧
      createObd2Flatbuffer abi table =
        some ⟨vin, fields.map fun p => misread abi (address (source p))⟩ := by
  have hlookup : ∀ name, (pidsInitList.reverse.map fun pid =>
      (pid.name, datasetOf address responses pid.enum)).lookup name =
        (enumOf name).map (datasetOf address responses) :=
    fun name => lookup_map _ name _
  let number (found : Option EnumPid) : Option UInt32 :=
    (found.map (datasetOf address responses)).bind fun dataset =>
      some (hexToObdData (recordBytes abi dataset.address dataset.obdData.dataLen) 4 8)
  have hnumber : ∀ p, number (some p) = some (misread abi (address p)) := fun p =>
    congrArg some (hexToObdData_record abi (address p))
  have hmap : arguments.map (fun name => number (enumOf name)) =
      fields.map fun p => some (misread abi (address (source p))) := by
    have hcompose := congrArg (List.map number) enumOf_arguments
    rw [List.map_map, List.map_map] at hcompose
    refine hcompose.trans (List.map_congr_left fun p _ => hnumber (source p))
  obtain ⟨vin, hvin⟩ := vinHexToString_single
    (responses.frame .vehicleIdentificationNumber).data
  refine ⟨_, vin, getObdDatasets_eq 0 pidsInitList [], ?_⟩
  rw [List.append_nil, createObd2Flatbuffer]
  simp only [hlookup, enumOf_vin, Option.map_some, Option.bind_eq_bind, Option.bind_some,
    Option.pure_def]
  rw [datasetOf, hvin, mapM_of_map hmap]
  rfl

theorem recovers_iff_map (abi : Abi) (address : EnumPid → Nat) (responses : Responses) :
    Recovers abi address responses ↔
      (fields.map fun p => misread abi (address (source p))) = fields.map responses.value := by
  obtain ⟨table, vin, htable, hmessage⟩ := createObd2Flatbuffer_eq abi address responses
  constructor
  · rintro ⟨table', message, htable', hmessage', h⟩
    cases htable.symm.trans htable'
    cases hmessage.symm.trans hmessage'
    exact h
  · intro h
    exact ⟨table, _, htable, hmessage, h⟩

/-- Each field has the number of its own sensor exactly if the record that is read in its place
happens to hold that number. -/
theorem createObd2Flatbuffer_recovers_iff (abi : Abi) (address : EnumPid → Nat)
    (responses : Responses) : Recovers abi address responses ↔
      ∀ p ∈ fields, responses.value p = misread abi (address (source p)) := by
  rw [recovers_iff_map, List.map_inj_left]
  exact forall₂_congr fun p _ => eq_comm

/-- What the emulator answers without noise. -/
def quiet : Responses where
  frame _ := frameOf obdFirstEcuResponse [7, 0x41, 0x04, 0x0F, 0x0F, 0x0F, 0x0F, 0x00]
  single _ := by
    rw [checkMessageType, frameOf_get_zero]
    decide

/-- The bytes `0F 0F 0F 00` are not recovered from data at an address. -/
theorem createObd2Flatbuffer_not_recovers : ¬Recovers .lp64 (fun _ => 0x7F0012345678) quiet := by
  rw [recovers_iff_map]
  intro h
  have hload := congrArg List.head? h
  exact absurd hload (by decide)

end TangleAccelerator.Obd
