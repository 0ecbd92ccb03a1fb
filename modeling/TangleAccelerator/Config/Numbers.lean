import TangleAccelerator.Config.Precedence

/-!
# Numbers in options

What `cli_core_set` stores for the options that take numbers, after any other options.

An option asks for the number at the start of its value where there is one within the limits of the
option and of its field (`asked`), and for nothing else.  Two things come between that and what the
code stores (`setNumber_eq`).  `errno` is compared with `ERANGE` and never reset, so that one number
that overflowed refuses every number after it.  And the cases of the port of Redis, the depth and
the weight magnitude compare with the limits of `int` only and do not look where `strtol` stopped,
so that they store other numbers reduced, and a text without a number as zero.

A number for `http_threads` above the maximum asks for the maximum.  It is stored as the maximum
where it fits in a byte, and refused where it does not.
-/

namespace TangleAccelerator.Config

open Fold Bytes

variable {env : Env} {core : Core} {arg : CliArgValue} {value : String}

/-! ## Configurations -/

/-- The configurations that options leave.  Other calls may leave any `errno` between them. -/
inductive Processed (env : Env) : Core → Prop
  | init : Processed env (taCoreDefaultInit env)
  | set {core core' : Core} {key : Int} {value : Option String} (h : Processed env core)
      (hset : cliCoreSet env core key value = .ok core') : Processed env core'
  | errno {core : Core} (h : Processed env core) (erange : Bool) :
      Processed env { core with erange := erange }

theorem setCase_bound (h : core.httpPort = core.iotaPortList firstSlot) (text : String) :
    (setCase env core text arg).httpPort = (setCase env core text arg).iotaPortList firstSlot := by
  by_cases harg : arg = .nodePort
  · rw [harg]
    rfl
  · have hports : get (setCase env core text arg) .nodePort = get core .nodePort :=
      get_setCase_of_ne (Ne.symm harg) core text
    injection hports with hslots hbound
    rw [hslots, hbound, h]

/-- The service is bound to the port in the first slot. -/
theorem Processed.bound (h : Processed env core) : core.httpPort = core.iotaPortList firstSlot := by
  induction h with
  | init => rfl
  | errno _ _ ih => exact ih
  | @set core core' key value _ hset ih =>
      rw [cliCoreSet] at hset
      split at hset
      · cases hset
      · split at hset
        · cases hset
          exact ih
        · cases hset
          exact setCase_bound ih _

/-! ## What an option asks for -/

instance (text : String) (lo hi : Int) : Decidable (IsNumber text lo hi) :=
  inferInstanceAs (Decidable (_ ∧ _ ∧ _))

/-- The number at the start of a text, where it is within limits. -/
def numberIn (text : String) (lo hi : Int) : Option Int :=
  if IsNumber text lo hi then some (number text) else none

/-- The number for a slot. -/
def portIn (value : String) (idx : Nat) : Option Int :=
  ((items value)[idx]?).bind (numberIn · 0 65535)

/-- The number of threads: one above the maximum counts as the maximum. -/
def threadsIn (env : Env) (value : String) : Option Int :=
  if hasDigits (bytes value) = true ∧ (env.maxHttpTpoolSize : Int) < number value then
    some env.maxHttpTpoolSize
  else numberIn value 0 255

/-- The options that take numbers. -/
def numeric : List CliArgValue :=
  [.taPort, .httpThreads, .nodePort, .redisPort, .cacheCapacity, .milestoneDepth, .mwm]

/-- The configuration with the number that an option asks for. -/
def asked (env : Env) (core : Core) (value : String) : CliArgValue → Core
  | .taPort => { core with port := (numberIn value intMin intMax).getD core.port }
  | .httpThreads =>
      { core with httpTpoolSize := (threadsIn env value).getD core.httpTpoolSize }
  | .nodePort =>
      { core with
        iotaPortList := fun idx => (portIn value idx).getD (core.iotaPortList idx)
        httpPort := (portIn value 0).getD core.httpPort }
  | .redisPort => { core with cachePort := (numberIn value 0 65535).getD core.cachePort }
  | .cacheCapacity => { core with capacity := (numberIn value 1 intMax).getD core.capacity }
  | .milestoneDepth =>
      { core with milestoneDepth := (numberIn value 0 255).getD core.milestoneDepth }
  | .mwm => { core with mwm := (numberIn value 0 255).getD core.mwm }
  | _ => core

/-- An option leaves what it asks for, up to `errno`. -/
def Stores (env : Env) (core : Core) (arg : CliArgValue) (value : String) : Prop :=
  ∃ core', cliCoreSet env core (getConfKey arg.name) (some value) = .ok core' ∧
    { core' with erange := core.erange } = asked env core value arg

theorem numberIn_of_isNumber {text : String} {lo hi : Int} (h : IsNumber text lo hi) :
    numberIn text lo hi = some (number text) := if_pos h

theorem numberIn_of_not {text : String} {lo hi : Int} (h : ¬IsNumber text lo hi) :
    numberIn text lo hi = none := if_neg h

theorem stores_iff (harg : arg ∈ numeric) : Stores env core arg value ↔
    { setCase env core value arg with erange := core.erange } = asked env core value arg := by
  have hlabel : cliCoreSet env core (getConfKey arg.name) (some value) =
      .ok (setCase env core value arg) := by
    have hperiod : arg ≠ .healthTrackPeriod := by
      rintro rfl
      exact absurd harg (by decide)
    rw [getConfKey_name, cliCoreSet_val core (by intro h; cases h), applied_eq hperiod]
    rfl
  rw [Stores, hlabel]
  constructor
  · rintro ⟨core', hcore', h⟩
    cases hcore'
    exact h
  · intro h
    exact ⟨_, rfl, h⟩

/-! ## What is stored -/

/-- The checks after `strtol` that do not look at `errno`. -/
def Taken (checksEnd : Bool) (lo hi : Int) (text : String) : Prop :=
  (checksEnd = true → hasDigits (bytes text) = true) ∧ lo ≤ number text ∧ number text ≤ hi

instance (checksEnd : Bool) (lo hi : Int) (text : String) :
    Decidable (Taken checksEnd lo hi text) :=
  inferInstanceAs (Decidable (_ ∧ _ ∧ _))

theorem taken_true_iff {lo hi : Int} {text : String} :
    Taken true lo hi text ↔ IsNumber text lo hi := by
  rw [Taken, IsNumber]
  exact and_congr_left fun _ => ⟨fun h => h rfl, fun h _ => h⟩

theorem taken_false_iff {lo hi : Int} {text : String} :
    Taken false lo hi text ↔ lo ≤ number text ∧ number text ≤ hi :=
  ⟨fun h => h.2, fun h => ⟨(absurd · Bool.false_ne_true), h⟩⟩

theorem Taken.overflows {checksEnd : Bool} {lo hi : Int} {text : String}
    (h : Taken checksEnd lo hi text) (hlo : intMin ≤ lo) (hhi : hi ≤ intMax) :
    Bytes.overflows (bytes text) = false := by
  have hmin := hlo.trans h.2.1
  have hmax := h.2.2.trans hhi
  rw [number, intMin] at hmin
  rw [number, intMax] at hmax
  exact overflows_eq_false (by omega) (by omega)

/-- A number is stored where `errno` is clear before and the checks hold. -/
theorem setNumber_eq {lo hi : Int} (hlo : intMin ≤ lo) (hhi : hi ≤ intMax) (core : Core)
    (checksEnd : Bool) (text : String) (set : Core → Int → Core) :
    setNumber core checksEnd lo hi text set =
      if core.erange = false ∧ Taken checksEnd lo hi text then set core (number text)
      else { core with erange := core.erange || overflows (bytes text) } := by
  by_cases h : core.erange = false ∧ Taken checksEnd lo hi text
  · obtain ⟨hclear, htaken⟩ := h
    have heq : { core with erange := core.erange || Bytes.overflows (bytes text) } = core := by
      rw [htaken.overflows hlo hhi, Bool.or_false]
    rw [if_pos ⟨hclear, htaken⟩, setNumber, heq]
    refine if_pos ?_
    simp only [Bool.and_eq_true, Bool.or_eq_true, Bool.not_eq_true', decide_eq_true_eq]
    refine ⟨⟨⟨?_, hclear⟩, htaken.2.1⟩, htaken.2.2⟩
    cases checksEnd with
    | false => exact Or.inl rfl
    | true => exact Or.inr (htaken.1 rfl)
  · rw [if_neg h, setNumber]
    refine if_neg fun hset => h ?_
    simp only [Bool.and_eq_true, Bool.or_eq_true, Bool.not_eq_true', decide_eq_true_eq,
      Bool.or_eq_false_iff] at hset
    obtain ⟨⟨⟨hend, hclear, -⟩, hmin⟩, hmax⟩ := hset
    refine ⟨hclear, fun hchecks => ?_, hmin, hmax⟩
    rw [hchecks] at hend
    exact hend.resolve_left (by decide)

/-- The field of an option after its case, where `put` sets the field and `w` is what the case
stores. -/
theorem setNumber_put_iff (put : Core → Int → Core) (w : Int) {set : Core → Int → Core}
    {field z lo hi : Int} {checksEnd : Bool} (hlo : intMin ≤ lo) (hhi : hi ≤ intMax)
    (hfield : put core field = core)
    (hput : ∀ x y, { put core x with erange := core.erange } = put core y ↔ x = y)
    (hset : Taken checksEnd lo hi value → set core (number value) = put core w) :
    { setNumber core checksEnd lo hi value set with erange := core.erange } = put core z ↔
      (if core.erange = false ∧ Taken checksEnd lo hi value then w else field) = z := by
  rw [setNumber_eq hlo hhi]
  split
  · rename_i h
    rw [hset h.2]
    exact hput w z
  · have hsame := hput field z
    rw [hfield] at hsame
    exact hsame

/-! ## When an option stores what it asks for -/

/-- The condition for an option that looks where `strtol` stopped: `errno` is clear, or the field
holds the number already. -/
def Checked (core : Core) (lo hi : Int) (value : String) (field wanted : Int) : Prop :=
  IsNumber value lo hi → core.erange = false ∨ field = wanted

/-- The condition for an option that stores a number reduced to the width of its field.  A number
that does not fit in the field must be refused, or the field holds it reduced already.  A text
without a number counts as zero. -/
def Narrowed (core : Core) (width : Nat) (value : String) (field : Int) : Prop :=
  Checked core 0 (2 ^ width - 1) value field (number value) ∧
    (¬IsNumber value 0 (2 ^ width - 1) → core.erange = true ∨ number value < intMin ∨
      intMax < number value ∨ field = number value % 2 ^ width)

/-- The condition for the list of ports: `errno` is clear and no entry before overflows, or the slot
holds the number already. -/
def Listed (core : Core) (value : String) : Prop :=
  ∀ (idx : Fin maxNodeListElements) (p : String), (items value)[idx.val]? = some p →
    IsNumber p 0 65535 →
      (core.erange = false ∧ ∀ q ∈ (items value).take idx, overflows (bytes q) = false) ∨
        core.iotaPortList idx = number p

/-- The condition for the number of threads: as with other options that look where `strtol` stopped,
and a number above the maximum that is not in a byte is refused, so the field must hold the maximum
already. -/
def Threads (env : Env) (core : Core) (value : String) : Prop :=
  Checked core 0 255 value core.httpTpoolSize (min (number value) env.maxHttpTpoolSize) ∧
    (hasDigits (bytes value) = true → 255 < number value →
      (env.maxHttpTpoolSize : Int) < number value →
      core.httpTpoolSize = env.maxHttpTpoolSize)

/-- The condition for an option. -/
def StoresWhen (env : Env) (core : Core) (value : String) : CliArgValue → Prop
  | .taPort => Checked core intMin intMax value core.port (number value)
  | .httpThreads => Threads env core value
  | .nodePort => Listed core value
  | .redisPort => Narrowed core 16 value core.cachePort
  | .cacheCapacity => Checked core 1 intMax value core.capacity (number value)
  | .milestoneDepth => Narrowed core 8 value core.milestoneDepth
  | .mwm => Narrowed core 8 value core.mwm
  | _ => True

theorem checked_iff {lo hi field : Int} (f : Int → Int) :
    (if core.erange = false ∧ IsNumber value lo hi then f (number value) else field) =
        ((numberIn value lo hi).map f).getD field ↔
      Checked core lo hi value field (f (number value)) := by
  rw [Checked]
  by_cases hvalid : IsNumber value lo hi
  · rw [numberIn_of_isNumber hvalid]
    cases core.erange with
    | false => simp [hvalid]
    | true => simp [hvalid]
  · rw [numberIn_of_not hvalid]
    simp [hvalid]

theorem narrowed_iff {width : Nat} {field : Int} (hwidth : (2 : Int) ^ width - 1 ≤ intMax) :
    (if core.erange = false ∧ Taken false intMin intMax value then number value % 2 ^ width
      else field) = (numberIn value 0 (2 ^ width - 1)).getD field ↔
      Narrowed core width value field := by
  simp only [Narrowed, Checked, taken_false_iff]
  by_cases hvalid : IsNumber value 0 (2 ^ width - 1)
  · have hmod : number value % 2 ^ width = number value :=
      Int.emod_eq_of_lt hvalid.2.1 (Int.lt_of_le_sub_one hvalid.2.2)
    have hint : intMin ≤ number value ∧ number value ≤ intMax :=
      ⟨le_trans (by decide) hvalid.2.1, hvalid.2.2.trans hwidth⟩
    rw [numberIn_of_isNumber hvalid, hmod]
    cases core.erange with
    | false => simp [hint, hvalid]
    | true => simp [hvalid]
  · rw [numberIn_of_not hvalid]
    cases core.erange with
    | false =>
        by_cases hint : intMin ≤ number value ∧ number value ≤ intMax
        · simp [hint, hvalid, not_lt.mpr hint.1, not_lt.mpr hint.2, eq_comm]
        · rw [not_and_or, not_le, not_le] at hint
          have hor : number value < intMin ∨ intMax < number value ∨
              field = number value % 2 ^ width := by
            rcases hint with h | h
            · exact Or.inl h
            · exact Or.inr (Or.inl h)
          rw [if_neg (by omega)]
          simp [hvalid, hor]
    | true => simp [hvalid]

/-- The number of threads is cut to the maximum. -/
theorem cut_to_max {n : Int} {most : Nat} (h : n ≤ 255) :
    (if (most : Int) < n then (most : Int) % 256 else n) = min n most := by
  split
  · rename_i hlt
    rw [min_eq_right hlt.le]
    exact Int.emod_eq_of_lt (Int.natCast_nonneg _) (by omega)
  · rename_i hge
    rw [min_eq_left (not_lt.mp hge)]

theorem threads_iff :
    (if core.erange = false ∧ IsNumber value 0 255 then
        min (number value) (env.maxHttpTpoolSize : Int) else core.httpTpoolSize) =
      (threadsIn env value).getD core.httpTpoolSize ↔ Threads env core value := by
  have hmax : (0 : Int) ≤ env.maxHttpTpoolSize := Int.natCast_nonneg _
  rw [Threads, threadsIn]
  by_cases hvalid : IsNumber value 0 255
  · have hwanted : (if hasDigits (bytes value) = true ∧ (env.maxHttpTpoolSize : Int) < number value
        then some (env.maxHttpTpoolSize : Int) else numberIn value 0 255) =
        (numberIn value 0 255).map (min · (env.maxHttpTpoolSize : Int)) := by
      rw [numberIn_of_isNumber hvalid, Option.map_some]
      split
      · rename_i habove
        rw [min_eq_right habove.2.le]
      · rename_i hbelow
        rw [min_eq_left (not_lt.mp fun h => hbelow ⟨hvalid.1, h⟩)]
    rw [hwanted, checked_iff (min · (env.maxHttpTpoolSize : Int)), and_iff_left]
    exact fun _ hbyte => absurd hvalid.2.2 (not_le.mpr hbyte)
  · have hchecked : Checked core 0 255 value core.httpTpoolSize
        (min (number value) env.maxHttpTpoolSize) := fun h => absurd h hvalid
    rw [if_neg (fun h => hvalid h.2), and_iff_right hchecked, numberIn_of_not hvalid]
    split
    · rename_i habove
      have hbyte : 255 < number value :=
        not_le.mp fun h => hvalid ⟨habove.1, hmax.trans habove.2.le, h⟩
      exact ⟨fun h _ _ _ => h, fun h => h habove.1 hbyte habove.2⟩
    · rename_i hbelow
      exact iff_of_true rfl fun hdigits _ h => absurd ⟨hdigits, h⟩ hbelow

/-- The capacity is checked to be positive, so that a text without a number is refused there too. -/
theorem positive_taken {field : Int} :
    (if core.erange = false ∧ Taken false intMin intMax value then
        if number value ≤ 0 then field else number value
      else field) =
      if core.erange = false ∧ IsNumber value 1 intMax then number value else field := by
  have hiff : IsNumber value 1 intMax ↔ Taken false intMin intMax value ∧ ¬number value ≤ 0 := by
    rw [taken_false_iff]
    constructor
    · rintro ⟨-, hlo, hhi⟩
      exact ⟨⟨le_trans (by decide) hlo, hhi⟩, by omega⟩
    · rintro ⟨⟨-, hhi⟩, hpos⟩
      refine ⟨?_, by omega, hhi⟩
      by_contra hdigits
      rw [number, strtol_of_not_hasDigits (Bool.not_eq_true _ ▸ hdigits)] at hpos
      exact hpos le_rfl
  by_cases htaken : core.erange = false ∧ Taken false intMin intMax value
  · rw [if_pos htaken]
    simp only [hiff, htaken, true_and]
    split
    · rfl
    · rfl
  · rw [if_neg htaken, if_neg fun h => htaken ⟨h.1, (hiff.mp h.2).1⟩]

/-! ## The list of ports -/

/-- What the loop over the ports stores for an entry, from a given `errno`. -/
def portStored : Bool → List String → Nat → Option Int
  | _, [], _ => none
  | erange, p :: _, 0 => if erange = false then numberIn p 0 65535 else none
  | erange, p :: ps, k + 1 => portStored (erange || overflows (bytes p)) ps k

theorem portStored_eq (k : Nat) : ∀ (erange : Bool) (ps : List String),
    portStored erange ps k = (ps[k]?).bind fun p =>
      if erange = false ∧ ∀ q ∈ ps.take k, overflows (bytes q) = false then numberIn p 0 65535
      else none := by
  induction k with
  | zero =>
      intro erange ps
      cases ps with
      | nil => rfl
      | cons p ps => simp [portStored]
  | succ k ih =>
      intro erange ps
      cases ps with
      | nil => rfl
      | cons p ps =>
          rw [portStored, ih]
          simp [and_assoc]

/-- One round of the loop. -/
theorem setNumber_port (core : Core) (idx : Fin maxNodeListElements) (p : String) :
    (setNumber core true 0 65535 p fun core port =>
      { core with iotaPortList := Function.update core.iotaPortList idx port }) =
    { core with
      iotaPortList := Function.update core.iotaPortList idx
        ((portStored core.erange [p] 0).getD (core.iotaPortList idx))
      erange := core.erange || overflows (bytes p) } := by
  rw [setNumber_eq (by decide) (by decide), portStored]
  split
  · rename_i h
    have hnumber := taken_true_iff.mp h.2
    rw [if_pos h.1, numberIn_of_isNumber hnumber, Option.getD_some, h.1,
      h.2.overflows (by decide) (by decide), ← h.1]
    simp [h.1]
  · rename_i h
    have hnone : (if core.erange = false then numberIn p 0 65535 else none) = none := by
      split
      · rename_i hclear
        exact numberIn_of_not fun hnumber => h ⟨hclear, taken_true_iff.mpr hnumber⟩
      · rfl
    rw [hnone, Option.getD_none, Function.update_eq_self]

/-- The loop from a slot on. -/
theorem setSlots_ports : ∀ (ps : List String) (core : Core) (idx : Nat), ∃ erange,
    setSlots (fun core idx p => setNumber core true 0 65535 p fun core port =>
      { core with iotaPortList := Function.update core.iotaPortList idx port }) core idx ps =
    { core with
      iotaPortList := fun i =>
        (if idx ≤ i then portStored core.erange ps (i - idx) else none).getD (core.iotaPortList i)
      erange := erange }
  | [], core, idx => ⟨core.erange, by simp [setSlots, portStored]⟩
  | p :: ps, core, idx => by
      rw [setSlots]
      split
      · rename_i h
        obtain ⟨erange, hrest⟩ := setSlots_ports ps
          (setNumber core true 0 65535 p fun core port =>
            { core with iotaPortList := Function.update core.iotaPortList ⟨idx, h⟩ port }) (idx + 1)
        refine ⟨erange, ?_⟩
        rw [hrest, setNumber_port]
        simp only [Core.mk.injEq, true_and, and_true]
        funext i
        have hne : i.val ≠ idx → i ≠ ⟨idx, h⟩ := fun hval hi => hval (congrArg Fin.val hi)
        rcases lt_trichotomy i.val idx with hlt | heq | hgt
        · rw [if_neg (by omega), if_neg (by omega), Option.getD_none, Option.getD_none,
            Function.update_of_ne (hne hlt.ne)]
        · obtain rfl : i = ⟨idx, h⟩ := Fin.ext heq
          simp [portStored]
        · obtain ⟨k, hk⟩ : ∃ k, i.val - idx = k + 1 := ⟨i.val - idx - 1, by omega⟩
          have hk' : i.val - (idx + 1) = k := by omega
          rw [if_pos (by omega), if_pos (by omega), Function.update_of_ne (hne hgt.ne'), hk, hk',
            portStored]
      · rename_i h
        refine ⟨core.erange, ?_⟩
        have hout : (fun i : Fin maxNodeListElements =>
            (if idx ≤ i then portStored core.erange (p :: ps) (i - idx) else none).getD
              (core.iotaPortList i)) = core.iotaPortList := by
          funext i
          rw [if_neg (by omega), Option.getD_none]
        rw [hout]

theorem portStored_eq_iff {k : Nat} {e : Bool} {l : List String} {x : Int} :
    (portStored e l k).getD x = ((l[k]?).bind (numberIn · 0 65535)).getD x ↔
      ∀ p, l[k]? = some p → IsNumber p 0 65535 →
        (e = false ∧ ∀ q ∈ l.take k, overflows (bytes q) = false) ∨ x = number p := by
  rw [portStored_eq]
  cases l[k]? with
  | none => simp
  | some p =>
      by_cases hnumber : IsNumber p 0 65535
      · by_cases hclear : e = false ∧ ∀ q ∈ l.take k, overflows (bytes q) = false
        · rw [Option.bind_some, Option.bind_some, if_pos hclear]
          exact iff_of_true rfl fun _ _ _ => Or.inl hclear
        · rw [Option.bind_some, Option.bind_some, if_neg hclear, numberIn_of_isNumber hnumber]
          simp [hclear, hnumber]
      · simp [numberIn_of_not hnumber, hnumber]

theorem listed_iff (hbound : core.httpPort = core.iotaPortList firstSlot) :
    { setCase env core value .nodePort with erange := core.erange } =
      asked env core value .nodePort ↔ Listed core value := by
  obtain ⟨erange, hports⟩ := setSlots_ports (items value) core 0
  have hslots : setPorts core value = { core with
      iotaPortList := fun i =>
        (portStored core.erange (items value) i).getD (core.iotaPortList i)
      erange := erange } := by
    rw [setPorts, hports]
    simp
  have hslot (i : Fin maxNodeListElements) := portStored_eq_iff (k := i.val)
    (e := core.erange) (l := items value) (x := core.iotaPortList i)
  rw [setCase, hslots, asked, hbound]
  simp only [Core.mk.injEq, true_and, and_true]
  constructor
  · rintro ⟨h, -⟩ idx
    exact (hslot idx).mp (congrFun h idx)
  · intro h
    have hall : ∀ i : Fin maxNodeListElements,
        (portStored core.erange (items value) i).getD (core.iotaPortList i) =
          (portIn value i).getD (core.iotaPortList i) := fun i => (hslot i).mpr (h i)
    exact ⟨funext hall, hall firstSlot⟩

/-! ## The options -/

/-- An option stores exactly the number it asks for, after any other options, in exactly the cases
of `StoresWhen`. -/
theorem cliCoreSet_stores_iff (h : Processed env core) (harg : arg ∈ numeric) (value : String) :
    Stores env core arg value ↔ StoresWhen env core value arg := by
  rw [stores_iff harg]
  simp only [numeric, List.mem_cons, List.not_mem_nil, or_false] at harg
  rcases harg with rfl | rfl | rfl | rfl | rfl | rfl | rfl
  · refine (setNumber_put_iff (fun core n => { core with port := n }) (number value) (by decide)
      le_rfl rfl (by simp) fun _ => rfl).trans ?_
    simpa only [taken_true_iff, Option.map_id, id, StoresWhen] using checked_iff id
  · refine (setNumber_put_iff (fun core n => { core with httpTpoolSize := n })
      (min (number value) env.maxHttpTpoolSize) (by decide) (by decide) rfl (by simp)
      fun htaken => ?_).trans ?_
    · rw [cut_to_max htaken.2.2]
    · simpa only [taken_true_iff, StoresWhen] using threads_iff
  · exact listed_iff h.bound
  · refine (setNumber_put_iff (fun core n => { core with cachePort := n }) (number value % 2 ^ 16)
      (by decide) le_rfl rfl (by simp) fun _ => rfl).trans ?_
    exact narrowed_iff (by decide)
  · refine (setNumber_put_iff (fun core n => { core with capacity := n })
      (if number value ≤ 0 then core.capacity else number value) (by decide) le_rfl rfl (by simp)
      fun _ => ?_).trans ?_
    · split
      · rfl
      · rfl
    · rw [positive_taken]
      simpa only [Option.map_id, id, StoresWhen] using checked_iff id
  · refine (setNumber_put_iff (fun core n => { core with milestoneDepth := n })
      (number value % 2 ^ 8) (by decide) le_rfl rfl (by simp) fun _ => rfl).trans ?_
    exact narrowed_iff (by decide)
  · refine (setNumber_put_iff (fun core n => { core with mwm := n }) (number value % 2 ^ 8)
      (by decide) le_rfl rfl (by simp) fun _ => rfl).trans ?_
    exact narrowed_iff (by decide)

/-- A port that fits is stored where no number overflowed before. -/
theorem cliCoreSet_stores_port : Processed sampleEnv (taCoreDefaultInit sampleEnv) ∧
    Stores sampleEnv (taCoreDefaultInit sampleEnv) .redisPort "6380" := by
  refine ⟨.init, (cliCoreSet_stores_iff .init (by decide) "6380").mpr ⟨?_, ?_⟩⟩
  · exact fun _ => Or.inl rfl
  · exact fun h => absurd (by decide) h

/-- A maximum of eight threads. -/
def eightThreads : Env := { sampleEnv with maxHttpTpoolSize := 8 }

/-- A word is stored as port zero, a port and a magnitude that do not fit are reduced, a number of
threads that is not in a byte is refused, and after a number that overflowed so is a port that
fits. -/
theorem cliCoreSet_not_stores :
    ¬Stores sampleEnv (taCoreDefaultInit sampleEnv) .redisPort "redis" ∧
    ¬Stores sampleEnv (taCoreDefaultInit sampleEnv) .redisPort "70000" ∧
    ¬Stores sampleEnv (taCoreDefaultInit sampleEnv) .mwm "300" ∧
    ¬Stores eightThreads (taCoreDefaultInit eightThreads) .httpThreads "300" ∧
    ∃ core, cliCoreSet sampleEnv (taCoreDefaultInit sampleEnv) CliArgValue.taPort.val
        (some "9223372036854775808") = .ok core ∧ Processed sampleEnv core ∧
      ¬Stores sampleEnv core .taPort "8001" := by
  refine ⟨?_, ?_, ?_, ?_, ?_⟩
  · rw [stores_iff (by decide)]
    intro h
    exact absurd (congrArg Core.cachePort h) (by decide)
  · rw [stores_iff (by decide)]
    intro h
    exact absurd (congrArg Core.cachePort h) (by decide)
  · rw [stores_iff (by decide)]
    intro h
    exact absurd (congrArg Core.mwm h) (by decide)
  · rw [stores_iff (by decide)]
    intro h
    exact absurd (congrArg Core.httpTpoolSize h) (by decide)
  · have hset : cliCoreSet sampleEnv (taCoreDefaultInit sampleEnv) CliArgValue.taPort.val
        (some "9223372036854775808") = .ok _ :=
      cliCoreSet_val (taCoreDefaultInit sampleEnv) (present_some .taPort "9223372036854775808")
    refine ⟨_, hset, .set .init hset, ?_⟩
    rw [stores_iff (by decide)]
    intro h
    exact absurd (congrArg Core.port h) (by decide)

end TangleAccelerator.Config
