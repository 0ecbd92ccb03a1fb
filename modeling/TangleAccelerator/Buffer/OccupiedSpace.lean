import TangleAccelerator.Bytes.Numeral
import TangleAccelerator.Bytes.Printf
import TangleAccelerator.Bytes.Tokens
import TangleAccelerator.Config.Settings
import TangleAccelerator.Core.PeriodicalTask

/-!
# The memory Redis uses

`redis_occupied_space` of `utils/cache/backend_redis.c`, and the test in `health_track` that reads
it.

The number is cut out of the text of the reply to `INFO`: `strstr` finds the field, `strtok` the
end of its line, and `strtol` reads what is between them.  Three things come between the number and
what is returned.  The first occurrence of the field need not be a line of its own.  `errno` is
compared with `ERANGE` and not reset before `strtol`, so that an error of an earlier call counts.
And the number is compared with the limits of `int`, although it is a `long int` and so is the
capacity.  In each case the result may be `-1`, which is below every capacity, so that nothing is
evicted while Redis uses too much memory.

A reply without the field is not covered: `strtok` then goes on in the text of an earlier call, and
the result is `none`.
-/

namespace TangleAccelerator

open Effect Bytes Config

/-! ## The functions -/

/-- `ERANGE`. -/
def erange : Int := 34

/-- `SC_CACHE_OFF`, as a number. -/
def scCacheOff : Int := 0x403

/-- `strstr`: the text from the first occurrence of another one on. -/
def strstr (haystack needle : List UInt8) : Option (List UInt8) :=
  (haystack.dropInfix? needle).map fun split => needle ++ split.2

/-- `size_field`. -/
def sizeField : List UInt8 := ascii "used_memory:"

/-- `redis_occupied_space`, given `errno` and the reply to `INFO`. -/
def redisOccupiedSpace (errno : Int) : Redis.Reply (List UInt8) → Option Int
  | .bulk text => do
      let str ← strstr text sizeField
      let (sizeStr, _) ← Tokens.strtok (· == 10) str
      let ptr := sizeStr.drop sizeField.length
      let strtolTemp := strtol ptr
      let errno := if overflows ptr then erange else errno
      if hasDigits ptr ∧ errno ≠ erange ∧ intMin ≤ strtolTemp ∧ strtolTemp ≤ intMax then
        some strtolTemp
      else
        some (-1)
  | _ => some (-1)

/-- `cache_occupied_space`. -/
def cacheOccupiedSpace (state : Bool) (errno : Int) (reply : Redis.Reply (List UInt8)) :
    Option Int :=
  if state then redisOccupiedSpace errno reply else some scCacheOff

/-! ## Replies -/

/-- The text has a line with the field and this number.  Redis ends its lines with `\r\n`. -/
def HasLine (info : List UInt8) (n : Nat) : Prop :=
  ∃ before after, info = before ++ (sizeField ++ (decimal n ++ after)) ∧
    (before = [] ∨ before.getLast? = some 10) ∧
    (after = [] ∨ after.head? = some 13 ∨ after.head? = some 10)

/-- The field stands between these texts and nowhere before that. -/
def FirstField (info before after : List UInt8) : Prop :=
  info = before ++ (sizeField ++ after) ∧
    ∀ before' after', info = before' ++ (sizeField ++ after') → before.length ≤ before'.length

/-- The part of a text that is on its first line. -/
def firstLine (text : List UInt8) : List UInt8 := text.takeWhile (· != 10)

/-- The number `n` in the reply is the one that is reported, and the loop of `health_track` that
evicts is entered where the capacity is below it. -/
structure ReportsMemory (errno : Int) (info : List UInt8) (n : Nat) : Prop where
  returns : redisOccupiedSpace errno (.bulk info) = some (n : Int)
  evicts : ∀ (core : TaCore) (fuel : Nat) (uuid : Key) (used : Int) (τ : List (Event sig))
    (r : Except Status (Option Key)), core.cache.state = true → core.cache.capacity < n →
      cacheOccupiedSpace core.cache.state errno (.bulk info) = some used →
      Path (evict core (fuel + 1) uuid).run (⟨.occupiedSpace, used⟩ :: τ) r →
      ∃ granted τ', τ = ⟨.trywrlock, granted⟩ :: τ'

/-! ## The field in the text -/

section Field

variable {info before after : List UInt8}

theorem firstField_iff : FirstField info before after ↔
    info.dropInfix? sizeField = some (before, after) := by
  rw [List.dropInfix?_eq_some_iff]
  simp only [FirstField, beq_iff_eq, exists_eq_right, List.append_assoc, ge_iff_le]
  constructor
  · rintro ⟨hinfo, hfirst⟩
    refine ⟨hinfo, ?_⟩
    rintro before' _ after' hinfo' rfl
    exact hfirst before' after' hinfo'
  · rintro ⟨hinfo, hfirst⟩
    exact ⟨hinfo, fun before' after' hinfo' => hfirst before' sizeField after' hinfo' rfl⟩

theorem FirstField.strstr (h : FirstField info before after) :
    strstr info sizeField = some (sizeField ++ after) := by
  rw [TangleAccelerator.strstr, firstField_iff.mp h]
  rfl

/-- A text with the field has a first one. -/
theorem exists_firstField (h : info = before ++ (sizeField ++ after)) :
    ∃ before' after', FirstField info before' after' := by
  -- Whatever stands before an occurrence is shorter before an earlier one.
  induction hlength : before.length using Nat.strong_induction_on generalizing before after with
  | h length ih =>
    by_cases hfirst : ∀ before' after', info = before' ++ (sizeField ++ after') →
        before.length ≤ before'.length
    · exact ⟨before, after, h, hfirst⟩
    · push Not at hfirst
      obtain ⟨before', after', h', hshorter⟩ := hfirst
      exact ih before'.length (hlength ▸ hshorter) h' rfl

/-- The bytes of the field. -/
theorem sizeField_eq :
    sizeField = [117, 115, 101, 100, 95, 109, 101, 109, 111, 114, 121, 58] := by
  decide

/-- `strtok` takes the field and what is behind it on its line. -/
theorem strtok_sizeField (after : List UInt8) : ∃ left,
    Tokens.strtok (· == 10) (sizeField ++ after) = some (sizeField ++ firstLine after, left) := by
  rw [sizeField_eq]
  exact ⟨_, rfl⟩

theorem not_isDigit_of_endsLine {rest : List UInt8}
    (h : rest = [] ∨ rest.head? = some 13 ∨ rest.head? = some 10) :
    ∀ c ∈ (firstLine rest).head?, isDigit c = false := by
  cases rest with
  | nil => simp [firstLine]
  | cons d rest =>
    rcases h with h | h | h
    · cases h
    · cases h
      intro c hc
      cases hc
      rfl
    · cases h
      intro c hc
      cases hc

/-- A number at the end of its line is read. -/
theorem reads_firstLine (n : Nat) {rest : List UInt8}
    (h : rest = [] ∨ rest.head? = some 13 ∨ rest.head? = some 10) :
    Reads (firstLine (decimal n ++ rest)) n := by
  have hdigits : ∀ c ∈ decimal n, (c != 10) = true := by
    intro c hc
    rw [bne_iff_ne]
    rintro rfl
    exact absurd (isDigit_of_mem_decimal hc) (by decide)
  rw [firstLine, List.takeWhile_append_of_pos hdigits]
  exact reads_decimal_append n (not_isDigit_of_endsLine h)

end Field

/-! ## What is returned -/

section Returns

variable {errno : Int} {info before after : List UInt8} {n : Nat}

/-- What is left in `errno`. -/
theorem ite_ne_erange_iff {b : Bool} :
    (if b then erange else errno) ≠ erange ↔ b = false ∧ errno ≠ erange := by
  cases b <;> simp

theorem redisOccupiedSpace_eq (h : FirstField info before after) (errno : Int) :
    redisOccupiedSpace errno (.bulk info) =
      some (if hasDigits (firstLine after) = true ∧
          (overflows (firstLine after) = false ∧ errno ≠ erange) ∧
          intMin ≤ strtol (firstLine after) ∧ strtol (firstLine after) ≤ intMax then
        strtol (firstLine after) else -1) := by
  obtain ⟨left, hleft⟩ := strtok_sizeField after
  simp only [redisOccupiedSpace, h.strstr, hleft, Option.bind_eq_bind, Option.bind_some,
    List.drop_left, ite_ne_erange_iff]
  rw [apply_ite some]

/-- A number is returned exactly if it is read, fits in `int` and no error was left. -/
theorem redisOccupiedSpace_eq_some_iff (h : FirstField info before after) :
    redisOccupiedSpace errno (.bulk info) = some (n : Int) ↔
      errno ≠ erange ∧ (n : Int) ≤ intMax ∧ Reads (firstLine after) n := by
  rw [redisOccupiedSpace_eq h, Option.some_inj]
  constructor
  · intro hn
    split at hn
    case isTrue hchecks =>
      obtain ⟨hdigits, ⟨hfits, herrno⟩, -, hmax⟩ := hchecks
      exact ⟨herrno, hn ▸ hmax, (reads_iff.mpr ⟨hdigits, hfits, hn⟩).1⟩
    case isFalse => omega
  · rintro ⟨herrno, hmax, hreads⟩
    have hrange : -2 ^ 63 ≤ (n : Int) ∧ (n : Int) ≤ 2 ^ 63 - 1 := by
      rw [intMax] at hmax
      omega
    obtain ⟨hdigits, hfits, hn⟩ := reads_iff.mp ⟨hreads, hrange⟩
    have hmin : intMin ≤ (n : Int) := by
      rw [intMin]
      omega
    rw [hn]
    exact if_pos ⟨hdigits, ⟨hfits, herrno⟩, hmin, hmax⟩

end Returns

/-! ## The test -/

/-- A turn of the loop that evicts starts with the test, and takes the lock where it is true. -/
theorem path_evict_succ {core : TaCore} {fuel : Nat} {uuid : Key} {used : Int}
    {τ : List (Event sig)} {r : Except Status (Option Key)}
    (h : Path (evict core (fuel + 1) uuid).run (⟨.occupiedSpace, used⟩ :: τ) r)
    (hfull : core.cache.capacity < used) : ∃ granted τ', τ = ⟨.trywrlock, granted⟩ :: τ' := by
  rw [evict, path_run_request_bind] at h
  obtain ⟨used', τ₁, heq, h⟩ := h
  cases heq
  rw [if_pos hfull, path_run_request_bind] at h
  obtain ⟨granted, τ', rfl, -⟩ := h
  exact ⟨granted, τ', rfl⟩

theorem reportsMemory_iff_returns {errno : Int} {info : List UInt8} {n : Nat} :
    ReportsMemory errno info n ↔ redisOccupiedSpace errno (.bulk info) = some (n : Int) := by
  refine ⟨ReportsMemory.returns, fun hreturns => ⟨hreturns, ?_⟩⟩
  intro core fuel uuid used τ r hstate hfull hused h
  rw [cacheOccupiedSpace, if_pos hstate, hreturns] at hused
  cases hused
  exact path_evict_succ h hfull

/-- The number of a line is reported exactly if no error was left in `errno`, it fits in `int`, and
the first field of the reply has the same number on its line. -/
theorem redisOccupiedSpace_reports_iff {info : List UInt8} {n : Nat} (hline : HasLine info n)
    (errno : Int) :
    ReportsMemory errno info n ↔ errno ≠ erange ∧ (n : Int) ≤ intMax ∧
      ∀ before after, FirstField info before after → Reads (firstLine after) n := by
  obtain ⟨_, _, hinfo, -⟩ := hline
  obtain ⟨before, after, hfirst⟩ := exists_firstField hinfo
  rw [reportsMemory_iff_returns, redisOccupiedSpace_eq_some_iff hfirst]
  refine and_congr_right fun _ => and_congr_right fun _ => ⟨fun hreads before' after' h => ?_,
    fun h => h before after hfirst⟩
  have hsame := (firstField_iff.mp hfirst).symm.trans (firstField_iff.mp h)
  cases hsame
  exact hreads

/-- A reply of a server that uses one kilobyte. -/
theorem redisOccupiedSpace_reports_kilobyte :
    HasLine (ascii "# Memory\r\nused_memory:1024\r\nused_memory_human:1K\r\n") 1024 ∧
      ReportsMemory 0 (ascii "# Memory\r\nused_memory:1024\r\nused_memory_human:1K\r\n") 1024 := by
  have hline : HasLine (ascii "# Memory\r\nused_memory:1024\r\nused_memory_human:1K\r\n") 1024 :=
    ⟨ascii "# Memory\r\n", ascii "\r\nused_memory_human:1K\r\n", by decide,
      by decide, by decide⟩
  refine ⟨hline, (redisOccupiedSpace_reports_iff hline 0).mpr ⟨by decide, by decide, ?_⟩⟩
  intro before after hfirst
  have hsplit : (ascii "# Memory\r\nused_memory:1024\r\nused_memory_human:1K\r\n").dropInfix?
      sizeField = some (ascii "# Memory\r\n",
        decimal 1024 ++ ascii "\r\nused_memory_human:1K\r\n") := by
    decide
  rw [firstField_iff, hsplit] at hfirst
  cases hfirst
  exact reads_firstLine 1024 (.inr (.inl (by decide)))

/-- Two gigabytes do not fit in `int`. -/
theorem redisOccupiedSpace_not_reports :
    HasLine (ascii "# Memory\r\nused_memory:2147483648\r\n") 2147483648 ∧ 2147483648 < 2 ^ 63 ∧
      ¬ReportsMemory 0 (ascii "# Memory\r\nused_memory:2147483648\r\n") 2147483648 := by
  refine ⟨⟨ascii "# Memory\r\n", ascii "\r\n", by decide, by decide,
    by decide⟩, by decide, ?_⟩
  intro h
  have hlost : redisOccupiedSpace 0 (.bulk (ascii "# Memory\r\nused_memory:2147483648\r\n")) =
      some (-1) := by
    decide
  rw [h.returns] at hlost
  cases hlost

end TangleAccelerator
