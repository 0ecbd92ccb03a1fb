import TangleAccelerator.Bytes.Decimal

/-!
# Numerals

A number at the start of a text, in the parts that `strtol` goes through: white space, a sign,
digits, and the rest, which does not start with a digit.

`strtol` finds a number exactly in the texts of numerals (`exists_numeral`).  It reads the value of
the numeral, where that fits in `64` bits (`reads_iff`).
-/

namespace Bytes

/-- The sign of a number. -/
inductive Sign where
  | absent
  | plus
  | minus
deriving DecidableEq

/-- A sign as it is written. -/
def Sign.text : Sign → List UInt8
  | .absent => []
  | .plus => [43]
  | .minus => [45]

/-- A number with a sign. -/
def Sign.signed : Sign → Nat → Int
  | .minus, n => -n
  | _, n => n

/-- A number at the start of a text. -/
structure Numeral where
  spaces : List UInt8
  sign : Sign
  digits : List UInt8
  rest : List UInt8
  isSpace_spaces : ∀ c ∈ spaces, isSpace c = true
  digits_ne_nil : digits ≠ []
  isDigit_digits : ∀ c ∈ digits, isDigit c = true
  isDigit_rest : ∀ c ∈ rest.head?, isDigit c = false

namespace Numeral

/-- The text. -/
def text (N : Numeral) : List UInt8 := N.spaces ++ (N.sign.text ++ (N.digits ++ N.rest))

/-- The number. -/
def value (N : Numeral) : Int := N.sign.signed (digitsValue N.digits)

end Numeral

/-- A text starts with a number. -/
def Reads (text : List UInt8) (n : Int) : Prop := ∃ N : Numeral, N.text = text ∧ N.value = n

/-! ## The parts -/

section Parts

variable (N : Numeral)

theorem dropWhile_eq_self_of_head? {p : UInt8 → Bool} {cs : List UInt8}
    (h : ∀ c ∈ cs.head?, p c = false) : cs.dropWhile p = cs := by
  cases cs with
  | nil => rfl
  | cons c cs => exact List.dropWhile_cons_of_neg (by simp [h c rfl])

theorem takeWhile_eq_nil_of_head? {p : UInt8 → Bool} {cs : List UInt8}
    (h : ∀ c ∈ cs.head?, p c = false) : cs.takeWhile p = [] := by
  cases cs with
  | nil => rfl
  | cons c cs => exact List.takeWhile_cons_of_neg (by simp [h c rfl])

theorem Numeral.exists_digit : ∃ c cs, N.digits = c :: cs ∧ isDigit c = true := by
  obtain ⟨c, cs, hcs⟩ := List.exists_cons_of_ne_nil N.digits_ne_nil
  exact ⟨c, cs, hcs, N.isDigit_digits c (hcs ▸ List.mem_cons_self)⟩

theorem Numeral.dropWhile_text :
    N.text.dropWhile isSpace = N.sign.text ++ (N.digits ++ N.rest) := by
  rw [text, List.dropWhile_append_of_pos N.isSpace_spaces]
  apply dropWhile_eq_self_of_head?
  obtain ⟨d, ds, hds, hd⟩ := N.exists_digit
  intro c hc
  cases hsign : N.sign with
  | absent =>
    rw [hsign, hds] at hc
    cases hc
    exact not_isSpace_of_isDigit hd
  | plus =>
    rw [hsign] at hc
    cases hc
    rfl
  | minus =>
    rw [hsign] at hc
    cases hc
    rfl

theorem Numeral.takeSign_text : takeSign (N.text.dropWhile isSpace) =
    (decide (N.sign = .minus), N.digits ++ N.rest) := by
  rw [N.dropWhile_text]
  cases N.sign with
  | absent =>
    obtain ⟨d, ds, hds, hd⟩ := N.exists_digit
    rw [hds]
    exact takeSign_of_isDigit hd _
  | plus => rfl
  | minus => rfl

theorem Numeral.takeWhile_digits : (N.digits ++ N.rest).takeWhile isDigit = N.digits := by
  rw [List.takeWhile_append_of_pos N.isDigit_digits, takeWhile_eq_nil_of_head? N.isDigit_rest,
    List.append_nil]

theorem Numeral.value_eq : N.value =
    if decide (N.sign = .minus) = true then -(digitsValue N.digits : Int)
    else digitsValue N.digits := by
  rw [value]
  cases N.sign <;> rfl

end Parts

/-! ## What `strtol` finds -/

section Strtol

variable (N : Numeral)

theorem Numeral.strtol_text : strtol N.text = max (-2 ^ 63) (min (2 ^ 63 - 1) N.value) := by
  simp only [strtol, N.takeSign_text, N.takeWhile_digits, N.value_eq]

theorem Numeral.hasDigits_text : hasDigits N.text = true := by
  rw [hasDigits, N.takeSign_text, N.takeWhile_digits, Bool.not_eq_true', List.isEmpty_eq_false_iff]
  exact N.digits_ne_nil

theorem Numeral.overflows_text :
    overflows N.text = false ↔ -2 ^ 63 ≤ N.value ∧ N.value ≤ 2 ^ 63 - 1 := by
  simp only [overflows, N.takeSign_text, N.takeWhile_digits, ← N.value_eq, Bool.or_eq_false_iff,
    decide_eq_false_iff_not, not_lt]

/-- A text in which `strtol` finds a number is that of a numeral. -/
theorem exists_numeral {text : List UInt8} (h : hasDigits text = true) :
    ∃ N : Numeral, N.text = text := by
  rw [hasDigits, Bool.not_eq_true', List.isEmpty_eq_false_iff] at h
  obtain ⟨sign, hsign⟩ : ∃ sign : Sign,
      sign.text ++ (takeSign (text.dropWhile isSpace)).2 = text.dropWhile isSpace := by
    cases text.dropWhile isSpace with
    | nil => exact ⟨.absent, rfl⟩
    | cons c cs =>
      rw [takeSign]
      split
      case isTrue hminus => exact ⟨.minus, by rw [hminus]; rfl⟩
      case isFalse =>
        split
        case isTrue hplus => exact ⟨.plus, by rw [hplus]; rfl⟩
        case isFalse => exact ⟨.absent, rfl⟩
  generalize (takeSign (text.dropWhile isSpace)).2 = unsigned at h hsign
  refine ⟨⟨text.takeWhile isSpace, sign, unsigned.takeWhile isDigit, unsigned.dropWhile isDigit,
    fun c hc => List.mem_takeWhile_imp hc, h, fun c hc => List.mem_takeWhile_imp hc, ?_⟩, ?_⟩
  · intro c hc
    have hhead := List.head?_dropWhile_not isDigit unsigned
    rw [Option.mem_def.mp hc] at hhead
    simpa using hhead
  · rw [Numeral.text, List.takeWhile_append_dropWhile, hsign, List.takeWhile_append_dropWhile]

/-- A text starts with a number that fits exactly if `strtol` reads it without an error. -/
theorem reads_iff {text : List UInt8} {n : Int} : Reads text n ∧ -2 ^ 63 ≤ n ∧ n ≤ 2 ^ 63 - 1 ↔
    hasDigits text = true ∧ overflows text = false ∧ strtol text = n := by
  constructor
  · rintro ⟨⟨N, rfl, rfl⟩, hlo, hhi⟩
    refine ⟨N.hasDigits_text, N.overflows_text.mpr ⟨hlo, hhi⟩, ?_⟩
    rw [N.strtol_text, min_eq_right hhi, max_eq_right hlo]
  · rintro ⟨hdigits, hfits, rfl⟩
    obtain ⟨N, rfl⟩ := exists_numeral hdigits
    obtain ⟨hlo, hhi⟩ := N.overflows_text.mp hfits
    rw [N.strtol_text, min_eq_right hhi, max_eq_right hlo]
    exact ⟨⟨N, rfl, rfl⟩, hlo, hhi⟩

end Strtol

/-- A number as it is printed, with anything behind it that is not a digit. -/
theorem reads_decimal_append (n : Nat) {rest : List UInt8}
    (hrest : ∀ c ∈ rest.head?, isDigit c = false) : Reads (decimal n ++ rest) n :=
  ⟨⟨[], .absent, decimal n, rest, by simp, decimal_ne_nil n, fun _ => isDigit_of_mem_decimal,
    hrest⟩, rfl, congrArg Nat.cast (digitsValue_decimal n)⟩

end Bytes
