import Mathlib

/-!
# Decimal texts

Numbers as decimal texts in ASCII, as `printf` writes them and `strtol` reads them.

`strtol` skips white space, takes a sign and reads digits up to the first character that is not
one.  A value that does not fit in `64` bits saturates.
-/

namespace Bytes

/-! ## Writing -/

/-- The decimal text of a number. -/
def decimal (n : Nat) : List UInt8 :=
  if n = 0 then [48] else (Nat.digits 10 n).reverse.map fun d => UInt8.ofNat (48 + d)

/-- The text of a number with zeros before it, up to a width (`%0*u`). -/
def zeroFilled (width n : Nat) : List UInt8 :=
  List.replicate (width - (decimal n).length) 48 ++ decimal n

/-! ## Reading -/

/-- `isspace`. -/
def isSpace (c : UInt8) : Bool := c == 32 || (9 ≤ c && c ≤ 13)

/-- `isdigit`. -/
def isDigit (c : UInt8) : Bool := 48 ≤ c && c ≤ 57

/-- A sign, and what follows it. -/
def takeSign : List UInt8 → Bool × List UInt8
  | [] => (false, [])
  | c :: cs => if c = 45 then (true, cs) else if c = 43 then (false, cs) else (false, c :: cs)

/-- The value of digits. -/
def digitsValue (cs : List UInt8) : Nat := cs.foldl (fun v c => 10 * v + (c.toNat - 48)) 0

/-- `strtol` with base `10` and `64` bits. -/
def strtol (text : List UInt8) : Int :=
  let (negative, text) := takeSign (text.dropWhile isSpace)
  let value : Int := digitsValue (text.takeWhile isDigit)
  max (-2 ^ 63) (min (2 ^ 63 - 1) (if negative then -value else value))

/-- `strtol` finds a number: it does not stop where it started. -/
def hasDigits (text : List UInt8) : Bool :=
  !((takeSign (text.dropWhile isSpace)).2.takeWhile isDigit).isEmpty

/-- `strtol` sets `ERANGE`. -/
def overflows (text : List UInt8) : Bool :=
  let (negative, text) := takeSign (text.dropWhile isSpace)
  let value : Int := digitsValue (text.takeWhile isDigit)
  let value := if negative then -value else value
  value < -2 ^ 63 || 2 ^ 63 - 1 < value

/-- A value inside the limits did not saturate. -/
theorem overflows_eq_false {text : List UInt8} (hlo : -2 ^ 63 < strtol text)
    (hhi : strtol text < 2 ^ 63 - 1) : overflows text = false := by
  simp only [strtol] at hlo hhi
  simp only [overflows, Bool.or_eq_false_iff, decide_eq_false_iff_not, not_lt]
  omega

/-- A text without a number is read as zero. -/
theorem strtol_of_not_hasDigits {text : List UInt8} (h : hasDigits text = false) :
    strtol text = 0 := by
  rw [hasDigits, Bool.not_eq_false', List.isEmpty_iff] at h
  simp [strtol, h, digitsValue]

/-! ## Texts of digits -/

theorem isDigit_ofNat {d : Nat} (hd : d < 10) : isDigit (UInt8.ofNat (48 + d)) = true := by
  interval_cases d <;> rfl

theorem toNat_ofNat_digit {d : Nat} (hd : d < 10) : (UInt8.ofNat (48 + d)).toNat - 48 = d := by
  interval_cases d <;> rfl

theorem isDigit_of_mem_decimal {n : Nat} {c : UInt8} (hc : c ∈ decimal n) : isDigit c = true := by
  rw [decimal] at hc
  split at hc
  · rw [List.mem_singleton.mp hc]
    rfl
  · obtain ⟨d, hd, rfl⟩ := List.mem_map.mp hc
    exact isDigit_ofNat (Nat.digits_lt_base (by decide) (List.mem_reverse.mp hd))

theorem decimal_ne_nil (n : Nat) : decimal n ≠ [] := by
  rw [decimal]
  split
  · exact List.cons_ne_nil _ _
  case isFalse hn =>
    simpa [Nat.digits_eq_nil_iff_eq_zero] using hn

theorem length_decimal_le {width n : Nat} (hwidth : 0 < width) (hn : n < 10 ^ width) :
    (decimal n).length ≤ width := by
  rw [decimal]
  split
  · exact hwidth
  · rw [List.length_map, List.length_reverse]
    exact (Nat.digits_length_le_iff (by decide) n).mpr hn

theorem digitsValue_map_reverse {ds : List Nat} (hds : ∀ d ∈ ds, d < 10) :
    digitsValue (ds.reverse.map fun d => UInt8.ofNat (48 + d)) = Nat.ofDigits 10 ds := by
  rw [digitsValue, List.foldl_map, List.foldl_reverse]
  induction ds with
  | nil => rfl
  | cons d ds ih =>
      rw [List.foldr_cons, ih fun d' hd' => hds d' (List.mem_cons_of_mem _ hd'), Nat.ofDigits_cons,
        toNat_ofNat_digit (hds d List.mem_cons_self), Nat.add_comm]

theorem digitsValue_decimal (n : Nat) : digitsValue (decimal n) = n := by
  rw [decimal]
  split
  case isTrue hn => rw [hn]; rfl
  case isFalse hn =>
    rw [digitsValue_map_reverse fun d hd => Nat.digits_lt_base (by decide) hd, Nat.ofDigits_digits]

theorem decimal_injective : Function.Injective decimal := by
  intro m n h
  rw [← digitsValue_decimal m, h, digitsValue_decimal]

/-- The last digit. -/
theorem decimal_eq_append {n : Nat} (hn : 10 ≤ n) :
    decimal n = decimal (n / 10) ++ [UInt8.ofNat (48 + n % 10)] := by
  have hdiv : n / 10 ≠ 0 := by omega
  rw [decimal, if_neg (by omega), decimal, if_neg hdiv, Nat.digits_def' (by decide) (by omega),
    List.reverse_cons, List.map_append, List.map_singleton]

theorem lt_length_decimal {k n : Nat} (hn : 10 ^ k ≤ n) : k < (decimal n).length := by
  have hpos : n ≠ 0 := by
    have hpow : 0 < 10 ^ k := Nat.pow_pos (by decide)
    omega
  rw [decimal, if_neg hpos, List.length_map, List.length_reverse]
  exact (Nat.lt_digits_length_iff (by decide) n).mpr hn

theorem digitsValue_replicate_append (k : Nat) (cs : List UInt8) :
    digitsValue (List.replicate k 48 ++ cs) = digitsValue cs := by
  induction k with
  | zero => rfl
  | succ k ih => exact ih

/-! ## Texts of a fixed width -/

theorem length_zeroFilled {width n : Nat} (hwidth : 0 < width) (hn : n < 10 ^ width) :
    (zeroFilled width n).length = width := by
  have hle := length_decimal_le hwidth hn
  rw [zeroFilled, List.length_append, List.length_replicate]
  omega

theorem isDigit_of_mem_zeroFilled {width n : Nat} {c : UInt8} (hc : c ∈ zeroFilled width n) :
    isDigit c = true := by
  rcases List.mem_append.mp hc with hc | hc
  · rw [List.eq_of_mem_replicate hc]
    rfl
  · exact isDigit_of_mem_decimal hc

theorem not_isSpace_of_isDigit {c : UInt8} (hc : isDigit c = true) : isSpace c = false := by
  simp only [isDigit, isSpace, Bool.and_eq_true, decide_eq_true_eq, UInt8.le_iff_toNat_le,
    Bool.or_eq_false_iff, beq_eq_false_iff_ne, Bool.and_eq_false_imp, decide_eq_false_iff_not,
    ne_eq, ← UInt8.toNat_inj] at hc ⊢
  simp only [UInt8.reduceToNat] at hc ⊢
  omega

theorem takeSign_of_isDigit {c : UInt8} (hc : isDigit c = true) (cs : List UInt8) :
    takeSign (c :: cs) = (false, c :: cs) := by
  have hminus : c ≠ 45 := by
    rintro rfl
    cases hc
  have hplus : c ≠ 43 := by
    rintro rfl
    cases hc
  rw [takeSign, if_neg hminus, if_neg hplus]

/-- `strtol` of digits. -/
theorem strtol_of_isDigit {cs : List UInt8} (hne : cs ≠ []) (hcs : ∀ c ∈ cs, isDigit c = true) :
    strtol cs = min (2 ^ 63 - 1) (digitsValue cs : Int) := by
  obtain ⟨c, cs, rfl⟩ := List.exists_cons_of_ne_nil hne
  have hc := hcs c List.mem_cons_self
  rw [strtol, List.dropWhile_cons_of_neg (by rw [not_isSpace_of_isDigit hc]; decide),
    takeSign_of_isDigit hc]
  simp only [List.takeWhile_eq_self_iff.mpr hcs, Bool.false_eq_true, if_false]
  omega

/-- `strtol` of a number with zeros before it. -/
theorem strtol_zeroFilled (width n : Nat) :
    strtol (zeroFilled width n) = min (2 ^ 63 - 1) (n : Int) := by
  have hne : zeroFilled width n ≠ [] := fun h =>
    decimal_ne_nil n (List.append_eq_nil_iff.mp h).2
  rw [strtol_of_isDigit hne fun c hc => isDigit_of_mem_zeroFilled hc, zeroFilled,
    digitsValue_replicate_append, digitsValue_decimal]

end Bytes
