import TangleAccelerator.Bytes.Printf

/-!
# Base64

The encoding of bytes as a text, three bytes as four characters, with padding.
-/

namespace Bytes

/-- The characters of the digits. -/
def base64Alphabet : List UInt8 :=
  ascii "ABCDEFGHIJKLMNOPQRSTUVWXYZabcdefghijklmnopqrstuvwxyz0123456789+/"

/-- `=`. -/
def base64Padding : UInt8 := 61

/-- The character of a digit. -/
def base64Char (digit : Nat) : UInt8 := base64Alphabet.getD digit base64Padding

/-- The encoding. -/
def base64 : List UInt8 → List UInt8
  | [] => []
  | [a] =>
      [base64Char (a.toNat / 4), base64Char (a.toNat % 4 * 16), base64Padding, base64Padding]
  | [a, b] =>
      [base64Char (a.toNat / 4), base64Char (a.toNat % 4 * 16 + b.toNat / 16),
        base64Char (b.toNat % 16 * 4), base64Padding]
  | a :: b :: c :: rest =>
      base64Char (a.toNat / 4) :: base64Char (a.toNat % 4 * 16 + b.toNat / 16) ::
        base64Char (b.toNat % 16 * 4 + c.toNat / 64) :: base64Char (c.toNat % 64) :: base64 rest

example : base64 (ascii "light work") = ascii "bGlnaHQgd29yaw==" := by decide

theorem length_base64 (bytes : List UInt8) :
    (base64 bytes).length = 4 * ((bytes.length + 2) / 3) := by
  induction bytes using base64.induct with
  | case1 => rfl
  | case2 a => simp [base64]
  | case3 a b => simp [base64]
  | case4 a b c rest ih =>
      simp only [base64, List.length_cons, ih]
      omega

/-- No character ends a text. -/
theorem base64Char_ne_zero (digit : Nat) : base64Char digit ≠ 0 := by
  have halphabet : 0 ∉ base64Alphabet := by decide
  rw [base64Char, List.getD_eq_getElem?_getD]
  cases hdigit : base64Alphabet[digit]? with
  | none => decide
  | some c =>
      rintro rfl
      exact halphabet (List.mem_of_getElem? hdigit)

theorem nul_not_mem_base64 (bytes : List UInt8) : 0 ∉ base64 bytes := by
  have hpadding : base64Padding ≠ 0 := by decide
  induction bytes using base64.induct with
  | case1 => exact List.not_mem_nil
  | case2 a => simp [base64, (base64Char_ne_zero _).symm, hpadding.symm]
  | case3 a b => simp [base64, (base64Char_ne_zero _).symm, hpadding.symm]
  | case4 a b c rest ih => simp [base64, (base64Char_ne_zero _).symm, ih]

end Bytes
