import TangleAccelerator.Bytes.Decimal
import TangleAccelerator.Bytes.Memory

/-!
# Formatted output

A format of `printf` together with its arguments, as pieces.  The pieces spell the format, and they
produce the output.

`snprintf` writes what fits and a NUL, and returns the length of the whole output.  An output that
is longer than an `int` can say makes it fail, and then the buffer holds nothing to rely on.
-/

namespace Bytes

/-- The bytes of a text. -/
def ascii (text : String) : List UInt8 := text.toUTF8.data.toList

/-- An `int` as `%d` writes it. -/
def intText (n : Int) : List UInt8 :=
  if n < 0 then 45 :: decimal n.natAbs else decimal n.natAbs

/-- The conversion of a size to `int`. -/
def toInt (n : Nat) : Int := Int.bmod n (2 ^ 32)

/-- A piece of a format, with the argument it takes. -/
inductive Piece where
  | text (s : String)
  /-- `%s`. -/
  | str (s : List UInt8)
  /-- `%d`. -/
  | int (n : Int)

/-- How a piece is written in the format. -/
def Piece.spelling : Piece → List UInt8
  | .text s => ascii s
  | .str _ => ascii "%s"
  | .int _ => ascii "%d"

/-- What a piece adds to the output. -/
def Piece.output : Piece → List UInt8
  | .text s => ascii s
  | .str s => s
  | .int n => intText n

/-- The format. -/
def spelling (pieces : List Piece) : List UInt8 := pieces.flatMap Piece.spelling

/-- The output. -/
def printf (pieces : List Piece) : List UInt8 := pieces.flatMap Piece.output

/-- `snprintf` of an output to a buffer: the buffer, and the length of the output. -/
def snprintf (m : Memory) (size : Nat) (output : List UInt8) : Option (Memory × Nat) :=
  if output.length < 2 ^ 31 then
    (store m 0 (output.take (size - 1) ++ [0])).map (·, output.length)
  else none

theorem toInt_of_lt {n : Nat} (h : n < 2 ^ 31) : toInt n = n := by
  have hhalf : (n : Int) < ((2 ^ 32 : Nat) + 1) / 2 := by omega
  exact Int.bmod_eq_of_le (by omega) hhalf

theorem intText_natCast (n : Nat) : intText n = decimal n := by
  rw [intText, if_neg (by omega), Int.natAbs_natCast]

variable {m : Memory} {size : Nat} {output : List UInt8}

/-- The buffer holds what fits, and a NUL. -/
theorem holds_snprintf (hsize : 0 < size) (hm : size ≤ m.length) (h : output.length < 2 ^ 31) :
    ∃ m', snprintf m size output = some (m', output.length) ∧ m'.length = m.length ∧
      Holds m' (output.take (size - 1) ++ [0]) := by
  have hle : (output.take (size - 1) ++ [0]).length ≤ m.length := by
    rw [List.length_append, List.length_take, List.length_singleton]
    omega
  obtain ⟨m', hstore, hlength, hholds⟩ :=
    holds_store (holds_nil m) (output.take (size - 1) ++ [0]) (by simpa using hle)
  refine ⟨m', ?_, hlength, hholds⟩
  rw [snprintf, if_pos h]
  exact congrArg (Option.map (·, output.length)) hstore

/-- A buffer of zeros holds what fits, filled up with zeros. -/
theorem snprintf_zeroed (h : output.length < 2 ^ 31) (size : Nat) :
    ∃ m, snprintf (zeroed (size + 1)) (size + 1) output = some (m, output.length) ∧
      m.take size = (block 0 size output).toList.map some := by
  have hlength : (output.take size ++ [0]).length = min size output.length + 1 := by
    rw [List.length_append, List.length_take, List.length_singleton]
  have hstore : store (zeroed (size + 1)) 0 (output.take size ++ [0]) =
      some (write (zeroed (size + 1)) 0 ((output.take size ++ [0]).map some)) := by
    apply store_of_le
    rw [hlength, length_zeroed]
    omega
  refine ⟨write (zeroed (size + 1)) 0 ((output.take size ++ [0]).map some), ?_, ?_⟩
  · rw [snprintf, if_pos h, Nat.add_sub_cancel, hstore, Option.map_some]
  · have hrest : size + 1 - (min size output.length + 1) = size - output.length := by omega
    rw [toList_block, write_zero, List.length_map, hlength, zeroed, List.drop_replicate, hrest,
      List.map_append, List.map_append, List.map_replicate, List.map_singleton, List.append_assoc,
      List.singleton_append, ← List.replicate_succ, List.take_append, List.take_replicate,
      List.take_of_length_le (by rw [List.length_map, List.length_take]; omega), List.length_map,
      List.length_take]
    congr 2
    omega

theorem snprintf_of_le (h : 2 ^ 31 ≤ output.length) : snprintf m size output = none :=
  if_neg (Nat.not_lt.mpr h)

end Bytes
