import TangleAccelerator.Common.Types
import TangleAccelerator.Json.Tree

/-!
# Helpers of the serializers

Functions of `ser_helper.c`, and texts of trytes.

The characters `9` and `A` to `Z` are trytes.  A length that is kept in an `int` is reduced modulo
`2 ^ 32`, and may come out small or negative for a text that is long.
-/

namespace TangleAccelerator

open Json

/-! ## Texts -/

/-- What `strncpy` copies, of at most so many characters. -/
def strncpy (text : String) (n : Nat) : String := String.ofList (text.toList.take n)

theorem length_strncpy_le (text : String) (n : Nat) : (strncpy text n).length ≤ n := by
  rw [strncpy, String.length_ofList, List.length_take]
  exact Nat.min_le_left _ _

theorem strncpy_of_length_le {text : String} {n : Nat} (h : text.length ≤ n) :
    strncpy text n = text := by
  rw [strncpy, List.take_of_length_le (by rwa [String.length_toList]), String.ofList_toList]

theorem ascii_strncpy {text : String} (h : Tree.Ascii text) (n : Nat) :
    Tree.Ascii (strncpy text n) := by
  intro c hc
  rw [strncpy, String.toList_ofList] at hc
  exact h c (List.mem_of_mem_take hc)

/-- What an `int` holds of a length. -/
def intOf (n : Nat) : Int := Int.bmod n (2 ^ 32)

/-! ## Members of a document -/

/-- `ta_json_get_string`. -/
def taJsonGetString (obj : Tree) (name : String) (size : Nat) : Except Status String :=
  match obj.member name with
  | none => .error .cclientJsonKey
  | some value =>
      match value.stringValue with
      | some text => .ok (strncpy text size)
      | none => .error .cclientJsonParse

theorem length_taJsonGetString_le {obj : Tree} {name text : String} {size : Nat}
    (h : taJsonGetString obj name size = .ok text) : text.length ≤ size := by
  unfold taJsonGetString at h
  split at h
  · cases h
  · split at h
    · cases h
      exact length_strncpy_le _ _
    · cases h

/-! ## Trytes -/

/-- The characters that are trytes. -/
def isTryteChar (c : Char) : Bool := !((c < 'A' || c > 'Z') && c != '9')

/-- `valid_tryte`. -/
def validTryte (trytes : String) (len : Int) : Bool :=
  (trytes.toList.take len.toNat).all isTryteChar

/-- The tryte of a character. -/
def tryteOf (c : Char) : Tryte :=
  if c = '9' then 0 else Fin.ofNat 27 (c.toNat - 'A'.toNat + 1)

/-- The trytes of a text. -/
def trytesOf (text : String) : List Tryte := text.toList.map tryteOf

/-- The character of a tryte. -/
def tryteChar (t : Tryte) : Char :=
  if t = 0 then '9' else Char.ofNat ('A'.toNat + t.val - 1)

/-- A text of trytes. -/
def tryteText (ts : List Tryte) : String := String.ofList (ts.map tryteChar)

theorem tryteOf_tryteChar (t : Tryte) : tryteOf (tryteChar t) = t := by
  revert t
  decide

theorem isTryteChar_tryteChar (t : Tryte) : isTryteChar (tryteChar t) = true := by
  revert t
  decide

@[simp] theorem trytesOf_tryteText (ts : List Tryte) : trytesOf (tryteText ts) = ts := by
  rw [trytesOf, tryteText, String.toList_ofList, List.map_map]
  exact (List.map_congr_left fun t _ => tryteOf_tryteChar t).trans (List.map_id _)

@[simp] theorem length_tryteText (ts : List Tryte) : (tryteText ts).length = ts.length := by
  rw [tryteText, String.length_ofList, List.length_map]

theorem validTryte_tryteText (ts : List Tryte) (len : Int) :
    validTryte (tryteText ts) len = true := by
  rw [validTryte, tryteText, String.toList_ofList, ← List.map_take, List.all_map, List.all_eq_true]
  intro t _
  exact isTryteChar_tryteChar t

/-- Texts of trytes are equal where the trytes are. -/
theorem tryteText_inj {ts ts' : List Tryte} (h : tryteText ts = tryteText ts') : ts = ts' := by
  rw [← trytesOf_tryteText ts, h, trytesOf_tryteText]

/-! ## Transactions -/

/-- `ta_iota_transaction_to_json_object`, into a new object.  `number` prints a number. -/
def taIotaTransactionToJsonObject (number : Int → String) (txn : Transaction) : Tree :=
  .object [
    ("hash", .string (tryteText txn.hash.toList)),
    ("signature_and_message_fragment", .string (tryteText txn.message.toList)),
    ("address", .string (tryteText txn.address.toList)),
    ("value", .number (number txn.value)),
    ("obsolete_tag", .string (tryteText txn.obsoleteTag.toList)),
    ("timestamp", .number (number txn.timestamp)),
    ("current_index", .number (number txn.currentIndex.toInt)),
    ("last_index", .number (number txn.lastIndex.toInt)),
    ("bundle_hash", .string (tryteText txn.bundle.toList)),
    ("trunk_transaction_hash", .string (tryteText txn.trunk.toList)),
    ("branch_transaction_hash", .string (tryteText txn.branch.toList)),
    ("tag", .string (tryteText txn.tag.toList)),
    ("attachment_timestamp", .number (number txn.attachmentTimestamp)),
    ("attachment_timestamp_lower_bound", .number (number txn.attachmentTimestampLower)),
    ("attachment_timestamp_upper_bound", .number (number txn.attachmentTimestampUpper)),
    ("nonce", .string (tryteText txn.nonce.toList))]

/-- `ta_bundle_transaction_to_json_array`: the member it adds to an object. -/
def taBundleTransactionToJsonArray (number : Int → String) (bundle : List Transaction)
    (objName : String) : String × Tree :=
  (objName, .array (bundle.map (taIotaTransactionToJsonObject number)))

/-- The hash is a member of its own. -/
theorem member_toJsonObject_hash (number : Int → String) (txn : Transaction) :
    (taIotaTransactionToJsonObject number txn).member "hash" =
      some (.string (tryteText txn.hash.toList)) := rfl

/-- No other member depends on the hash. -/
theorem member_toJsonObject_ne (number : Int → String) (txn : Transaction) (hash : Hash243)
    {name : String} (h : name ≠ "hash") :
    (taIotaTransactionToJsonObject number { txn with hash := hash }).member name =
      (taIotaTransactionToJsonObject number txn).member name := by
  simp only [taIotaTransactionToJsonObject, Tree.member, List.lookup_cons, beq_false_of_ne h]

/-- Objects of transactions that differ in the hash at most. -/
theorem toJsonObject_eq_iff (number : Int → String) (txn : Transaction) (hash : Hash243) :
    taIotaTransactionToJsonObject number { txn with hash := hash } =
      taIotaTransactionToJsonObject number txn ↔ hash = txn.hash := by
  constructor
  · intro h
    have hmember := congrArg (fun tree => tree.member "hash") h
    simp only [member_toJsonObject_hash, Option.some.injEq, Tree.string.injEq] at hmember
    exact Vector.toList_inj.mp (tryteText_inj hmember)
  · rintro rfl
    rfl

end TangleAccelerator
