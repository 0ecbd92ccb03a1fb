import Mathlib.Algebra.BigOperators.Fin
import Mathlib.Data.Int.ModEq
import TangleAccelerator.Core.TextBuffers

/-!
# Proxy APIs

`proxy_api_wrapper` hands a request of the node's own API to the function for its command.  The
command is not compared with the names.  Its DJB2 hash is, with six numbers that are the hashes of
the names.

The hash of a text is a number to the base 33, with the characters as digits and 5381 in front of
them, and 32 bits of it are kept.  The digits are larger than the base, so texts of the same length
may stand for the same number.
-/

namespace TangleAccelerator.Proxy

open CString (Block)
open Json (Tree)

/-! ## The hash -/

/-- A `char` as an `int`. -/
def signedChar (c : Char) : Int := (BitVec.ofNat 8 c.toNat).toInt

/-- The body of the loop of `hash_algo_djb2`. -/
def djb2Step (hash : BitVec 32) (c : Char) : BitVec 32 :=
  hash <<< 5 + hash + BitVec.ofInt 32 (signedChar c)

/-- The loop of `hash_algo_djb2`.  It is `none` if the memory ends before a NUL. -/
def djb2Loop : BitVec 32 → List Char → Option (BitVec 32)
  | _, [] => none
  | hash, c :: str => if c = CString.nul then some hash else djb2Loop (djb2Step hash c) str

/-- `hash_algo_djb2`. -/
def hashAlgoDjb2 (str : List Char) : Option (BitVec 32) := djb2Loop 5381 str

/-- The characters of a text as digits to the base 33, behind some number. -/
def digits (a : Int) (s : List Char) : Int :=
  a * 33 ^ s.length + ∑ i : Fin s.length, signedChar s[i] * 33 ^ (s.length - 1 - i)

theorem digits_nil (a : Int) : digits a [] = a := by
  simp [digits]

theorem digits_cons (a : Int) (c : Char) (s : List Char) :
    digits a (c :: s) = digits (a * 33 + signedChar c) s := by
  have hexp (i : Fin s.length) : s.length + 1 - 1 - (i.succ : Nat) = s.length - 1 - i := by
    rw [Fin.val_succ]
    omega
  simp only [digits, List.length_cons, Fin.sum_univ_succ, hexp]
  simp
  ring

theorem djb2Step_ofInt (a : Int) (c : Char) :
    djb2Step (BitVec.ofInt 32 a) c = BitVec.ofInt 32 (a * 33 + signedChar c) := by
  have hshift (x : BitVec 32) : x <<< 5 + x = x * 33 := by bv_omega
  rw [djb2Step, hshift, BitVec.ofInt_add, BitVec.ofInt_mul]
  rfl

theorem foldl_djb2Step (a : Int) (s : List Char) :
    s.foldl djb2Step (BitVec.ofInt 32 a) = BitVec.ofInt 32 (digits a s) := by
  induction s generalizing a with
  | nil => rw [List.foldl_nil, digits_nil]
  | cons c s ih => rw [List.foldl_cons, djb2Step_ofInt, ih, digits_cons]

/-- The loop goes over the text that the memory holds. -/
theorem djb2Loop_eq (hash : BitVec 32) (str : List Char) :
    djb2Loop hash str = (CString.read str).map (List.foldl djb2Step hash) := by
  induction str generalizing hash with
  | nil => rfl
  | cons c str ih =>
    rw [djb2Loop]
    by_cases hc : c = CString.nul
    · rw [if_pos hc, hc, CString.read_nul_cons]
      rfl
    · have hfree : CString.NulFree [c] := by
        rw [CString.NulFree, List.mem_singleton]
        exact Ne.symm hc
      rw [if_neg hc, ih, ← List.singleton_append, CString.read_append hfree, Option.map_map]
      rfl

theorem hashAlgoDjb2_eq {str s : List Char} (h : CString.read str = some s) :
    hashAlgoDjb2 str = some (BitVec.ofInt 32 (digits 5381 s)) := by
  rw [hashAlgoDjb2, djb2Loop_eq, h, Option.map_some]
  exact congrArg some (foldl_djb2Step 5381 s)

theorem ofInt_eq_ofInt_iff {a b : Int} :
    BitVec.ofInt 32 a = BitVec.ofInt 32 b ↔ a ≡ b [ZMOD 2 ^ 32] := by
  rw [← BitVec.toNat_inj, BitVec.toNat_ofInt, BitVec.toNat_ofInt, Int.ModEq]
  omega

/-! ## The commands -/

/-- The functions of the proxy. -/
inductive Api where
  | checkConsistency
  | findTransactions
  | getBalances
  | getInclusionStates
  | getNodeInfo
  | getTrytes
deriving DecidableEq, Repr

namespace Api

/-- The name of a function. -/
def name : Api → String
  | checkConsistency => "checkConsistency"
  | findTransactions => "findTransactions"
  | getBalances => "getBalances"
  | getInclusionStates => "getInclusionStates"
  | getNodeInfo => "getNodeInfo"
  | getTrytes => "getTrytes"

/-- The number in the `switch`. -/
def number : Api → BitVec 32
  | checkConsistency => 3512812181
  | findTransactions => 1314581663
  | getBalances => 185959358
  | getInclusionStates => 3627925933
  | getNodeInfo => 1097192119
  | getTrytes => 3016694096

/-- The numbers are the hashes of the names. -/
theorem number_eq (api : Api) : api.number = BitVec.ofInt 32 (digits 5381 api.name.toList) := by
  rw [← foldl_djb2Step]
  cases api <;> decide

end Api

/-- The cases of the `switch`. -/
def apis : List Api :=
  [.checkConsistency, .findTransactions, .getBalances, .getInclusionStates, .getNodeInfo,
    .getTrytes]

theorem mem_apis (api : Api) : api ∈ apis := by
  cases api <;> decide

theorem find_number (api : Api) : apis.find? (·.number = api.number) = some api := by
  cases api <;> decide

theorem find_name (api : Api) : apis.find? (·.name.toList = api.name.toList) = some api := by
  cases api <;> decide

/-! ## The functions -/

/-- What the functions run on: the serializer of the client, and the calls to the node. -/
structure Service (Text Req Res : Type) where
  query : Text → Option Text
  deserializeRequest : Api → Text → Option Req
  call : Api → Option Req → Option Res
  serializeResponse : Api → Res → Option Text

section Functions

variable {Text Req Res : Type} (S : Service Text Req Res)

/-- The call to the node, and its answer as a text. -/
def respond (api : Api) (req : Option Req) : Except Status Text :=
  match S.call api req with
  | none => .error .cclientFailedResponse
  | some res =>
      match S.serializeResponse api res with
      | none => .error .cclientJsonParse
      | some text => .ok text

/-- What the functions that take a request have in common. -/
def request (api : Api) (obj : Text) : Except Status Text :=
  match S.deserializeRequest api obj with
  | none => .error .cclientJsonParse
  | some req => respond S api (some req)

/-- `api_check_consistency`. -/
def apiCheckConsistency (obj : Text) : Except Status Text := request S .checkConsistency obj

/-- `api_find_transactions`. -/
def apiFindTransactions (obj : Text) : Except Status Text := request S .findTransactions obj

/-- `api_get_balances`. -/
def apiGetBalances (obj : Text) : Except Status Text := request S .getBalances obj

/-- `api_get_inclusion_states`. -/
def apiGetInclusionStates (obj : Text) : Except Status Text := request S .getInclusionStates obj

/-- `api_get_node_info`. -/
def apiGetNodeInfo : Except Status Text := respond S .getNodeInfo none

/-- `api_get_trytes`. -/
def apiGetTrytes (obj : Text) : Except Status Text := request S .getTrytes obj

/-- The function in a case of the `switch`. -/
def Api.handle (obj : Text) : Api → Except Status Text
  | checkConsistency => apiCheckConsistency S obj
  | findTransactions => apiFindTransactions S obj
  | getBalances => apiGetBalances S obj
  | getInclusionStates => apiGetInclusionStates S obj
  | getNodeInfo => apiGetNodeInfo S
  | getTrytes => apiGetTrytes S obj

/-- What the wrapper does: the function it calls, and its result. -/
structure Wrapped (Text : Type) where
  called : Option Api
  result : Except Status Text

/-- A case of the `switch`, or its default. -/
def wrapped (obj : Text) : Option Api → Wrapped Text
  | some api => ⟨some api, api.handle S obj⟩
  | none => ⟨none, .error .httpCommandNotMatch⟩

end Functions

section Wrapper

variable {Req Res : Type} {C : Json.Codec} (S : Service C.Text Req Res)

/-- `proxy_api_wrapper`.  The buffer for the command is not cleared, and the result of reading the
command is not looked at.  It is `none` if memory outside of the buffer is written or read. -/
def proxyApiWrapper (passthrough : Bool) (obj : C.Text) (command : Block TextBuffers.maxCmdLen) :
    Option (Wrapped C.Text) :=
  if passthrough then
    match S.query obj with
    | none => some ⟨none, .error .cclientFailedResponse⟩
    | some res => some ⟨none, .ok res⟩
  else do
    let command ← match TextBuffers.proxyApisCommandReqDeserialize C obj command with
      | .ok after => after
      -- the buffer is hashed as it was
      | .error _ => some command
    let hash ← hashAlgoDjb2 command.cells
    return wrapped S obj (apis.find? (·.number = hash))

/-- The wrapper as it would be with names in its cases. -/
def byName (obj : C.Text) (command : List Char) : Wrapped C.Text :=
  wrapped S obj (apis.find? (·.name.toList = command))

variable {S} {obj : C.Text}

theorem wrapped_eq_none_iff {selected : Option Api} :
    wrapped S obj selected = wrapped S obj none ↔ selected = none := by
  constructor
  · intro h
    cases selected with
    | none => rfl
    | some api => cases congrArg Wrapped.called h
  · rintro rfl
    rfl

/-- A command that is a string is read into the buffer, and its hash selects the case. -/
theorem proxyApiWrapper_eq {json : Tree} {value : String} (hparse : C.parse obj = some json)
    (hmember : json.member "command" = some (.string value))
    (hlen : (CString.text value.toList).length ≤ 29) (command : Block TextBuffers.maxCmdLen) :
    proxyApiWrapper S false obj command = some (wrapped S obj (apis.find?
      (·.number = BitVec.ofInt 32 (digits 5381 (CString.text value.toList))))) := by
  have hok : TextBuffers.proxyApisCommandReqDeserialize C obj command =
      .ok (command.strncpy (CString.text value.toList) TextBuffers.maxCmdLen) :=
    TextBuffers.deserializeText_eq_ok_iff.mpr ⟨json, value, hparse, hmember, rfl⟩
  obtain ⟨block, hblock, -⟩ := command.strncpy_self (CString.text value.toList)
  have hread : CString.read block.cells = some (CString.text value.toList) :=
    (Block.read_strncpy_self_iff (CString.nulFree_text _) hblock).mpr
      ⟨Nat.lt_succ_of_le hlen, rfl⟩
  rw [proxyApiWrapper, if_neg Bool.false_ne_true, hok, hblock]
  simp only [Option.bind_eq_bind, Option.bind_some, hashAlgoDjb2_eq hread]
  rfl

/-- A command of at most 29 characters is handled as if it were compared with the names, exactly if
it is a name or none of the names stands for the same number modulo `2 ^ 32`. -/
theorem proxyApiWrapper_eq_byName_iff {json : Tree} {value : String}
    (hparse : C.parse obj = some json) (hmember : json.member "command" = some (.string value))
    (hlen : (CString.text value.toList).length ≤ 29) (command : Block TextBuffers.maxCmdLen) :
    proxyApiWrapper S false obj command = some (byName S obj (CString.text value.toList)) ↔
      (∃ api : Api, CString.text value.toList = api.name.toList) ∨
      ∀ api : Api, ¬ digits 5381 (CString.text value.toList) ≡
        digits 5381 api.name.toList [ZMOD 2 ^ 32] := by
  rw [proxyApiWrapper_eq hparse hmember hlen, Option.some_inj, byName]
  -- a name selects its own case by its number; any other command has to select none
  generalize CString.text value.toList = s
  by_cases hname : ∃ api : Api, s = api.name.toList
  · refine iff_of_true ?_ (.inl hname)
    obtain ⟨api, rfl⟩ := hname
    rw [← api.number_eq, find_number, find_name]
  · have hnone : apis.find? (·.name.toList = s) = none := by
      rw [List.find?_eq_none]
      intro api _ hapi
      exact hname ⟨api, (of_decide_eq_true hapi).symm⟩
    rw [hnone, wrapped_eq_none_iff, or_iff_right hname, List.find?_eq_none]
    constructor
    · intro h api hmod
      refine h api (mem_apis api) (decide_eq_true ?_)
      rw [api.number_eq, ofInt_eq_ofInt_iff]
      exact hmod.symm
    · intro h api _ hapi
      refine h api (Int.ModEq.symm ?_)
      rw [← ofInt_eq_ofInt_iff, ← api.number_eq]
      exact of_decide_eq_true hapi

end Wrapper

/-- A service whose node answers every call. -/
def Sample.service : Service Tree Unit Unit :=
  ⟨fun _ => none, fun _ _ => some (), fun _ _ => some (), fun _ _ => some .null⟩

/-- The command of a name. -/
theorem proxyApiWrapper_getNodeInfo :
    proxyApiWrapper Sample.service (C := Json.Codec.trees) false
      (TextBuffers.Sample.oneText "command" "getNodeInfo") (Block.zero 30) =
    some (byName Sample.service (C := Json.Codec.trees)
      (TextBuffers.Sample.oneText "command" "getNodeInfo") "getNodeInfo".toList) := by
  have hmember : (TextBuffers.Sample.oneText "command" "getNodeInfo").member "command" =
      some (.string "getNodeInfo") := rfl
  exact (proxyApiWrapper_eq_byName_iff rfl hmember (by decide) (Block.zero 30)).mpr
    (.inl ⟨.getNodeInfo, rfl⟩)

/-- A command that is not a name, with the hash of one. -/
theorem proxyApiWrapper_getTrytfR :
    (proxyApiWrapper Sample.service (C := Json.Codec.trees) false
      (TextBuffers.Sample.oneText "command" "getTrytfR") (Block.zero 30)).map Wrapped.called =
        some (some .getTrytes) ∧
    (byName Sample.service (C := Json.Codec.trees)
      (TextBuffers.Sample.oneText "command" "getTrytfR") "getTrytfR".toList).called = none := by
  decide

end TangleAccelerator.Proxy
