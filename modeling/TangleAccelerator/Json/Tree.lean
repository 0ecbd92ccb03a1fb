import Mathlib

/-!
# JSON documents

A JSON document as a tree, with the ways of looking into it that `cJSON` offers, and a codec
between trees and texts.

A codec is lawful if it reads back what it prints.  That is asked for arrays and objects of ASCII
texts only, up to the depth the parser takes: nothing is said about numbers, or about characters
that may be printed as pairs of surrogates.
-/

namespace Json

/-- A JSON document. -/
inductive Tree where
  | null
  | bool (b : Bool)
  | number (literal : String)
  | string (text : String)
  | array (elems : List Tree)
  | object (members : List (String × Tree))

namespace Tree

/-! ## Looking into a document -/

/-- `cJSON_GetObjectItemCaseSensitive`: the first member with a name. -/
def member (name : String) : Tree → Option Tree
  | object members => members.lookup name
  | _ => none

/-- Names that differ in case only. -/
def sameName (name name' : String) : Bool :=
  name.toList.map Char.toLower == name'.toList.map Char.toLower

/-- `cJSON_HasObjectItem`, which looks at no case. -/
def hasMember (name : String) : Tree → Bool
  | object members => members.any fun m => sameName name m.1
  | _ => false

/-- `cJSON_GetObjectItem`: the first member with a name, whatever its case. -/
def memberAnyCase (name : String) : Tree → Option Tree
  | object members => (members.find? fun m => sameName name m.1).map Prod.snd
  | _ => none

/-- What `cJSON_ArrayForEach` goes through. -/
def children : Tree → List Tree
  | array elems => elems
  | object members => members.map Prod.snd
  | _ => []

/-- `cJSON_GetStringValue`. -/
def stringValue : Tree → Option String
  | string text => some text
  | _ => none

/-! ## Texts -/

/-- A C string of ASCII characters. -/
def Ascii (text : String) : Prop := ∀ c ∈ text.toList, 0 < c.toNat ∧ c.toNat < 128

instance (text : String) : Decidable (Ascii text) :=
  inferInstanceAs (Decidable (∀ c ∈ text.toList, _))

/-- Arrays and objects of ASCII texts, nested at most so deep. -/
inductive Plain : Nat → Tree → Prop where
  | string {depth : Nat} {text : String} (h : Ascii text) : Plain depth (string text)
  | array {depth : Nat} {elems : List Tree} (h : ∀ e ∈ elems, Plain depth e) :
      Plain (depth + 1) (array elems)
  | object {depth : Nat} {members : List (String × Tree)} (names : ∀ m ∈ members, Ascii m.1)
      (values : ∀ m ∈ members, Plain depth m.2) : Plain (depth + 1) (object members)

end Tree

/-- A printer and a parser. -/
structure Codec where
  /-- The texts. -/
  Text : Type
  /-- `cJSON_PrintUnformatted`. -/
  print : Tree → Text
  /-- `cJSON_Parse`. -/
  parse : Text → Option Tree

/-- `CJSON_NESTING_LIMIT`. -/
def nestingLimit : Nat := 1000

/-- What is printed is read back. -/
structure Codec.Lawful (C : Codec) : Prop where
  parse_print : ∀ {t : Tree}, t.Plain nestingLimit → C.parse (C.print t) = some t

/-- The codec whose texts are the trees. -/
def Codec.trees : Codec := ⟨Tree, id, some⟩

theorem Codec.lawful_trees : Codec.trees.Lawful := ⟨fun _ => rfl⟩

end Json
