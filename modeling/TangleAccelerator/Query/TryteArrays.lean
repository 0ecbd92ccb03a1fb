import TangleAccelerator.Core.TextBuffers
import TangleAccelerator.Query.TransferReq

/-!
# Arrays of trytes

The hashes of a request for transactions and the transactions of `send_trytes`, as JSON arrays and
back.

Both readers go through the array and skip every element that is not a text.  The one for hashes
then reads 81 characters, however many there are: the rest of a longer text is dropped, and a
shorter one is read past its end.  So it accepts every array, and keeps exactly those that are made
of hashes.  The one for transactions compares the length first, but looks at no character.

The writers differ in what they do with no element at all.  For hashes that is an error.  For
transactions the member is left out, and the reader does not take that back.

How `flex_trits_from_trytes` reads characters that are no trytes is left open.
-/

namespace TangleAccelerator

open Json (Tree)

/-- `NUM_TRYTES_SERIALIZED_TRANSACTION`. -/
abbrev numTrytesSerializedTransaction : Nat := 2673

namespace TryteArrays

/-! ## Trits -/

/-- `flex_trits_from_trytes`, of as many characters. -/
structure FlexTrits where
  fromTrytes : (n : Nat) → List Char → Vector Tryte n

/-- Trytes are read as what they are. -/
def FlexTrits.ReadsTrytes (F : FlexTrits) : Prop :=
  ∀ {n : Nat} (trytes : Vector Tryte n), F.fromTrytes n (tryteChars trytes) = trytes

/-- `flex_trits_to_trytes`: the trytes, and the number of trits. -/
def flexTritsToTrytes {n : Nat} (flexTrits : Vector Tryte n) : List Char × Nat :=
  (tryteChars flexTrits, 3 * n)

/-- Trytes as an element. -/
def tryteTree {n : Nat} (trytes : Vector Tryte n) : Tree :=
  .string (String.ofList (tryteChars trytes))

@[simp] theorem valuestring_tryteTree {n : Nat} (trytes : Vector Tryte n) :
    (tryteTree trytes).valuestring = some (tryteChars trytes) := by
  rw [tryteTree, Tree.valuestring, String.toList_ofList, CString.text_of_nulFree nulFree_tryteChars]

theorem exists_eq_map_tryteTree {n : Nat} {elems : List Tree}
    (h : ∀ e ∈ elems, ∃ trytes : Vector Tryte n, e = tryteTree trytes) :
    ∃ array : List (Vector Tryte n), elems = array.map tryteTree := by
  have hrange : elems ∈ Set.range (List.map (tryteTree (n := n))) := by
    rw [Set.range_list_map]
    intro e he
    obtain ⟨trytes, rfl⟩ := h e he
    exact ⟨trytes, rfl⟩
  obtain ⟨array, harray⟩ := hrange
  exact ⟨array, harray.symm⟩

theorem length_of_eq_tryteTree {n : Nat} {text : String} {trytes : Vector Tryte n}
    (h : Tree.string text = tryteTree trytes) : text.length = n := by
  rw [Tree.string.inj h, String.length_ofList, length_tryteChars]

/-- The loops of the writers.  They differ in the status of a failure. -/
def addEach {n : Nat} (failure : Status) : List (Vector Tryte n) → List Tree →
    Except Status (List Tree)
  | [], array => .ok array
  | elt :: rest, array =>
      let (trytesOut, tritsCount) := flexTritsToTrytes elt
      if tritsCount ≠ 0 then addEach failure rest (array ++ [.string (String.ofList trytesOut)])
      else .error failure

theorem addEach_eq_ok {n : Nat} (failure : Status) (elts : List (Vector Tryte (n + 1)))
    (array : List Tree) : addEach failure elts array = .ok (array ++ elts.map tryteTree) := by
  induction elts generalizing array with
  | nil => rw [addEach, List.map_nil, List.append_nil]
  | cons elt rest ih =>
    rw [addEach, flexTritsToTrytes]
    simp only
    rw [if_pos (by omega), ih, List.append_assoc, List.singleton_append, List.map_cons, tryteTree]

/-! ## Hashes -/

section Hashes

variable (F : FlexTrits) (memory : Nat → Bool)

/-- The loop of `ta_json_array_to_hash243_queue`, or `none` if it reads past the end of a text.
`memory` says of a queue of each length whether `hash243_queue_push` can make it longer. -/
def pushHashes : List Tree → List Hash243 → Option (Except Status (List Hash243))
  | [], queue => some (.ok queue)
  | current :: rest, queue =>
      match current.valuestring with
      | none => pushHashes rest queue
      | some s =>
          if s.length < numTrytesHash then none
          else if memory queue.length then
            pushHashes rest (queue ++ [F.fromTrytes numTrytesHash (s.take numTrytesHash)])
          else some (.error .serializerJsonParse)

/-- `ta_json_array_to_hash243_queue`. -/
def taJsonArrayToHash243Queue (obj : Tree) (objName : String) (queue : List Hash243) :
    Option (Except Status (List Hash243)) :=
  match obj.member objName with
  | none => some (.error .serializerNull)
  | some (.array elems) => pushHashes F memory elems queue
  | some _ => some (.error .serializerJsonParse)

/-- `ta_hash243_queue_to_json_array`. -/
def taHash243QueueToJsonArray (queue : List Hash243) (array : List Tree) :
    Except Status (List Tree) :=
  if 0 < queue.length then addEach .cclientInvalidFlexTrits queue array
  else .error .cclientNotFound

/-- `ta_find_transaction_objects_req_deserialize`. -/
def taFindTransactionObjectsReqDeserialize (C : Json.Codec) (obj : C.Text) (hashes : List Hash243) :
    Option (Except Status (List Hash243)) :=
  match C.parse obj with
  | none => some (.error .serializerJsonParse)
  | some json => taJsonArrayToHash243Queue F memory json "hashes" hashes

end Hashes

/-- What a reader of an array of hashes makes of it: it accepts hashes and nothing else, keeps them
all in their order, and reads no more. -/
structure KeepsHashes (elems : List Tree) (read : Option (Except Status (List Hash243))) :
    Prop where
  inside : read ≠ none
  accepts : (∃ queue, read = some (.ok queue)) ↔ ∀ e ∈ elems, ∃ hash : Hash243, e = tryteTree hash
  kept : ∀ queue, read = some (.ok queue) → elems = queue.map tryteTree
  back : ∀ queue, read = some (.ok queue) → queue ≠ [] →
    taHash243QueueToJsonArray queue [] = .ok elems

section KeepsHashes

variable {F : FlexTrits} {memory : Nat → Bool}

/-- Hashes are all pushed. -/
theorem pushHashes_map (hF : F.ReadsTrytes) (hmemory : ∀ n, memory n = true)
    (hashes queue : List Hash243) :
    pushHashes F memory (hashes.map tryteTree) queue = some (.ok (queue ++ hashes)) := by
  induction hashes generalizing queue with
  | nil => rw [List.map_nil, pushHashes, List.append_nil]
  | cons hash rest ih =>
    rw [List.map_cons, pushHashes, valuestring_tryteTree]
    dsimp only
    rw [if_neg (by rw [length_tryteChars]; exact lt_irrefl _), if_pos (hmemory _),
      List.take_of_length_le length_tryteChars.le, hF, ih, List.append_assoc, List.singleton_append]

/-- With memory, no array is rejected. -/
theorem pushHashes_ne_error (hmemory : ∀ n, memory n = true) (elems : List Tree)
    (queue : List Hash243) (e : Status) : pushHashes F memory elems queue ≠ some (.error e) := by
  fun_induction pushHashes F memory elems queue with
  | case1 queue => simp
  | case2 queue current rest hvalue ih => exact ih
  | case3 queue current rest s hvalue hlen => simp
  | case4 queue current rest s hvalue hlen hmem ih => exact ih
  | case5 queue current rest s hvalue hlen hmem => exact absurd (hmemory _) hmem

/-- An array of hashes is kept exactly if all its elements are hashes. -/
theorem keepsHashes_iff (hF : F.ReadsTrytes) (hmemory : ∀ n, memory n = true) {C : Json.Codec}
    {obj : C.Text} {json : Tree} {elems : List Tree} (hparse : C.parse obj = some json)
    (hmember : json.member "hashes" = some (.array elems)) :
    KeepsHashes elems (taFindTransactionObjectsReqDeserialize F memory C obj []) ↔
      ∀ e ∈ elems, ∃ hash : Hash243, e = tryteTree hash := by
  have hread : taFindTransactionObjectsReqDeserialize F memory C obj [] =
      pushHashes F memory elems [] := by
    rw [taFindTransactionObjectsReqDeserialize, hparse]
    dsimp only
    rw [taJsonArrayToHash243Queue, hmember]
  rw [hread]
  constructor
  · intro h
    cases hpush : pushHashes F memory elems [] with
    | none => exact absurd hpush h.inside
    | some r =>
      cases r with
      | error e => exact absurd hpush (pushHashes_ne_error hmemory elems [] e)
      | ok queue => exact h.accepts.mp ⟨queue, hpush⟩
  · intro h
    obtain ⟨hashes, rfl⟩ := exists_eq_map_tryteTree h
    have hpush := pushHashes_map hF hmemory hashes []
    rw [List.nil_append] at hpush
    rw [hpush]
    refine ⟨Option.some_ne_none _, ⟨fun _ => h, fun _ => ⟨hashes, rfl⟩⟩, ?_, ?_⟩
    · intro queue hqueue
      cases hqueue
      rfl
    · intro queue hqueue hne
      cases hqueue
      rw [taHash243QueueToJsonArray, if_pos (List.length_pos_iff.mpr hne), addEach_eq_ok,
        List.nil_append]

end KeepsHashes

namespace Sample

/-- Characters that are no trytes are read as some tryte. -/
def flexTrits : FlexTrits := ⟨fun n s => Vector.ofFn fun i : Fin n => tryteOf (s.getD i '9')⟩

theorem readsTrytes_flexTrits : flexTrits.ReadsTrytes := by
  intro n trytes
  apply Vector.ext
  intro i hi
  simp [flexTrits, tryteChars, tryteOf_tryteChar]

/-- What is read of the hashes of a request. -/
def readHashes (elems : List Tree) : Option (Except Status (List Hash243)) :=
  taFindTransactionObjectsReqDeserialize flexTrits (fun _ => true) Json.Codec.trees
    (.object [("hashes", .array elems)]) []

end Sample

theorem keepsHashes_one : KeepsHashes [tryteTree (Vector.replicate 81 1)]
    (Sample.readHashes [tryteTree (Vector.replicate 81 1)]) := by
  refine (keepsHashes_iff Sample.readsTrytes_flexTrits (fun _ => rfl) rfl rfl).mpr ?_
  intro e he
  exact ⟨_, List.mem_singleton.mp he⟩

/-- A number is skipped, a short text is read past its end, and a long one is cut. -/
theorem not_keepsHashes :
    ¬ KeepsHashes [.number "1"] (Sample.readHashes [.number "1"]) ∧
    ¬ KeepsHashes [.string "9"] (Sample.readHashes [.string "9"]) ∧
    ¬ KeepsHashes [.string (TextBuffers.Sample.nines 82)]
      (Sample.readHashes [.string (TextBuffers.Sample.nines 82)]) := by
  refine ⟨?_, ?_, ?_⟩
  · intro h
    cases h.kept [] rfl
  · intro h
    exact h.inside rfl
  · intro h
    have hread : Sample.readHashes [.string (TextBuffers.Sample.nines 82)] =
        some (.ok [Vector.replicate 81 0]) := by decide
    obtain ⟨hash, hhash⟩ := h.accepts.mp ⟨_, hread⟩ _ List.mem_cons_self
    exact absurd (length_of_eq_tryteTree hhash) (by decide)

/-! ## Transactions -/

section Transactions

variable (F : FlexTrits)

/-- The loop of `ta_json_array_to_hash8019_array`. -/
def pushTrytes : List Tree → List Hash8019 → Except Status (List Hash8019)
  | [], array => .ok array
  | current :: rest, array =>
      match current.valuestring with
      | none => pushTrytes rest array
      | some s =>
          if s.length ≠ numTrytesSerializedTransaction then .error .serializerInvalidReq
          else pushTrytes rest (array ++ [F.fromTrytes numTrytesSerializedTransaction s])

/-- `ta_json_array_to_hash8019_array`. -/
def taJsonArrayToHash8019Array (obj : Tree) (objName : String) (array : List Hash8019) :
    Except Status (List Hash8019) :=
  match obj.member objName with
  | some (.array elems) => pushTrytes F elems array
  | _ => .error .cclientJsonParse

/-- `ta_hash8019_array_to_json_array`. -/
def taHash8019ArrayToJsonArray (array : List Hash8019) (objName : String)
    (root : List (String × Tree)) : Except Status (List (String × Tree)) :=
  if 0 < array.length then
    (addEach .cclientFlexTrits array []).map fun arrayObj => root ++ [(objName, .array arrayObj)]
  else .ok root

/-- `ta_send_trytes_req_deserialize`. -/
def taSendTrytesReqDeserialize (C : Json.Codec) (obj : C.Text) (outTrytes : List Hash8019) :
    Except Status (List Hash8019) :=
  match C.parse obj with
  | none => .error .serializerJsonParse
  | some json => taJsonArrayToHash8019Array F json "trytes" outTrytes

/-- `ta_send_trytes_res_serialize`. -/
def taSendTrytesResSerialize (C : Json.Codec) (trytes : List Hash8019) : Except Status C.Text :=
  (taHash8019ArrayToJsonArray trytes "trytes" []).map fun root => C.print (.object root)

end Transactions

section Codec

variable {F : FlexTrits}

/-- Transactions are all pushed. -/
theorem pushTrytes_map (hF : F.ReadsTrytes) (trytes array : List Hash8019) :
    pushTrytes F (trytes.map tryteTree) array = .ok (array ++ trytes) := by
  induction trytes generalizing array with
  | nil => rw [List.map_nil, pushTrytes, List.append_nil]
  | cons elt rest ih =>
    rw [List.map_cons, pushTrytes, valuestring_tryteTree]
    dsimp only
    rw [if_neg (not_not.mpr length_tryteChars), hF, ih, List.append_assoc, List.singleton_append]

/-- A text of trytes. -/
def IsTrytes (e : Tree) : Prop := ∃ text, e = .string text ∧ ∀ c ∈ text.toList, isTryteChar c = true

/-- An accepted text of trytes has the right number of them. -/
theorem eq_tryteTree_of_isTrytes {n : Nat} {e : Tree} {s : List Char} (h : IsTrytes e)
    (hs : e.valuestring = some s) (hlen : s.length = n) :
    ∃ trytes : Vector Tryte n, e = tryteTree trytes := by
  obtain ⟨text, rfl, htext⟩ := h
  have hfree : CString.NulFree text.toList := by
    intro hnul
    exact absurd (htext _ hnul) (by decide)
  rw [Tree.valuestring, CString.text_of_nulFree hfree, Option.some.injEq] at hs
  subst hs
  refine ⟨⟨(text.toList.map tryteOf).toArray, by simpa using hlen⟩, ?_⟩
  have hchars : (text.toList.map tryteOf).map tryteChar = text.toList := by
    rw [List.map_map]
    exact (List.map_congr_left fun c hc => tryteChar_tryteOf (htext c hc)).trans (List.map_id _)
  rw [tryteTree, tryteChars, Vector.toList_mk, List.toList_toArray, hchars, String.ofList_toList]

/-- Texts of trytes that are accepted are pushed one by one. -/
theorem pushTrytes_eq_ok {elems : List Tree} {array array' : List Hash8019}
    (helems : ∀ e ∈ elems, IsTrytes e) (h : pushTrytes F elems array = .ok array') :
    (∀ e ∈ elems, ∃ trytes : Hash8019, e = tryteTree trytes) ∧
      array'.length = array.length + elems.length := by
  induction elems generalizing array with
  | nil =>
    cases h
    exact ⟨fun e he => absurd he List.not_mem_nil, rfl⟩
  | cons e rest ih =>
    have he := helems e List.mem_cons_self
    have hrest : ∀ e ∈ rest, IsTrytes e := fun e he => helems e (List.mem_cons_of_mem _ he)
    have hs : ∃ s, e.valuestring = some s := by
      obtain ⟨text, rfl, -⟩ := he
      exact ⟨_, rfl⟩
    obtain ⟨s, hs⟩ := hs
    rw [pushTrytes, hs] at h
    dsimp only at h
    split at h
    · cases h
    · rename_i hlen
      obtain ⟨htrytes, hlength⟩ := ih hrest h
      refine ⟨?_, by simp at hlength ⊢; omega⟩
      intro e' he'
      rcases List.mem_cons.mp he' with rfl | he'
      · exact eq_tryteTree_of_isTrytes he hs (not_not.mp hlen)
      · exact htrytes e' he'

theorem isTrytes_tryteTree {n : Nat} (trytes : Vector Tryte n) : IsTrytes (tryteTree trytes) := by
  refine ⟨_, rfl, ?_⟩
  intro c hc
  rw [String.toList_ofList, tryteChars, List.mem_map] at hc
  obtain ⟨t, -, rfl⟩ := hc
  exact isTryteChar_tryteChar t

/-- What is written of transactions. -/
theorem taSendTrytesResSerialize_of_ne_nil (C : Json.Codec) {trytes : List Hash8019}
    (h : trytes ≠ []) :
    taSendTrytesResSerialize C trytes =
      .ok (C.print (.object [("trytes", .array (trytes.map tryteTree))])) := by
  rw [taSendTrytesResSerialize, taHash8019ArrayToJsonArray, if_pos (List.length_pos_iff.mpr h),
    addEach_eq_ok]
  rfl

theorem plain_trytes (trytes : List Hash8019) :
    (Tree.object [("trytes", .array (trytes.map tryteTree))]).Plain Json.nestingLimit := by
  have helems : ∀ e ∈ trytes.map tryteTree, e.Plain 998 := by
    intro e he
    obtain ⟨elt, -, rfl⟩ := List.mem_map.mp he
    exact .string ascii_tryteChars
  refine .object ?_ ?_
  · intro m hm
    rw [List.mem_singleton.mp hm]
    simp [Tree.Ascii]
  · intro m hm
    rw [List.mem_singleton.mp hm]
    exact .array helems

/-- Transactions are read back from what is written of them exactly if there is one. -/
theorem sendTrytes_roundTrip_iff (hF : F.ReadsTrytes) {C : Json.Codec} (hC : C.Lawful)
    (trytes : List Hash8019) :
    (∃ text, taSendTrytesResSerialize C trytes = .ok text ∧
      taSendTrytesReqDeserialize F C text [] = .ok trytes) ↔ trytes ≠ [] := by
  constructor
  · rintro ⟨text, hprint, hread⟩ rfl
    -- the member is left out
    cases hprint
    have hplain : (Tree.object []).Plain Json.nestingLimit :=
      .object (fun m hm => absurd hm List.not_mem_nil) (fun m hm => absurd hm List.not_mem_nil)
    rw [taSendTrytesReqDeserialize, hC.parse_print hplain] at hread
    cases hread
  · intro hne
    refine ⟨_, taSendTrytesResSerialize_of_ne_nil C hne, ?_⟩
    rw [taSendTrytesReqDeserialize, hC.parse_print (plain_trytes trytes)]
    exact pushTrytes_map hF trytes []

/-- Transactions that are accepted are all pushed exactly if the elements are texts of trytes. -/
theorem sendTrytes_accepted_iff {C : Json.Codec} {obj : C.Text} {array : List Hash8019}
    (h : taSendTrytesReqDeserialize F C obj [] = .ok array) :
    ∃ json elems, C.parse obj = some json ∧ json.member "trytes" = some (.array elems) ∧
      ((∀ e ∈ elems, ∃ trytes : Hash8019, e = tryteTree trytes) ∧ array.length = elems.length ↔
        ∀ e ∈ elems, IsTrytes e) := by
  rw [taSendTrytesReqDeserialize] at h
  split at h
  · cases h
  · rename_i json hparse
    rw [taJsonArrayToHash8019Array] at h
    split at h
    · rename_i elems hmember
      refine ⟨json, elems, hparse, hmember, ?_, ?_⟩
      · rintro ⟨htrytes, -⟩ e he
        obtain ⟨trytes, rfl⟩ := htrytes e he
        exact isTrytes_tryteTree trytes
      · intro helems
        have hpushed := pushTrytes_eq_ok helems h
        rwa [List.length_nil, Nat.zero_add] at hpushed
    · cases h

/-- The codec of transactions: what is written is read back, and what is accepted is all read. -/
theorem sendTrytes_codec_iff (hF : F.ReadsTrytes) {C : Json.Codec} (hC : C.Lawful) :
    (∀ trytes, (∃ text, taSendTrytesResSerialize C trytes = .ok text ∧
      taSendTrytesReqDeserialize F C text [] = .ok trytes) ↔ trytes ≠ []) ∧
    ∀ obj array, taSendTrytesReqDeserialize F C obj [] = .ok array →
      ∃ json elems, C.parse obj = some json ∧ json.member "trytes" = some (.array elems) ∧
        ((∀ e ∈ elems, ∃ trytes : Hash8019, e = tryteTree trytes) ∧
          array.length = elems.length ↔ ∀ e ∈ elems, IsTrytes e) :=
  ⟨sendTrytes_roundTrip_iff hF hC, fun _ _ => sendTrytes_accepted_iff⟩

end Codec

/-- One transaction. -/
def Sample.oneTrytes : Hash8019 := Vector.replicate 2673 1

/-- One transaction goes through both ways. -/
theorem sendTrytes_codec_one :
    (∃ text, taSendTrytesResSerialize Json.Codec.trees [Sample.oneTrytes] = .ok text ∧
      taSendTrytesReqDeserialize Sample.flexTrits Json.Codec.trees text [] =
        .ok [Sample.oneTrytes]) ∧
    ∃ array, taSendTrytesReqDeserialize Sample.flexTrits Json.Codec.trees
        (.object [("trytes", .array [tryteTree Sample.oneTrytes])]) [] = .ok array ∧
      array.length = 1 := by
  have hcodec := sendTrytes_codec_iff Sample.readsTrytes_flexTrits Json.Codec.lawful_trees
  have hread : taSendTrytesReqDeserialize Sample.flexTrits Json.Codec.trees
      (.object [("trytes", .array [tryteTree Sample.oneTrytes])]) [] = .ok [Sample.oneTrytes] :=
    pushTrytes_map Sample.readsTrytes_flexTrits [Sample.oneTrytes] []
  refine ⟨(hcodec.1 _).mpr (List.cons_ne_nil _ _), _, hread, ?_⟩
  obtain ⟨json, elems, hparse, hmember, hiff⟩ := hcodec.2 _ _ hread
  cases hparse
  cases hmember
  refine (hiff.mpr ?_).2
  intro e he
  rw [List.mem_singleton.mp he]
  exact isTrytes_tryteTree _

/-- No transaction is not read back, and a number among the transactions is skipped. -/
theorem sendTrytes_codec_fails :
    (∃ text, taSendTrytesResSerialize Json.Codec.trees [] = .ok text ∧
      taSendTrytesReqDeserialize Sample.flexTrits Json.Codec.trees text [] =
        .error .cclientJsonParse) ∧
    taSendTrytesReqDeserialize Sample.flexTrits Json.Codec.trees
      (.object [("trytes", .array [.number "1"])]) [] = .ok [] :=
  ⟨⟨_, rfl, rfl⟩, rfl⟩

end TryteArrays

end TangleAccelerator
