import TangleAccelerator.Core.Find
import TangleAccelerator.Core.SerHelper

/-!
# Tags

A tag has `27` trytes.  A text that is shorter is filled with nines and one that is longer is cut,
in three places: where `ta_send_transfer_req_deserialize` stores the tag of a transfer, and in the
two queries by tag.

The queries take the length of the text with `strnlen`, the deserializer with `strlen`, and keeps it
in an `int`.  It takes a text for a short one where that number is small, and `fill_nines` copies
just so many of its characters.  Where the number is negative `fill_nines` copies the whole text
over its target.  A write past the end of a target has no result here.
-/

namespace TangleAccelerator

open Effect Json

/-! ## Storing a tag -/

/-- `fill_nines`, for a text of any length. -/
def fillNinesText (old : List Tryte) (newLen : Nat) : Option (Except Status (List Tryte)) :=
  if newLen ≠ 27 then some (.error .null)
  else
    let oldLen := intOf old.length
    if oldLen < 0 ∨ newLen < oldLen then none
    else if oldLen = newLen then some (.error .utilsWrongInputArg)
    else some (.ok (old.take oldLen.toNat ++ List.replicate (newLen - oldLen.toNat) 0))

/-- `DEFAULT_TAG`. -/
def defaultTag : Hash81 := tagFromTrytes (trytesOf "POWEREDBYTANGLEACCELERATOR9")

/-- `DEFAULT_ADDRESS`. -/
def defaultAddress : Hash243 := Vector.ofFn fun i : Fin 81 =>
  (trytesOf "POWEREDBYTANGLEACCELERATOR").getD i 0

/-- The part of `ta_send_transfer_req_deserialize` that reads the address.  It reads `81` trytes. -/
def transferAddress (obj : Tree) : Option (Except Status Hash243) :=
  match (obj.member "address").bind Tree.stringValue with
  | none => some (.ok defaultAddress)
  | some text =>
      if validTryte text (intOf text.length) = false then
        some (.error .serializerJsonParseNotTryte)
      else if text.length < 81 then none
      else some (.ok (Vector.ofFn fun i : Fin 81 => (trytesOf text).getD i 0))

/-- The part of `ta_send_transfer_req_deserialize` that reads the tag.  The status of `fill_nines`
is dropped. -/
def transferTag (obj : Tree) : Option (Except Status Hash81) :=
  match (obj.member "tag").bind Tree.stringValue with
  | none => some (.ok defaultTag)
  | some text =>
      let tagLen := intOf text.length
      if validTryte text tagLen = false then some (.error .serializerJsonParseNotTryte)
      else if tagLen < numTrytesTag then
        (fillNinesText (trytesOf text) numTrytesTag).map fun newTag =>
          .ok (tagFromTrytes (newTag.toOption.getD []))
      else some (.ok (tagFromTrytes (trytesOf text)))

/-- `ta_send_transfer_req_deserialize`.  The part that reads the message is a parameter. -/
def taSendTransferReqDeserialize (C : Json.Codec)
    (transferMessage : Tree → Option (Except Status (List Tryte))) (obj : C.Text) :
    Option (Except Status SendTransferReq) :=
  match C.parse obj with
  | none => some (.error .serializerJsonParse)
  | some json => ExceptT.run do
      let address ← ExceptT.mk (transferAddress json)
      let tag ← ExceptT.mk (transferTag json)
      let message ← ExceptT.mk (transferMessage json)
      pure ⟨tag, address, message⟩

/-! ## Asking for a tag -/

/-- `api_find_transactions_by_tag`. -/
def apiFindTransactionsByTag (resSerialize : List Hash243 → Except Status String)
    (obj : List Tryte) : Proc String := do
  let res ← demand (← request (.findTransactions { tags := [tagTrits obj] }))
    .cclientFailedResponse
  settle (resSerialize res)

/-- `mqtt_tag_req_deserialize`, into a new buffer.  A failure leaves the buffer empty. -/
def mqttTagReqDeserialize (C : Json.Codec) (obj : C.Text) : String :=
  match C.parse obj with
  | none => ""
  | some json => (taJsonGetString json "tag" (numTrytesTag + 1)).toOption.getD ""

/-- `check_valid_tag`. -/
def checkValidTag (tag : String) : Except Status Unit :=
  let len := min tag.length (numTrytesTag + 1)
  if len < 1 ∨ len > numTrytesTag then .error .mqttInvalidTag
  else if (tag.toList.take len).all isTryteChar then .ok ()
  else .error .mqttInvalidTag

/-- The tag the two branches of `mqtt_request_handler` for tags hand to the query. -/
def mqttTag (C : Json.Codec) (req : C.Text) : Except Status (List Tryte) :=
  let tag := mqttTagReqDeserialize C req
  match checkValidTag tag with
  | .ok () => .ok (trytesOf tag)
  | .error _ => .error .httpUrlNotMatch

/-! ## Agreement -/

/-- The tag of a text: its first `27` trytes, followed by enough nines. -/
def paddedTag (s : List Tryte) : Hash81 :=
  ⟨(s.take 27 ++ List.replicate (27 - s.length) 0).toArray, by simp; omega⟩

/-- A document with a text as its tag. -/
def Tagged (C : Json.Codec) (text : C.Text) (s : List Tryte) (json : Tree) : Prop :=
  C.parse text = some json ∧ json.member "tag" = some (.string (tryteText s))

/-- The first call asks for transactions with a tag. -/
def AsksFor (tag : Hash81) (τ : List (Event sig)) : Prop :=
  ∃ ans τ', τ = ⟨.findTransactions { tags := [tag] }, ans⟩ :: τ'

/-- A tag is stored, asked for and let through as what is right for it, and both queries ask for the
tag of a transfer. -/
structure TagAgreement (s : List Tryte) : Prop where
  stored : ∀ (C : Json.Codec) (transferMessage : Tree → Option (Except Status (List Tryte)))
    (text : C.Text) (json : Tree) (address : Hash243) (message : List Tryte),
    Tagged C text s json → transferAddress json = some (.ok address) →
    transferMessage json = some (.ok message) →
    taSendTransferReqDeserialize C transferMessage text =
      some (.ok ⟨paddedTag s, address, message⟩)
  hashes : ∀ resSerialize τ r, Path (apiFindTransactionsByTag resSerialize s).run τ r →
    AsksFor (paddedTag s) τ
  objects : ∀ I K state τ r, Path (apiFindTransactionsObjByTag I K state s).run τ r →
    AsksFor (paddedTag s) τ
  found : ∀ (C : Json.Codec) (transferMessage : Tree → Option (Except Status (List Tryte)))
    (text : C.Text) (json : Tree) (req : SendTransferReq),
    Tagged C text s json → taSendTransferReqDeserialize C transferMessage text = some (.ok req) →
    (∀ resSerialize τ r, Path (apiFindTransactionsByTag resSerialize s).run τ r →
      AsksFor req.tag τ) ∧
    ∀ I K state τ r, Path (apiFindTransactionsObjByTag I K state s).run τ r → AsksFor req.tag τ
  mqtt : s.length ≤ 27 → checkValidTag (tryteText s) = .ok () ∧
    ∀ (C : Json.Codec) (text : C.Text) (json : Tree), Tagged C text s json → mqttTag C text = .ok s

/-- What an `int` holds of the length is not negative, and the trytes from there on, up to the
length of a tag, are nines. -/
def KeepsTag (s : List Tryte) : Prop :=
  0 ≤ intOf s.length ∧ ∀ t ∈ (s.take 27).drop (intOf s.length).toNat, t = 0

instance (s : List Tryte) : Decidable (KeepsTag s) := inferInstanceAs (Decidable (_ ∧ _))

variable {s : List Tryte} {json : Tree}

theorem getElem_paddedTag (s : List Tryte) {i : Nat} (hi : i < 27) :
    (paddedTag s)[i] = s.getD i 0 := by
  have hlen : i < (s.take 27 ++ List.replicate (27 - s.length) 0).length := by
    rw [List.length_append, List.length_take, List.length_replicate]
    omega
  have hget : (paddedTag s)[i] = (s.take 27 ++ List.replicate (27 - s.length) 0)[i] := rfl
  rw [hget, List.getElem_append]
  split
  · rename_i hlt
    rw [List.length_take] at hlt
    rw [List.getElem_take, List.getD_eq_getElem _ _ (by omega)]
  · rename_i hge
    rw [List.length_take] at hge
    rw [List.getElem_replicate, List.getD_eq_default _ _ (by omega)]

theorem tagFromTrytes_eq (s : List Tryte) : tagFromTrytes s = paddedTag s := by
  refine Vector.ext fun i hi => ?_
  rw [getElem_paddedTag s hi, tagFromTrytes, Vector.getElem_ofFn]

/-- The trytes of the tag decide it. -/
theorem paddedTag_eq_iff {s s' : List Tryte} :
    paddedTag s = paddedTag s' ↔ ∀ i < 27, s.getD i 0 = s'.getD i 0 := by
  constructor
  · intro h i hi
    rw [← getElem_paddedTag s hi, ← getElem_paddedTag s' hi, h]
  · intro h
    refine Vector.ext fun i hi => ?_
    rw [getElem_paddedTag s hi, getElem_paddedTag s' hi, h i hi]

/-- Nines at the end change nothing. -/
theorem paddedTag_append_nines (s : List Tryte) (n : Nat) :
    paddedTag (s ++ List.replicate n 0) = paddedTag s := by
  rw [paddedTag_eq_iff]
  intro i _
  by_cases his : i < s.length
  · rw [List.getD_append _ _ _ _ his]
  · rw [List.getD_append_right _ _ _ _ (by omega), List.getD_eq_default s _ (by omega),
      List.getD_eq_getElem?_getD, List.getElem?_getD_replicate_default_eq]

/-- Both queries ask for the right tag. -/
theorem tagTrits_eq (s : List Tryte) : tagTrits s = paddedTag s := by
  rw [tagTrits]
  split
  · rename_i hlt
    rw [numTrytesTag] at hlt
    have hfill : fillNines s numTrytesTag = .ok (s ++ List.replicate (27 - s.length) 0) := by
      rw [fillNines, numTrytesTag, if_neg (by decide), if_pos (by omega)]
    rw [hfill, tagFromTrytes_eq]
    exact paddedTag_append_nines s _
  · exact tagFromTrytes_eq s

/-- A text that is cut keeps its tag if nothing but nines is cut off. -/
theorem paddedTag_take_eq_iff {k : Nat} :
    paddedTag (s.take k) = paddedTag s ↔ ∀ t ∈ (s.take 27).drop k, t = 0 := by
  have htake : ∀ i, (s.take k).getD i 0 = if i < k then s.getD i 0 else 0 := by
    intro i
    rw [List.getD_eq_getElem?_getD, List.getElem?_take, List.getD_eq_getElem?_getD]
    split <;> rfl
  rw [paddedTag_eq_iff]
  constructor
  · intro h t ht
    obtain ⟨i, hi, rfl⟩ := List.mem_iff_getElem.mp ht
    rw [List.length_drop, List.length_take] at hi
    have hki := h (k + i) (by omega)
    rw [htake, if_neg (by omega), List.getD_eq_getElem s 0 (by omega)] at hki
    rw [List.getElem_drop, List.getElem_take]
    exact hki.symm
  · intro h i hi
    rw [htake]
    split
    · rfl
    · rename_i hik
      by_cases his : i < s.length
      · have hmem : s[i] ∈ (s.take 27).drop k := by
          rw [List.mem_iff_getElem]
          refine ⟨i - k, ?_, ?_⟩
          · rw [List.length_drop, List.length_take]
            omega
          · rw [List.getElem_drop, List.getElem_take]
            congr 1
            omega
        rw [List.getD_eq_getElem s 0 his, h _ hmem]
      · rw [List.getD_eq_default s 0 (by omega)]

theorem fillNinesText_of_neg (h : intOf s.length < 0) : fillNinesText s numTrytesTag = none := by
  rw [fillNinesText, numTrytesTag, if_neg (by decide)]
  exact if_pos (Or.inl h)

theorem fillNinesText_of_lt (hpos : 0 ≤ intOf s.length) (hlt : intOf s.length < numTrytesTag) :
    fillNinesText s numTrytesTag = some (.ok (s.take (intOf s.length).toNat ++
      List.replicate (numTrytesTag - (intOf s.length).toNat) 0)) := by
  have hfit : ¬ (intOf s.length < 0 ∨ numTrytesTag < intOf s.length) := by omega
  have hne : intOf s.length ≠ numTrytesTag := by omega
  rw [fillNinesText, if_neg (by decide)]
  dsimp only
  rw [if_neg hfit, if_neg hne]

/-- What becomes of a text as a tag. -/
theorem transferTag_of_member (h : json.member "tag" = some (.string (tryteText s))) :
    transferTag json =
      if intOf s.length < 0 then none
      else some (.ok (paddedTag (if intOf s.length < numTrytesTag then s.take (intOf s.length).toNat
        else s))) := by
  have hvalue : (json.member "tag").bind Tree.stringValue = some (tryteText s) := by
    rw [h]
    rfl
  have hvalid : ¬ validTryte (tryteText s) (intOf s.length) = false := by
    rw [validTryte_tryteText]
    decide
  rw [transferTag, hvalue]
  dsimp only
  rw [length_tryteText, if_neg hvalid, trytesOf_tryteText]
  by_cases hneg : intOf s.length < 0
  · have hlt : intOf s.length < numTrytesTag := by
      rw [numTrytesTag]
      omega
    rw [if_pos hlt, fillNinesText_of_neg hneg, if_pos hneg]
    rfl
  · rw [if_neg hneg]
    by_cases hlt : intOf s.length < numTrytesTag
    · rw [if_pos hlt, if_pos hlt, fillNinesText_of_lt (by omega) hlt, Option.map_some,
        tagFromTrytes_eq, Except.toOption, Option.getD_some, paddedTag_append_nines]
    · rw [if_neg hlt, if_neg hlt, tagFromTrytes_eq]

/-- The tag is stored as what is right for it exactly where it is kept. -/
theorem transferTag_eq_iff (h : json.member "tag" = some (.string (tryteText s))) :
    transferTag json = some (.ok (paddedTag s)) ↔ KeepsTag s := by
  rw [transferTag_of_member h, KeepsTag]
  by_cases hneg : intOf s.length < 0
  · rw [if_pos hneg]
    exact iff_of_false (fun h => by cases h) (fun h => absurd h.1 (by omega))
  · rw [if_neg hneg, and_iff_right (by omega), Option.some.injEq, Except.ok.injEq]
    by_cases hlt : intOf s.length < numTrytesTag
    · rw [if_pos hlt, paddedTag_take_eq_iff]
    · rw [if_neg hlt, List.drop_eq_nil_of_le]
      · exact iff_of_true rfl (fun t ht => by cases ht)
      · rw [List.length_take]
        rw [numTrytesTag] at hlt
        omega

/-- A document with nothing but a tag. -/
def tagOnly (s : List Tryte) : Tree := .object [("tag", .string (tryteText s))]

theorem taSendTransferReqDeserialize_eq {C : Json.Codec} {text : C.Text} {address : Hash243}
    {message : List Tryte} {transferMessage : Tree → Option (Except Status (List Tryte))}
    (hparse : C.parse text = some json) (haddress : transferAddress json = some (.ok address))
    (hmessage : transferMessage json = some (.ok message)) :
    taSendTransferReqDeserialize C transferMessage text =
      (transferTag json).map (Except.map fun tag => ⟨tag, address, message⟩) := by
  rw [taSendTransferReqDeserialize, hparse]
  dsimp only
  rw [haddress, hmessage]
  cases transferTag json with
  | none => rfl
  | some tag =>
      cases tag with
      | error e => rfl
      | ok tag => rfl

/-- A part of the deserializer succeeds, and so does the rest after it. -/
theorem run_mk_bind_eq_ok {α β : Type} {x : Option (Except Status α)}
    {f : α → ExceptT Status Option β} {b : β} :
    (ExceptT.mk x >>= f).run = some (.ok b) ↔
      ∃ a, x = some (.ok a) ∧ (f a).run = some (.ok b) := by
  constructor
  · intro h
    rcases x with - | e | a
    · cases h
    · cases h
    · exact ⟨a, rfl, h⟩
  · rintro ⟨a, rfl, h⟩
    exact h

theorem transferTag_of_deserialize {C : Json.Codec} {text : C.Text} {req : SendTransferReq}
    {transferMessage : Tree → Option (Except Status (List Tryte))}
    (hparse : C.parse text = some json)
    (h : taSendTransferReqDeserialize C transferMessage text = some (.ok req)) :
    transferTag json = some (.ok req.tag) := by
  rw [taSendTransferReqDeserialize, hparse] at h
  obtain ⟨address, -, hrest⟩ := run_mk_bind_eq_ok.mp h
  obtain ⟨tag, htag, hmessage⟩ := run_mk_bind_eq_ok.mp hrest
  obtain ⟨message, -, hreq⟩ := run_mk_bind_eq_ok.mp hmessage
  cases hreq
  exact htag

theorem stored_iff :
    (∀ (C : Json.Codec) (transferMessage : Tree → Option (Except Status (List Tryte)))
      (text : C.Text) (json : Tree) (address : Hash243) (message : List Tryte),
      Tagged C text s json → transferAddress json = some (.ok address) →
      transferMessage json = some (.ok message) →
      taSendTransferReqDeserialize C transferMessage text =
        some (.ok ⟨paddedTag s, address, message⟩)) ↔ KeepsTag s := by
  constructor
  · intro h
    have htag : (tagOnly s).member "tag" = some (.string (tryteText s)) := rfl
    have hstored := h ⟨Tree, id, some⟩ (fun _ => some (.ok [])) (tagOnly s) (tagOnly s)
      defaultAddress [] ⟨rfl, htag⟩ rfl rfl
    rw [taSendTransferReqDeserialize_eq rfl rfl rfl] at hstored
    rw [← transferTag_eq_iff htag]
    obtain ⟨tag, htag, hok⟩ := Option.map_eq_some_iff.mp hstored
    rw [htag]
    cases tag with
    | error e => cases hok
    | ok tag =>
        cases hok
        rfl
  · intro hkeeps C transferMessage text json address message htagged haddress hmessage
    rw [taSendTransferReqDeserialize_eq htagged.1 haddress hmessage,
      (transferTag_eq_iff htagged.2).mpr hkeeps]
    rfl

theorem asksFor_apiFindTransactionsByTag {resSerialize : List Hash243 → Except Status String}
    {τ : List (Event sig)} {r : Except Status String}
    (h : Path (apiFindTransactionsByTag resSerialize s).run τ r) : AsksFor (paddedTag s) τ := by
  rw [apiFindTransactionsByTag, tagTrits_eq, path_run_request_bind] at h
  obtain ⟨ans, τ', rfl, -⟩ := h
  exact ⟨ans, τ', rfl⟩

theorem asksFor_apiFindTransactionsObjByTag {I : Iota} {K : FindCodec} {state : Bool}
    {τ : List (Event sig)} {r : Except Status String}
    (h : Path (apiFindTransactionsObjByTag I K state s).run τ r) : AsksFor (paddedTag s) τ := by
  rw [apiFindTransactionsObjByTag, taFindTransactionsObjByTag, tagTrits_eq, bind_assoc,
    path_run_request_bind] at h
  obtain ⟨ans, τ', rfl, -⟩ := h
  exact ⟨ans, τ', rfl⟩

theorem checkValidTag_tryteText (hne : s ≠ []) (hlen : s.length ≤ 27) :
    checkValidTag (tryteText s) = .ok () := by
  have hpos := List.length_pos_iff.mpr hne
  have hvalid := validTryte_tryteText s s.length
  rw [validTryte, Int.toNat_natCast] at hvalid
  rw [checkValidTag, length_tryteText, numTrytesTag, Nat.min_eq_left (by omega)]
  rw [if_neg (by omega), if_pos hvalid]

theorem mqttTag_of_tagged (hne : s ≠ []) (hlen : s.length ≤ 27) {C : Json.Codec} {text : C.Text}
    (h : Tagged C text s json) : mqttTag C text = .ok s := by
  have hget : taJsonGetString json "tag" (numTrytesTag + 1) = .ok (tryteText s) := by
    rw [taJsonGetString, h.2]
    refine congrArg Except.ok (strncpy_of_length_le ?_)
    rw [length_tryteText, numTrytesTag]
    omega
  have htag : mqttTagReqDeserialize C text = tryteText s := by
    rw [mqttTagReqDeserialize, h.1]
    dsimp only
    rw [hget]
    rfl
  rw [mqttTag, htag, checkValidTag_tryteText hne hlen, trytesOf_tryteText]

/-- A tag is treated alike everywhere exactly where the deserializer keeps it. -/
theorem tagAgreement_iff (hne : s ≠ []) : TagAgreement s ↔ KeepsTag s := by
  constructor
  · intro h
    exact stored_iff.mp h.stored
  · intro hkeeps
    have htag : ∀ {C : Json.Codec} {text : C.Text} {json : Tree} {req : SendTransferReq}
        {transferMessage : Tree → Option (Except Status (List Tryte))}, Tagged C text s json →
        taSendTransferReqDeserialize C transferMessage text = some (.ok req) →
        req.tag = paddedTag s := by
      intro C text json req transferMessage htagged h
      have hstored := (transferTag_eq_iff htagged.2).mpr hkeeps
      rw [transferTag_of_deserialize htagged.1 h, Option.some.injEq, Except.ok.injEq] at hstored
      exact hstored
    exact {
      found := fun _ _ _ _ _ htagged h => (htag htagged h).symm ▸
        ⟨fun _ _ _ h => asksFor_apiFindTransactionsByTag h,
          fun _ _ _ _ _ h => asksFor_apiFindTransactionsObjByTag h⟩
      stored := stored_iff.mpr hkeeps
      hashes := fun _ _ _ h => asksFor_apiFindTransactionsByTag h
      objects := fun _ _ _ _ _ h => asksFor_apiFindTransactionsObjByTag h
      mqtt := fun hlen => ⟨checkValidTag_tryteText hne hlen,
        fun _ _ _ h => mqttTag_of_tagged hne hlen h⟩ }

theorem tagAgreement_short : TagAgreement [1, 2, 3] :=
  (tagAgreement_iff (by decide)).mpr (by decide)

/-- The length of a text of `2 ^ 32 + 5` trytes is `5` in an `int`.  The tag that is stored for it
is its first five trytes and nines. -/
theorem transferTag_int_length :
    transferTag (tagOnly (List.replicate (2 ^ 32 + 5) 1)) = some (.ok (paddedTag [1, 1, 1, 1, 1])) ∧
      ¬ TagAgreement (List.replicate (2 ^ 32 + 5) 1) := by
  have hlen : intOf (List.replicate (2 ^ 32 + 5) (1 : Tryte)).length = 5 := by
    rw [List.length_replicate]
    rfl
  constructor
  · rw [transferTag_of_member rfl, hlen, if_neg (by decide), if_pos (by decide),
      List.take_replicate]
    rfl
  · intro h
    have hkeeps := (stored_iff.mp h.stored).2
    rw [hlen, List.take_replicate, List.drop_replicate] at hkeeps
    exact absurd (hkeeps 1 (List.mem_replicate.mpr ⟨by decide, rfl⟩)) (by decide)

end TangleAccelerator
