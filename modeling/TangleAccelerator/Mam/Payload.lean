import TangleAccelerator.Core.Mam
import TangleAccelerator.Core.SerHelper

/-!
# The payloads of received messages

`recv_mam_message_res_serialize` and `recv_mam_message_res_deserialize` of `ser_mam.c`.

A payload that `ta_send_mam_message` has built starts with twenty digits of time.  The serializer
cuts every payload after twenty characters, whoever has written it, so it reads past the end of one
that is shorter.  Such a read has no result here.

What it prints is an array with one pair for each payload.  The deserializer flattens the pairs.
-/

namespace TangleAccelerator

open Json

/-- `ta_recv_mam_res_t`.  A payload that is missing belongs to an announcement. -/
structure RecvMamRes where
  payloadArray : List (Option String)
  chid1 : String
  /-- `chid1` is an array of `NUM_TRYTES_HASH + 1` characters. -/
  length_chid1 : chid1.length ≤ 81

/-- `recv_mam_res_new`. -/
def recvMamResNew : RecvMamRes := ⟨[], "", by decide⟩

/-- The text at an offset.  Behind the end of a text there is none. -/
def textAt (text : String) (n : Nat) : Option String :=
  if n ≤ text.length then some (String.ofList (text.toList.drop n)) else none

/-! ## Serializing -/

/-- The loop of `ta_mam_recv_payload_utarray_to_json_array`. -/
def taMamRecvPayloadToJsonArray : List (Option String) → Option (List Tree)
  | [] => some []
  | none :: rest => taMamRecvPayloadToJsonArray rest
  | some p :: rest => do
      let timestamp := strncpy p 20
      let message ← textAt p 20
      let elts ← taMamRecvPayloadToJsonArray rest
      pure (.array [.string timestamp, .string message] :: elts)

/-- The members of the document. -/
def recvMamMembers (payload : List Tree) (chid1 : String) : List (String × Tree) :=
  ("payload", .array payload) :: if chid1 = "" then [] else [("chid1", .string chid1)]

/-- `recv_mam_message_res_serialize`. -/
def recvMamMessageResSerialize (C : Json.Codec) (res : RecvMamRes) : Option C.Text := do
  let payload ← taMamRecvPayloadToJsonArray res.payloadArray
  pure (C.print (.object (recvMamMembers payload res.chid1)))

/-! ## Deserializing -/

/-- The inner loop of `ta_json_recv_payload_to_string_utarray`. -/
def pushStrings : List Tree → List (Option String) → Except Status Unit × List (Option String)
  | [], ut => (.ok (), ut)
  | elt :: rest, ut =>
      match elt.stringValue with
      | none => (.error .serializerJsonParse, ut)
      | some str => pushStrings rest (ut ++ [some str])

/-- The outer loop of `ta_json_recv_payload_to_string_utarray`. -/
def pushSubarrays : List Tree → List (Option String) → Except Status Unit × List (Option String)
  | [], ut => (.ok (), ut)
  | subarray :: rest, ut =>
      match pushStrings subarray.children ut with
      | (.error e, ut') => (.error e, ut')
      | (.ok (), ut') => pushSubarrays rest ut'

/-- `ta_json_recv_payload_to_string_utarray`. -/
def taJsonRecvPayloadToStringArray (obj : Tree) (name : String) (ut : List (Option String)) :
    Except Status Unit × List (Option String) :=
  match obj.member name with
  | some (.array subarrays) => pushSubarrays subarrays ut
  | _ => (.error .serializerJsonParse, ut)

/-- The part of `recv_mam_message_res_deserialize` after the payloads. -/
def recvMamChid1 (obj : Tree) (res : RecvMamRes) : Except Status Unit × RecvMamRes :=
  if obj.hasMember "chid1" then
    match h : taJsonGetString obj "chid1" 81 with
    | .error _ => (.error .cclientJsonKey, res)
    | .ok chid1 => (.ok (), ⟨res.payloadArray, chid1, length_taJsonGetString_le h⟩)
  else (.ok (), res)

/-- `recv_mam_message_res_deserialize`: its status, and what is left in `res`. -/
def recvMamMessageResDeserialize (C : Json.Codec) (obj : C.Text) (res : RecvMamRes) :
    Except Status Unit × RecvMamRes :=
  match C.parse obj with
  | none => (.error .serializerJsonParse, res)
  | some json =>
      match taJsonRecvPayloadToStringArray json "payload" res.payloadArray with
      | (.error _, ut) => (.error .cclientJsonKey, { res with payloadArray := ut })
      | (.ok (), ut) => recvMamChid1 json { res with payloadArray := ut }

/-! ## The format -/

/-- The payloads that are there. -/
def payloads (res : RecvMamRes) : List String := res.payloadArray.reduceOption

/-- A payload as a pair: its first twenty characters, and the rest. -/
def stampAndMessage (p : String) : String × String :=
  (String.ofList (p.toList.take 20), String.ofList (p.toList.drop 20))

/-- A pair as an array. -/
def pairTree (pair : String × String) : Tree := .array [.string pair.1, .string pair.2]

/-- A pair as two payloads. -/
def flatPair (pair : String × String) : List (Option String) := [some pair.1, some pair.2]

theorem stampAndMessage_append (p : String) :
    (stampAndMessage p).1 ++ (stampAndMessage p).2 = p := by
  rw [stampAndMessage, ← String.ofList_append, List.take_append_drop, String.ofList_toList]

/-- What is received is printed as one pair for each payload in their order, and read back as these
pairs, which make up the payloads. -/
structure PayloadFormat (C : Json.Codec) (res : RecvMamRes) (text : C.Text) : Prop where
  printed : ∃ obj, C.parse text = some obj ∧
    obj.member "payload" = some (.array ((payloads res).map (pairTree ∘ stampAndMessage)))
  flat : ∃ (pairs : List (String × String)) (back : RecvMamRes),
    recvMamMessageResDeserialize C text recvMamResNew = (.ok (), back) ∧
    back.payloadArray = pairs.flatMap flatPair ∧ back.chid1 = res.chid1 ∧
    pairs.map (fun pair => pair.1 ++ pair.2) = payloads res

/-- The loop cuts every payload, if each has twenty characters. -/
theorem taMamRecvPayloadToJsonArray_of_le {ps : List (Option String)}
    (h : ∀ p ∈ ps.reduceOption, 20 ≤ p.length) :
    taMamRecvPayloadToJsonArray ps = some (ps.reduceOption.map (pairTree ∘ stampAndMessage)) := by
  induction ps with
  | nil => rfl
  | cons p ps ih =>
      cases p with
      | none =>
          rw [List.reduceOption_cons_of_none] at h ⊢
          exact ih h
      | some p =>
          rw [List.reduceOption_cons_of_some, List.forall_mem_cons] at h
          rw [taMamRecvPayloadToJsonArray, textAt, if_pos h.1, ih h.2]
          rfl

/-- A payload that is too short stops it. -/
theorem le_of_taMamRecvPayloadToJsonArray {ps : List (Option String)} {elts : List Tree}
    (h : taMamRecvPayloadToJsonArray ps = some elts) : ∀ p ∈ ps.reduceOption, 20 ≤ p.length := by
  induction ps generalizing elts with
  | nil =>
      intro p hp
      cases hp
  | cons p ps ih =>
      cases p with
      | none =>
          rw [List.reduceOption_cons_of_none]
          exact ih h
      | some p =>
          rw [List.reduceOption_cons_of_some, List.forall_mem_cons]
          obtain ⟨message, hmessage, h⟩ := Option.bind_eq_some_iff.mp h
          obtain ⟨rest, hrest, -⟩ := Option.bind_eq_some_iff.mp h
          refine ⟨?_, ih hrest⟩
          unfold textAt at hmessage
          split at hmessage
          · assumption
          · cases hmessage

theorem pushStrings_flatPair (pair : String × String) (ut : List (Option String)) :
    pushStrings (pairTree pair).children ut = (.ok (), ut ++ flatPair pair) := by
  simp [pairTree, Tree.children, pushStrings, Tree.stringValue, flatPair]

theorem pushSubarrays_map_pairTree (pairs : List (String × String)) (ut : List (Option String)) :
    pushSubarrays (pairs.map pairTree) ut = (.ok (), ut ++ pairs.flatMap flatPair) := by
  induction pairs generalizing ut with
  | nil => simp [pushSubarrays]
  | cons pair pairs ih =>
      rw [List.map_cons, pushSubarrays, pushStrings_flatPair]
      dsimp only
      rw [ih, List.flatMap_cons, List.append_assoc]

/-! ## Reading back -/

variable {C : Json.Codec} {res : RecvMamRes}

/-- What is received holds ASCII texts only. -/
def AsciiRes (res : RecvMamRes) : Prop := (∀ p ∈ payloads res, Tree.Ascii p) ∧ Tree.Ascii res.chid1

theorem plain_pairTree {p : String} (h : Tree.Ascii p) (depth : Nat) :
    (pairTree (stampAndMessage p)).Plain (depth + 1) := by
  refine .array fun e he => ?_
  rcases List.mem_pair.mp he with rfl | rfl
  · exact .string (ascii_strncpy h 20)
  · refine .string fun c hc => ?_
    rw [stampAndMessage, String.toList_ofList] at hc
    exact h c (List.mem_of_mem_drop hc)

theorem plain_recvMamMembers (h : AsciiRes res) :
    (Tree.object (recvMamMembers ((payloads res).map (pairTree ∘ stampAndMessage))
      res.chid1)).Plain nestingLimit := by
  have hpayload : (Tree.array ((payloads res).map (pairTree ∘ stampAndMessage))).Plain 999 := by
    refine .array fun e he => ?_
    obtain ⟨p, hp, rfl⟩ := List.mem_map.mp he
    exact plain_pairTree (h.1 p hp) 997
  have hname : Tree.Ascii "payload" := by simp [Tree.Ascii]
  have hchid1 : Tree.Ascii "chid1" := by simp [Tree.Ascii]
  have hmembers : ∀ m ∈ recvMamMembers ((payloads res).map (pairTree ∘ stampAndMessage)) res.chid1,
      Tree.Ascii m.1 ∧ m.2.Plain 999 := by
    intro m hm
    rcases List.mem_cons.mp hm with rfl | hm
    · exact ⟨hname, hpayload⟩
    · split at hm
      · cases hm
      · rw [List.mem_singleton] at hm
        subst hm
        exact ⟨hchid1, .string h.2⟩
  exact .object (fun m hm => (hmembers m hm).1) (fun m hm => (hmembers m hm).2)

theorem member_recvMamMembers (payload : List Tree) (chid1 : String) :
    (Tree.object (recvMamMembers payload chid1)).member "payload" = some (.array payload) := rfl

theorem recvMamChid1_recvMamMembers (res : RecvMamRes) (payload : List Tree)
    (ut : List (Option String)) :
    ∃ back, recvMamChid1 (.object (recvMamMembers payload res.chid1))
        { recvMamResNew with payloadArray := ut } = (.ok (), back) ∧
      back.payloadArray = ut ∧ back.chid1 = res.chid1 := by
  by_cases hchid : res.chid1 = ""
  · have hhas : (Tree.object (recvMamMembers payload res.chid1)).hasMember "chid1" = false := by
      simp [recvMamMembers, hchid, Tree.hasMember, Tree.sameName]
    refine ⟨{ recvMamResNew with payloadArray := ut }, ?_, rfl, hchid.symm⟩
    rw [recvMamChid1, hhas]
    rfl
  · have hget : taJsonGetString (.object (recvMamMembers payload res.chid1)) "chid1" 81 =
        .ok res.chid1 := by
      rw [recvMamMembers, if_neg hchid]
      exact congrArg Except.ok (strncpy_of_length_le res.length_chid1)
    have hhas : (Tree.object (recvMamMembers payload res.chid1)).hasMember "chid1" = true := by
      simp [recvMamMembers, hchid, Tree.hasMember, Tree.sameName]
    refine ⟨⟨ut, res.chid1, res.length_chid1⟩, ?_, rfl, rfl⟩
    rw [recvMamChid1, if_pos hhas]
    split
    · rename_i e he
      cases hget.symm.trans he
    · rename_i chid1 hok
      cases hget.symm.trans hok
      rfl

/-- Texts of ASCII characters are printed and read back exactly where every payload has twenty
characters. -/
theorem exists_payloadFormat_iff (hC : C.Lawful) (hascii : AsciiRes res) :
    (∃ text, recvMamMessageResSerialize C res = some text ∧ PayloadFormat C res text) ↔
      ∀ p ∈ payloads res, 20 ≤ p.length := by
  constructor
  · rintro ⟨text, htext, -⟩
    obtain ⟨elts, helts, -⟩ := Option.bind_eq_some_iff.mp htext
    exact le_of_taMamRecvPayloadToJsonArray helts
  · intro hlen
    have hparse := hC.parse_print (plain_recvMamMembers hascii)
    refine ⟨_, ?_, ⟨_, hparse, member_recvMamMembers _ _⟩, ?_⟩
    · rw [recvMamMessageResSerialize, taMamRecvPayloadToJsonArray_of_le hlen]
      rfl
    · obtain ⟨back, hback, hut, hchid1⟩ := recvMamChid1_recvMamMembers res
        ((payloads res).map (pairTree ∘ stampAndMessage))
        (((payloads res).map stampAndMessage).flatMap flatPair)
      refine ⟨(payloads res).map stampAndMessage, back, ?_, hut, hchid1, ?_⟩
      · rw [recvMamMessageResDeserialize, hparse]
        dsimp only
        rw [taJsonRecvPayloadToStringArray, member_recvMamMembers]
        dsimp only
        rw [← List.map_map, pushSubarrays_map_pairTree]
        rw [← List.map_map] at hback
        exact hback
      · rw [List.map_map]
        exact (List.map_congr_left fun p _ => stampAndMessage_append p).trans (List.map_id _)

/-! ## Payloads of `ta_send_mam_message` -/

theorem length_timestamped {sec : Nat} (hsec : sec < 10 ^ 20) :
    (timestamped sec "").length = 20 := by
  have hle : (toString sec).length ≤ 20 := Nat.repr_length sec 20 (by decide) hsec
  rw [timestamped, String.append_empty, String.length_append, String.length_ofList,
    List.length_replicate]
  omega

/-- A payload of the accelerator is cut where it was put together. -/
theorem stampAndMessage_timestamped {sec : Nat} (hsec : sec < 10 ^ 20) (message : String) :
    stampAndMessage (timestamped sec message) = (timestamped sec "", message) := by
  have hsplit : timestamped sec message = timestamped sec "" ++ message := by
    rw [timestamped, timestamped, String.append_empty]
  have hlen : (timestamped sec "").toList.length = 20 := by
    rw [String.length_toList, length_timestamped hsec]
  rw [stampAndMessage, hsplit, String.toList_append, List.take_left' hlen, List.drop_left' hlen,
    String.ofList_toList, String.ofList_toList]

/-- Received payloads are printed and read back, none of them read past its end, exactly where each
has twenty characters.  A payload of the accelerator is the pair of its time and its message. -/
theorem mamPayload_format (hC : C.Lawful) :
    (∀ res, AsciiRes res →
      ((∃ text, recvMamMessageResSerialize C res = some text ∧ PayloadFormat C res text) ↔
        ∀ p ∈ payloads res, 20 ≤ p.length)) ∧
    ∀ sec message, sec < 10 ^ 20 → (timestamped sec "").length = 20 ∧
      stampAndMessage (timestamped sec message) = (timestamped sec "", message) :=
  ⟨fun _ hascii => exists_payloadFormat_iff hC hascii,
    fun _ message hsec => ⟨length_timestamped hsec, stampAndMessage_timestamped hsec message⟩⟩

namespace Sample

/-- A codec whose texts are the documents. -/
def json : Json.Codec := ⟨Tree, id, some⟩

/-- A message of the accelerator and an announcement. -/
def received : RecvMamRes := ⟨[some "00000000000000000005HI", none], "", by decide⟩

/-- A message of another client. -/
def foreign : RecvMamRes := ⟨[some "HELLO"], "", by decide⟩

theorem lawful_json : json.Lawful := ⟨fun _ => rfl⟩

end Sample

theorem mamPayload_format_received : ∃ text,
    recvMamMessageResSerialize Sample.json Sample.received = some text ∧
      PayloadFormat Sample.json Sample.received text := by
  have hascii : AsciiRes Sample.received := by
    simp [AsciiRes, payloads, Sample.received, Tree.Ascii]
  refine ((mamPayload_format Sample.lawful_json).1 Sample.received hascii).mpr ?_
  intro p hp
  rw [List.mem_singleton.mp hp]
  decide

/-- A payload of five characters is read fifteen characters behind its end. -/
theorem mamPayload_too_short : AsciiRes Sample.foreign ∧
    recvMamMessageResSerialize Sample.json Sample.foreign = none := by
  refine ⟨?_, rfl⟩
  simp [AsciiRes, payloads, Sample.foreign, Tree.Ascii]

end TangleAccelerator
