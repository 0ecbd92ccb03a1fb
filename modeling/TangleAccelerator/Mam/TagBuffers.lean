import TangleAccelerator.Utils.TryteByteConv

/-!
# The buffers of `msg_id_exist`

`msg_id_exist` compares the message ID in a tag, which is its first `21` trytes, with those in an
array of tags.  It converts each tag to characters in a buffer on the stack and compares `21`
characters of two buffers.

The conversion is told how many trits to convert, and the number it is given is that of the bytes of
a tag.  A byte holds three trits, so that is a third of the tag: nine trytes.  The other twelve
characters that are compared are what the stack held before.  So the answer is whether these agree
by chance and some tag has the same first nine trytes (`msgIdExist_iff`).

`TangleAccelerator.msgIdExist` compares message IDs, as the function is meant to do.
`decidesMsgId_iff_eq` says what it takes for the two to be the same.
-/

namespace TangleAccelerator.TagBuffers

open Bytes TryteByteConv

/-! ## The function -/

/-- `NUM_TRYTES_TAG`. -/
def numTrytesTag : Nat := 27

/-- `NUM_FLEX_TRITS_TAG`: the `81` trits of a tag, three in each byte. -/
def numFlexTritsTag : Nat := (81 + 2) / 3

/-- `NUM_TRYTES_MAM_MSG_ID`. -/
def numTrytesMamMsgId : Nat := 21

/-- `flex_trits_to_trytes`, which is a library function: the buffer after it, from the buffer, its
size in trytes, the flex trits, their length, and the number of trits to convert. -/
abbrev FlexTritsToTrytes := List UInt8 → Nat → List Tryte → Nat → Nat → List UInt8

/-- The library function converts the trits that it is told to, and no others. -/
def Converts (flexTritsToTrytes : FlexTritsToTrytes) : Prop :=
  ∀ trytes toLen flexTrits len numTrits, 3 ∣ numTrits → numTrits ≤ len → numTrits ≤ 3 * toLen →
    numTrits ≤ 3 * flexTrits.length →
    flexTritsToTrytes trytes toLen flexTrits len numTrits =
      write trytes 0 ((flexTrits.take (numTrits / 3)).map tryteByte)

/-- What the two buffers hold before anything is written to them. -/
structure Stack where
  tagTryte : Vector UInt8 28
  tagCursorTryte : Vector UInt8 28

variable (flexTritsToTrytes : FlexTritsToTrytes)

/-- The loop of `msg_id_exist` over the tags, with the buffer for the tag at the cursor. -/
def existLoop (tagTryte : List UInt8) : List Hash81 → List UInt8 → Bool
  | [], _ => false
  | tagCursor :: rest, buf =>
      let tagCursorTryte := flexTritsToTrytes buf numTrytesTag tagCursor.toList numFlexTritsTag
        numFlexTritsTag
      if tagCursorTryte.take numTrytesMamMsgId = tagTryte.take numTrytesMamMsgId then true
      else existLoop tagTryte rest tagCursorTryte

/-- `msg_id_exist`. -/
def msgIdExist (stack : Stack) (tagArray : List Hash81) (tag : Hash81) : Bool :=
  let tagTryte := stack.tagTryte.toList.set numTrytesTag 0
  let tagCursorTryte := stack.tagCursorTryte.toList.set numTrytesTag 0
  let tagTryte := flexTritsToTrytes tagTryte numTrytesTag tag.toList numFlexTritsTag
    numFlexTritsTag
  existLoop flexTritsToTrytes tagTryte tagArray tagCursorTryte

/-! ## What is compared -/

/-- The part of a tag that is converted. -/
def front (tag : Hash81) : List Tryte := tag.toList.take 9

/-- The part of a buffer that is compared and not written. -/
def left (buf : List UInt8) : List UInt8 := (buf.drop 9).take 12

theorem length_front (tag : Hash81) : (front tag).length = 9 := by
  simp [front]

/-- The message ID is longer than what is converted. -/
theorem front_eq_of_msgIdOf_eq {tag tag' : Hash81} (h : msgIdOf tag = msgIdOf tag') :
    front tag = front tag' := by
  have hid (t : Hash81) : front t = (msgIdOf t).toList.take 9 := by
    refine List.ext_getElem (by simp [front]) fun i h₁ h₂ => ?_
    simp [front, msgIdOf]
  rw [hid, hid, h]

variable {flexTritsToTrytes} (hconverts : Converts flexTritsToTrytes)
include hconverts

/-- A conversion writes nine characters. -/
theorem converted_eq (buf : List UInt8) (tag : Hash81) :
    flexTritsToTrytes buf numTrytesTag tag.toList numFlexTritsTag numFlexTritsTag =
      (front tag).map tryteByte ++ buf.drop 9 := by
  rw [hconverts buf numTrytesTag tag.toList numFlexTritsTag numFlexTritsTag (by decide) le_rfl
    (by decide) (by simp [numFlexTritsTag]), write_zero, List.length_map]
  show (front tag).map tryteByte ++ buf.drop (front tag).length = _
  rw [length_front]

theorem take_converted (buf : List UInt8) (tag : Hash81) :
    (flexTritsToTrytes buf numTrytesTag tag.toList numFlexTritsTag numFlexTritsTag).take
      numTrytesMamMsgId = (front tag).map tryteByte ++ left buf := by
  rw [converted_eq hconverts, numTrytesMamMsgId, List.take_append, List.length_map, length_front,
    List.take_of_length_le (by rw [List.length_map, length_front]; omega)]
  rfl

theorem left_converted (buf : List UInt8) (tag : Hash81) :
    left (flexTritsToTrytes buf numTrytesTag tag.toList numFlexTritsTag numFlexTritsTag) =
      left buf := by
  rw [converted_eq hconverts, left, List.drop_left' (by rw [List.length_map, length_front]), left]

/-- The loop finds a tag with the same front, if what is left in the two buffers agrees. -/
theorem existLoop_iff (tag : Hash81) (tagArray : List Hash81) (tagTryte buf : List UInt8) :
    existLoop flexTritsToTrytes
        (flexTritsToTrytes tagTryte numTrytesTag tag.toList numFlexTritsTag numFlexTritsTag)
        tagArray buf = true ↔
      left buf = left tagTryte ∧ ∃ tagCursor ∈ tagArray, front tagCursor = front tag := by
  induction tagArray generalizing buf with
  | nil => simp [existLoop]
  | cons tagCursor rest ih =>
      have hcompare : (front tagCursor).map tryteByte ++ left buf =
          (front tag).map tryteByte ++ left tagTryte ↔
          front tagCursor = front tag ∧ left buf = left tagTryte := by
        constructor
        · intro h
          obtain ⟨hfront, hleft⟩ := List.append_inj h (by simp [length_front])
          exact ⟨List.map_injective_iff.mpr tryteByte_injective hfront, hleft⟩
        · rintro ⟨hfront, hleft⟩
          rw [hfront, hleft]
      simp only [existLoop, take_converted hconverts, hcompare]
      split
      case isTrue h => simp [h.1, h.2]
      case isFalse h =>
        rw [ih, left_converted hconverts, List.exists_mem_cons_iff]
        constructor
        · rintro ⟨hleft, hrest⟩
          exact ⟨hleft, .inr hrest⟩
        · rintro ⟨hleft, hfront | hrest⟩
          · exact absurd ⟨hfront, hleft⟩ h
          · exact ⟨hleft, hrest⟩

/-- The answer: what is left on the stack agrees, and some tag has the same first nine trytes. -/
theorem msgIdExist_iff (stack : Stack) (tagArray : List Hash81) (tag : Hash81) :
    msgIdExist flexTritsToTrytes stack tagArray tag = true ↔
      left stack.tagCursorTryte.toList = left stack.tagTryte.toList ∧
        ∃ tagCursor ∈ tagArray, front tagCursor = front tag := by
  have hset (buf : Vector UInt8 28) : left (buf.toList.set numTrytesTag 0) = left buf.toList := by
    rw [left, List.drop_set, if_neg (by decide), List.take_set_of_le (by decide), left]
  rw [msgIdExist, existLoop_iff hconverts, hset, hset]

omit hconverts

/-! ## What is decided -/

/-- The answer is whether a message ID is among those of the tags, whatever the stack holds. -/
def DecidesMsgId (flexTritsToTrytes : FlexTritsToTrytes) (tagArray : List Hash81) (tag : Hash81) :
    Prop :=
  ∀ stack, msgIdExist flexTritsToTrytes stack tagArray tag = true ↔
    ∃ tagCursor ∈ tagArray, msgIdOf tagCursor = msgIdOf tag

/-- Then it is the answer of the function over message IDs. -/
theorem decidesMsgId_iff_eq (tagArray : List Hash81) (tag : Hash81) :
    DecidesMsgId flexTritsToTrytes tagArray tag ↔
      ∀ stack, msgIdExist flexTritsToTrytes stack tagArray tag =
        TangleAccelerator.msgIdExist tagArray tag := by
  have hexist : TangleAccelerator.msgIdExist tagArray tag = true ↔
      ∃ tagCursor ∈ tagArray, msgIdOf tagCursor = msgIdOf tag := by
    simp [TangleAccelerator.msgIdExist]
  refine forall_congr' fun stack => ?_
  rw [← hexist]
  exact Bool.eq_iff_iff.symm

namespace Sample

/-- A stack of zeros, but for one byte that is compared. -/
def stack (b : UInt8) : Stack := ⟨Vector.replicate 28 0, (Vector.replicate 28 0).set 20 b⟩

/-- A tag of one tryte. -/
def tagOf (t : Tryte) : Hash81 := Vector.replicate 27 t

/-- The conversion of trits that are whole trytes. -/
def convert : FlexTritsToTrytes := fun trytes _ flexTrits _ numTrits =>
  write trytes 0 ((flexTrits.take (numTrits / 3)).map tryteByte)

theorem converts_convert : Converts convert := fun _ _ _ _ _ _ _ _ _ => rfl

theorem left_stack_zero :
    left (stack 0).tagCursorTryte.toList = left (stack 0).tagTryte.toList := by
  decide

theorem left_stack_one :
    left (stack 1).tagCursorTryte.toList ≠ left (stack 1).tagTryte.toList := by
  decide

end Sample

/-- A tag with the same first nine trytes is found or not, as the stack has it. -/
theorem not_decidesMsgId_of_front (hconverts : Converts flexTritsToTrytes)
    {tagArray : List Hash81} {tagCursor tag : Hash81} (hmem : tagCursor ∈ tagArray)
    (hfront : front tagCursor = front tag) : ¬ DecidesMsgId flexTritsToTrytes tagArray tag := by
  intro h
  have hfound : msgIdExist flexTritsToTrytes (Sample.stack 0) tagArray tag = true :=
    (msgIdExist_iff hconverts _ tagArray tag).mpr
      ⟨Sample.left_stack_zero, tagCursor, hmem, hfront⟩
  have hlost : msgIdExist flexTritsToTrytes (Sample.stack 1) tagArray tag = true :=
    (h _).mpr ((h _).mp hfound)
  exact Sample.left_stack_one ((msgIdExist_iff hconverts _ tagArray tag).mp hlost).1

/-- The answer is right on every stack exactly if no tag of the array has the first nine trytes of
the tag that is looked for. -/
theorem msgIdExist_decides_iff (hconverts : Converts flexTritsToTrytes) (tagArray : List Hash81)
    (tag : Hash81) :
    DecidesMsgId flexTritsToTrytes tagArray tag ↔
      ∀ tagCursor ∈ tagArray, front tagCursor ≠ front tag := by
  constructor
  · intro h tagCursor hmem hfront
    exact not_decidesMsgId_of_front hconverts hmem hfront h
  · intro hne stack
    rw [msgIdExist_iff hconverts]
    constructor
    · rintro ⟨-, tagCursor, hmem, hfront⟩
      exact absurd hfront (hne tagCursor hmem)
    · rintro ⟨tagCursor, hmem, hid⟩
      exact absurd (front_eq_of_msgIdOf_eq hid) (hne tagCursor hmem)

/-- A tag with other trytes is not found. -/
theorem msgIdExist_decides_other :
    DecidesMsgId Sample.convert [Sample.tagOf 1] (Sample.tagOf 0) ∧
      front (Sample.tagOf 1) ≠ front (Sample.tagOf 0) :=
  ⟨(msgIdExist_decides_iff Sample.converts_convert _ _).mpr (by simp [front, Sample.tagOf]),
    by decide⟩

/-- A tag that is in the array is not found where a byte on the stack differs. -/
theorem msgIdExist_not_decides :
    msgIdExist Sample.convert (Sample.stack 1) [Sample.tagOf 0] (Sample.tagOf 0) = false ∧
      ¬ DecidesMsgId Sample.convert [Sample.tagOf 0] (Sample.tagOf 0) := by
  constructor
  · rw [Bool.eq_false_iff, ne_eq, msgIdExist_iff Sample.converts_convert]
    exact fun h => Sample.left_stack_one h.1
  · exact not_decidesMsgId_of_front Sample.converts_convert List.mem_cons_self rfl

end TangleAccelerator.TagBuffers
