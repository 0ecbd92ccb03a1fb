import Mathlib

/-!
# Regular expressions

Regular expressions over symbols that stand for sets of letters, their languages, and a matcher by
derivatives.

A symbol is data, and a function says which letters it stands for.  So expressions can be compared,
and a symbol for all letters is no larger than one for a single letter.

`cat` puts pieces in a row.  What the pieces are is kept, since a word of the row is cut into words
of the pieces.
-/

open Computability

namespace Regex

/-- Regular expressions over symbols. -/
inductive RE (σ : Type*) where
  | zero
  | one
  | sym (s : σ)
  | alt (r r' : RE σ)
  | seq (r r' : RE σ)
  | star (r : RE σ)
deriving DecidableEq, Repr

namespace RE

variable {σ α : Type*}

/-! ## Languages -/

section Lang

variable (stands : σ → α → Bool)

/-- The words of an expression. -/
def lang : RE σ → Language α
  | zero => 0
  | one => 1
  | sym s => {w | ∃ a, stands s a = true ∧ w = [a]}
  | alt r r' => lang r + lang r'
  | seq r r' => lang r * lang r'
  | star r => (lang r)∗

/-- The empty word is one of the words. -/
def nullable : RE σ → Bool
  | zero => false
  | one => true
  | sym _ => false
  | alt r r' => nullable r || nullable r'
  | seq r r' => nullable r && nullable r'
  | star _ => true

/-- The derivative by a letter: what may follow it. -/
def deriv (a : α) : RE σ → RE σ
  | zero => zero
  | one => zero
  | sym s => if stands s a then one else zero
  | alt r r' => alt (deriv a r) (deriv a r')
  | seq r r' =>
      if nullable r then alt (seq (deriv a r) r') (deriv a r') else seq (deriv a r) r'
  | star r => seq (deriv a r) (star r)

/-- The matcher. -/
def accepts : RE σ → List α → Bool
  | r, [] => nullable r
  | r, a :: w => accepts (deriv stands a r) w

end Lang

variable {stands : σ → α → Bool} {r r' : RE σ} {a : α} {w : List α}

theorem mem_lang_zero : ¬ w ∈ lang stands (zero : RE σ) := Language.notMem_zero w

theorem mem_lang_one : w ∈ lang stands (one : RE σ) ↔ w = [] := Language.mem_one w

theorem mem_lang_sym {s : σ} :
    w ∈ lang stands (sym s) ↔ ∃ a, stands s a = true ∧ w = [a] := Iff.rfl

theorem mem_lang_alt : w ∈ lang stands (alt r r') ↔ w ∈ lang stands r ∨ w ∈ lang stands r' :=
  Language.mem_add _ _ w

theorem mem_lang_seq : w ∈ lang stands (seq r r') ↔
    ∃ u ∈ lang stands r, ∃ v ∈ lang stands r', u ++ v = w := Language.mem_mul

theorem nil_mem_lang_iff : [] ∈ lang stands r ↔ nullable r = true := by
  induction r with
  | zero => simp [mem_lang_zero, nullable]
  | one => simp [mem_lang_one, nullable]
  | sym s => simp [mem_lang_sym, nullable]
  | alt r r' ih ih' => rw [mem_lang_alt, ih, ih', nullable, Bool.or_eq_true]
  | seq r r' ih ih' =>
    rw [nullable, Bool.and_eq_true, ← ih, ← ih', mem_lang_seq]
    constructor
    · rintro ⟨u, hu, v, hv, huv⟩
      obtain ⟨rfl, rfl⟩ := List.append_eq_nil_iff.mp huv
      exact ⟨hu, hv⟩
    · rintro ⟨hr, hr'⟩
      exact ⟨[], hr, [], hr', rfl⟩
  | star r ih => exact iff_of_true (Language.nil_mem_kstar _) rfl

/-- A word that starts with a letter starts in the first factor, or the first factor is empty. -/
theorem cons_mem_mul {L M : Language α} : a :: w ∈ L * M ↔
    (∃ u v, a :: u ∈ L ∧ v ∈ M ∧ u ++ v = w) ∨ [] ∈ L ∧ a :: w ∈ M := by
  rw [Language.mem_mul]
  constructor
  · rintro ⟨u, hu, v, hv, huv⟩
    cases u with
    | nil => exact .inr ⟨hu, by rwa [← huv, List.nil_append]⟩
    | cons b u =>
      obtain ⟨rfl, rfl⟩ := List.cons.inj huv
      exact .inl ⟨u, v, hu, hv, rfl⟩
  · rintro (⟨u, v, hu, hv, rfl⟩ | ⟨hL, hM⟩)
    · exact ⟨a :: u, hu, v, hv, rfl⟩
    · exact ⟨[], hL, a :: w, hM, rfl⟩

/-- Of a star the word starts in one round. -/
theorem cons_mem_kstar {L : Language α} :
    a :: w ∈ L∗ ↔ ∃ u v, a :: u ∈ L ∧ v ∈ L∗ ∧ u ++ v = w := by
  constructor
  · intro h
    obtain ⟨rounds, hw, hrounds⟩ := Language.mem_kstar_iff_exists_nonempty.mp h
    cases rounds with
    | nil => cases hw
    | cons round rounds =>
      obtain ⟨hround, hne⟩ := hrounds round List.mem_cons_self
      obtain ⟨b, u, rfl⟩ := List.exists_cons_of_ne_nil hne
      rw [List.flatten_cons, List.cons_append] at hw
      obtain ⟨rfl, rfl⟩ := List.cons.inj hw
      refine ⟨u, rounds.flatten, hround, Language.join_mem_kstar ?_, rfl⟩
      intro v hv
      exact (hrounds v (List.mem_cons_of_mem _ hv)).1
  · rintro ⟨u, v, hu, hv, rfl⟩
    rw [← Language.one_add_self_mul_kstar_eq_kstar]
    exact .inr ⟨a :: u, hu, v, hv, rfl⟩

/-- Words whose first part is in a derivative. -/
theorem exists_append_iff {L M N : Language α} (h : ∀ u, u ∈ L ↔ a :: u ∈ M) :
    (∃ u ∈ L, ∃ v ∈ N, u ++ v = w) ↔ ∃ u v, a :: u ∈ M ∧ v ∈ N ∧ u ++ v = w := by
  constructor
  · rintro ⟨u, hu, v, hv, rfl⟩
    exact ⟨u, v, (h u).mp hu, hv, rfl⟩
  · rintro ⟨u, v, hu, hv, rfl⟩
    exact ⟨u, (h u).mpr hu, v, hv, rfl⟩

theorem mem_lang_deriv : w ∈ lang stands (deriv stands a r) ↔ a :: w ∈ lang stands r := by
  induction r generalizing w with
  | zero => simp [deriv, mem_lang_zero]
  | one => simp [deriv, mem_lang_zero, mem_lang_one]
  | sym s =>
    rw [deriv]
    split
    · rename_i hs
      simp [mem_lang_one, mem_lang_sym, hs]
    · rename_i hs
      simp [mem_lang_zero, mem_lang_sym, hs]
  | alt r r' ih ih' => rw [deriv, mem_lang_alt, mem_lang_alt, ih, ih']
  | seq r r' ih ih' =>
    have hfirst : w ∈ lang stands (seq (deriv stands a r) r') ↔
        ∃ u v, a :: u ∈ lang stands r ∧ v ∈ lang stands r' ∧ u ++ v = w := by
      rw [mem_lang_seq]
      exact exists_append_iff fun _ => ih
    rw [lang, cons_mem_mul, nil_mem_lang_iff, ← hfirst, deriv]
    split
    · rename_i hnull
      rw [mem_lang_alt, ih', and_iff_right hnull]
    · rename_i hnull
      exact (or_iff_left fun h => hnull h.1).symm
  | star r ih =>
    rw [deriv, mem_lang_seq, lang, cons_mem_kstar]
    exact exists_append_iff fun _ => ih

/-- The matcher accepts the words of the expression. -/
theorem accepts_iff : accepts stands r w = true ↔ w ∈ lang stands r := by
  induction w generalizing r with
  | nil => rw [accepts, nil_mem_lang_iff]
  | cons a w ih => rw [accepts, ih, mem_lang_deriv]

instance : DecidablePred (· ∈ lang stands r) := fun _ => decidable_of_iff _ accepts_iff

/-! ## Letters that do not occur -/

/-- No symbol of the expression stands for the letter. -/
def avoids (stands : σ → α → Bool) (a : α) : RE σ → Bool
  | zero => true
  | one => true
  | sym s => !stands s a
  | alt r r' => avoids stands a r && avoids stands a r'
  | seq r r' => avoids stands a r && avoids stands a r'
  | star r => avoids stands a r

/-- Then it is in none of the words. -/
theorem notMem_of_avoids (h : avoids stands a r = true) (hw : w ∈ lang stands r) : a ∉ w := by
  induction r generalizing w with
  | zero => exact absurd hw mem_lang_zero
  | one =>
    rw [mem_lang_one.mp hw]
    exact List.not_mem_nil
  | sym s =>
    obtain ⟨b, hb, rfl⟩ := hw
    rintro hab
    rw [List.mem_singleton.mp hab] at h
    simp [avoids, hb] at h
  | alt r r' ih ih' =>
    rw [avoids, Bool.and_eq_true] at h
    rcases mem_lang_alt.mp hw with hw | hw
    · exact ih h.1 hw
    · exact ih' h.2 hw
  | seq r r' ih ih' =>
    rw [avoids, Bool.and_eq_true] at h
    obtain ⟨u, hu, v, hv, rfl⟩ := mem_lang_seq.mp hw
    rw [List.mem_append, not_or]
    exact ⟨ih h.1 hu, ih' h.2 hv⟩
  | star r ih =>
    obtain ⟨rounds, rfl, hrounds⟩ := hw
    rw [List.mem_flatten]
    rintro ⟨u, hu, ha⟩
    exact ih h (hrounds u hu) ha

/-! ## Pieces in a row -/

/-- Pieces in a row. -/
def cat : List (RE σ) → RE σ
  | [] => one
  | r :: rs => seq r (cat rs)

/-- A piece or nothing. -/
def opt (r : RE σ) : RE σ := alt r one

/-- At most so many of a piece. -/
def upTo (r : RE σ) : Nat → RE σ
  | 0 => one
  | n + 1 => opt (seq r (upTo r n))

/-- From `m` up to `n` of a piece. -/
def between (r : RE σ) (m n : Nat) : RE σ := seq (cat (List.replicate m r)) (upTo r (n - m))

theorem lang_cat_append (rs rs' : List (RE σ)) :
    lang stands (cat (rs ++ rs')) = lang stands (cat rs) * lang stands (cat rs') := by
  induction rs with
  | nil => rw [List.nil_append, cat, lang, one_mul]
  | cons r rs ih => rw [List.cons_append, cat, lang, ih, cat, lang, mul_assoc]

end RE

end Regex
