import Mathlib

/-!
# Histories of assignments

A state is set up by assignments, one after the other.  A component of the state that only some of
them change is the fold of those (`foldl_component`), whatever the others do.  What that fold is
depends on what an assignment does to the component:

* it overwrites it, and the last one counts (`foldl_overwrite`);
* it inverts it, and the number counts (`foldl_not`);
* it overwrites as many slots as it has entries for, and a slot keeps what the last assignment that
  reached it left there (`foldl_overlay`).
-/

namespace Fold

variable {σ α β : Type}

theorem foldl_inv {step : σ → α → σ} {good : α → Prop} {inv : σ → Prop}
    (hinv : ∀ s a, good a → inv s → inv (step s a)) :
    ∀ {l : List α} {s : σ}, (∀ a ∈ l, good a) → inv s → inv (l.foldl step s)
  | [], _, _, hs => hs
  | a :: l, s, hl, hs =>
      foldl_inv hinv (l := l) (fun b hb => hl b (List.mem_cons_of_mem a hb))
        (hinv s a (hl a List.mem_cons_self) hs)

/-- A component sees only the assignments that change it. -/
theorem foldl_component (π : σ → β) (act : β → α → β) (mine : α → Bool) {step : σ → α → σ}
    {good : α → Prop} {inv : σ → Prop} (hinv : ∀ s a, good a → inv s → inv (step s a))
    (hmine : ∀ s a, good a → inv s → mine a = true → π (step s a) = act (π s) a)
    (hother : ∀ s a, good a → inv s → mine a = false → π (step s a) = π s) :
    ∀ {l : List α} {s : σ}, (∀ a ∈ l, good a) → inv s →
      π (l.foldl step s) = (l.filter mine).foldl act (π s)
  | [], _, _, _ => rfl
  | a :: l, s, hl, hs => by
      have ha : good a := hl a List.mem_cons_self
      have ih := foldl_component π act mine hinv hmine hother
        (fun b hb => hl b (List.mem_cons_of_mem a hb)) (hinv s a ha hs)
      rw [List.foldl_cons, ih]
      cases hm : mine a with
      | true => rw [List.filter_cons_of_pos hm, List.foldl_cons, hmine s a ha hs hm]
      | false =>
          rw [List.filter_cons_of_neg (by rw [hm]; exact Bool.false_ne_true),
            hother s a ha hs hm]

theorem foldl_overwrite (f : α → β) (l : List α) (b : β) :
    l.foldl (fun _ a => f a) b = l.getLast?.elim b f := by
  induction l using List.reverseRecOn with
  | nil => rfl
  | append_singleton l a _ => rw [List.foldl_append, List.getLast?_concat]; rfl

theorem foldl_not (l : List α) (b : Bool) :
    l.foldl (fun b _ => !b) b = (b ^^ decide (l.length % 2 = 1)) := by
  induction l using List.reverseRecOn with
  | nil => simp
  | append_singleton l a ih =>
      rw [List.foldl_append, ih, List.length_append]
      have hparity : decide ((l.length + 1) % 2 = 1) = !decide (l.length % 2 = 1) := by
        rw [← decide_not, decide_eq_decide]
        omega
      rw [List.length_singleton, hparity, Bool.xor_not]
      rfl

/-! ## Slots -/

variable {n : Nat}

/-- The entries in the first slots, and the old ones after them. -/
def overlay (new : List α) (old : Fin n → α) : Fin n → α := fun i => new[i.val]?.getD (old i)

/-- The entry of the last list that is long enough to have one. -/
def slotAt (ls : List (List α)) (i : Nat) : Option α := (ls.filterMap (·[i]?)).getLast?

theorem overlay_of_le {new : List α} {old : Fin n → α} {i : Fin n} (h : new.length ≤ i) :
    overlay new old i = old i := by
  rw [overlay, List.getElem?_eq_none h, Option.getD_none]

theorem slotAt_concat (ls : List (List α)) (l : List α) (i : Nat) :
    slotAt (ls ++ [l]) i = (l[i]?).or (slotAt ls i) := by
  rw [slotAt, List.filterMap_append]
  cases h : l[i]? with
  | none => simp [h, slotAt]
  | some x => simp [h]

theorem slotAt_eq_none_iff {ls : List (List α)} {i : Nat} :
    slotAt ls i = none ↔ ∀ l ∈ ls, l.length ≤ i := by
  simp [slotAt]

theorem slotAt_map (f : α → β) (ls : List (List α)) (i : Nat) :
    slotAt (ls.map (List.map f)) i = (slotAt ls i).map f := by
  induction ls using List.reverseRecOn with
  | nil => rfl
  | append_singleton ls l ih =>
      rw [List.map_append, List.map_singleton, slotAt_concat, slotAt_concat, ih, List.getElem?_map]
      cases l[i]? <;> rfl

theorem foldl_overlay (ls : List (List α)) (old : Fin n → α) (i : Fin n) :
    ls.foldl (fun s l => overlay l s) old i = (slotAt ls i).getD (old i) := by
  induction ls using List.reverseRecOn with
  | nil => rfl
  | append_singleton ls l ih =>
      rw [List.foldl_append, slotAt_concat]
      change (l[i.val]?).getD (ls.foldl (fun s l => overlay l s) old i) = _
      rw [ih]
      cases l[i.val]? <;> rfl

/-- The last list alone counts where the slots after it hold nothing but their old entries. -/
theorem foldl_overlay_eq_iff {ls : List (List α)} {l : List α} (h : ls.getLast? = some l)
    (old : Fin n → α) :
    ls.foldl (fun s l => overlay l s) old = overlay l old ↔
      ∀ i : Fin n, l.length ≤ i → ∀ x, slotAt ls i = some x → x = old i := by
  obtain ⟨ls, rfl⟩ := List.getLast?_eq_some_iff.mp h
  rw [funext_iff]
  refine forall_congr' fun i => ?_
  rw [foldl_overlay]
  rcases Nat.lt_or_ge i l.length with hi | hi
  · have hget : l[i.val]? = some (l.get ⟨i, hi⟩) := List.getElem?_eq_getElem hi
    rw [slotAt_concat, overlay, hget]
    exact iff_of_true rfl fun hle => absurd hi (Nat.not_lt.mpr hle)
  · rw [overlay_of_le hi]
    cases slotAt (ls ++ [l]) i with
    | none => exact iff_of_true rfl (by intro _ x hx; cases hx)
    | some y =>
        constructor
        · intro hy _ x hx
          cases hx
          exact hy
        · intro hy
          exact hy hi y rfl

/-- Entries from a slot on. -/
def overlayFrom (idx : Nat) (new : List α) (old : Fin n → α) : Fin n → α := fun i =>
  if idx ≤ i then new[i.val - idx]?.getD (old i) else old i

theorem overlayFrom_zero (new : List α) (old : Fin n → α) :
    overlayFrom 0 new old = overlay new old := by
  funext i
  rw [overlayFrom, if_pos (Nat.zero_le _)]
  rfl

theorem overlayFrom_nil (idx : Nat) (old : Fin n → α) : overlayFrom idx [] old = old := by
  funext i
  simp [overlayFrom]

theorem overlayFrom_of_le {idx : Nat} (h : n ≤ idx) (new : List α) (old : Fin n → α) :
    overlayFrom idx new old = old := by
  funext i
  rw [overlayFrom, if_neg (by omega)]

/-- One entry after the other. -/
theorem overlayFrom_cons {idx : Nat} (h : idx < n) (x : α) (xs : List α) (old : Fin n → α) :
    overlayFrom idx (x :: xs) old =
      overlayFrom (idx + 1) xs (Function.update old ⟨idx, h⟩ x) := by
  funext i
  rcases Nat.lt_trichotomy i idx with hi | hi | hi
  · have hne : i ≠ ⟨idx, h⟩ := fun heq => by rw [heq] at hi; exact Nat.lt_irrefl idx hi
    rw [overlayFrom, overlayFrom, if_neg (by omega), if_neg (by omega),
      Function.update_of_ne hne]
  · have heq : i = ⟨idx, h⟩ := Fin.ext hi
    rw [overlayFrom, overlayFrom, if_pos (by omega), if_neg (by omega), heq,
      Function.update_self, Nat.sub_self]
    rfl
  · have hne : i ≠ ⟨idx, h⟩ := fun heq => by rw [heq] at hi; exact Nat.lt_irrefl idx hi
    have hsub : i.val - idx = i.val - (idx + 1) + 1 := by omega
    rw [overlayFrom, overlayFrom, if_pos (by omega), if_pos (by omega),
      Function.update_of_ne hne, hsub, List.getElem?_cons_succ]

end Fold
