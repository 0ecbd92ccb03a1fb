import Mathlib

/-!
# Tables of a column store

A table has at most one row for each key, and a query returns rows in the order of their keys.  A
`Table` is the list of its rows in that order, so two tables with the same rows are the same table
(`Table.ext_get`).

An update writes to the row of one key.  Where there is no such row, it creates one and writes to
that, so every update is an *upsert*.  A row that is not there is no different from a row of nulls
as far as an update is concerned: `Table.row` is the row of a key with this reading, and
`row_upsert` says what an update does to it.

A set of keys is a table without columns (`KeySet`).
-/

namespace Cql

variable {K R : Type} [LinearOrder K]

/-- A table: rows in the order of their keys. -/
structure Table (K R : Type) [LinearOrder K] where
  /-- The rows with their keys. -/
  rows : List (K × R)
  sorted : rows.Pairwise fun x y => x.1 < y.1

namespace Table

/-- The table without rows. -/
def empty : Table K R := ⟨[], List.Pairwise.nil⟩

/-- The row of a key in a list of rows. -/
def getRows (rows : List (K × R)) (k : K) : Option R := (rows.find? fun x => x.1 = k).map Prod.snd

/-- The row of a key. -/
def get (T : Table K R) (k : K) : Option R := getRows T.rows k

/-- The row of a key, where a row that is missing is `nulls`. -/
def row (T : Table K R) (nulls : R) (k : K) : R := (T.get k).getD nulls

@[simp] theorem get_empty (k : K) : (empty : Table K R).get k = none := rfl

theorem getRows_cons (x : K × R) (rows : List (K × R)) (k : K) :
    getRows (x :: rows) k = if x.1 = k then some x.2 else getRows rows k := by
  by_cases h : x.1 = k
  · simp [getRows, h]
  · simp [getRows, h]

theorem mem_rows_iff {T : Table K R} {k : K} {r : R} : (k, r) ∈ T.rows ↔ T.get k = some r := by
  obtain ⟨rows, sorted⟩ := T
  change (k, r) ∈ rows ↔ getRows rows k = some r
  induction rows with
  | nil => simp [getRows]
  | cons x rows ih =>
      obtain ⟨hx, hrows⟩ := List.pairwise_cons.mp sorted
      rw [getRows_cons, List.mem_cons]
      by_cases hk : x.1 = k
      · subst hk
        rw [if_pos rfl, Option.some.injEq]
        constructor
        · intro h
          rcases h with h | h
          · rw [← h]
          · exact absurd (hx _ h) (lt_irrefl _)
        · rintro rfl
          exact Or.inl rfl
      · rw [if_neg hk, ← ih hrows]
        constructor
        · intro h
          rcases h with h | h
          · exact absurd (congrArg Prod.fst h).symm hk
          · exact h
        · exact Or.inr

/-- Tables are determined by their rows. -/
theorem ext_get {T T' : Table K R} (h : ∀ k, T.get k = T'.get k) : T = T' := by
  obtain ⟨rows, sorted⟩ := T
  obtain ⟨rows', sorted'⟩ := T'
  have hmem : ∀ x, x ∈ rows ↔ x ∈ rows' := by
    intro x
    have hx := mem_rows_iff (T := ⟨rows, sorted⟩) (k := x.1) (r := x.2)
    rw [h x.1, ← mem_rows_iff] at hx
    exact hx
  have : Std.Irrefl fun x y : K × R => x.1 < y.1 := ⟨fun x => lt_irrefl x.1⟩
  have : Std.Antisymm fun x y : K × R => x.1 < y.1 := ⟨fun x y h h' => absurd h' (lt_asymm h)⟩
  have hrows : rows = rows' := sorted.eq_of_mem_iff sorted' hmem
  subst hrows
  rfl

/-! ## Updates -/

/-- The rows after an update of one key. -/
def upsertRows (nulls : R) (k : K) (f : R → R) : List (K × R) → List (K × R)
  | [] => [(k, f nulls)]
  | x :: rows =>
      if k < x.1 then (k, f nulls) :: x :: rows
      else if x.1 < k then x :: upsertRows nulls k f rows
      else (k, f x.2) :: rows

theorem key_mem_upsertRows {nulls : R} {k : K} {f : R → R} {rows : List (K × R)} {y : K × R}
    (h : y ∈ upsertRows nulls k f rows) : y.1 = k ∨ y ∈ rows := by
  induction rows with
  | nil => exact Or.inl (by rw [List.mem_singleton.mp h])
  | cons x rows ih =>
      rw [upsertRows] at h
      split at h
      · rcases List.mem_cons.mp h with rfl | h
        · exact Or.inl rfl
        · exact Or.inr h
      split at h
      · rcases List.mem_cons.mp h with rfl | h
        · exact Or.inr (List.mem_cons_self ..)
        · exact (ih h).imp_right (List.mem_cons_of_mem _)
      · rcases List.mem_cons.mp h with rfl | h
        · exact Or.inl rfl
        · exact Or.inr (List.mem_cons_of_mem _ h)

theorem sorted_upsertRows (nulls : R) (k : K) (f : R → R) {rows : List (K × R)}
    (h : rows.Pairwise fun x y => x.1 < y.1) :
    (upsertRows nulls k f rows).Pairwise fun x y => x.1 < y.1 := by
  induction rows with
  | nil => exact List.pairwise_singleton ..
  | cons x rows ih =>
      obtain ⟨hx, hrows⟩ := List.pairwise_cons.mp h
      rw [upsertRows]
      split
      · rename_i hlt
        refine List.pairwise_cons.mpr ⟨fun y hy => ?_, h⟩
        rcases List.mem_cons.mp hy with rfl | hy
        · exact hlt
        · exact hlt.trans (hx y hy)
      split
      · rename_i hlt
        refine List.pairwise_cons.mpr ⟨fun y hy => ?_, ih hrows⟩
        rcases key_mem_upsertRows hy with hk | hy
        · rwa [hk]
        · exact hx y hy
      · rename_i hle hge
        have hk : k = x.1 := le_antisymm (not_lt.mp hge) (not_lt.mp hle)
        exact List.pairwise_cons.mpr ⟨fun y hy => hk ▸ hx y hy, hrows⟩

/-- Update the row of a key, or create it. -/
def upsert (T : Table K R) (nulls : R) (k : K) (f : R → R) : Table K R :=
  ⟨upsertRows nulls k f T.rows, sorted_upsertRows nulls k f T.sorted⟩

/-- A key before all keys of a list has no row there. -/
theorem getRows_eq_none {rows : List (K × R)} {k : K} (h : ∀ y ∈ rows, k < y.1) :
    getRows rows k = none := by
  rw [getRows, Option.map_eq_none_iff, List.find?_eq_none]
  intro y hy
  rw [decide_eq_true_iff]
  exact (h y hy).ne'

theorem getRows_upsertRows (nulls : R) (k : K) (f : R → R) {rows : List (K × R)}
    (h : rows.Pairwise fun x y => x.1 < y.1) (k' : K) :
    getRows (upsertRows nulls k f rows) k' =
      if k' = k then some (f ((getRows rows k).getD nulls)) else getRows rows k' := by
  induction rows with
  | nil =>
      rw [upsertRows, getRows_cons]
      simp only [eq_comm (a := k)]
      rfl
  | cons x rows ih =>
      obtain ⟨hx, hrows⟩ := List.pairwise_cons.mp h
      rw [upsertRows]
      split
      · rename_i hlt
        have hnone : getRows (x :: rows) k = none :=
          getRows_eq_none (List.forall_mem_cons.mpr ⟨hlt, fun y hy => hlt.trans (hx y hy)⟩)
        rw [getRows_cons, hnone]
        simp only [eq_comm (a := k)]
        rfl
      split
      · rename_i hlt
        rw [getRows_cons, ih hrows, getRows_cons x rows k, if_neg hlt.ne, getRows_cons x rows k']
        by_cases hk : k' = k
        · subst hk
          rw [if_neg hlt.ne, if_pos rfl, if_pos rfl]
        · rw [if_neg hk, if_neg hk]
      · rename_i hle hge
        have hk : x.1 = k := le_antisymm (not_lt.mp hle) (not_lt.mp hge)
        rw [getRows_cons, getRows_cons x rows k, if_pos hk, getRows_cons x rows k', hk]
        simp only [eq_comm (a := k)]
        by_cases hk' : k' = k
        · rw [if_pos hk', if_pos hk']
          rfl
        · rw [if_neg hk', if_neg hk', if_neg hk']

theorem get_upsert (T : Table K R) (nulls : R) (k : K) (f : R → R) (k' : K) :
    (T.upsert nulls k f).get k' = if k' = k then some (f (T.row nulls k)) else T.get k' :=
  getRows_upsertRows nulls k f T.sorted k'

/-- What an update does to the rows. -/
theorem row_upsert (T : Table K R) (nulls : R) (k : K) (f : R → R) (k' : K) :
    (T.upsert nulls k f).row nulls k' =
      if k' = k then f (T.row nulls k') else T.row nulls k' := by
  rw [row, get_upsert]
  by_cases hk : k' = k
  · subst hk
    rw [if_pos rfl, if_pos rfl]
    rfl
  · rw [if_neg hk, if_neg hk]
    rfl

/-- An update creates the row of its key, and no other. -/
theorem isSome_get_upsert (T : Table K R) (nulls : R) (k : K) (f : R → R) (k' : K) :
    ((T.upsert nulls k f).get k').isSome = true ↔ k' = k ∨ (T.get k').isSome = true := by
  rw [get_upsert]
  by_cases hk : k' = k
  · simp [hk]
  · simp [hk]

/-! ## Queries -/

/-- The keys of the rows that satisfy a condition. -/
def select (T : Table K R) (p : R → Bool) : List K := (T.rows.filter fun x => p x.2).map Prod.fst

theorem select_upsert_empty (nulls : R) (k : K) (f : R → R) (p : R → Bool) :
    (empty.upsert nulls k f).select p = if p (f nulls) then [k] else [] := by
  cases h : p (f nulls) <;> simp [select, upsert, upsertRows, empty, h]

end Table

/-! ## Sets of keys -/

/-- A set of keys: a table without columns. -/
abbrev KeySet (K : Type) [LinearOrder K] := Table K Unit

namespace KeySet

/-- Add a key. -/
def add (s : KeySet K) (k : K) : KeySet K := s.upsert () k id

/-- The keys, in their order. -/
def toList (s : KeySet K) : List K := s.rows.map Prod.fst

theorem mem_toList {s : KeySet K} {k : K} : k ∈ s.toList ↔ s.get k = some () := by
  rw [← Table.mem_rows_iff, toList, List.mem_map]
  constructor
  · rintro ⟨⟨k, ⟨⟩⟩, hmem, rfl⟩
    exact hmem
  · exact fun h => ⟨(k, ()), h, rfl⟩

@[simp] theorem toList_empty : toList (Table.empty : KeySet K) = [] := rfl

theorem mem_add {s : KeySet K} {k k' : K} : k' ∈ (s.add k).toList ↔ k' = k ∨ k' ∈ s.toList := by
  rw [mem_toList, mem_toList, add, Table.get_upsert]
  by_cases hk : k' = k
  · simp [hk]
  · simp [hk]

/-- Sets with the same keys are the same set. -/
theorem ext_mem {s s' : KeySet K} (h : ∀ k, k ∈ s.toList ↔ k ∈ s'.toList) : s = s' := by
  refine Table.ext_get fun k => ?_
  have hk := h k
  rw [mem_toList, mem_toList] at hk
  cases hs : s.get k with
  | some u => exact (hk.mp hs).symm
  | none =>
      cases hs' : s'.get k with
      | none => rfl
      | some u =>
          rw [hk.mpr hs'] at hs
          cases hs

end KeySet

end Cql
