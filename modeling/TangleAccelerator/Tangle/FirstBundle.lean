import TangleAccelerator.Buffer.Handover

/-!
# The first bundle among transactions

`get_first_bundle_from_transactions` of `core.c`.

The node answers a bundle hash with the transactions of every attachment of the bundle.  The
function sorts them by index and takes the first one.  It then makes one pass over all of them and
takes a transaction whenever it is the trunk of the one it took last and its index is the next one.
The sort is `qsort`, which may leave transactions with equal indices in any order.

The pass does not skip: while a transaction of an attachment is the last one taken, the rest of
that attachment is still ahead of it (`followTrunk_eq_drop`).
-/

namespace TangleAccelerator

/-- `idx_sort`. -/
def idxSort (lhs rhs : Transaction) : Int :=
  if lhs.currentIndex < rhs.currentIndex then -1
  else if rhs.currentIndex < lhs.currentIndex then 1
  else 0

/-- The loop: what is taken from the transactions that are left.  `prev` was taken last. -/
def followTrunk : Transaction → List Transaction → List Transaction
  | _, [] => []
  | prev, curr :: rest =>
      if curr.currentIndex = prev.currentIndex + 1 ∧ curr.hash = prev.trunk then
        curr :: followTrunk curr rest
      else
        followTrunk prev rest

/-- `get_first_bundle_from_transactions`.  Without a transaction the tail is a null pointer. -/
def getFirstBundleFromTransactions (sort : List Transaction → List Transaction)
    (transactions : List Transaction) : Option (List Transaction) :=
  match sort transactions with
  | [] => none
  | tail :: rest => some (tail :: followTrunk tail (tail :: rest))

/-- What `utarray_sort` does with `idx_sort`. -/
structure Sorts (sort : List Transaction → List Transaction) : Prop where
  perm : ∀ txs, (sort txs).Perm txs
  sorted : ∀ txs, (sort txs).Pairwise fun lhs rhs => idxSort lhs rhs ≤ 0

/-- An attachment of a bundle: transactions with the indices from `0` on, and the trunk of each is
the next one. -/
structure Attachment (m : Nat) (txs : List Transaction) : Prop where
  length : txs.length = m + 1
  index : ∀ i (h : i < txs.length), (txs[i]).currentIndex.toInt = i
  link : ∀ i (h : i + 1 < txs.length), (txs[i]).trunk = (txs[i + 1]).hash

/-- The transactions are those of some attachments, in any order and with any repetitions, and
transactions of different attachments have different hashes. -/
structure Mixture (m : Nat) (attachments : List (List Transaction)) (txs : List Transaction) :
    Prop where
  some : attachments ≠ []
  complete : ∀ a ∈ attachments, Attachment m a
  mem_iff : ∀ tx, tx ∈ txs ↔ ∃ a ∈ attachments, tx ∈ a
  apart : ∀ a ∈ attachments, ∀ b ∈ attachments, a ≠ b → ∀ x ∈ a, ∀ y ∈ b, x.hash ≠ y.hash

/-! ## Indices -/

theorem le_of_idxSort {lhs rhs : Transaction} (h : idxSort lhs rhs ≤ 0) :
    lhs.currentIndex.toInt ≤ rhs.currentIndex.toInt := by
  unfold idxSort at h
  split at h
  · rename_i hlt
    exact le_of_lt (Int64.lt_iff_toInt_lt.mp hlt)
  · split at h
    · omega
    · rename_i hge
      exact not_lt.mp fun hlt => hge (Int64.lt_iff_toInt_lt.mpr hlt)

/-- The next index, among indices that are not negative. -/
theorem eq_add_one_iff {x y : Int64} (hx : 0 ≤ x.toInt) (hy : 0 ≤ y.toInt) :
    y = x + 1 ↔ y.toInt = x.toInt + 1 := by
  have hlt := x.toInt_lt
  have hone : (1 : Int64).toInt = 1 := by decide
  rw [← Int64.toInt_inj, Int64.toInt_add, hone]
  by_cases hmax : x.toInt + 1 < 2 ^ 63
  · rw [Int.bmod_eq_of_le (by omega) (by omega)]
  · have hbmod : (x.toInt + 1).bmod (2 ^ 64) = -2 ^ 63 := by
      have : x.toInt = 2 ^ 63 - 1 := by omega
      rw [this]
      decide
    have hylt := y.toInt_lt
    rw [hbmod]
    omega

/-! ## The pass -/

section Pass

variable {m : Nat} {attachments : List (List Transaction)} {txs : List Transaction}

theorem Attachment.index_of_mem {a : List Transaction} {tx : Transaction} (h : Attachment m a)
    (htx : tx ∈ a) : ∃ (j : Nat) (hj : j < a.length), a[j] = tx ∧ tx.currentIndex.toInt = j := by
  obtain ⟨j, hj, rfl⟩ := List.mem_iff_getElem.mp htx
  exact ⟨j, hj, rfl, h.index j hj⟩

/-- A transaction of the mixture that fits after one of an attachment is the next one of it. -/
theorem Mixture.fits_iff (h : Mixture m attachments txs) {a : List Transaction}
    (ha : a ∈ attachments) {i : Nat} (hi : i < a.length) {curr : Transaction} (hcurr : curr ∈ txs) :
    (curr.currentIndex = (a[i]).currentIndex + 1 ∧ curr.hash = (a[i]).trunk) ↔
      ∃ hj : i + 1 < a.length, curr = a[i + 1] := by
  obtain ⟨b, hb, hmem⟩ := (h.mem_iff curr).mp hcurr
  obtain ⟨j, hj, hget, hindex⟩ := (h.complete b hb).index_of_mem hmem
  have hai := (h.complete a ha).index i hi
  have hnext := eq_add_one_iff (x := (a[i]).currentIndex) (y := curr.currentIndex)
    (by omega) (by omega)
  rw [hnext]
  constructor
  · intro hfits
    have hji : j = i + 1 := by omega
    have hlen : a.length = b.length := by
      rw [(h.complete a ha).length, (h.complete b hb).length]
    have hia : i + 1 < a.length := by omega
    refine ⟨hia, ?_⟩
    rw [(h.complete a ha).link i hia] at hfits
    -- the hash says which attachment it is
    by_cases hab : a = b
    · subst hab
      subst hji
      exact hget.symm
    · exact absurd hfits.2.symm (h.apart a ha b hb hab _ (List.getElem_mem hia) curr hmem)
  · rintro ⟨hia, rfl⟩
    exact ⟨by rw [(h.complete a ha).index (i + 1) hia, hai]; rfl,
      ((h.complete a ha).link i hia).symm⟩

theorem Attachment.ne_of_lt {a : List Transaction} (h : Attachment m a) {i j : Nat}
    (hi : i < a.length) (hj : j < a.length) (hij : i < j) : a[j] ≠ a[i] := by
  intro he
  have hindex := h.index j hj
  rw [he, h.index i hi] at hindex
  omega

/-- From one transaction of an attachment the pass takes the rest of it, if all of that is still
ahead. -/
theorem followTrunk_eq_drop (h : Mixture m attachments txs) {a : List Transaction}
    (ha : a ∈ attachments) {i : Nat} (hi : i < a.length) {rest : List Transaction}
    (hsub : ∀ tx ∈ rest, tx ∈ txs)
    (hsorted : rest.Pairwise fun lhs rhs => idxSort lhs rhs ≤ 0)
    (hahead : ∀ j (hj : j < a.length), i < j → a[j] ∈ rest) :
    followTrunk a[i] rest = a.drop (i + 1) := by
  have hatt := h.complete a ha
  induction rest generalizing i with
  | nil =>
      have hlast : a.length ≤ i + 1 := by
        by_contra hlt
        exact absurd (hahead (i + 1) (by omega) (by omega)) List.not_mem_nil
      rw [List.drop_of_length_le hlast]
      rfl
  | cons curr rest ih =>
      rw [List.forall_mem_cons] at hsub
      rw [List.pairwise_cons] at hsorted
      have hfits := h.fits_iff ha hi hsub.1
      by_cases hnext : ∃ hj : i + 1 < a.length, curr = a[i + 1]
      · rw [followTrunk, if_pos (hfits.mpr hnext)]
        obtain ⟨hia, rfl⟩ := hnext
        rw [List.drop_eq_getElem_cons hia, ih hia hsub.2 hsorted.2]
        intro j hj hij
        exact (List.mem_cons.mp (hahead j hj (by omega))).resolve_left (hatt.ne_of_lt hia hj hij)
      · rw [followTrunk, if_neg (fun hf => hnext (hfits.mp hf))]
        refine ih hi hsub.2 hsorted.2 fun j hj hij => ?_
        refine (List.mem_cons.mp (hahead j hj hij)).resolve_left fun he => ?_
        -- nothing of the attachment is skipped: its next transaction would come after `curr`
        have hia : i + 1 < a.length := by omega
        have hmem : a[i + 1] ∈ rest := by
          refine (List.mem_cons.mp (hahead (i + 1) hia (by omega))).resolve_left fun he' => ?_
          exact hnext ⟨hia, he'.symm⟩
        have hle := le_of_idxSort (hsorted.1 _ hmem)
        rw [hatt.index (i + 1) hia, ← he, hatt.index j hj] at hle
        have hj1 : j = i + 1 := by omega
        subst hj1
        exact hnext ⟨hj, he.symm⟩

/-- The first transaction after the sort is the first one of an attachment. -/
theorem Mixture.head_of_sorted (h : Mixture m attachments txs) {tail : Transaction}
    {rest : List Transaction} (hmem : ∀ tx, tx ∈ tail :: rest ↔ tx ∈ txs)
    (hsorted : (tail :: rest).Pairwise fun lhs rhs => idxSort lhs rhs ≤ 0) :
    ∃ a ∈ attachments, ∃ h0 : 0 < a.length, tail = a[0] := by
  obtain ⟨a, ha, hta⟩ := (h.mem_iff tail).mp ((hmem tail).mp (List.mem_cons_self ..))
  have hatt := h.complete a ha
  obtain ⟨j, hj, hget, hindex⟩ := hatt.index_of_mem hta
  have h0 : 0 < a.length := by omega
  have hfirst : a[0] ∈ tail :: rest :=
    (hmem _).mpr ((h.mem_iff _).mpr ⟨a, ha, List.getElem_mem h0⟩)
  have hle : tail.currentIndex.toInt ≤ (a[0]).currentIndex.toInt := by
    rcases List.mem_cons.mp hfirst with he | hr
    · rw [he]
    · exact le_of_idxSort ((List.pairwise_cons.mp hsorted).1 _ hr)
  rw [hatt.index 0 h0, hindex] at hle
  have hj0 : j = 0 := by omega
  subst hj0
  exact ⟨a, ha, h0, hget.symm⟩

/-- The pass starts from the first of the sorted transactions, and these are the transactions of the
answer. -/
theorem Sorts.exists_sorted {sort : List Transaction → List Transaction} (hsort : Sorts sort)
    {txs : List Transaction} (hne : txs ≠ []) :
    ∃ tail rest, getFirstBundleFromTransactions sort txs =
        some (tail :: followTrunk tail (tail :: rest)) ∧
      (∀ tx, tx ∈ tail :: rest ↔ tx ∈ txs) ∧
      (tail :: rest).Pairwise fun lhs rhs => idxSort lhs rhs ≤ 0 := by
  have hperm := hsort.perm txs
  have hsorted := hsort.sorted txs
  rw [getFirstBundleFromTransactions]
  cases hs : sort txs with
  | nil =>
      rw [hs] at hperm
      exact absurd hperm.nil_eq.symm hne
  | cons tail rest =>
      rw [hs] at hperm hsorted
      exact ⟨tail, rest, rfl, fun tx => hperm.mem_iff, hsorted⟩

/-- Whatever the sort does with equal indices, the pass returns one of the attachments. -/
theorem exists_first_bundle (h : Mixture m attachments txs)
    {sort : List Transaction → List Transaction} (hsort : Sorts sort) :
    ∃ a ∈ attachments, getFirstBundleFromTransactions sort txs = some a := by
  have hne : txs ≠ [] := by
    obtain ⟨a, ha⟩ := List.exists_mem_of_ne_nil _ h.some
    have h0 : 0 < a.length := by
      rw [(h.complete a ha).length]
      omega
    exact List.ne_nil_of_mem ((h.mem_iff _).mpr ⟨a, ha, List.getElem_mem h0⟩)
  obtain ⟨tail, rest, hfirst, hmem, hsorted⟩ := hsort.exists_sorted hne
  obtain ⟨a, ha, h0, rfl⟩ := h.head_of_sorted hmem hsorted
  refine ⟨a, ha, hfirst.trans (congrArg Option.some ?_)⟩
  rw [followTrunk_eq_drop h ha h0 (fun tx htx => (hmem tx).mp htx) hsorted fun j hj _ =>
    (hmem _).mpr ((h.mem_iff _).mpr ⟨a, ha, List.getElem_mem hj⟩)]
  exact (List.drop_eq_getElem_cons h0).symm

/-- The transactions that are returned are those of one attachment, from index `0` on.  Where there
is only one attachment, they do not depend on the order of the transactions nor on the sort. -/
theorem getFirstBundle_of_mixture (h : Mixture m attachments txs)
    {sort : List Transaction → List Transaction} (hsort : Sorts sort) :
    (∃ a ∈ attachments, Attachment m a ∧ getFirstBundleFromTransactions sort txs = some a) ∧
      ∀ a, attachments = [a] → ∀ sort' txs', Sorts sort' → Mixture m attachments txs' →
        getFirstBundleFromTransactions sort' txs' = getFirstBundleFromTransactions sort txs := by
  obtain ⟨a, ha, hfirst⟩ := exists_first_bundle h hsort
  refine ⟨⟨a, ha, h.complete a ha, hfirst⟩, ?_⟩
  rintro b rfl sort' txs' hsort' h'
  obtain ⟨a', ha', hfirst'⟩ := exists_first_bundle h' hsort'
  rw [hfirst, hfirst', List.mem_singleton.mp ha, List.mem_singleton.mp ha']

end Pass

/-! ## Two attachments -/

theorem idxSort_nonpos_iff {lhs rhs : Transaction} :
    idxSort lhs rhs ≤ 0 ↔ lhs.currentIndex.toInt ≤ rhs.currentIndex.toInt := by
  refine ⟨le_of_idxSort, fun hle => ?_⟩
  have hge : ¬ rhs.currentIndex < lhs.currentIndex := fun hlt =>
    absurd (Int64.lt_iff_toInt_lt.mp hlt) (not_lt.mpr hle)
  unfold idxSort
  rw [if_neg hge]
  split <;> decide

namespace Sample

/-- A stable sort by index. -/
def sortByIndex (txs : List Transaction) : List Transaction :=
  txs.mergeSort fun lhs rhs => decide (idxSort lhs rhs ≤ 0)

theorem sorts_sortByIndex : Sorts sortByIndex where
  perm txs := List.mergeSort_perm _ _
  sorted txs := by
    have htrans : ∀ x y z : Transaction, decide (idxSort x y ≤ 0) = true →
        decide (idxSort y z ≤ 0) = true → decide (idxSort x z ≤ 0) = true := by
      intro x y z hxy hyz
      rw [decide_eq_true_iff, idxSort_nonpos_iff] at hxy hyz ⊢
      exact hxy.trans hyz
    have htotal : ∀ x y : Transaction,
        (decide (idxSort x y ≤ 0) || decide (idxSort y x ≤ 0)) = true := by
      intro x y
      rw [Bool.or_eq_true, decide_eq_true_iff, decide_eq_true_iff, idxSort_nonpos_iff,
        idxSort_nonpos_iff]
      exact le_total _ _
    exact (List.pairwise_mergeSort htrans htotal txs).imp fun hle => of_decide_eq_true hle

/-- A transaction with an index, a hash and a trunk. -/
def linked (index : Int64) (hash trunk : Tryte) : Transaction :=
  { txn with
    currentIndex := index
    hash := Vector.replicate 81 hash
    trunk := Vector.replicate 81 trunk }

/-- A bundle of two transactions, attached twice. -/
def twice : List (List Transaction) :=
  [[linked 0 1 2, linked 1 2 0], [linked 0 3 4, linked 1 4 0]]

theorem hash_linked_ne {i j : Int64} {x y t u : Tryte} (h : x ≠ y) :
    (linked i x t).hash ≠ (linked j y u).hash := by
  intro he
  have hfirst := congrArg (fun v : Hash243 => v[0]) he
  simp only [linked, Vector.getElem_replicate] at hfirst
  exact h hfirst

theorem attachment_linked (x y z : Tryte) : Attachment 1 [linked 0 x y, linked 1 y z] where
  length := rfl
  index := by
    intro i hi
    rw [List.length_cons, List.length_singleton] at hi
    rcases i with _ | _ | i
    · rfl
    · rfl
    · omega
  link := by
    intro i hi
    rw [List.length_cons, List.length_singleton] at hi
    rcases i with _ | i
    · rfl
    · omega

theorem mixture_twice : Mixture 1 twice
    [linked 1 4 0, linked 0 1 2, linked 1 2 0, linked 0 3 4, linked 0 1 2] where
  some := List.cons_ne_nil _ _
  complete := by
    intro a ha
    simp only [twice, List.mem_cons, List.not_mem_nil, or_false] at ha
    rcases ha with rfl | rfl
    · exact attachment_linked 1 2 0
    · exact attachment_linked 3 4 0
  mem_iff := by
    intro tx
    simp only [twice, List.mem_cons, List.not_mem_nil, or_false, exists_eq_or_imp,
      exists_eq_left]
    tauto
  apart := by
    intro a ha b hb hab x hx y hy
    simp only [twice, List.mem_cons, List.not_mem_nil, or_false] at ha hb
    rcases ha with rfl | rfl <;> rcases hb with rfl | rfl
    · exact absurd rfl hab
    · simp only [List.mem_cons, List.not_mem_nil, or_false] at hx hy
      rcases hx with rfl | rfl <;> rcases hy with rfl | rfl <;> exact hash_linked_ne (by decide)
    · simp only [List.mem_cons, List.not_mem_nil, or_false] at hx hy
      rcases hx with rfl | rfl <;> rcases hy with rfl | rfl <;> exact hash_linked_ne (by decide)
    · exact absurd rfl hab

end Sample

theorem getFirstBundle_twice : ∃ a ∈ Sample.twice, Attachment 1 a ∧
    getFirstBundleFromTransactions Sample.sortByIndex
      [Sample.linked 1 4 0, Sample.linked 0 1 2, Sample.linked 1 2 0, Sample.linked 0 3 4,
        Sample.linked 0 1 2] = some a :=
  (getFirstBundle_of_mixture Sample.mixture_twice Sample.sorts_sortByIndex).1

end TangleAccelerator
