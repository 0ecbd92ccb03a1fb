import Mathlib.Data.List.Chain
import TangleAccelerator.Core.Find
import TangleAccelerator.Tangle.FirstBundle

/-!
# Fetching a bundle

`ta_get_bundle` of `core.c`.

The function asks the node for the hashes of the transactions of a bundle and for the object of
each hash, and passes what it gets to `get_first_bundle_from_transactions`.  It returns `SC_OK`
whenever the node answered, whatever the answer was.

Nothing says that the answer is made of complete attachments.  What the pass returns is a walk: it
starts at a transaction of the least index, goes from each transaction to one that continues it,
and ends where the answer has no such transaction (`followTrunk_walk`).  Where several transactions
can be the first one, or continue another, the order the sort leaves them in decides, and every
walk can be chosen that way (`getFirstBundle_preferring`).  So the bundle is whole under every sort
exactly when all walks are (`Unbroken`).
-/

namespace TangleAccelerator

open Effect

/-- `ta_get_bundle`.  `none` is the bundle whose first transaction is a null pointer. -/
def taGetBundle (sort : List Transaction → List Transaction) (bundleHash : Hash243) :
    Proc (Option (List Transaction)) := do
  match ← attempt (taGetTxnObjectsWithTxnHash { bundles := [bundleHash] }) with
  | .error _ => throw .cclientFailedResponse
  | .ok txObjs => pure (getFirstBundleFromTransactions sort txObjs)

/-! ## What is said of a bundle -/

/-- A bundle from its first to its last transaction. -/
structure WholeBundle (bundle : List Transaction) : Prop where
  first : ∃ tx, bundle.head? = some tx ∧ tx.currentIndex = 0
  last : ∃ tx, bundle.getLast? = some tx ∧ tx.currentIndex = tx.lastIndex
  linked : bundle.IsChain fun prev curr => prev.trunk = curr.hash

/-- What a call should return for the transactions of the node: a whole bundle, or an error where
there is none. -/
def Retrieved (txs : List Transaction) : Except Status (Option (List Transaction)) → Prop
  | .ok (some bundle) => WholeBundle bundle
  | .ok none => False
  | .error _ => ∀ bundle ⊆ txs, ¬ WholeBundle bundle

/-- `curr` is one of the transactions, has the next index and is the trunk of `prev`. -/
def Continues (txs : List Transaction) (prev curr : Transaction) : Prop :=
  curr ∈ txs ∧ curr.currentIndex.toInt = prev.currentIndex.toInt + 1 ∧ curr.hash = prev.trunk

/-- The least index is `0`, and every walk from a transaction of index `0` that cannot be continued
has come to the last index. -/
structure Unbroken (txs : List Transaction) : Prop where
  first : ∃ tx ∈ txs, tx.currentIndex = 0
  nonneg : ∀ tx ∈ txs, 0 ≤ tx.currentIndex
  ends : ∀ first ∈ txs, first.currentIndex = 0 → ∀ tx,
    Relation.ReflTransGen (Continues txs) first tx → (∀ next, ¬ Continues txs tx next) →
      tx.currentIndex = tx.lastIndex

/-! ## The walk of the pass -/

section Walk

variable {prev curr : Transaction} {txs : List Transaction}

/-- Among later transactions the next index is not reached by an overflow. -/
theorem next_index_iff (hle : prev.currentIndex.toInt ≤ curr.currentIndex.toInt) :
    curr.currentIndex = prev.currentIndex + 1 ↔
      curr.currentIndex.toInt = prev.currentIndex.toInt + 1 := by
  have hlt := curr.currentIndex.toInt_lt
  have hge := prev.currentIndex.le_toInt
  have hone : (1 : Int64).toInt = 1 := by decide
  rw [← Int64.toInt_inj, Int64.toInt_add, hone]
  by_cases hmax : prev.currentIndex.toInt + 1 < 2 ^ 63
  · rw [Int.bmod_eq_of_le (by omega) (by omega)]
  · have hlast : prev.currentIndex.toInt = 2 ^ 63 - 1 := by omega
    have hbmod : (prev.currentIndex.toInt + 1).bmod (2 ^ 64) = -2 ^ 63 := by
      rw [hlast]
      decide
    rw [hbmod]
    omega

theorem continues_iff_fits (hmem : curr ∈ txs)
    (hle : prev.currentIndex.toInt ≤ curr.currentIndex.toInt) :
    Continues txs prev curr ↔
      curr.currentIndex = prev.currentIndex + 1 ∧ curr.hash = prev.trunk := by
  rw [next_index_iff hle]
  exact and_iff_right hmem

theorem Continues.index_lt (h : Continues txs prev curr) :
    prev.currentIndex.toInt < curr.currentIndex.toInt := by
  have := h.2.1
  omega

/-- The pass takes a walk and stops where nothing continues it.  `done` is the part of the sorted
transactions that the pass has left behind. -/
theorem followTrunk_walk {done rest : List Transaction}
    (hsorted : (done ++ rest).Pairwise fun lhs rhs => idxSort lhs rhs ≤ 0)
    (hle : ∀ tx ∈ rest, prev.currentIndex.toInt ≤ tx.currentIndex.toInt)
    (hdone : ∀ tx ∈ done, ¬ Continues (done ++ rest) prev tx) :
    (prev :: followTrunk prev rest).IsChain (Continues (done ++ rest)) ∧
      ∀ last ∈ (prev :: followTrunk prev rest).getLast?,
        ∀ next, ¬ Continues (done ++ rest) last next := by
  induction rest generalizing prev done with
  | nil =>
      refine ⟨.singleton prev, ?_⟩
      intro last hlast next hnext
      cases hlast
      exact hdone next (by simpa using hnext.1) hnext
  | cons curr rest ih =>
      rw [List.append_cons] at hsorted hdone ⊢
      rw [List.forall_mem_cons] at hle
      have hin : curr ∈ done ++ [curr] ++ rest := by simp
      have hfits := continues_iff_fits hin hle.1
      by_cases hcurr : Continues (done ++ [curr] ++ rest) prev curr
      · rw [followTrunk, if_pos (hfits.mp hcurr)]
        have hbehind : ∀ tx ∈ done ++ [curr],
            tx.currentIndex.toInt ≤ curr.currentIndex.toInt := by
          have hleft := (List.pairwise_append.mp (List.pairwise_append.mp hsorted).1).2.2
          rw [List.forall_mem_append, List.forall_mem_singleton]
          exact ⟨fun tx htx => le_of_idxSort (hleft tx htx curr (by simp)), le_refl _⟩
        have hahead : ∀ tx ∈ rest, curr.currentIndex.toInt ≤ tx.currentIndex.toInt :=
          fun tx htx => le_of_idxSort ((List.pairwise_append.mp hsorted).2.2 curr (by simp) tx htx)
        obtain ⟨hchain, hlast⟩ := ih hsorted hahead
          fun tx htx hnext => absurd hnext.index_lt (not_lt.mpr (hbehind tx htx))
        refine ⟨.cons_cons hcurr hchain, ?_⟩
        rwa [List.getLast?_cons_cons]
      · rw [followTrunk, if_neg (fun h => hcurr (hfits.mpr h))]
        refine ih hsorted hle.2 ?_
        rw [List.forall_mem_append, List.forall_mem_singleton]
        exact ⟨hdone, hcurr⟩

/-- Without a transaction there is no first one. -/
theorem getFirstBundle_nil {sort : List Transaction → List Transaction} (hsort : Sorts sort) :
    getFirstBundleFromTransactions sort [] = none := by
  rw [getFirstBundleFromTransactions, (hsort.perm []).eq_nil]

/-- Under a sort that meets its contract the bundle is a walk from a transaction of the least index
to one that nothing continues. -/
theorem getFirstBundle_walk {sort : List Transaction → List Transaction} (hsort : Sorts sort)
    (hne : txs ≠ []) :
    ∃ first rest last, getFirstBundleFromTransactions sort txs = some (first :: rest) ∧
      first ∈ txs ∧ (∀ tx ∈ txs, first.currentIndex.toInt ≤ tx.currentIndex.toInt) ∧
      (first :: rest).IsChain (Continues txs) ∧ (first :: rest).getLast? = some last ∧
      ∀ next, ¬ Continues txs last next := by
  obtain ⟨tail, rest, hfirst, hmem, hsorted⟩ := hsort.exists_sorted hne
  have hleast : ∀ tx ∈ tail :: rest, tail.currentIndex.toInt ≤ tx.currentIndex.toInt := by
    rw [List.forall_mem_cons]
    exact ⟨le_refl _, fun tx htx => le_of_idxSort ((List.pairwise_cons.mp hsorted).1 tx htx)⟩
  have hcontinues : Continues (tail :: rest) = Continues txs := by
    funext prev curr
    exact congrArg (· ∧ _) (propext (hmem curr))
  have hdone : ∀ tx ∈ ([] : List Transaction), ¬ Continues ([] ++ tail :: rest) tail tx := by
    simp
  obtain ⟨hchain, hlast⟩ := followTrunk_walk hsorted hleast hdone
  rw [List.nil_append, hcontinues] at hchain hlast
  have hend := List.getLast?_eq_some_getLast
    (List.cons_ne_nil tail (followTrunk tail (tail :: rest)))
  exact ⟨tail, _, _, hfirst, (hmem tail).mp (List.mem_cons_self ..),
    fun tx htx => hleast tx ((hmem tx).mpr htx), hchain, hend, hlast _ hend⟩

end Walk

/-! ## A sort for each walk -/

/-- The order by index in which the transactions of a walk come before others of the same index. -/
def Earlier (walk : List Transaction) (lhs rhs : Transaction) : Prop :=
  lhs.currentIndex.toInt < rhs.currentIndex.toInt ∨
    lhs.currentIndex.toInt = rhs.currentIndex.toInt ∧ (lhs ∈ walk ∨ rhs ∉ walk)

instance (walk : List Transaction) (lhs rhs : Transaction) : Decidable (Earlier walk lhs rhs) :=
  inferInstanceAs (Decidable (_ ∨ _))

/-- A sort that puts the transactions of a walk first. -/
def preferring (walk txs : List Transaction) : List Transaction :=
  txs.mergeSort fun lhs rhs => decide (Earlier walk lhs rhs)

section Preferring

variable {walk txs rest : List Transaction} {prev : Transaction}

theorem Earlier.index_le {lhs rhs : Transaction} (h : Earlier walk lhs rhs) :
    lhs.currentIndex.toInt ≤ rhs.currentIndex.toInt := by
  rcases h with h | h
  · omega
  · omega

theorem Earlier.trans {x y z : Transaction} (hxy : Earlier walk x y) (hyz : Earlier walk y z) :
    Earlier walk x z := by
  rcases hxy with hxy | ⟨hxy, hx | hy⟩
  · exact Or.inl (lt_of_lt_of_le hxy hyz.index_le)
  · rcases hyz with hyz | ⟨hyz, -⟩
    · exact Or.inl (lt_of_le_of_lt hxy.le hyz)
    · exact Or.inr ⟨hxy.trans hyz, Or.inl hx⟩
  · rcases hyz with hyz | ⟨hyz, hz⟩
    · exact Or.inl (lt_of_le_of_lt hxy.le hyz)
    · exact Or.inr ⟨hxy.trans hyz, Or.inr (hz.resolve_left hy)⟩

theorem Earlier.total (walk : List Transaction) (x y : Transaction) :
    Earlier walk x y ∨ Earlier walk y x := by
  rcases lt_trichotomy x.currentIndex.toInt y.currentIndex.toInt with h | h | h
  · exact Or.inl (Or.inl h)
  · by_cases hx : x ∈ walk
    · exact Or.inl (Or.inr ⟨h, Or.inl hx⟩)
    · exact Or.inr (Or.inr ⟨h.symm, Or.inr hx⟩)
  · exact Or.inr (Or.inl h)

theorem earlier_preferring (walk txs : List Transaction) :
    (preferring walk txs).Pairwise (Earlier walk) := by
  have htrans : ∀ x y z, decide (Earlier walk x y) = true → decide (Earlier walk y z) = true →
      decide (Earlier walk x z) = true := by
    intro x y z hxy hyz
    exact decide_eq_true ((of_decide_eq_true hxy).trans (of_decide_eq_true hyz))
  have htotal : ∀ x y, (decide (Earlier walk x y) || decide (Earlier walk y x)) = true := by
    intro x y
    rw [Bool.or_eq_true, decide_eq_true_iff, decide_eq_true_iff]
    exact Earlier.total walk x y
  exact (List.pairwise_mergeSort htrans htotal txs).imp fun h => of_decide_eq_true h

theorem sorts_preferring (walk : List Transaction) : Sorts (preferring walk) where
  perm _ := List.mergeSort_perm _ _
  sorted txs := (earlier_preferring walk txs).imp fun h => idxSort_nonpos_iff.mpr h.index_le

theorem mem_of_walk {first : Transaction} (hwalk : (first :: rest).IsChain (Continues txs)) :
    ∀ tx ∈ rest, tx ∈ txs := by
  induction rest generalizing first with
  | nil => simp
  | cons next rest ih =>
      obtain ⟨hnext, hwalk⟩ := List.isChain_cons_cons.mp hwalk
      rw [List.forall_mem_cons]
      exact ⟨hnext.1, ih hwalk⟩

/-- The index grows along a walk. -/
theorem index_lt_of_walk (hwalk : walk.IsChain (Continues txs)) :
    walk.Pairwise fun lhs rhs => lhs.currentIndex.toInt < rhs.currentIndex.toInt :=
  (hwalk.imp fun _ _ h => h.index_lt).pairwise

/-- A walk has one transaction for each index. -/
theorem eq_of_index_eq (hwalk : walk.IsChain (Continues txs)) {lhs rhs : Transaction}
    (hl : lhs ∈ walk) (hr : rhs ∈ walk)
    (hindex : lhs.currentIndex.toInt = rhs.currentIndex.toInt) : lhs = rhs := by
  have hnodup : (walk.map fun tx => tx.currentIndex.toInt).Nodup :=
    List.pairwise_map.mpr ((index_lt_of_walk hwalk).imp fun h => ne_of_lt h)
  exact List.inj_on_of_nodup_map hnodup hl hr hindex

/-- Where a transaction of the walk is as early as another one of its index, that is it. -/
theorem Earlier.eq_of_index_eq (hwalk : walk.IsChain (Continues txs)) {lhs rhs : Transaction}
    (h : Earlier walk lhs rhs) (hr : rhs ∈ walk)
    (hindex : lhs.currentIndex.toInt = rhs.currentIndex.toInt) : lhs = rhs := by
  rcases h with h | ⟨-, hl | hr'⟩
  · omega
  · exact TangleAccelerator.eq_of_index_eq hwalk hl hr hindex
  · exact absurd hr hr'

/-- From a transaction of the walk the pass takes the rest of the walk, if all of that is ahead. -/
theorem followTrunk_preferring {left : List Transaction} (hwalk : walk.IsChain (Continues txs))
    (hsuffix : prev :: left <:+ walk) (hend : ∀ last ∈ (prev :: left).getLast?,
      ∀ next, ¬ Continues txs last next)
    (hsub : ∀ tx ∈ rest, tx ∈ txs)
    (hle : ∀ tx ∈ rest, prev.currentIndex.toInt ≤ tx.currentIndex.toInt)
    (hsorted : rest.Pairwise (Earlier walk)) (hahead : ∀ tx ∈ left, tx ∈ rest) :
    followTrunk prev rest = left := by
  induction rest generalizing prev left with
  | nil => exact (List.eq_nil_iff_forall_not_mem.mpr fun tx htx =>
      List.not_mem_nil (hahead tx htx)).symm
  | cons curr rest ih =>
      rw [List.forall_mem_cons] at hsub hle
      rw [List.pairwise_cons] at hsorted
      have hfits := continues_iff_fits hsub.1 hle.1
      have hchain : (prev :: left).IsChain (Continues txs) := hwalk.suffix hsuffix
      have hgrow := index_lt_of_walk hchain
      by_cases hcurr : Continues txs prev curr
      · rw [followTrunk, if_pos (hfits.mp hcurr)]
        cases left with
        | nil => exact absurd hcurr (hend prev rfl curr)
        | cons next left =>
            have hnext : Continues txs prev next := (List.isChain_cons_cons.mp hchain).1
            have hmem : next ∈ walk := hsuffix.subset (by simp)
            have he : curr = next := by
              rcases List.mem_cons.mp (hahead next (List.mem_cons_self ..)) with he | hr
              · exact he.symm
              · exact (hsorted.1 next hr).eq_of_index_eq hwalk hmem
                  (hcurr.2.1.trans hnext.2.1.symm)
            subst he
            rw [ih ((List.suffix_cons ..).trans hsuffix) (by rwa [List.getLast?_cons_cons] at hend)
              hsub.2 (fun tx htx => (hsorted.1 tx htx).index_le) hsorted.2]
            intro tx htx
            refine (List.mem_cons.mp (hahead tx (List.mem_cons_of_mem _ htx))).resolve_left ?_
            rintro rfl
            exact absurd ((List.pairwise_cons.mp hgrow.tail).1 tx htx) (lt_irrefl _)
      · rw [followTrunk, if_neg (fun h => hcurr (hfits.mpr h))]
        refine ih hsuffix hend hsub.2 hle.2 hsorted.2 fun tx htx => ?_
        refine (List.mem_cons.mp (hahead tx htx)).resolve_left ?_
        rintro rfl
        -- nothing of the walk is skipped: its next transaction would come after `tx`
        cases left with
        | nil => exact absurd htx List.not_mem_nil
        | cons next left =>
            rcases List.mem_cons.mp htx with rfl | hleft
            · exact hcurr (List.isChain_cons_cons.mp hchain).1
            · have hlt := (List.pairwise_cons.mp hgrow.tail).1 tx hleft
              rcases List.mem_cons.mp (hahead next (List.mem_cons_self ..)) with rfl | hr
              · exact lt_irrefl _ hlt
              · exact absurd (hsorted.1 next hr).index_le (not_le.mpr hlt)

/-- The sort that prefers a walk from a transaction of the least index makes the pass take it. -/
theorem getFirstBundle_preferring {first : Transaction} (hmem : first ∈ txs)
    (hwalk : (first :: rest).IsChain (Continues txs))
    (hleast : ∀ tx ∈ txs, first.currentIndex.toInt ≤ tx.currentIndex.toInt)
    (hend : ∀ last ∈ (first :: rest).getLast?, ∀ next, ¬ Continues txs last next) :
    getFirstBundleFromTransactions (preferring (first :: rest)) txs = some (first :: rest) := by
  have hperm : ∀ tx, tx ∈ preferring (first :: rest) txs ↔ tx ∈ txs :=
    fun tx => ((sorts_preferring (first :: rest)).perm txs).mem_iff
  have hsorted := earlier_preferring (first :: rest) txs
  have hfirst := (hperm first).mpr hmem
  unfold getFirstBundleFromTransactions
  generalize preferring (first :: rest) txs = sorted at hperm hsorted hfirst
  cases sorted with
  | nil => exact absurd hfirst List.not_mem_nil
  | cons tail others =>
      have htail : tail = first := by
        rcases List.mem_cons.mp hfirst with he | hr
        · exact he.symm
        · have hearlier := (List.pairwise_cons.mp hsorted).1 first hr
          exact hearlier.eq_of_index_eq hwalk (List.mem_cons_self ..)
            (le_antisymm hearlier.index_le (hleast tail ((hperm tail).mp (List.mem_cons_self ..))))
      subst htail
      have hpass := followTrunk_preferring hwalk (List.suffix_refl _) hend
        (fun tx htx => (hperm tx).mp htx) (fun tx htx => hleast tx ((hperm tx).mp htx)) hsorted
        fun tx htx => (hperm tx).mpr (mem_of_walk hwalk tx htx)
      exact congrArg (fun rest => some (tail :: rest)) hpass

end Preferring

/-! ## The answer of the node -/

/-- What the node answers where it refuses nothing: the hashes of the transactions of the bundle,
and the objects of each hash. -/
def nodeAnswers (bundleHash : Hash243) (found : List (Hash243 × List Transaction)) :
    List (Event sig) :=
  ⟨.findTransactions { bundles := [bundleHash] }, some (found.map Prod.fst)⟩ ::
    found.map fun objects => ⟨.getTransactionObjects [objects.1], some objects.2⟩

section Answer

variable {hashes : List Hash243} {bundleHash : Hash243} {τ : List (Event sig)}
  {sort : List Transaction → List Transaction}

theorem path_getTxnObjects_found (found : List (Hash243 × List Transaction)) :
    Path (getTxnObjects (found.map Prod.fst)).run
      (found.map fun objects => ⟨.getTransactionObjects [objects.1], some objects.2⟩)
      (.ok (found.flatMap Prod.snd)) := by
  induction found with
  | nil => exact (path_run_pure ..).mpr ⟨rfl, rfl⟩
  | cons objects found ih =>
      rw [List.map_cons, List.map_cons, getTxnObjects, path_run_request_bind]
      refine ⟨some objects.2, _, rfl, ?_⟩
      rw [path_run_bind_ok]
      refine ⟨objects.2, [], _, rfl, (path_run_pure ..).mpr ⟨rfl, rfl⟩, ?_⟩
      rw [path_run_bind_ok]
      exact ⟨_, _, [], (List.append_nil _).symm, ih, (path_run_pure ..).mpr ⟨rfl, rfl⟩⟩

theorem path_getTxnObjects {r : Except Status (List Transaction)}
    (hpath : Path (getTxnObjects hashes).run τ r) :
    r = .error .cclientFailedResponse ∨
      ∃ found : List (Hash243 × List Transaction), hashes = found.map Prod.fst ∧
        τ = found.map fun objects => ⟨.getTransactionObjects [objects.1], some objects.2⟩ := by
  induction hashes generalizing τ r with
  | nil => exact Or.inr ⟨[], rfl, ((path_run_pure ..).mp hpath).1⟩
  | cons h hashes ih =>
      rw [getTxnObjects, path_run_request_bind] at hpath
      obtain ⟨answer, τ₁, rfl, hpath⟩ := hpath
      cases answer with
      | none => exact Or.inl ((path_run_throw ..).mp hpath).2
      | some txs =>
          rw [path_run_bind] at hpath
          rcases hpath with ⟨e, -, hdemand⟩ | ⟨_, τ₂, τ₃, rfl, hdemand, hpath⟩
          · cases ((path_run_pure ..).mp hdemand).2
          obtain ⟨rfl, -⟩ := (path_run_pure ..).mp hdemand
          rw [path_run_bind] at hpath
          rcases hpath with ⟨e, rfl, hrest⟩ | ⟨rest, τ₄, τ₅, rfl, hrest, hpath⟩
          · rcases ih hrest with he | ⟨found, rfl, rfl⟩
            · cases he
              exact Or.inl rfl
            · exact Or.inr ⟨(h, txs) :: found, rfl, rfl⟩
          · obtain ⟨rfl, -⟩ := (path_run_pure ..).mp hpath
            rcases ih hrest with he | ⟨found, rfl, rfl⟩
            · cases he
            · exact Or.inr ⟨(h, txs) :: found, rfl, by simp⟩

theorem path_taGetBundle_found (sort : List Transaction → List Transaction) (bundleHash : Hash243)
    (found : List (Hash243 × List Transaction)) :
    Path (taGetBundle sort bundleHash).run (nodeAnswers bundleHash found)
      (.ok (getFirstBundleFromTransactions sort (found.flatMap Prod.snd))) := by
  rw [taGetBundle, path_run_attempt_bind]
  refine ⟨.ok (found.flatMap Prod.snd), _, [], (List.append_nil _).symm, ?_,
    (path_run_pure ..).mpr ⟨rfl, rfl⟩⟩
  rw [taGetTxnObjectsWithTxnHash, path_run_request_bind]
  refine ⟨some (found.map Prod.fst), _, rfl, ?_⟩
  rw [path_run_bind_ok]
  exact ⟨_, [], _, rfl, (path_run_pure ..).mpr ⟨rfl, rfl⟩, path_getTxnObjects_found found⟩

/-- A call that does not fail was given a complete answer. -/
theorem path_taGetBundle {r : Except Status (Option (List Transaction))}
    (hpath : Path (taGetBundle sort bundleHash).run τ r) :
    r = .error .cclientFailedResponse ∨ ∃ found, τ = nodeAnswers bundleHash found := by
  rw [taGetBundle, path_run_attempt_bind] at hpath
  obtain ⟨answer, τ₁, τ₂, rfl, hanswer, hpath⟩ := hpath
  cases answer with
  | error e => exact Or.inl ((path_run_throw ..).mp hpath).2
  | ok txs =>
      obtain ⟨rfl, -⟩ := (path_run_pure ..).mp hpath
      rw [taGetTxnObjectsWithTxnHash, path_run_request_bind] at hanswer
      obtain ⟨hashes, τ₃, rfl, hanswer⟩ := hanswer
      cases hashes with
      | none => cases ((path_run_throw ..).mp hanswer).2
      | some hashes =>
          rw [path_run_bind_ok] at hanswer
          obtain ⟨_, τ₄, τ₅, rfl, hdemand, hobjects⟩ := hanswer
          obtain ⟨rfl, he⟩ := (path_run_pure ..).mp hdemand
          cases he
          rcases path_getTxnObjects hobjects with he | ⟨found, rfl, rfl⟩
          · cases he
          · exact Or.inr ⟨found, by simp [nodeAnswers]⟩

end Answer

/-! ## Whole bundles -/

theorem Unbroken.least {txs : List Transaction} (h : Unbroken txs) {first : Transaction}
    (hmem : first ∈ txs)
    (hleast : ∀ tx ∈ txs, first.currentIndex.toInt ≤ tx.currentIndex.toInt) :
    first.currentIndex = 0 := by
  obtain ⟨tx, htx, hzero⟩ := h.first
  have hge := Int64.le_iff_toInt_le.mp (h.nonneg first hmem)
  have hle := hleast tx htx
  rw [hzero] at hle
  exact Int64.toInt_inj.mp (le_antisymm hle hge)

/-- Where all walks are whole, the bundle is whole under every sort. -/
theorem Unbroken.wholeBundle {txs : List Transaction} (h : Unbroken txs)
    {sort : List Transaction → List Transaction} (hsort : Sorts sort) :
    ∃ bundle, getFirstBundleFromTransactions sort txs = some bundle ∧ WholeBundle bundle := by
  have hne : txs ≠ [] := by
    rintro rfl
    obtain ⟨tx, htx, -⟩ := h.first
    exact absurd htx List.not_mem_nil
  obtain ⟨first, rest, last, hbundle, hmem, hleast, hchain, hlast, hend⟩ :=
    getFirstBundle_walk hsort hne
  have hzero := h.least hmem hleast
  have hget : (first :: rest).getLast (List.cons_ne_nil first rest) = last := by
    rwa [List.getLast?_eq_some_getLast (List.cons_ne_nil first rest), Option.some_inj] at hlast
  have hreach := List.relationReflTransGen_of_exists_isChain_cons rest hchain hget
  exact ⟨first :: rest, hbundle, ⟨first, rfl, hzero⟩,
    ⟨last, hlast, h.ends first hmem hzero last hreach hend⟩,
    hchain.imp fun _ _ hnext => hnext.2.2.symm⟩

/-- Where the bundle is whole under every sort, all walks are whole. -/
theorem unbroken_of_wholeBundle {txs : List Transaction}
    (h : ∀ sort, Sorts sort →
      ∃ bundle, getFirstBundleFromTransactions sort txs = some bundle ∧ WholeBundle bundle) :
    Unbroken txs := by
  have hne : txs ≠ [] := by
    rintro rfl
    obtain ⟨bundle, hbundle, -⟩ := h _ (sorts_preferring [])
    rw [getFirstBundle_nil (sorts_preferring [])] at hbundle
    cases hbundle
  obtain ⟨first, rest, last, hbundle, hmem, hleast, -⟩ :=
    getFirstBundle_walk (sorts_preferring []) hne
  obtain ⟨bundle, hbundle', hwhole⟩ := h _ (sorts_preferring [])
  rw [hbundle, Option.some_inj] at hbundle'
  subst hbundle'
  obtain ⟨tx, htx, hzero⟩ := hwhole.first
  cases htx
  have hnonneg : ∀ tx ∈ txs, 0 ≤ tx.currentIndex := by
    intro tx htx
    rw [← hzero]
    exact Int64.le_iff_toInt_le.mpr (hleast tx htx)
  refine ⟨⟨first, hmem, hzero⟩, hnonneg, ?_⟩
  intro start hstart hzero' tx hreach hend
  obtain ⟨walk, hwalk, hlast⟩ := List.exists_isChain_cons_of_relationReflTransGen hreach
  have hlast' : (start :: walk).getLast? = some tx := by
    rw [List.getLast?_eq_some_getLast (List.cons_ne_nil start walk), hlast]
  have hpreferred := getFirstBundle_preferring hstart hwalk
    (fun tx htx => by
      rw [hzero']
      exact Int64.le_iff_toInt_le.mp (hnonneg tx htx))
    (fun last hl => by
      rw [hlast'] at hl
      cases hl
      exact hend)
  obtain ⟨bundle, hbundle', hwhole'⟩ := h _ (sorts_preferring (start :: walk))
  rw [hpreferred, Option.some_inj] at hbundle'
  subst hbundle'
  obtain ⟨tx', htx', hindex⟩ := hwhole'.last
  rw [hlast'] at htx'
  cases htx'
  exact hindex

/-- For every bundle hash: a call that the node does not refuse ends in `SC_OK`, and whatever the
sort does with equal indices it has a whole bundle, exactly when every walk through the transactions
of the answer is whole.  A call that the node refuses ends in an error. -/
theorem taGetBundle_whole_iff (bundleHash : Hash243) :
    (∀ sort τ r, Path (taGetBundle sort bundleHash).run τ r →
      r = .error .cclientFailedResponse ∨ ∃ found, τ = nodeAnswers bundleHash found) ∧
    ∀ found : List (Hash243 × List Transaction),
      (∀ sort, Sorts sort → ∃ r,
        Path (taGetBundle sort bundleHash).run (nodeAnswers bundleHash found) r ∧
          Retrieved (found.flatMap Prod.snd) r) ↔ Unbroken (found.flatMap Prod.snd) := by
  refine ⟨fun sort τ r => path_taGetBundle, fun found => ⟨fun h => ?_, fun h sort hsort => ?_⟩⟩
  · refine unbroken_of_wholeBundle fun sort hsort => ?_
    obtain ⟨r, hpath, hr⟩ := h sort hsort
    have hfound := path_taGetBundle_found sort bundleHash found
    rw [← List.append_nil (nodeAnswers bundleHash found)] at hpath
    have hresult := path_result hpath hfound
    subst hresult
    cases hb : getFirstBundleFromTransactions sort (found.flatMap Prod.snd) with
    | none =>
        rw [hb] at hr
        exact hr.elim
    | some bundle =>
        rw [hb] at hr
        exact ⟨bundle, rfl, hr⟩
  · obtain ⟨bundle, hbundle, hwhole⟩ := h.wholeBundle hsort
    refine ⟨_, path_taGetBundle_found sort bundleHash found, ?_⟩
    rw [hbundle]
    exact hwhole

namespace Sample

/-- A transaction of a bundle of two. -/
def half (index : Int64) (hash trunk : Tryte) : Transaction :=
  { linked index hash trunk with lastIndex := 1 }

/-- The object of a hash. -/
def objectOf (tx : Transaction) : Hash243 × List Transaction := (tx.hash, [tx])

theorem hash_ne_trunk_halves {i j : Int64} {x y t u : Tryte} (h : x ≠ u) :
    (half i x t).hash ≠ (half j y u).trunk := by
  intro he
  have hfirst := congrArg (fun v : Hash243 => v[0]) he
  simp only [half, linked, Vector.getElem_replicate] at hfirst
  exact h hfirst

theorem wholeBundle_halves (x y z : Tryte) : WholeBundle [half 0 x y, half 1 y z] where
  first := ⟨half 0 x y, rfl, rfl⟩
  last := ⟨half 1 y z, rfl, rfl⟩
  linked := .cons_cons rfl (.singleton _)

theorem sortByIndex_of_sorted {txs : List Transaction}
    (h : txs.Pairwise fun lhs rhs => idxSort lhs rhs ≤ 0) : sortByIndex txs = txs :=
  List.mergeSort_of_pairwise (h.imp fun hle => decide_eq_true hle)

theorem unbroken_halves : Unbroken [half 1 2 0, half 0 1 2] where
  first := ⟨half 0 1 2, by simp, rfl⟩
  nonneg := by
    intro tx htx
    simp only [List.mem_cons, List.not_mem_nil, or_false] at htx
    rcases htx with rfl | rfl
    · decide
    · decide
  ends := by
    intro first hfirst hzero tx hreach hend
    simp only [List.mem_cons, List.not_mem_nil, or_false] at hfirst
    have hlast : Continues [half 1 2 0, half 0 1 2] (half 0 1 2) (half 1 2 0) :=
      ⟨by simp, by decide, rfl⟩
    rcases hfirst with rfl | rfl
    · exact absurd hzero (by decide)
    · rcases Relation.ReflTransGen.cases_tail hreach with rfl | ⟨prev, -, hnext⟩
      · exact absurd hlast (hend _)
      · have htx := hnext.1
        simp only [List.mem_cons, List.not_mem_nil, or_false] at htx
        rcases htx with rfl | rfl
        · rfl
        · exact absurd hlast (hend _)

end Sample

/-- The second transaction comes first in the answer. -/
theorem taGetBundle_whole_two : ∃ r,
    Path (taGetBundle Sample.sortByIndex (Sample.half 0 1 2).bundle).run
      (nodeAnswers (Sample.half 0 1 2).bundle
        [Sample.objectOf (Sample.half 1 2 0), Sample.objectOf (Sample.half 0 1 2)]) r ∧
      Retrieved [Sample.half 1 2 0, Sample.half 0 1 2] r :=
  ((taGetBundle_whole_iff (Sample.half 0 1 2).bundle).2
    [Sample.objectOf (Sample.half 1 2 0), Sample.objectOf (Sample.half 0 1 2)]).mpr
    Sample.unbroken_halves Sample.sortByIndex Sample.sorts_sortByIndex

/-- An empty answer leads to a null pointer.  Where the first transaction of an attachment is found
without the second one, the bundle is only that transaction, although the answer has both
transactions of another attachment. -/
theorem taGetBundle_broken :
    Path (taGetBundle Sample.sortByIndex (Sample.half 0 1 2).bundle).run
        (nodeAnswers (Sample.half 0 1 2).bundle []) (.ok none) ∧
      Path (taGetBundle Sample.sortByIndex (Sample.half 0 1 2).bundle).run
        (nodeAnswers (Sample.half 0 1 2).bundle
          [Sample.objectOf (Sample.half 0 3 4), Sample.objectOf (Sample.half 0 1 2),
            Sample.objectOf (Sample.half 1 2 0)]) (.ok (some [Sample.half 0 3 4])) ∧
      ¬ WholeBundle [Sample.half 0 3 4] ∧
      WholeBundle [Sample.half 0 1 2, Sample.half 1 2 0] := by
  refine ⟨?_, ?_, ?_, Sample.wholeBundle_halves 1 2 0⟩
  · have hpath := path_taGetBundle_found Sample.sortByIndex (Sample.half 0 1 2).bundle []
    rwa [List.flatMap_nil, getFirstBundle_nil Sample.sorts_sortByIndex] at hpath
  · have hpath := path_taGetBundle_found Sample.sortByIndex (Sample.half 0 1 2).bundle
      [Sample.objectOf (Sample.half 0 3 4), Sample.objectOf (Sample.half 0 1 2),
        Sample.objectOf (Sample.half 1 2 0)]
    have hbundle : getFirstBundleFromTransactions Sample.sortByIndex
        [Sample.half 0 3 4, Sample.half 0 1 2, Sample.half 1 2 0] =
          some [Sample.half 0 3 4] := by
      have hother : ¬ ((Sample.half 1 2 0).currentIndex = (Sample.half 0 3 4).currentIndex + 1 ∧
          (Sample.half 1 2 0).hash = (Sample.half 0 3 4).trunk) := fun h =>
        Sample.hash_ne_trunk_halves (by decide) h.2
      rw [getFirstBundleFromTransactions, Sample.sortByIndex_of_sorted (by decide)]
      simp only [followTrunk, if_neg hother]
      rfl
    exact hbundle ▸ hpath
  · intro hwhole
    obtain ⟨tx, htx, hindex⟩ := hwhole.last
    cases htx
    exact absurd hindex (by decide)

end TangleAccelerator
