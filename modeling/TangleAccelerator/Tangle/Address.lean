import TangleAccelerator.Query.Objects
import TangleAccelerator.Tangle.Bundles

/-!
# The bundles of an address

`ta_get_bundles_by_addr` of `core.c` and the bundle array of `bundle_array.h`.

The function asks for the objects of the transactions on an address and visits them one by one.
An object whose bundle hash was not seen before leads to a call of `ta_get_bundle`, and what that
returns is copied to the end of the array.

A call of `ta_get_bundle` asks the node each time, so the calls are not a function of the hash.  The
result is about the calls that were made, in their order (`BundleCall`).
-/

namespace TangleAccelerator

open Effect

/-- `bundle_array_copy`: the transactions are added one by one to a new bundle. -/
def bundleArrayCopy (src : List Transaction) : List Transaction :=
  src.foldl (fun dst txn => dst ++ [txn]) []

/-- `bundle_array_add`. -/
def bundleArrayAdd (bundleArray : List (Option (List Transaction)))
    (bundle : Option (List Transaction)) : List (Option (List Transaction)) :=
  bundleArray ++ [bundle.map bundleArrayCopy]

/-- The first half of `ta_get_bundles_by_addr`: the objects on an address. -/
def objectsByAddr (I : Iota) (state : Bool) (addr : Hash243) : Proc (List Transaction) := do
  let hashes ← demand (← request (.findTransactions { addresses := [addr] })) .cclientFailedResponse
  ensure (decide (0 < hashes.length)) .cclientNotFound
  taFindTransactionObjects I state hashes

/-- The loop of `ta_get_bundles_by_addr`, with the set of the bundle hashes it has seen. -/
def getBundles (sort : List Transaction → List Transaction) :
    List Transaction → List Hash243 → List (Option (List Transaction)) →
      Proc (List (Option (List Transaction)))
  | [], _, bundleArray => pure bundleArray
  | currTx :: objs, bundleHashSet, bundleArray =>
      if currTx.bundle ∈ bundleHashSet then getBundles sort objs bundleHashSet bundleArray
      else do
        let bundle ← taGetBundle sort currTx.bundle
        getBundles sort objs (setAdd bundleHashSet currTx.bundle)
          (bundleArrayAdd bundleArray bundle)

/-- `ta_get_bundles_by_addr`. -/
def taGetBundlesByAddr (I : Iota) (state : Bool) (sort : List Transaction → List Transaction)
    (addr : Hash243) (bundleArray : List (Option (List Transaction))) :
    Proc (List (Option (List Transaction))) := do
  let objs ← objectsByAddr I state addr
  getBundles sort objs [] bundleArray

/-- A call of `ta_get_bundle`: the hash, what was asked of the node, and the result. -/
structure BundleCall where
  hash : Hash243
  trace : List (Event sig)
  result : Except Status (Option (List Transaction))

/-- The calls of the loop for the hashes, from the start up to the first that failed. -/
structure CallsFor (sort : List Transaction → List Transaction) (hashes : List Hash243)
    (bundleArray : List (Option (List Transaction))) (τ : List (Event sig))
    (r : Except Status (List (Option (List Transaction)))) (calls : List BundleCall) : Prop where
  trace : τ = calls.flatMap (·.trace)
  made : ∀ call ∈ calls, Path (taGetBundle sort call.hash).run call.trace call.result
  inOrder : calls.map (·.hash) <+: hashes
  copied : ∀ bundles, calls.map (·.result) = bundles.map .ok →
    calls.map (·.hash) = hashes ∧ r = .ok (bundleArray ++ bundles)
  failed : ∀ call ∈ calls, ∀ e, call.result = .error e → r = .error e

/-! ## The loop -/

theorem foldl_bundleTransactionsAdd (dst src : List Transaction) :
    src.foldl (fun dst txn => dst ++ [txn]) dst = dst ++ src := by
  induction src generalizing dst with
  | nil => exact (List.append_nil dst).symm
  | cons txn src ih => rw [List.foldl_cons, ih, List.append_assoc, List.singleton_append]

theorem bundleArrayCopy_eq (src : List Transaction) : bundleArrayCopy src = src :=
  foldl_bundleTransactionsAdd [] src

theorem bundleArrayAdd_eq (bundleArray : List (Option (List Transaction)))
    (bundle : Option (List Transaction)) :
    bundleArrayAdd bundleArray bundle = bundleArray ++ [bundle] := by
  cases bundle with
  | none => rfl
  | some bundle => rw [bundleArrayAdd, Option.map_some, bundleArrayCopy_eq]

section Loop

variable {sort : List Transaction → List Transaction} {hashes seen : List Hash243}
  {bundleArray : List (Option (List Transaction))} {τ : List (Event sig)}
  {r : Except Status (List (Option (List Transaction)))}

theorem callsFor_nil : CallsFor sort [] bundleArray [] (.ok bundleArray) [] where
  trace := rfl
  made := by simp
  inOrder := List.nil_prefix
  copied := by
    intro bundles hb
    rw [List.map_nil, eq_comm, List.map_eq_nil_iff] at hb
    simp [hb]
  failed := by simp

theorem callsFor_failed {h : Hash243} {e : Status}
    (hcall : Path (taGetBundle sort h).run τ (.error e)) :
    CallsFor sort (h :: hashes) bundleArray τ (.error e) [⟨h, τ, .error e⟩] where
  trace := by simp
  made := by simpa using hcall
  inOrder := by simp
  copied := by
    intro bundles hb
    cases bundles with
    | nil => simp at hb
    | cons b bundles => simp at hb
  failed := by simp

theorem CallsFor.cons {h : Hash243} {bundle : Option (List Transaction)} {τ' : List (Event sig)}
    {calls : List BundleCall} (hcall : Path (taGetBundle sort h).run τ (.ok bundle))
    (hcalls : CallsFor sort hashes (bundleArray ++ [bundle]) τ' r calls) :
    CallsFor sort (h :: hashes) bundleArray (τ ++ τ') r (⟨h, τ, .ok bundle⟩ :: calls) where
  trace := by rw [List.flatMap_cons, hcalls.trace]
  made := by
    rw [List.forall_mem_cons]
    exact ⟨hcall, hcalls.made⟩
  inOrder := by
    rw [List.map_cons, List.cons_prefix_cons]
    exact ⟨rfl, hcalls.inOrder⟩
  copied := by
    intro bundles hb
    cases bundles with
    | nil => simp at hb
    | cons b bundles =>
        rw [List.map_cons, List.map_cons] at hb
        obtain ⟨hfirst, hrest⟩ := List.cons.inj hb
        cases hfirst
        obtain ⟨hhashes, hr⟩ := hcalls.copied bundles hrest
        rw [List.map_cons, hhashes, hr, List.append_assoc, List.singleton_append]
        exact ⟨rfl, rfl⟩
  failed := by
    rw [List.forall_mem_cons]
    refine ⟨fun e he => ?_, hcalls.failed⟩
    cases he

/-- The unseen hashes after one more was seen. -/
theorem filter_setAdd (l seen : List Hash243) {h : Hash243} (hh : h ∉ seen) :
    (l.filter (· ∉ seen)).filter (fun b => !b == h) = l.filter (· ∉ setAdd seen h) := by
  rw [List.filter_filter, setAdd, if_neg hh]
  refine List.filter_congr fun b _ => ?_
  by_cases hb : b = h
  · simp [hb]
  · simp [hb]

/-- The loop makes one call for each unseen bundle hash, in the order of first occurrence. -/
theorem path_getBundles {objs : List Transaction}
    (hpath : Path (getBundles sort objs seen bundleArray).run τ r) :
    ∃ calls, CallsFor sort (((objs.map (·.bundle)).filter (· ∉ seen)).eraseDups) bundleArray τ r
      calls := by
  induction objs generalizing seen bundleArray τ with
  | nil =>
      obtain ⟨rfl, rfl⟩ := (path_run_pure ..).mp hpath
      exact ⟨[], callsFor_nil⟩
  | cons currTx objs ih =>
      rw [List.map_cons]
      by_cases hseen : currTx.bundle ∈ seen
      · rw [getBundles, if_pos hseen] at hpath
        rw [List.filter_cons_of_neg (by simpa using hseen)]
        exact ih hpath
      · rw [getBundles, if_neg hseen, path_run_bind] at hpath
        rw [List.filter_cons_of_pos (by simpa using hseen), List.eraseDups_cons,
          filter_setAdd _ _ hseen]
        rcases hpath with ⟨e, rfl, hcall⟩ | ⟨bundle, τ₁, τ₂, rfl, hcall, hpath⟩
        · exact ⟨_, callsFor_failed hcall⟩
        · rw [bundleArrayAdd_eq] at hpath
          obtain ⟨calls, hcalls⟩ := ih hpath
          exact ⟨_, hcalls.cons hcall⟩

end Loop

/-! ## All bundles of an address -/

section Address

variable {I : Iota} {state : Bool} {sort : List Transaction → List Transaction} {addr : Hash243}
  {bundleArray : List (Option (List Transaction))} {τ : List (Event sig)}
  {r : Except Status (List (Option (List Transaction)))}

theorem path_objectsByAddr_none (I : Iota) (state : Bool) (addr : Hash243) :
    Path (objectsByAddr I state addr).run [⟨.findTransactions { addresses := [addr] }, some []⟩]
      (.error .cclientNotFound) := by
  rw [objectsByAddr, path_run_request_bind]
  exact ⟨some [], [], rfl, rfl, rfl⟩

theorem path_taGetBundlesByAddr_error (sort : List Transaction → List Transaction)
    (bundleArray : List (Option (List Transaction))) {e : Status}
    (hobjs : Path (objectsByAddr I state addr).run τ (.error e)) :
    Path (taGetBundlesByAddr I state sort addr bundleArray).run τ (.error e) := by
  rw [taGetBundlesByAddr, path_run_bind]
  exact Or.inl ⟨e, rfl, hobjs⟩

/-- For every address and every run: where no transaction is found the call ends in
`SC_CCLIENT_NOT_FOUND`, and where the objects are not found, in that error.  For all objects that
are found, `ta_get_bundle` is called for the distinct bundle hashes in the order of their first
occurrence.  If all calls succeed, copies of their bundles are appended to the array in this order
and the call ends in `SC_OK`.  If one fails, it ends in that error. -/
theorem taGetBundlesByAddr_calls
    (hpath : Path (taGetBundlesByAddr I state sort addr bundleArray).run τ r) :
    (∀ τ', τ = ⟨.findTransactions { addresses := [addr] }, some []⟩ :: τ' →
      r = .error .cclientNotFound) ∧
    (∀ e, Path (objectsByAddr I state addr).run τ (.error e) → r = .error e) ∧
    ∀ objs τ₁ τ₂, τ = τ₁ ++ τ₂ → Path (objectsByAddr I state addr).run τ₁ (.ok objs) →
      ∃ calls, CallsFor sort (objs.map (·.bundle)).eraseDups bundleArray τ₂ r calls := by
  refine ⟨?_, ?_, ?_⟩
  · rintro τ' rfl
    have hnone := path_taGetBundlesByAddr_error sort bundleArray
      (path_objectsByAddr_none I state addr)
    exact path_result hpath hnone
  · intro e he
    have herror := path_taGetBundlesByAddr_error sort bundleArray he
    rw [← List.append_nil τ] at hpath
    exact path_result hpath herror
  · rintro objs τ₁ τ₂ rfl hobjs
    rw [taGetBundlesByAddr, path_run_bind] at hpath
    rcases hpath with ⟨e, -, he⟩ | ⟨objs', τ₃, τ₄, hτ, hobjs', hpath⟩
    · cases path_result he hobjs
    · obtain ⟨rfl, rfl, he⟩ := path_unique hobjs hobjs' hτ
      cases he
      have hloop := path_getBundles hpath
      simpa using hloop

end Address

namespace Sample

/-- The object of a transaction is found twice. -/
theorem path_objectsByAddr_twice :
    Path (objectsByAddr objectIota true txnHash).run
      (⟨.findTransactions { addresses := [txnHash] }, some [txnHash]⟩ :: missTrace txnHash txn)
      (.ok [txn, txn]) := by
  rw [objectsByAddr, path_run_request_bind]
  exact ⟨some [txnHash], _, rfl, (runs_miss (w := buffered) isObject_txn rfl).1⟩

/-- Its bundle is fetched once. -/
theorem path_taGetBundlesByAddr_twice :
    Path (taGetBundlesByAddr objectIota true sortByIndex txnHash []).run
      (⟨.findTransactions { addresses := [txnHash] }, some [txnHash]⟩ :: missTrace txnHash txn ++
        nodeAnswers txn.bundle [objectOf txn])
      (.ok [some [txn]]) := by
  rw [taGetBundlesByAddr, path_run_bind_ok]
  refine ⟨[txn, txn], _, _, rfl, path_objectsByAddr_twice, ?_⟩
  rw [getBundles, if_neg (by simp), path_run_bind_ok]
  refine ⟨some [txn], _, [], (List.append_nil _).symm, ?_, ?_⟩
  · have hpath := path_taGetBundle_found sortByIndex txn.bundle [objectOf txn]
    have hbundle : getFirstBundleFromTransactions sortByIndex [txn] = some [txn] := by
      rw [getFirstBundleFromTransactions, sortByIndex_of_sorted (by simp)]
      rfl
    exact hbundle ▸ hpath
  · rw [getBundles, if_pos (by simp [setAdd])]
    exact ⟨rfl, rfl⟩

end Sample

theorem taGetBundlesByAddr_repeated : ∃ calls,
    CallsFor Sample.sortByIndex [Sample.txn.bundle] []
      (nodeAnswers Sample.txn.bundle [Sample.objectOf Sample.txn]) (.ok [some [Sample.txn]])
      calls := by
  have hcalls := (taGetBundlesByAddr_calls Sample.path_taGetBundlesByAddr_twice).2.2 _ _ _ rfl
    Sample.path_objectsByAddr_twice
  simpa [List.eraseDups_cons] using hcalls

end TangleAccelerator
