import Mathlib

/-!
# A Redis database

The commands on strings and lists a client uses, over any type of keys.  A key
holds nothing, a string, or a list.  The type of list elements may depend on the
key, so that a client that keeps different things under different keys never
reads one as the other.  Redis has no empty list: popping the last element
removes the key, and so a stored list is a head and a tail.

All list commands work at the head: `LPUSH` puts an element before it, `LINDEX k 0`
reads it and `LPOP` takes it.  A command on a value of the wrong type is answered
with an error and changes nothing.  `SET` is the `NX` variant, which stores only
under a free key; an expiry time given with it is accepted and the expiry itself
is not part of this model.

`items s k` is the list under `k`, empty if there is none.  The lemmas about a
command say what its answer tells about `items` before it and what it makes of
them.
-/

namespace Redis

variable {K : Type} {E : K → Type} {ε α : Type}

/-- What a key can hold. -/
inductive Value (ε : Type) where
  | str (s : String)
  | list (hd : ε) (tl : List ε)
deriving DecidableEq

/-- A database. -/
abbrev Store (K : Type) (E : K → Type) : Type := (k : K) → Option (Value (E k))

/-- The commands. -/
inductive Cmd (K : Type) (E : K → Type) where
  | del (k : K)
  | get (k : K)
  | set (k : K) (v : String) (ex : Option Nat)
  | lpush (k : K) (e : E k)
  | lindex (k : K) (i : Nat)
  | llen (k : K)
  | lpop (k : K)

/-- The key a command is about. -/
@[reducible] def Cmd.key : Cmd K E → K
  | .del k | .get k | .set k _ _ | .lpush k _ | .lindex k _ | .llen k | .lpop k => k

/-- The command can change the database. -/
def Cmd.Writes : Cmd K E → Prop
  | .del _ | .set _ _ _ | .lpush _ _ | .lpop _ => True
  | .get _ | .lindex _ _ | .llen _ => False

/-- What a string in the reply of a command stands for. -/
@[reducible] def Cmd.Bulk : Cmd K E → Type
  | .get _ => String
  | .lindex k _ => E k
  | .lpop k => E k
  | _ => Empty

/-- The replies, by type. -/
inductive Reply (α : Type) where
  | status
  | error
  | integer (n : Nat)
  | bulk (a : α)
  | nil

/-- The stored form of a list: nothing if it is empty. -/
def ofList : List ε → Option (Value ε)
  | [] => none
  | e :: l => some (.list e l)

/-- The list a value stands for. -/
def Value.items : Option (Value ε) → List ε
  | some (.list e l) => e :: l
  | _ => []

/-- The list under a key. -/
def items (s : Store K E) (k : K) : List (E k) := Value.items (s k)

/-- The key holds a string, and a list command on it is an error. -/
def isStr (s : Store K E) (k : K) : Bool :=
  match s k with
  | some (.str _) => true
  | _ => false

@[simp] theorem items_ofList (l : List ε) : Value.items (ofList l) = l := by
  cases l <;> rfl

theorem eq_list_of_items {s : Store K E} {k : K} {e : E k} {l : List (E k)}
    (h : items s k = e :: l) : s k = some (.list e l) := by
  unfold items Value.items at h
  split at h
  · rename_i hs
    rw [hs]
    cases h
    rfl
  · cases h

/-- A key without elements that holds no string is free. -/
theorem eq_none_of_items {s : Store K E} {k : K} (hstr : isStr s k = false) (h : items s k = []) :
    s k = none := by
  unfold items Value.items at h
  unfold isStr at hstr
  cases hs : s k with
  | none => rfl
  | some v =>
      rw [hs] at h hstr
      cases v with
      | str v => cases hstr
      | list hd tl => cases h

/-- A key with elements holds a list. -/
theorem isStr_eq_false {s : Store K E} {k : K} (h : items s k ≠ []) : isStr s k = false := by
  unfold items at h
  unfold isStr
  split
  · rename_i hs
    rw [hs] at h
    exact absurd rfl h
  · rfl

/-- What a command does to the value under its key, and its reply. -/
def Cmd.act : (c : Cmd K E) → Option (Value (E c.key)) → Reply c.Bulk × Option (Value (E c.key))
  | .del _, none => (.integer 0, none)
  | .del _, some _ => (.integer 1, none)
  | .get _, none => (.nil, none)
  | .get _, some (.str v) => (.bulk v, some (.str v))
  | .get _, some (.list hd tl) => (.error, some (.list hd tl))
  | .set _ v _, none => (.status, some (.str v))
  | .set _ _ _, some v => (.nil, some v)
  | .lpush _ e, none => (.integer 1, some (.list e []))
  | .lpush _ e, some (.list hd tl) => (.integer (tl.length + 2), some (.list e (hd :: tl)))
  | .lpush _ _, some (.str v) => (.error, some (.str v))
  | .lindex _ _, none => (.nil, none)
  | .lindex _ i, some (.list hd tl) =>
      (match (hd :: tl)[i]? with
        | some e => .bulk e
        | none => .nil, some (.list hd tl))
  | .lindex _ _, some (.str v) => (.error, some (.str v))
  | .llen _, none => (.integer 0, none)
  | .llen _, some (.list hd tl) => (.integer (tl.length + 1), some (.list hd tl))
  | .llen _, some (.str v) => (.error, some (.str v))
  | .lpop _, none => (.nil, none)
  | .lpop _, some (.list hd tl) => (.bulk hd, ofList tl)
  | .lpop _, some (.str v) => (.error, some (.str v))

/-- A command that only reads keeps the value. -/
theorem Cmd.act_of_not_writes {c : Cmd K E} (h : ¬ c.Writes) (v : Option (Value (E c.key))) :
    (c.act v).2 = v := by
  cases c with
  | del k => exact absurd trivial h
  | set k v ex => exact absurd trivial h
  | lpush k e => exact absurd trivial h
  | lpop k => exact absurd trivial h
  | get k => rcases v with _ | (_ | _) <;> rfl
  | lindex k i => rcases v with _ | (_ | _) <;> rfl
  | llen k => rcases v with _ | (_ | _) <;> rfl

/-- A free key answers no element and no string. -/
theorem Cmd.act_none_ne_bulk (c : Cmd K E) (e : c.Bulk) : (c.act none).1 ≠ .bulk e := by
  cases c <;> simp [act]

section Exec

variable [DecidableEq K]

/-- One command on a database. -/
def exec (c : Cmd K E) (s : Store K E) : Reply c.Bulk × Store K E :=
  let r := c.act (s c.key)
  (r.1, Function.update s c.key r.2)

/-- A server that executes a command, or refuses it with an error and does nothing. -/
def serve (refuse : Bool) (c : Cmd K E) (s : Store K E) : Reply c.Bulk × Store K E :=
  if refuse then (.error, s) else exec c s

/-- `Answers s c r s'`: the server can reply `r` to `c` in `s`, and leaves `s'`. -/
def Answers (s : Store K E) (c : Cmd K E) (r : Reply c.Bulk) (s' : Store K E) : Prop :=
  ∃ refuse, serve refuse c s = (r, s')

theorem answers_iff {s s' : Store K E} {c : Cmd K E} {r : Reply c.Bulk} :
    Answers s c r s' ↔ (r = .error ∧ s' = s) ∨
      (r = (c.act (s c.key)).1 ∧ s' = Function.update s c.key (c.act (s c.key)).2) := by
  constructor
  · intro h
    obtain ⟨refuse, h⟩ := h
    cases refuse with
    | true => exact Or.inl ⟨(congrArg Prod.fst h).symm, (congrArg Prod.snd h).symm⟩
    | false => exact Or.inr ⟨(congrArg Prod.fst h).symm, (congrArg Prod.snd h).symm⟩
  · intro h
    cases h with
    | inl h => exact ⟨true, by rw [h.1, h.2]; rfl⟩
    | inr h => exact ⟨false, by rw [h.1, h.2]; rfl⟩

/-! ## Frames -/

/-- A command leaves the other keys alone. -/
theorem Answers.ne {s s' : Store K E} {c : Cmd K E} {r : Reply c.Bulk} (h : Answers s c r s')
    {k : K} (hk : k ≠ c.key) : s' k = s k := by
  rcases answers_iff.mp h with ⟨-, rfl⟩ | ⟨-, rfl⟩
  · rfl
  · exact Function.update_of_ne hk ..

/-- A command that only reads leaves the database alone. -/
theorem Answers.not_writes {s s' : Store K E} {c : Cmd K E} {r : Reply c.Bulk}
    (h : Answers s c r s') (hc : ¬ c.Writes) : s' = s := by
  rcases answers_iff.mp h with ⟨-, rfl⟩ | ⟨-, rfl⟩
  · rfl
  · rw [Cmd.act_of_not_writes hc]
    exact Function.update_eq_self ..

/-- An element or a string is answered from a value. -/
theorem Answers.bulk {s s' : Store K E} {c : Cmd K E} {e : c.Bulk}
    (h : Answers s c (.bulk e) s') :
    ∃ v, s c.key = some v ∧ (c.act (some v)).1 = .bulk e ∧
      s' = Function.update s c.key (c.act (some v)).2 := by
  rcases answers_iff.mp h with ⟨he, -⟩ | ⟨he, hs'⟩
  · cases he
  · cases hs : s c.key with
    | none =>
        rw [hs] at he
        exact absurd he.symm (c.act_none_ne_bulk e)
    | some v =>
        rw [hs] at he hs'
        exact ⟨v, rfl, he.symm, hs'⟩

/-! ## The list commands -/

/-- A push that is not refused puts its element at the head. -/
theorem Answers.lpush {s s' : Store K E} {k : K} {e : E k}
    {r : Reply (Cmd.lpush k e : Cmd K E).Bulk} (h : Answers s (.lpush k e) r s')
    (hr : r ≠ .error) : s' k = some (.list e (items s k)) := by
  rcases answers_iff.mp h with ⟨he, -⟩ | ⟨he, rfl⟩
  · exact absurd he hr
  · simp only [Cmd.key, Function.update_self]
    cases hs : s k with
    | none => simp [Cmd.act, items, Value.items, hs]
    | some v =>
        cases v with
        | str v =>
            simp only [Cmd.key, hs, Cmd.act] at he
            exact absurd he hr
        | list hd tl => simp [Cmd.act, items, Value.items, hs]

theorem Answers.items_lpush {s s' : Store K E} {k : K} {e : E k}
    {r : Reply (Cmd.lpush k e : Cmd K E).Bulk} (h : Answers s (.lpush k e) r s')
    (hr : r ≠ .error) : items s' k = e :: items s k := by
  rw [items, h.lpush hr]
  rfl

/-- A refused push changes nothing. -/
theorem Answers.lpush_error {s s' : Store K E} {k : K} {e : E k}
    (h : Answers s (.lpush k e) .error s') : s' = s := by
  rcases answers_iff.mp h with ⟨-, rfl⟩ | ⟨he, rfl⟩
  · rfl
  · simp only [Cmd.key] at he ⊢
    cases hs : s k with
    | none =>
        rw [hs] at he
        exact absurd he (by simp [Cmd.act])
    | some v =>
        cases v with
        | list hd tl =>
            rw [hs] at he
            exact absurd he (by simp [Cmd.act])
        | str v =>
            simp only [Cmd.act]
            rw [← hs]
            exact Function.update_eq_self ..

theorem Answers.lpop_eq {s s' : Store K E} {k : K} {e : E k}
    (h : Answers s (.lpop k) (.bulk e) s') :
    ∃ tl, s k = some (.list e tl) ∧ s' = Function.update s k (ofList tl) := by
  obtain ⟨v, hs, he, hs'⟩ := h.bulk
  cases v with
  | str v => cases he
  | list hd tl =>
      cases he
      exact ⟨tl, hs, hs'⟩

/-- A pop that answers an element took it from the head. -/
theorem Answers.lpop {s s' : Store K E} {k : K} {e : E k}
    (h : Answers s (.lpop k) (.bulk e) s') : items s k = e :: items s' k := by
  obtain ⟨tl, hs, rfl⟩ := h.lpop_eq
  simp only [items, hs, Function.update_self, items_ofList]
  rfl

/-- A pop that answers no element changes nothing. -/
theorem Answers.lpop_none {s s' : Store K E} {k : K} {r : Reply (Cmd.lpop k : Cmd K E).Bulk}
    (h : Answers s (.lpop k) r s') (hr : ∀ e, r ≠ .bulk e) : s' = s := by
  rcases answers_iff.mp h with ⟨-, rfl⟩ | ⟨he, rfl⟩
  · rfl
  · simp only [Cmd.key] at he ⊢
    cases hs : s k with
    | none =>
        simp only [Cmd.act]
        rw [← hs]
        exact Function.update_eq_self ..
    | some v =>
        cases v with
        | list hd tl =>
            rw [hs] at he
            exact absurd he (hr hd)
        | str v =>
            simp only [Cmd.act]
            rw [← hs]
            exact Function.update_eq_self ..

/-- An index that answers an element read it from the list. -/
theorem Answers.lindex {s s' : Store K E} {k : K} {i : Nat} {e : E k}
    (h : Answers s (.lindex k i) (.bulk e) s') : (items s k)[i]? = some e := by
  obtain ⟨v, hs, he, -⟩ := h.bulk
  cases v with
  | str v => cases he
  | list hd tl =>
      have hitems : items s k = hd :: tl := by rw [items, hs]; rfl
      rw [hitems]
      simp only [Cmd.act] at he
      split at he
      · rename_i hi
        cases he
        exact hi
      · cases he

/-- A length that is not refused is the length of the list. -/
theorem Answers.llen {s s' : Store K E} {k : K} {r : Reply (Cmd.llen k : Cmd K E).Bulk}
    (h : Answers s (.llen k) r s') (hr : r ≠ .error) :
    r = .integer (items s k).length ∧ isStr s k = false := by
  rcases answers_iff.mp h with ⟨he, -⟩ | ⟨he, -⟩
  · exact absurd he hr
  · simp only [Cmd.key] at he
    cases hs : s k with
    | none =>
        rw [hs] at he
        rw [he]
        simp [items, isStr, hs, Value.items, Cmd.act]
    | some v =>
        rw [hs] at he
        cases v with
        | str v => exact absurd he hr
        | list hd tl =>
            rw [he]
            simp [items, isStr, hs, Value.items, Cmd.act]

/-! ## The other commands -/

/-- A deletion that counts a key leaves nothing under it. -/
theorem Answers.del {s s' : Store K E} {k : K} {n : Nat} (h : Answers s (.del k) (.integer n) s') :
    s' k = none ∧ (n ≠ 0 → s k ≠ none) := by
  rcases answers_iff.mp h with ⟨he, -⟩ | ⟨he, rfl⟩
  · exact absurd he (by simp)
  · simp only [Cmd.key, Function.update_self] at he ⊢
    cases hs : s k with
    | none =>
        rw [hs] at he
        simpa [Cmd.act] using he
    | some v => simp [Cmd.act]

/-- A deletion that counts no key changes nothing. -/
theorem Answers.del_other {s s' : Store K E} {k : K} {r : Reply (Cmd.del k : Cmd K E).Bulk}
    (h : Answers s (.del k) r s') (hr : ∀ n, r = .integer n → n = 0) : s' = s := by
  rcases answers_iff.mp h with ⟨-, rfl⟩ | ⟨he, rfl⟩
  · rfl
  · simp only [Cmd.key] at he ⊢
    cases hs : s k with
    | none =>
        simp only [Cmd.act]
        rw [← hs]
        exact Function.update_eq_self ..
    | some x =>
        rw [hs] at he
        cases hr 1 he

/-- What is set under a key that was free. -/
theorem Answers.set {s s' : Store K E} {k : K} {v : String} {ex : Option Nat}
    {r : Reply (Cmd.set k v ex : Cmd K E).Bulk} (h : Answers s (.set k v ex) r s') (hk : s k = none)
    {x : Value (E k)} (hx : s' k = some x) : x = .str v := by
  rcases answers_iff.mp h with ⟨-, rfl⟩ | ⟨-, rfl⟩
  · rw [hk] at hx
    cases hx
  · simp only [Cmd.key, Function.update_self, hk, Cmd.act] at hx
    exact (Option.some.inj hx).symm

/-- A `SET` that is answered with a status stored its value under a free key. -/
theorem Answers.set_status {s s' : Store K E} {k : K} {v : String} {ex : Option Nat}
    (h : Answers s (.set k v ex) .status s') : s k = none ∧ s' k = some (.str v) := by
  rcases answers_iff.mp h with ⟨he, -⟩ | ⟨he, rfl⟩
  · cases he
  · simp only [Cmd.key] at he
    cases hs : s k with
    | none => simp [Cmd.act]
    | some x =>
        rw [hs] at he
        cases he

/-- A `SET` of a free key that is not refused is answered with a status. -/
theorem Answers.set_free {s s' : Store K E} {k : K} {v : String} {ex : Option Nat}
    {r : Reply (Cmd.set k v ex : Cmd K E).Bulk} (h : Answers s (.set k v ex) r s')
    (hk : s k = none) (hr : r ≠ .error) : r = .status := by
  rcases answers_iff.mp h with ⟨he, -⟩ | ⟨he, -⟩
  · exact absurd he hr
  · simp only [Cmd.key, hk, Cmd.act] at he
    exact he

/-- A `SET` with another answer changed nothing. -/
theorem Answers.set_other {s s' : Store K E} {k : K} {v : String} {ex : Option Nat}
    {r : Reply (Cmd.set k v ex : Cmd K E).Bulk} (h : Answers s (.set k v ex) r s')
    (hr : r ≠ .status) : s' = s := by
  rcases answers_iff.mp h with ⟨-, rfl⟩ | ⟨he, rfl⟩
  · rfl
  · simp only [Cmd.key] at he ⊢
    cases hs : s k with
    | none =>
        rw [hs] at he
        exact absurd he hr
    | some x =>
        simp only [Cmd.act]
        rw [← hs]
        exact Function.update_eq_self ..

/-- A string that is read was stored. -/
theorem Answers.get {s s' : Store K E} {k : K} {v : String}
    (h : Answers s (.get k) (.bulk v) s') : s k = some (.str v) := by
  obtain ⟨u, hs, he, -⟩ := h.bulk
  cases u with
  | list hd tl => cases he
  | str u =>
      cases he
      exact hs

/-- A pop that answers an element leaves a list. -/
theorem Answers.lpop_isStr {s s' : Store K E} {k : K} {e : E k}
    (h : Answers s (.lpop k) (.bulk e) s') : isStr s' k = false := by
  obtain ⟨tl, -, rfl⟩ := h.lpop_eq
  simp only [isStr, Function.update_self]
  cases tl <;> rfl

/-! ## Commands that are executed -/

theorem exec_llen {s : Store K E} {k : K} (h : (exec (.llen k) s).1 = .error) :
    isStr s k = true := by
  simp only [exec, Cmd.key] at h
  cases hs : s k with
  | none => simp [hs, Cmd.act] at h
  | some v =>
      cases v with
      | str v => simp [isStr, hs]
      | list hd tl => simp [hs, Cmd.act] at h

theorem exec_lindex {s : Store K E} {k : K} {i : Nat} {e : E k} (h : (items s k)[i]? = some e) :
    (exec (.lindex k i) s).1 = .bulk e := by
  cases hitems : items s k with
  | nil => simp [hitems] at h
  | cons hd tl =>
      rw [hitems] at h
      simp only [exec, eq_list_of_items hitems, Cmd.act, h]

/-- A pop of a list that is not empty. -/
theorem exec_lpop_eq {s : Store K E} {k : K} {e : E k} {l : List (E k)} (h : items s k = e :: l) :
    exec (.lpop k) s = (.bulk e, Function.update s k (ofList l)) := by
  simp only [exec, eq_list_of_items h, Cmd.act]

theorem exec_lpop {s : Store K E} {k : K} {e : E k} {l : List (E k)} (h : items s k = e :: l) :
    (exec (.lpop k) s).1 = .bulk e := by
  rw [exec_lpop_eq h]

theorem exec_llen_eq {s : Store K E} {k : K} (h : isStr s k = false) :
    exec (.llen k) s = (.integer (items s k).length, s) := by
  have hs : (exec (.llen k) s).2 = s :=
    Answers.not_writes ⟨false, rfl⟩ fun h => h
  refine Prod.ext ?_ hs
  simp only [exec, items]
  cases hk : s k with
  | none => rfl
  | some v =>
      cases v with
      | str v => simp [isStr, hk] at h
      | list hd tl => rfl

theorem exec_llen_str {s : Store K E} {k : K} (h : isStr s k = true) :
    (exec (.llen k) s).1 = .error := by
  simp only [exec]
  cases hk : s k with
  | none => simp [isStr, hk] at h
  | some v =>
      cases v with
      | str v => rfl
      | list hd tl => simp [isStr, hk] at h

theorem exec_lpush_eq {s : Store K E} {k : K} (h : isStr s k = false) (e : E k) :
    exec (.lpush k e) s =
      (.integer ((items s k).length + 1), Function.update s k (some (.list e (items s k)))) := by
  simp only [exec, items]
  cases hk : s k with
  | none => rfl
  | some v =>
      cases v with
      | str v => simp [isStr, hk] at h
      | list hd tl => rfl

theorem exec_del (s : Store K E) (k : K) :
    (exec (.del k) s).1 = .integer (if (s k).isNone then 0 else 1) := by
  simp only [exec, Cmd.key]
  cases s k <;> rfl

end Exec

end Redis
