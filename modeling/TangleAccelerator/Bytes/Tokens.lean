import Mathlib

/-!
# Tokens

`strtok` on lists: a token is a run of letters between delimiters, and no token is empty.

Each call skips delimiters, takes a token and goes on behind the delimiter that ended it.  What the
calls return one after the other are the tokens of the list, which are the nonempty parts it is
split into.
-/

namespace Tokens

variable {α : Type*} (delim : α → Bool)

/-- One call: the token, and what is left. -/
def strtok (s : List α) : Option (List α × List α) :=
  match s.dropWhile delim with
  | [] => none
  | c :: rest =>
      some ((c :: rest).takeWhile fun a => !delim a,
        ((c :: rest).dropWhile fun a => !delim a).drop 1)

/-- The result of the last of `n + 1` calls.  After a call that finds no token, none does. -/
def nth : Nat → List α → Option (List α)
  | 0, s => (strtok delim s).map Prod.fst
  | n + 1, s => (strtok delim s).bind fun r => nth n r.2

/-- The tokens. -/
def tokens (s : List α) : List (List α) := (s.splitOnP delim).filter fun t => !t.isEmpty

variable {delim} {s t rest : List α} {d : α}

theorem tokens_nil : tokens delim ([] : List α) = [] := rfl

@[simp] theorem tokens_cons_of_delim (hd : delim d = true) (s : List α) :
    tokens delim (d :: s) = tokens delim s := by
  rw [tokens, List.splitOnP_cons_eq_if_modifyHead, if_pos hd]
  rfl

/-- A token, with the end or a delimiter behind it. -/
theorem tokens_append (ht : ∀ c ∈ t, delim c = false) (hne : t ≠ [])
    (hrest : rest = [] ∨ ∃ d s, rest = d :: s ∧ delim d = true) :
    tokens delim (t ++ rest) = t :: tokens delim rest := by
  have hfilter (ts : List (List α)) : (t :: ts).filter (fun t => !t.isEmpty) =
      t :: ts.filter fun t => !t.isEmpty :=
    List.filter_cons_of_pos (by simpa using hne)
  rcases hrest with rfl | ⟨d, s, rfl, hd⟩
  · rw [List.append_nil, tokens, List.splitOnP_eq_singleton ht, hfilter]
    rfl
  · rw [tokens_cons_of_delim hd, tokens, List.splitOnP_append_cons_of_forall_mem ht d hd, hfilter,
      tokens]

theorem tokens_dropWhile (s : List α) : tokens delim (s.dropWhile delim) = tokens delim s := by
  induction s with
  | nil => rfl
  | cons c s ih =>
    cases hc : delim c with
    | true => rw [List.dropWhile_cons_of_pos hc, ih, tokens_cons_of_delim hc]
    | false => rw [List.dropWhile_cons_of_neg (by simp [hc])]

theorem tokens_of_strtok_eq_none (h : strtok delim s = none) : tokens delim s = [] := by
  rw [strtok] at h
  split at h
  · rename_i hdrop
    rw [← tokens_dropWhile, hdrop, tokens_nil]
  · cases h

/-- One call takes the first token. -/
theorem tokens_of_strtok_eq_some (h : strtok delim s = some (t, rest)) :
    tokens delim s = t :: tokens delim rest := by
  rw [strtok] at h
  split at h
  · cases h
  · rename_i c s' hdrop
    cases h
    have hc : delim c = false := by
      have hhead := List.head?_dropWhile_not delim s
      rw [hdrop] at hhead
      simpa using hhead
    have hne : (c :: s').takeWhile (fun a => !delim a) ≠ [] := by simp [hc]
    have htoken : ∀ a ∈ (c :: s').takeWhile (fun a => !delim a), delim a = false := by
      intro a ha
      simpa using List.mem_takeWhile_imp ha
    have happend := List.takeWhile_append_dropWhile (p := fun a => !delim a) (l := c :: s')
    rw [← tokens_dropWhile, hdrop]
    nth_rewrite 1 [← happend]
    cases hrest : (c :: s').dropWhile fun a => !delim a with
    | nil => rw [tokens_append htoken hne (.inl rfl), List.drop_nil]
    | cons d r =>
      have hd : delim d = true := by
        have hhead := List.head?_dropWhile_not (fun a => !delim a) (c :: s')
        rw [hrest] at hhead
        simpa using hhead
      rw [tokens_append htoken hne (.inr ⟨d, r, rfl, hd⟩), tokens_cons_of_delim hd,
        List.drop_succ_cons, List.drop_zero]

/-- The calls take the tokens one after the other. -/
theorem nth_eq_getElem? (n : Nat) (s : List α) : nth delim n s = (tokens delim s)[n]? := by
  induction n generalizing s with
  | zero =>
    rw [nth]
    cases hs : strtok delim s with
    | none => rw [tokens_of_strtok_eq_none hs, List.getElem?_nil, Option.map_none]
    | some r =>
      obtain ⟨t, rest⟩ := r
      rw [tokens_of_strtok_eq_some hs, List.getElem?_cons_zero, Option.map_some]
  | succ n ih =>
    rw [nth]
    cases hs : strtok delim s with
    | none => rw [tokens_of_strtok_eq_none hs, List.getElem?_nil, Option.bind_none]
    | some r =>
      obtain ⟨t, rest⟩ := r
      rw [tokens_of_strtok_eq_some hs, List.getElem?_cons_succ, Option.bind_some, ih]

end Tokens
