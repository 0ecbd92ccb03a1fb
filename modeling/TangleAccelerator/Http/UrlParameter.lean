import TangleAccelerator.Bytes.CString
import TangleAccelerator.Http.Routes

/-!
# Parameters in a URL

`ta_get_url_parameter`, which takes a segment out of a URL for the handlers of seven routes.

The segment is found by its number, and that is the one the bracketed class of the rule has matched.
Then it is copied to memory for as many characters as it has.  There is no room for a NUL behind
them and `strncpy` writes none.  So the parameter ends where the segment ends exactly if the heap
has a NUL there.
-/

namespace TangleAccelerator.Http

open CString (Block)
open Regex (RE)
open Regex.Posix

/-- `malloc`: what the memory of a size holds, and what is behind it. -/
abbrev Malloc := (size : Nat) → Block size × List Char

/-- `ta_get_url_parameter`: the memory at `*param` when it returns.  A negative index is taken for
zero. -/
def taGetUrlParameter (malloc : Malloc) (url : List Char) (index : Int) :
    Option (Except Status (List Char)) :=
  match Tokens.nth slash index.toNat url with
  | none => some (.error .httpUrlParseError)
  | some tmp =>
      -- no room for a NUL, and none is written
      let tokenLen := tmp.length
      let (param, behind) := malloc tokenLen
      (param.strncpy tmp tokenLen).map fun param => .ok (param.cells ++ behind)

/-- The index its handler asks for. -/
def Route.parameter : Route → Option Nat
  | fetch => some 1
  | transactionHash => some 1
  | tagHashes => some 1
  | tag => some 1
  | identityHash => some 2
  | identityId => some 2
  | transactionId => some 2
  | _ => none

/-- The part of a URL that the segment of a rule matches. -/
def Route.Matched (route : Route) (index : Nat) (url part : List Char) : Prop :=
  ∃ segment before after, route.segments[index]? = some segment ∧ url = before ++ (part ++ after) ∧
    before ∈ lang (.cat ((route.segments.take index).flatMap (char '/' :: ·) ++ [char '/'])) ∧
    part ∈ lang (.cat segment) ∧
    after ∈ lang (.cat ((route.segments.drop (index + 1)).flatMap (char '/' :: ·) ++ [route.tail]))

/-! ## The segment that is found -/

/-- A row that ends with a slash is not empty, and starts with one. -/
theorem exists_slash {segments : List (List (RE Sym))} {v : List Char}
    (hv : v ∈ lang (.cat (segments.flatMap (char '/' :: ·) ++ [char '/']))) :
    ∃ d s, v = d :: s ∧ slash d = true := by
  rcases nil_or_slash (fun w hw => .inr (mem_lang_char.mp hw)) hv with rfl | hslash
  · rw [lang, RE.lang_cat_append] at hv
    obtain ⟨u, _, w, hw, hnil⟩ := Language.mem_mul.mp hv
    rw [(List.append_eq_nil_iff.mp hnil).2, RE.nil_mem_lang_iff] at hw
    cases hw
  · exact hslash

/-- The segments in front of a part are tokens of their own. -/
theorem tokens_before {segments : List (List (RE Sym))} {before : List Char}
    (hplain : ∀ segment ∈ segments, plain segment = true)
    (hbefore : before ∈ lang (.cat (segments.flatMap (char '/' :: ·) ++ [char '/'])))
    (rest : List Char) :
    ∃ us, us.length = segments.length ∧ tokens (before ++ rest) = us ++ tokens rest := by
  induction segments generalizing before with
  | nil =>
    rw [mem_lang_segments_nil, mem_lang_char] at hbefore
    subst hbefore
    exact ⟨[], rfl, tokens_slash rest⟩
  | cons segment segments ih =>
    obtain ⟨u, v, rfl, hu, hv⟩ := mem_lang_segments_cons hbefore
    obtain ⟨us, hlen, hus⟩ := ih (fun s hs => hplain s (List.mem_cons_of_mem _ hs)) hv
    obtain ⟨d, s, rfl, hd⟩ := exists_slash hv
    refine ⟨u :: us, by rw [List.length_cons, List.length_cons, hlen], ?_⟩
    rw [List.cons_append, tokens_slash, List.append_assoc,
      tokens_append (v := d :: s ++ rest) (hplain segment List.mem_cons_self) hu
        (.inr ⟨d, s ++ rest, rfl, hd⟩), hus, List.cons_append]

/-- The token with the number of a segment is the part it matches. -/
theorem Route.getElem?_tokens {route : Route} {index : Nat} {url part : List Char}
    (h : route.Matched index url part) : (tokens url)[index]? = some part := by
  obtain ⟨segment, before, after, hsegment, rfl, hbefore, hpart, hafter⟩ := h
  obtain ⟨hindex, rfl⟩ := List.getElem?_eq_some_iff.mp hsegment
  obtain ⟨us, hlen, hus⟩ := tokens_before
    (fun s hs => route.plain_segments s (List.mem_of_mem_take hs)) hbefore (part ++ after)
  have hplain := route.plain_segments _ (List.getElem_mem hindex)
  rw [List.length_take, Nat.min_eq_left hindex.le] at hlen
  rw [hus, tokens_append hplain hpart (nil_or_slash route.mem_lang_tail hafter),
    List.getElem?_append_right hlen.le, hlen, Nat.sub_self, List.getElem?_cons_zero]

/-- A URL of a route has a part for each segment. -/
theorem Route.exists_matched {route : Route} {index : Nat} {url : List Char}
    (hurl : url ∈ lang route.regex) (hindex : index < route.segments.length) :
    ∃ part, route.Matched index url part := by
  have hsplit : route.segments.flatMap (char '/' :: ·) ++ [route.tail] =
      ((route.segments.take index).flatMap (char '/' :: ·) ++ [char '/']) ++
        (route.segments[index] ++
          ((route.segments.drop (index + 1)).flatMap (char '/' :: ·) ++ [route.tail])) := by
    have hsegments := List.take_append_drop index route.segments
    rw [List.drop_eq_getElem_cons hindex] at hsegments
    nth_rewrite 1 [← hsegments]
    simp only [List.flatMap_append, List.flatMap_cons, List.append_assoc, List.cons_append,
      List.nil_append]
  rw [Route.regex, hsplit, lang, RE.lang_cat_append] at hurl
  obtain ⟨before, hbefore, rest, hrest, rfl⟩ := Language.mem_mul.mp hurl
  rw [RE.lang_cat_append] at hrest
  obtain ⟨part, hpart, after, hafter, rfl⟩ := Language.mem_mul.mp hrest
  exact ⟨part, _, before, after, List.getElem?_eq_getElem hindex, rfl, hbefore, hpart, hafter⟩

/-! ## What the handlers get -/

/-- The copy of a token, with what is behind it. -/
theorem taGetUrlParameter_of_getElem? {malloc : Malloc} {url part : List Char} {index : Nat}
    (h : (tokens url)[index]? = some part) :
    taGetUrlParameter malloc url index = some (.ok (part ++ (malloc part.length).2)) := by
  obtain ⟨param, hparam, hcells⟩ := (malloc part.length).1.strncpy_self part
  have hpadded : CString.padded part part.length = part := by simp [CString.padded]
  rw [taGetUrlParameter, Int.toNat_natCast, Tokens.nth_eq_getElem?, h]
  dsimp only
  rw [hparam, Option.map_some, hcells, hpadded]

theorem taGetUrlParameter_of_length_le {malloc : Malloc} {url : List Char} {index : Int}
    (h : (tokens url).length ≤ index.toNat) :
    taGetUrlParameter malloc url index = some (.error .httpUrlParseError) := by
  rw [taGetUrlParameter, Tokens.nth_eq_getElem?, List.getElem?_eq_none h]

/-- No URL of a route has a NUL in it. -/
theorem Route.avoids_nul (route : Route) : route.regex.avoids Sym.stands CString.nul = true := by
  cases route <;> decide

/-- The handlers ask for a segment of the rule. -/
theorem Route.lt_of_parameter {route : Route} {index : Nat} (h : route.parameter = some index) :
    index < route.segments.length := by
  cases route <;> cases h <;> decide

/-- The handlers of the seven routes get the part of the URL that the class of the rule has matched
exactly if the heap has a NUL behind it.  Behind the last segment there is nothing to get. -/
theorem urlParameter_iff (malloc : Malloc) :
    (∀ (route : Route) (index : Nat) (url : List Char), route.parameter = some index →
      url ∈ ruleLang route.rule → ∃ part, route.Matched index url part ∧
        (∀ part', route.Matched index url part' → part' = part) ∧
        ((∃ memory, taGetUrlParameter malloc url index = some (.ok memory) ∧
          CString.read memory = some part) ↔
            (malloc part.length).2.head? = some CString.nul)) ∧
    ∀ (url : List Char) (index : Int), (tokens url).length ≤ index.toNat →
      taGetUrlParameter malloc url index = some (.error .httpUrlParseError) := by
  refine ⟨?_, fun url index => taGetUrlParameter_of_length_le⟩
  intro route index url hparameter hurl
  rw [Route.ruleLang_rule] at hurl
  obtain ⟨part, hpart⟩ := Route.exists_matched hurl (Route.lt_of_parameter hparameter)
  have htoken := Route.getElem?_tokens hpart
  have hfree : CString.NulFree part := by
    intro hnul
    obtain ⟨-, before, after, -, rfl, -⟩ := hpart
    refine RE.notMem_of_avoids route.avoids_nul hurl ?_
    exact List.mem_append_right _ (List.mem_append_left _ hnul)
  refine ⟨part, hpart, ?_, ?_⟩
  · intro part' hpart'
    exact Option.some.inj ((Route.getElem?_tokens hpart').symm.trans htoken)
  · rw [taGetUrlParameter_of_getElem? htoken, ← CString.read_append_eq_some_iff hfree]
    constructor
    · rintro ⟨memory, hmemory, hread⟩
      cases hmemory
      exact hread
    · intro hread
      exact ⟨_, rfl, hread⟩

/-- Memory of zeros, and a heap behind it. -/
def Sample.heap (behind : List Char) : Malloc := fun size => (.zero size, behind)

/-- A tag with a zero behind it. -/
theorem urlParameter_zero : ∃ part memory,
    taGetUrlParameter (Sample.heap [CString.nul]) "/tag/ABC/".toList 1 = some (.ok memory) ∧
      CString.read memory = some part ∧ Route.tag.Matched 1 "/tag/ABC/".toList part := by
  have hurl : "/tag/ABC/".toList ∈ ruleLang Route.tag.rule := by
    rw [mem_ruleLang_iff Route.tag.regcomp_rule]
    decide
  obtain ⟨part, hpart, -, hiff⟩ :=
    (urlParameter_iff (Sample.heap [CString.nul])).1 .tag 1 _ rfl hurl
  obtain ⟨memory, hmemory, hread⟩ := hiff.mpr rfl
  exact ⟨part, memory, hmemory, hread, hpart⟩

/-- A tag with another character behind it: that character is read too. -/
theorem urlParameter_runs_on : ∃ memory,
    taGetUrlParameter (Sample.heap ['X', CString.nul]) "/tag/ABC/".toList 1 = some (.ok memory) ∧
      CString.read memory = some "ABCX".toList :=
  ⟨"ABCX\x00".toList, by decide, by decide⟩

end TangleAccelerator.Http
