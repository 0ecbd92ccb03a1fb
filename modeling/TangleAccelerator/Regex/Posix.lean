import TangleAccelerator.Regex.Search

/-!
# POSIX extended regular expressions

A compiler from patterns to regular expressions, for patterns with groups, alternatives, the
repetitions `*`, `+`, `?` and `{m,n}`, bracket expressions of characters and ranges, the dot, and
escapes.  `\s` is an escape of the C library.  Anchors, complements and named classes are not
patterns here.

The compiler goes through the pattern once, with a frame for each group that is open.
-/

namespace Regex.Posix

/-- A symbol: any character, or one of some ranges. -/
inductive Sym where
  | any
  | ranges (rs : List (Char × Char))
deriving DecidableEq, Repr

/-- The characters a symbol stands for. -/
def Sym.stands : Sym → Char → Bool
  | any, _ => true
  | ranges rs, c => rs.any fun r => r.1 ≤ c && c ≤ r.2

/-- One character. -/
def char (c : Char) : RE Sym := .sym (.ranges [(c, c)])

/-- The characters of a text. -/
def lit (s : String) : List (RE Sym) := s.toList.map char

/-- The language of an expression. -/
abbrev lang : RE Sym → Language Char := RE.lang Sym.stands

/-! ## Patterns -/

/-- An open group: its alternatives so far, and the pieces of the last one. -/
structure Frame where
  alts : Option (RE Sym) := none
  pieces : List (RE Sym) := []

/-- The expression of a group. -/
def Frame.close (f : Frame) : RE Sym :=
  match f.alts with
  | none => .cat f.pieces
  | some r => .alt r (.cat f.pieces)

/-- One more piece. -/
def Frame.push (f : Frame) (r : RE Sym) : Frame := { f with pieces := f.pieces ++ [r] }

/-- A repetition of the last piece. -/
def Frame.repeatLast (f : Frame) (g : RE Sym → RE Sym) : Option Frame :=
  f.pieces.getLast?.map fun r => { f with pieces := f.pieces.dropLast ++ [g r] }

/-- The ranges of a bracket expression, and what is behind it. -/
def bracket : List Char → Option (List (Char × Char) × List Char)
  | [] => none
  | ']' :: w => some ([], w)
  | c :: '-' :: ']' :: w => some ([(c, c), ('-', '-')], w)
  | c :: '-' :: d :: w => (bracket w).map fun r => ((c, d) :: r.1, r.2)
  | c :: w => (bracket w).map fun r => ((c, c) :: r.1, r.2)

/-- A number, and what is behind it. -/
def number (w : List Char) : Nat × List Char :=
  ((w.takeWhile Char.isDigit).foldl (fun n c => 10 * n + (c.toNat - '0'.toNat)) 0,
    w.dropWhile Char.isDigit)

/-- The bounds of a repetition, and what is behind them. -/
def bounds (w : List Char) : Option (Nat × Nat × List Char) :=
  match number w with
  | (m, '}' :: w) => some (m, m, w)
  | (m, ',' :: w) =>
      match number w with
      | (n, '}' :: w) => some (m, n, w)
      | _ => none
  | _ => none

/-- The compiler: the rest of the pattern, and the open groups, the innermost first. -/
def compile : Nat → List Char → List Frame → Option (RE Sym)
  | 0, _, _ => none
  | _ + 1, [], [f] => some f.close
  | n + 1, '(' :: w, fs => compile n w ({} :: fs)
  | n + 1, ')' :: w, f :: g :: fs => compile n w (g.push f.close :: fs)
  | n + 1, '|' :: w, f :: fs => compile n w ({ alts := some f.close } :: fs)
  | n + 1, '*' :: w, f :: fs => (f.repeatLast .star).bind fun f => compile n w (f :: fs)
  | n + 1, '+' :: w, f :: fs =>
      (f.repeatLast fun r => .seq r (.star r)).bind fun f => compile n w (f :: fs)
  | n + 1, '?' :: w, f :: fs => (f.repeatLast .opt).bind fun f => compile n w (f :: fs)
  | n + 1, '{' :: w, f :: fs => do
      let (least, most, w) ← bounds w
      let f ← f.repeatLast fun r => .between r least most
      compile n w (f :: fs)
  | n + 1, '[' :: w, f :: fs => do
      let (rs, w) ← bracket w
      compile n w (f.push (.sym (.ranges rs)) :: fs)
  | n + 1, '.' :: w, f :: fs => compile n w (f.push (.sym .any) :: fs)
  | n + 1, '\\' :: 's' :: w, f :: fs =>
      compile n w (f.push (.sym (.ranges [(' ', ' '), ('\t', '\r')])) :: fs)
  | n + 1, '\\' :: c :: w, f :: fs => compile n w (f.push (char c) :: fs)
  | n + 1, c :: w, f :: fs =>
      if c ∈ "^$\\)".toList then none else compile n w (f.push (char c) :: fs)
  | _ + 1, _, _ => none

/-- `regcomp` with `REG_EXTENDED`. -/
def regcomp (pattern : String) : Option (RE Sym) :=
  compile (pattern.length + 1) pattern.toList [{}]

example : regcomp "a(b|c)*[x-z]\x7b2\x7d" = some (.cat [char 'a',
    .star (.alt (.cat [char 'b']) (.cat [char 'c'])),
    .between (.sym (.ranges [('x', 'z')])) 2 2]) := by decide

/-! ## Languages that are written out -/

/-- The character of a symbol, if it stands for one. -/
def Sym.single : Sym → Option Char
  | ranges [(c, d)] => if c = d then some c else none
  | _ => none

theorem Sym.eq_of_single {s : Sym} {c a : Char} (h : s.single = some c) (ha : s.stands a = true) :
    a = c := by
  rw [single.eq_def] at h
  split at h
  · rename_i c' d
    split at h
    · rename_i hcd
      subst hcd
      cases h
      simp only [stands, List.any_cons, List.any_nil, Bool.or_false, Bool.and_eq_true,
        decide_eq_true_eq] at ha
      exact le_antisymm ha.2 ha.1
    · cases h
  · cases h

theorem mem_lang_char {c : Char} {w : List Char} : w ∈ lang (char c) ↔ w = [c] := by
  have hsingle : (Sym.ranges [(c, c)]).single = some c := if_pos rfl
  constructor
  · rintro ⟨a, ha, rfl⟩
    rw [Sym.eq_of_single hsingle ha]
  · rintro rfl
    exact ⟨c, by simp [Sym.stands], rfl⟩

/-- The words of an expression, if its symbols stand for one character each and it has no star. -/
def words : RE Sym → Option (List (List Char))
  | .zero => some []
  | .one => some [[]]
  | .sym s => s.single.map fun c => [[c]]
  | .alt r r' => do return (← words r) ++ (← words r')
  | .seq r r' => do
      let us ← words r
      let vs ← words r'
      return us.flatMap fun u => vs.map (u ++ ·)
  | .star _ => none

theorem mem_of_words {r : RE Sym} {ws : List (List Char)} {w : List Char} (h : words r = some ws)
    (hw : w ∈ lang r) : w ∈ ws := by
  induction r generalizing ws w with
  | zero => exact absurd hw RE.mem_lang_zero
  | one =>
    cases h
    exact List.mem_singleton.mpr (RE.mem_lang_one.mp hw)
  | sym s =>
    obtain ⟨c, hc, rfl⟩ := Option.map_eq_some_iff.mp h
    obtain ⟨a, ha, rfl⟩ := RE.mem_lang_sym.mp hw
    rw [Sym.eq_of_single hc ha]
    exact List.mem_singleton_self _
  | alt r r' ih ih' =>
    obtain ⟨us, hus, h⟩ := Option.bind_eq_some_iff.mp h
    obtain ⟨vs, hvs, h⟩ := Option.bind_eq_some_iff.mp h
    cases h
    rw [List.mem_append]
    exact (RE.mem_lang_alt.mp hw).imp (ih hus) (ih' hvs)
  | seq r r' ih ih' =>
    obtain ⟨us, hus, h⟩ := Option.bind_eq_some_iff.mp h
    obtain ⟨vs, hvs, h⟩ := Option.bind_eq_some_iff.mp h
    cases h
    obtain ⟨u, hu, v, hv, rfl⟩ := RE.mem_lang_seq.mp hw
    exact List.mem_flatMap.mpr ⟨u, ih hus hu, List.mem_map.mpr ⟨v, ih' hvs hv, rfl⟩⟩
  | star r ih => cases h

/-- One of two expressions is written out, and the other accepts none of its words. -/
def apart (r r' : RE Sym) : Bool :=
  match words r, words r' with
  | some ws, _ => ws.all fun w => !r'.accepts Sym.stands w
  | none, some ws => ws.all fun w => !r.accepts Sym.stands w
  | none, none => false

theorem notMem_of_apart {r r' : RE Sym} {w : List Char} (h : apart r r' = true)
    (hw : w ∈ lang r) : w ∉ lang r' := by
  intro hw'
  rw [apart] at h
  split at h
  · rename_i ws hws
    have hall := List.all_eq_true.mp h w (mem_of_words hws hw)
    rw [RE.accepts_iff.mpr hw'] at hall
    cases hall
  · rename_i ws hws
    have hall := List.all_eq_true.mp h w (mem_of_words hws hw')
    rw [RE.accepts_iff.mpr hw] at hall
    cases hall
  · cases h

/-! ## Matching -/

/-- `regexec`: the match that is found in a text. -/
abbrev Regexec := RE Sym → List Char → Option (Nat × Nat)

/-- It finds the leftmost longest match. -/
def Regexec.Lawful (exec : Regexec) : Prop := ∀ r w, LeftmostLongest (lang r) w (exec r w)

/-- The search by derivatives. -/
def derivatives : Regexec := RE.search Sym.stands

theorem lawful_derivatives : Regexec.Lawful derivatives := RE.leftmostLongest_search

end Regex.Posix
