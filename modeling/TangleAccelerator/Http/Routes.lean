import TangleAccelerator.Bytes.Tokens
import TangleAccelerator.Common.Types
import TangleAccelerator.Regex.Posix

/-!
# Routes

How `ta_http_process_request` finds the handler of a URL.

Each route has a rule, and the URL is matched against the rules one after the other.
`api_path_matcher` does not anchor the match.  It compares the length of the match with that of the
URL, and a leftmost longest match is that long exactly if the URL is in the language of the rule.

A rule is a row of segments, each behind a slash, with a slash at the end that may be left out.  No
segment has a slash in it or is empty, so the tokens of a URL between its slashes are words of the
segments.  Two routes have a different number of segments, or segments in the same place without a
word in common.  So no URL has two routes, and the order of the rules does not matter.
-/

namespace TangleAccelerator.Http

open Regex (RE)
open Regex.Posix

/-! ## Matching a path -/

/-- `api_path_matcher`. -/
def apiPathMatcher (regexec : Regexec) (path : List Char) (regexRule : String) :
    Except Status Unit :=
  match regcomp regexRule with
  | none => .error .httpInvalidRegex
  | some reg =>
      match regexec reg path with
      | none => .error .httpUrlNotMatch
      | some (rmSo, rmEo) =>
          if rmEo - rmSo ≠ path.length then .error .httpUrlNotMatch else .ok ()

/-- The language of a rule. -/
def ruleLang (regexRule : String) : Language Char := (regcomp regexRule).elim 0 lang

theorem mem_ruleLang_iff {regexRule : String} {reg : RE Sym} (h : regcomp regexRule = some reg)
    {path : List Char} : path ∈ ruleLang regexRule ↔ reg.accepts Sym.stands path = true := by
  rw [ruleLang, h, Option.elim_some, RE.accepts_iff]

/-- A path is matched exactly if it is in the language of the rule. -/
theorem apiPathMatcher_eq_ok_iff {regexec : Regexec} (h : regexec.Lawful) (path : List Char)
    (regexRule : String) :
    apiPathMatcher regexec path regexRule = .ok () ↔ path ∈ ruleLang regexRule := by
  rw [apiPathMatcher, ruleLang]
  cases regcomp regexRule with
  | none => exact iff_of_false (fun hok => by cases hok) (Language.notMem_zero path)
  | some reg =>
    rw [Option.elim_some, ← (h reg path).whole_iff]
    dsimp only
    cases regexec reg path with
    | none => simp
    | some m =>
      obtain ⟨so, eo⟩ := m
      dsimp only
      by_cases hlen : eo - so = path.length
      · simp [hlen]
      · simp [hlen]

/-! ## The rules -/

/-- The routes. -/
inductive Route where
  | mam
  | fetch
  | transactionHash
  | transactionObject
  | tagHashes
  | tag
  | status
  | identityHash
  | identityId
  | transactionId
  | transaction
  | tryte
  | info
  | proxy
deriving DecidableEq, Repr

namespace Route

/-- Its rule.  The braces of a repetition are written as their codes. -/
def rule : Route → String
  | mam => "/mam/(recv|send)[/]?"
  | fetch => "/fetch/[a-fA-F0-9]\x7b8\x7d-[a-fA-F0-9]\x7b4\x7d-" ++
      "[a-fA-F0-9]\x7b4\x7d-[a-fA-F0-9]\x7b4\x7d-[a-fA-F0-9]\x7b12\x7d[/]?"
  | transactionHash => "/transaction/[A-Z9]\x7b81\x7d[/]?"
  | transactionObject => "/transaction/object[/]?"
  | tagHashes => "/tag/[A-Z9]\x7b1,27\x7d/hashes[/]?"
  | tag => "/tag/[A-Z9]\x7b1,27\x7d[/]?"
  | status => "/status[/]?"
  | identityHash => "/identity/hash/[A-Z9]\x7b81\x7d[/]?"
  | identityId => "/identity/id/[a-z0-9-]\x7b36\x7d[/]?"
  | transactionId => "/transaction/id/[a-z0-9-]\x7b36\x7d[/]?"
  | transaction => "/transaction[/]?"
  | tryte => "/tryte[/]?"
  | info => "/info[/]?"
  | proxy => "/"

/-- Characters of trytes. -/
def trytes (least most : Nat) : RE Sym :=
  .between (.sym (.ranges [('A', 'Z'), ('9', '9')])) least most

/-- Hexadecimal digits. -/
def hex (n : Nat) : RE Sym :=
  .between (.sym (.ranges [('a', 'f'), ('A', 'F'), ('0', '9')])) n n

/-- An identifier of the database. -/
def identifier : RE Sym :=
  .between (.sym (.ranges [('a', 'z'), ('0', '9'), ('-', '-')])) 36 36

/-- The segments of its rule, each as the pieces it is made of. -/
def segments : Route → List (List (RE Sym))
  | mam => [lit "mam", [.alt (.cat (lit "recv")) (.cat (lit "send"))]]
  | fetch => [lit "fetch",
      [hex 8, char '-', hex 4, char '-', hex 4, char '-', hex 4, char '-', hex 12]]
  | transactionHash => [lit "transaction", [trytes 81 81]]
  | transactionObject => [lit "transaction", lit "object"]
  | tagHashes => [lit "tag", [trytes 1 27], lit "hashes"]
  | tag => [lit "tag", [trytes 1 27]]
  | status => [lit "status"]
  | identityHash => [lit "identity", lit "hash", [trytes 81 81]]
  | identityId => [lit "identity", lit "id", [identifier]]
  | transactionId => [lit "transaction", lit "id", [identifier]]
  | transaction => [lit "transaction"]
  | tryte => [lit "tryte"]
  | info => [lit "info"]
  | proxy => []

/-- The end of its rule. -/
def tail : Route → RE Sym
  | proxy => char '/'
  | _ => .opt (char '/')

/-- The expression of its rule. -/
def regex (route : Route) : RE Sym :=
  .cat (route.segments.flatMap (char '/' :: ·) ++ [route.tail])

theorem regcomp_rule (route : Route) : regcomp route.rule = some route.regex := by
  cases route <;> decide +kernel

theorem ruleLang_rule (route : Route) : ruleLang route.rule = lang route.regex := by
  rw [ruleLang, regcomp_rule, Option.elim_some]

end Route

/-- The routes in the order of the source.  Those of the database are there with `DB_ENABLE`. -/
def routes (dbEnable : Bool) : List Route :=
  [Route.mam, Route.fetch, Route.transactionHash, Route.transactionObject, Route.tagHashes,
    Route.tag, Route.status] ++
    (if dbEnable then [Route.identityHash, Route.identityId, Route.transactionId] else []) ++
    [Route.transaction, Route.tryte, Route.info, Route.proxy]

theorem mem_routes (route : Route) : route ∈ routes true := by
  cases route <;> decide

/-! ## The segments of a URL -/

/-- The delimiter of `ta_get_url_parameter`. -/
def slash (c : Char) : Bool := c == '/'

/-- The tokens of a URL. -/
abbrev tokens (url : List Char) : List (List Char) := Tokens.tokens slash url

theorem tokens_slash (url : List Char) : tokens ('/' :: url) = tokens url :=
  Tokens.tokens_cons_of_delim rfl url

/-- No word of the segment has a slash in it or is empty. -/
def plain (segment : List (RE Sym)) : Bool :=
  (RE.cat segment).avoids Sym.stands '/' && !(RE.cat segment).nullable

/-- A word of a segment is a token, if a slash or nothing is behind it. -/
theorem tokens_append {segment : List (RE Sym)} {u v : List Char} (hplain : plain segment = true)
    (hu : u ∈ lang (.cat segment)) (hv : v = [] ∨ ∃ d s, v = d :: s ∧ slash d = true) :
    tokens (u ++ v) = u :: tokens v := by
  rw [plain, Bool.and_eq_true, Bool.not_eq_true'] at hplain
  have hfree : ∀ c ∈ u, slash c = false := by
    intro c hc
    have hslash := RE.notMem_of_avoids hplain.1 hu
    exact beq_false_of_ne fun he => hslash (he ▸ hc)
  have hne : u ≠ [] := by
    rintro rfl
    rw [RE.nil_mem_lang_iff, hplain.2] at hu
    cases hu
  exact Tokens.tokens_append hfree hne hv

section Segments

variable {segments : List (List (RE Sym))} {tail : RE Sym} {url : List Char}

theorem mem_lang_segments_nil :
    url ∈ lang (.cat (([] : List (List (RE Sym))).flatMap (char '/' :: ·) ++ [tail])) ↔
      url ∈ lang tail := by
  rw [List.flatMap_nil, List.nil_append, RE.cat, RE.cat, lang, RE.lang, RE.lang, mul_one]

/-- The first segment, behind a slash, and the rest. -/
theorem mem_lang_segments_cons {segment : List (RE Sym)}
    (hurl : url ∈ lang (.cat ((segment :: segments).flatMap (char '/' :: ·) ++ [tail]))) :
    ∃ u v, url = '/' :: (u ++ v) ∧ u ∈ lang (.cat segment) ∧
      v ∈ lang (.cat (segments.flatMap (char '/' :: ·) ++ [tail])) := by
  rw [List.flatMap_cons, List.cons_append, List.cons_append, List.append_assoc, RE.cat] at hurl
  obtain ⟨w, hw, rest, hrest, rfl⟩ := RE.mem_lang_seq.mp hurl
  rw [RE.lang_cat_append] at hrest
  obtain ⟨u, hu, v, hv, rfl⟩ := Language.mem_mul.mp hrest
  rw [mem_lang_char.mp hw]
  exact ⟨u, v, rfl, hu, hv⟩

/-- What follows a segment starts with a slash, if there is anything. -/
theorem nil_or_slash (htail : ∀ w ∈ lang tail, w = [] ∨ w = ['/'])
    (hurl : url ∈ lang (.cat (segments.flatMap (char '/' :: ·) ++ [tail]))) :
    url = [] ∨ ∃ d s, url = d :: s ∧ slash d = true := by
  cases segments with
  | nil =>
    rcases htail url (mem_lang_segments_nil.mp hurl) with rfl | rfl
    · exact .inl rfl
    · exact .inr ⟨'/', [], rfl, rfl⟩
  | cons segment segments =>
    obtain ⟨u, v, rfl, -, -⟩ := mem_lang_segments_cons hurl
    exact .inr ⟨'/', u ++ v, rfl, rfl⟩

/-- The tokens of a URL are words of the segments. -/
theorem forall₂_tokens (hplain : ∀ segment ∈ segments, plain segment = true)
    (htail : ∀ w ∈ lang tail, w = [] ∨ w = ['/'])
    (hurl : url ∈ lang (.cat (segments.flatMap (char '/' :: ·) ++ [tail]))) :
    List.Forall₂ (fun segment token => token ∈ lang (.cat segment)) segments (tokens url) := by
  induction segments generalizing url with
  | nil =>
    rcases htail url (mem_lang_segments_nil.mp hurl) with rfl | rfl
    · exact .nil
    · exact .nil
  | cons segment segments ih =>
    obtain ⟨u, v, rfl, hu, hv⟩ := mem_lang_segments_cons hurl
    rw [tokens_slash, tokens_append (hplain segment List.mem_cons_self) hu (nil_or_slash htail hv)]
    exact .cons hu (ih (fun s hs => hplain s (List.mem_cons_of_mem _ hs)) hv)

end Segments

theorem Route.plain_segments (route : Route) :
    ∀ segment ∈ route.segments, plain segment = true := by
  cases route <;> decide

theorem Route.mem_lang_tail (route : Route) (w : List Char) (hw : w ∈ lang route.tail) :
    w = [] ∨ w = ['/'] := by
  have htail : route.tail = char '/' ∨ route.tail = .opt (char '/') := by
    cases route <;> simp [tail]
  rcases htail with htail | htail
  · rw [htail] at hw
    exact .inr (mem_lang_char.mp hw)
  · rw [htail] at hw
    rcases RE.mem_lang_alt.mp hw with hw | hw
    · exact .inr (mem_lang_char.mp hw)
    · exact .inl (RE.mem_lang_one.mp hw)

/-- The tokens of a URL of a route. -/
theorem Route.forall₂_tokens {route : Route} {url : List Char} (hurl : url ∈ lang route.regex) :
    List.Forall₂ (fun segment token => token ∈ lang (.cat segment)) route.segments (tokens url) :=
  Http.forall₂_tokens route.plain_segments route.mem_lang_tail hurl

/-! ## No URL has two routes -/

/-- Two rows of segments have a different number of them, or segments in the same place without a
common word. -/
def apartSegments : List (List (RE Sym)) → List (List (RE Sym)) → Bool
  | [], [] => false
  | [], _ :: _ => true
  | _ :: _, [] => true
  | s :: ss, t :: ts => apart (.cat s) (.cat t) || apartSegments ss ts

theorem not_forall₂_of_apartSegments {ss ts : List (List (RE Sym))} {us : List (List Char)}
    (h : apartSegments ss ts = true)
    (hs : List.Forall₂ (fun segment token => token ∈ lang (.cat segment)) ss us) :
    ¬ List.Forall₂ (fun segment token => token ∈ lang (.cat segment)) ts us := by
  induction hs generalizing ts with
  | nil =>
    intro ht
    cases ht
    cases h
  | cons hu _ ih =>
    intro ht
    cases ht with
    | cons hu' ht =>
      rcases Bool.or_eq_true _ _ ▸ h with hapart | hrest
      · exact notMem_of_apart hapart hu hu'
      · exact ih hrest ht

theorem apartSegments_routes : ∀ route ∈ routes true, ∀ route' ∈ routes true, route ≠ route' →
    apartSegments route.segments route'.segments = true := by
  decide

/-- No URL is in the languages of two routes. -/
theorem route_unique {route route' : Route} {url : List Char} (hurl : url ∈ ruleLang route.rule)
    (hurl' : url ∈ ruleLang route'.rule) : route = route' := by
  rw [Route.ruleLang_rule] at hurl hurl'
  by_contra hne
  exact not_forall₂_of_apartSegments
    (apartSegments_routes route (mem_routes route) route' (mem_routes route') hne)
    (Route.forall₂_tokens hurl) (Route.forall₂_tokens hurl')

/-! ## Handlers -/

/-- What is done with a request.  A handler is given the URL or the payload. -/
inductive Reply where
  | options
  | invalidPath
  | methodNotAllowed
  | recvMamMsg (payload : List Char)
  | sendMamMsg (payload : List Char)
  | fetchBufferedRequestStatus (url : List Char)
  | findTxnObjSingle (url : List Char)
  | findTxnObj (payload : List Char)
  | findTxnsByTag (url : List Char)
  | findTxnsObjByTag (url : List Char)
  | getNodeStatus
  | getIdentityInfoByHash (url : List Char)
  | getIdentityInfoById (url : List Char)
  | findTransactionById (url : List Char)
  | sendTransfer (payload : List Char)
  | sendTrytes (payload : List Char)
  | getTaInfo
  | proxyApi (payload : List Char)
deriving DecidableEq, Repr

/-- A handler of payloads. -/
def withPayload (payload : Option (List Char)) (handler : List Char → Reply) : Reply :=
  match payload with
  | none => .methodNotAllowed
  | some payload => handler payload

section Dispatch

variable (regexec : Regexec)

/-- The rule that tells the two handlers of MAM messages apart. -/
def recvRule : String := ".*/recv.*"

/-- The expression of this rule. -/
def recvRegex : RE Sym := .cat (.star (.sym .any) :: lit "/recv" ++ [.star (.sym .any)])

theorem regcomp_recvRule : regcomp recvRule = some recvRegex := by
  decide

/-- The branch of a route. -/
def Route.handle (url : List Char) (payload : Option (List Char)) : Route → Reply
  | mam => withPayload payload fun payload =>
      if apiPathMatcher regexec url recvRule = .ok () then .recvMamMsg payload
      else .sendMamMsg payload
  | fetch => .fetchBufferedRequestStatus url
  | transactionHash => .findTxnObjSingle url
  | transactionObject => withPayload payload .findTxnObj
  | tagHashes => .findTxnsByTag url
  | tag => .findTxnsObjByTag url
  | status => .getNodeStatus
  | identityHash => .getIdentityInfoByHash url
  | identityId => .getIdentityInfoById url
  | transactionId => .findTransactionById url
  | transaction => withPayload payload .sendTransfer
  | tryte => withPayload payload .sendTrytes
  | info => .getTaInfo
  | proxy => withPayload payload .proxyApi

/-- The condition of a branch. -/
def Route.matches (url : List Char) (route : Route) : Bool :=
  apiPathMatcher regexec url route.rule = .ok ()

/-- The first route of a table whose rule matches. -/
def select (table : List Route) (url : List Char) : Option Route :=
  table.find? (Route.matches regexec url)

/-- The branches, in the order of a table. -/
def dispatch (table : List Route) (url : List Char) (payload : Option (List Char)) : Reply :=
  match select regexec table url with
  | none => .invalidPath
  | some route => route.handle regexec url payload

/-- `ta_http_process_request`. -/
def taHttpProcessRequest (dbEnable : Bool) (url : List Char) (payload : Option (List Char))
    (options : Bool) : Reply :=
  if options then .options else dispatch regexec (routes dbEnable) url payload

end Dispatch

/-- Only one branch receives MAM messages. -/
theorem eq_mam_of_recvMamMsg {regexec : Regexec} {route : Route} {url payload : List Char}
    (h : route.handle regexec url (some payload) = .recvMamMsg payload) :
    route = .mam ∧ apiPathMatcher regexec url recvRule = .ok () := by
  cases route with
  | mam =>
    refine ⟨rfl, ?_⟩
    by_contra hrecv
    rw [Route.handle, withPayload, if_neg hrecv] at h
    cases h
  | fetch | transactionHash | transactionObject | tagHashes | tag | status | identityHash
  | identityId | transactionId | transaction | tryte | info | proxy => cases h

/-- The words of the rule for MAM messages. -/
theorem words_mam : words Route.mam.regex = some ["/mam/recv/".toList, "/mam/recv".toList,
    "/mam/send/".toList, "/mam/send".toList] := by
  decide

section Lawful

variable {regexec : Regexec} (h : regexec.Lawful)
include h

theorem Route.matches_iff {url : List Char} {route : Route} :
    route.matches regexec url = true ↔ url ∈ ruleLang route.rule := by
  rw [Route.matches, decide_eq_true_iff, apiPathMatcher_eq_ok_iff h]

/-- The route of a URL is selected, wherever it is in the table. -/
theorem select_eq_some_iff {table : List Route} {url : List Char} {route : Route} :
    select regexec table url = some route ↔ route ∈ table ∧ url ∈ ruleLang route.rule := by
  constructor
  · intro hselect
    exact ⟨List.mem_of_find?_eq_some hselect, (Route.matches_iff h).mp (List.find?_some hselect)⟩
  · rintro ⟨hmem, hurl⟩
    cases hselect : select regexec table url with
    | none =>
      have hnone := List.find?_eq_none.mp hselect route hmem
      exact absurd ((Route.matches_iff h).mpr hurl) hnone
    | some route' =>
      have hurl' := (Route.matches_iff h).mp (List.find?_some hselect)
      rw [route_unique hurl' hurl]

/-- The order of the rules does not matter. -/
theorem dispatch_perm {table table' : List Route} (hperm : table.Perm table') (url : List Char)
    (payload : Option (List Char)) :
    dispatch regexec table url payload = dispatch regexec table' url payload := by
  have hselect : select regexec table url = select regexec table' url := by
    apply Option.ext
    intro route
    rw [select_eq_some_iff h, select_eq_some_iff h, hperm.mem_iff]
  rw [dispatch, dispatch, hselect]

/-- The handler that receives MAM messages is selected for its two paths. -/
theorem recvMamMsg_iff (dbEnable : Bool) (url payload : List Char) :
    taHttpProcessRequest regexec dbEnable url (some payload) false = .recvMamMsg payload ↔
      url = "/mam/recv".toList ∨ url = "/mam/recv/".toList := by
  rw [taHttpProcessRequest, if_neg Bool.false_ne_true, dispatch]
  constructor
  · intro hreply
    cases hselect : select regexec (routes dbEnable) url with
    | none =>
      rw [hselect] at hreply
      cases hreply
    | some route =>
      rw [hselect] at hreply
      obtain ⟨-, hurl⟩ := (select_eq_some_iff h).mp hselect
      obtain ⟨rfl, hrecv⟩ := eq_mam_of_recvMamMsg hreply
      rw [apiPathMatcher_eq_ok_iff h, mem_ruleLang_iff regcomp_recvRule] at hrecv
      rw [Route.ruleLang_rule] at hurl
      -- the route has four URLs, and the rule inside of it tells them apart
      have hword := mem_of_words words_mam hurl
      simp only [List.mem_cons, List.not_mem_nil, or_false] at hword
      rcases hword with rfl | rfl | rfl | rfl
      · exact .inr rfl
      · exact .inl rfl
      · exact absurd hrecv (by decide)
      · exact absurd hrecv (by decide)
  · intro hurl
    have hmam : url ∈ ruleLang Route.mam.rule := by
      rw [mem_ruleLang_iff Route.mam.regcomp_rule]
      rcases hurl with rfl | rfl <;> decide
    have hrecv : apiPathMatcher regexec url recvRule = .ok () := by
      rw [apiPathMatcher_eq_ok_iff h, mem_ruleLang_iff regcomp_recvRule]
      rcases hurl with rfl | rfl <;> decide
    rw [(select_eq_some_iff h).mpr ⟨by cases dbEnable <;> decide, hmam⟩]
    exact if_pos hrecv

end Lawful

/-- The rules of `ta_http_process_request`. -/
def rules : List String := (routes true).map Route.rule ++ [recvRule]

/-- Routing: a rule matches the words of its language, no URL has two routes, the order of the
rules does not matter, and of MAM messages exactly those on the two paths are received. -/
theorem routing {regexec : Regexec} (h : regexec.Lawful) :
    (∀ regexRule ∈ rules, (∃ reg, regcomp regexRule = some reg) ∧
      ∀ path, apiPathMatcher regexec path regexRule = .ok () ↔ path ∈ ruleLang regexRule) ∧
    (∀ route route' : Route, route ≠ route' → ∀ url, url ∈ ruleLang route.rule →
      url ∉ ruleLang route'.rule) ∧
    (∀ dbEnable table, table.Perm (routes dbEnable) → ∀ url payload,
      dispatch regexec table url payload =
        taHttpProcessRequest regexec dbEnable url payload false) ∧
    ∀ dbEnable url payload,
      taHttpProcessRequest regexec dbEnable url (some payload) false = .recvMamMsg payload ↔
        url = "/mam/recv".toList ∨ url = "/mam/recv/".toList := by
  refine ⟨?_, ?_, ?_, recvMamMsg_iff h⟩
  · intro regexRule hrule
    refine ⟨?_, fun path => apiPathMatcher_eq_ok_iff h path regexRule⟩
    rcases List.mem_append.mp hrule with hrule | hrule
    · obtain ⟨route, -, rfl⟩ := List.mem_map.mp hrule
      exact ⟨_, route.regcomp_rule⟩
    · rw [List.mem_singleton.mp hrule]
      exact ⟨_, regcomp_recvRule⟩
  · intro route route' hne url hurl hurl'
    exact hne (route_unique hurl hurl')
  · intro dbEnable table hperm url payload
    exact dispatch_perm h hperm url payload

/-- The path for receiving, with a slash behind it. -/
theorem routing_recv : taHttpProcessRequest derivatives true "/mam/recv/".toList (some []) false =
    .recvMamMsg [] :=
  ((routing lawful_derivatives).2.2.2 true _ []).mpr (.inr rfl)

end TangleAccelerator.Http
