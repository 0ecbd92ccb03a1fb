import TangleAccelerator.Bytes.CString
import TangleAccelerator.Http.Routes

/-!
# The handler of requests

The HTTP server calls `ta_http_handler` several times for a request: once when the headers are
there, once for each chunk of the body, and once at the end.  What is known of the request is kept
between the calls.

The first call looks at the headers of a POST.  The names are compared by their first characters
only, so the last header whose name begins with `Content-Type` decides whether the body is read, and
without such a header the memory of the new record decides.

The calls with a chunk append it.  A chunk that makes the body too long is answered, and the chunks
behind it are skipped.  The last call turns a request down that has no body.  A body is missing
there also if its first chunk was too long, and then the answer is not sent.
-/

namespace TangleAccelerator.Http

open Regex.Posix

/-! ## The model -/

/-- A header of a request. -/
structure Header where
  key : List Char
  value : List Char
deriving DecidableEq, Repr

/-- `MHD_HTTP_HEADER_CONTENT_TYPE`. -/
def contentType : List Char := "Content-Type".toList

/-- The JSON rule. -/
def jsonRule : String := "application/json\\s*(;?\\s*charset\\s*=\\s*(UTF|utf)-8)?"

/-- `ta_http_header_iter`: the flag after one more header. -/
def taHttpHeaderIter (regexec : Regexec) (validContentType : Bool) (header : Header) : Bool :=
  if CString.strncasecmpEq contentType header.key contentType.length then
    apiPathMatcher regexec header.value jsonRule = .ok ()
  else validContentType

/-- `MHD_YES` and `MHD_NO`. -/
inductive Mhd where
  | no
  | yes
deriving DecidableEq, Repr

/-- `MAX_REQUEST_LEN`. -/
def maxRequestLen : Nat := 65536

/-- `STR_HTTP_REQUEST_SIZE_EXCEED`. -/
def strHttpRequestSizeExceed : String := "\x7b\"message\": \"Request size exceed\"\x7d"

/-- `STR_HTTP_INTERNAL_SERVICE_ERROR`. -/
def strHttpInternalServiceError : String := "\x7b\"message\": \"Internal service error\"\x7d"

/-- `ta_http_request_t`.  The answer code is zero as long as there is no answer. -/
structure HttpRequest where
  validContentType : Bool
  answerString : Option String := none
  answerCode : Nat := 0
  request : Option (List Char) := none
  requestLen : Nat := 0
  length_request : (request.getD []).length = requestLen

/-- `build_request`.  `malloc` tells whether that many bytes are found. -/
def buildRequest (malloc : Nat → Bool) (req : HttpRequest) (data : List Char) :
    Except Status Unit × HttpRequest :=
  if data.length = 0 then (.error .null, req)
  -- the request is left as it is, and for the first chunk there is none yet
  else if maxRequestLen ≤ data.length + req.requestLen then
    (.error .httpInternalServiceError,
      { req with answerString := some strHttpRequestSizeExceed, answerCode := 500 })
  else if malloc (req.requestLen + data.length + 1) then
    (.ok (),
      { req with
        request := some (req.request.getD [] ++ data)
        requestLen := req.requestLen + data.length
        length_request := by simp [req.length_request] })
  else
    (.error .oom,
      { req with answerString := some strHttpInternalServiceError, answerCode := 500 })

/-- The methods that are served. -/
inductive Method where
  | post
  | options
  | get
deriving DecidableEq, Repr

/-- The method of a request. -/
def Method.ofText (method : List Char) : Option Method :=
  if CString.strncmpEq method "POST".toList 4 then some post
  else if CString.strncmpEq method "OPTIONS".toList 7 then some options
  else if CString.strncmpEq method "GET".toList 3 then some get
  else none

/-- A request, apart from its body. -/
structure Connection where
  method : List Char
  url : List Char
  headers : List Header

/-- An answer that is sent. -/
structure Response where
  code : Nat
  answer : Option String
  headers : List (String × String)
deriving DecidableEq, Repr

/-- The headers of an answer. -/
def responseHeaders (options : Bool) : List (String × String) :=
  ("Access-Control-Allow-Origin", "*") ::
    if options then
      [("Access-Control-Allow-Methods", "GET, POST, OPTIONS"),
        ("Access-Control-Allow-Headers", "Origin, Content-Type, Accept, X-IOTA-API-Version"),
        ("Access-Control-Max-Age", "86400")]
    else [("Content-Type", "application/json")]

/-- What the handler runs on: the C library, the build, and the API functions, each with the code
and the text it answers. -/
structure Server where
  regexec : Regexec
  malloc : Nat → Bool
  dbEnable : Bool
  api : Reply → Nat × Option String

/-- The code and the text that answer a request. -/
def Server.answer (S : Server) : Reply → Nat × Option String
  | .invalidPath => (400, some "\x7b\"message\":\"Invalid path\"\x7d")
  | .methodNotAllowed => (405, some "\x7b\"message\":\"Method not allowed\"\x7d")
  | .options => (200, some "\x7b\"message\":\"OPTIONS request\"\x7d")
  | reply => S.api reply

/-- A call of `ta_http_process_request`. -/
structure ApiCall where
  url : List Char
  payload : Option (List Char)
  options : Bool
deriving DecidableEq, Repr

/-- The answer that is sent after such a call. -/
def Server.respond (S : Server) (call : ApiCall) : Response :=
  let (code, answer) := S.answer
    (taHttpProcessRequest S.regexec S.dbEnable call.url call.payload call.options)
  ⟨code, answer, responseHeaders call.options⟩

/-- The end of a call of the handler: what is returned, what is kept for the next call, whether the
API was called and which answer was sent. -/
structure CallEnd where
  ret : Mhd
  ptr : Option HttpRequest
  called : Option ApiCall := none
  queued : Option Response := none

section Calls

variable (S : Server) (conn : Connection)

/-- The record of a new request.  `memory` is what `malloc` leaves in the flag. -/
def newRequest (memory : Bool) (method : Method) : HttpRequest where
  validContentType :=
    if method = .post then conn.headers.foldl (taHttpHeaderIter S.regexec) memory else memory
  length_request := rfl

/-- `ta_http_handler`. -/
def taHttpHandler (memory : Bool) (uploadData : List Char) (ptr : Option HttpRequest) : CallEnd :=
  match Method.ofText conn.method, ptr with
  | none, _ => ⟨.no, ptr, none, none⟩
  | some method, none => ⟨.yes, some (newRequest S conn memory method), none, none⟩
  | some method, some req =>
      if method = .post ∧ req.validContentType = false then ⟨.no, none, none, none⟩
      else if uploadData.length > 0 then
        if req.answerCode ≠ 0 then ⟨.yes, some req, none, none⟩
        else ⟨.yes, some (buildRequest S.malloc req uploadData).2, none, none⟩
      -- taken before an answer that is already there is looked at
      else if method = .post ∧ req.request = none then ⟨.no, none, none, none⟩
      else if req.answerCode = 0 then
        let call : ApiCall := ⟨conn.url, req.request.map CString.text, method = .options⟩
        ⟨.yes, none, some call, some (S.respond call)⟩
      else
        ⟨.yes, none, none, some ⟨req.answerCode, req.answerString,
          responseHeaders (method = .options)⟩⟩

/-- What happens in some calls. -/
structure Exchange where
  called : List ApiCall
  queued : List Response
deriving DecidableEq, Repr

/-- Calls one after the other, each with its data.  The connection is closed at the first one that
answers `MHD_NO`. -/
def exchange (memory : Bool) : List (List Char) → Option HttpRequest → Exchange
  | [], _ => ⟨[], []⟩
  | data :: rest, ptr =>
      let call := taHttpHandler S conn memory data ptr
      let later := if call.ret = .yes then exchange memory rest call.ptr else ⟨[], []⟩
      ⟨call.called.toList ++ later.called, call.queued.toList ++ later.queued⟩

/-- The calls of a request whose body comes in some chunks. -/
def serve (memory : Bool) (chunks : List (List Char)) : Exchange :=
  exchange S conn memory ([] :: chunks ++ [[]]) none

end Calls

/-! ## The content type -/

/-- Whether the name of a header begins with `Content-Type`, in upper or lower case. -/
def Header.LikeContentType (header : Header) : Prop :=
  contentType.map Char.toLower <+: header.key.map Char.toLower

instance (header : Header) : Decidable header.LikeContentType :=
  inferInstanceAs (Decidable (_ <+: _))

/-- Whether the name of a header is `Content-Type`, in upper or lower case. -/
def Header.IsContentType (header : Header) : Prop :=
  header.key.map Char.toLower = contentType.map Char.toLower

instance (header : Header) : Decidable header.IsContentType :=
  inferInstanceAs (Decidable (_ = _))

/-- Whether the value of a header matches the JSON rule. -/
def Header.IsJson (header : Header) : Prop := header.value ∈ ruleLang jsonRule

/-- A request has a header `Content-Type` with a JSON value. -/
def HasJsonContentType (headers : List Header) : Prop :=
  ∃ header ∈ headers, header.IsContentType ∧ header.IsJson

theorem Header.IsContentType.like {header : Header} (h : header.IsContentType) :
    header.LikeContentType := by
  rw [LikeContentType, h]

section ContentType

variable {regexec : Regexec} {memory : Bool}

theorem taHttpHeaderIter_of_not_like {header : Header} (h : ¬ header.LikeContentType) :
    taHttpHeaderIter regexec memory header = memory := by
  rw [taHttpHeaderIter, if_neg]
  rwa [CString.strncasecmpEq_length_iff (by decide)]

theorem taHttpHeaderIter_of_like (hregexec : regexec.Lawful) {header : Header}
    (h : header.LikeContentType) :
    taHttpHeaderIter regexec memory header = true ↔ header.IsJson := by
  rw [taHttpHeaderIter, if_pos ((CString.strncasecmpEq_length_iff (by decide) _).mpr h),
    decide_eq_true_iff, apiPathMatcher_eq_ok_iff hregexec, Header.IsJson]

/-- Headers with other names leave the flag as it is. -/
theorem foldl_of_not_like {headers : List Header}
    (h : ∀ header ∈ headers, ¬ header.LikeContentType) :
    headers.foldl (taHttpHeaderIter regexec) memory = memory := by
  induction headers with
  | nil => rfl
  | cons header headers ih =>
    rw [List.foldl_cons, taHttpHeaderIter_of_not_like (h header List.mem_cons_self)]
    exact ih fun header hheader => h header (List.mem_cons_of_mem _ hheader)

/-- The last header whose name begins with `Content-Type` decides. -/
theorem foldl_eq_true_iff (hregexec : regexec.Lawful) {front back : List Header} {last : Header}
    (hlast : last.LikeContentType) (hback : ∀ header ∈ back, ¬ header.LikeContentType) :
    (front ++ last :: back).foldl (taHttpHeaderIter regexec) memory = true ↔ last.IsJson := by
  rw [List.foldl_append, List.foldl_cons, foldl_of_not_like hback]
  exact taHttpHeaderIter_of_like hregexec hlast

theorem exists_last_like (headers : List Header) :
    (∀ header ∈ headers, ¬ header.LikeContentType) ∨
    ∃ front last back, headers = front ++ last :: back ∧ last.LikeContentType ∧
      ∀ header ∈ back, ¬ header.LikeContentType := by
  induction headers with
  | nil => exact .inl fun header hheader => absurd hheader List.not_mem_nil
  | cons header headers ih =>
    rcases ih with hnone | ⟨front, last, back, rfl, hlast, hback⟩
    · by_cases hheader : header.LikeContentType
      · exact .inr ⟨[], header, headers, rfl, hheader, hnone⟩
      · exact .inl (List.forall_mem_cons.mpr ⟨hheader, hnone⟩)
    · exact .inr ⟨header :: front, last, back, rfl, hlast, hback⟩

end ContentType

section Calls

variable {S : Server} {conn : Connection} {memory : Bool}

/-- The body of a request is read: behind the first call, data is appended to it. -/
def ReadsBody (S : Server) (conn : Connection) (memory : Bool) (data : List Char) : Prop :=
  ∃ req, (taHttpHandler S conn memory [] none).ptr = some req ∧
    taHttpHandler S conn memory data (some req) =
      ⟨.yes, some (buildRequest S.malloc req data).2, none, none⟩

theorem taHttpHandler_first (hpost : Method.ofText conn.method = some .post) (data : List Char) :
    taHttpHandler S conn memory data none =
      ⟨.yes, some (newRequest S conn memory .post), none, none⟩ := by
  simp only [taHttpHandler, hpost]

/-- A call with data. -/
theorem taHttpHandler_data (hpost : Method.ofText conn.method = some .post) {req : HttpRequest}
    {data : List Char} (hdata : data ≠ []) :
    taHttpHandler S conn memory data (some req) =
      if req.validContentType = false then ⟨.no, none, none, none⟩
      else if req.answerCode ≠ 0 then ⟨.yes, some req, none, none⟩
      else ⟨.yes, some (buildRequest S.malloc req data).2, none, none⟩ := by
  simp only [taHttpHandler, hpost, true_and, if_pos (List.length_pos_iff.mpr hdata)]

theorem validContentType_newRequest :
    (newRequest S conn memory .post).validContentType =
      conn.headers.foldl (taHttpHeaderIter S.regexec) memory := by
  simp only [newRequest, if_true]

theorem readsBody_iff (hpost : Method.ofText conn.method = some .post) {data : List Char}
    (hdata : data ≠ []) :
    ReadsBody S conn memory data ↔
      conn.headers.foldl (taHttpHeaderIter S.regexec) memory = true := by
  rw [ReadsBody, taHttpHandler_first hpost]
  constructor
  · rintro ⟨req, hreq, hcall⟩
    cases hreq
    rw [taHttpHandler_data hpost hdata, validContentType_newRequest] at hcall
    by_contra hnot
    rw [if_pos (Bool.eq_false_iff.mpr hnot)] at hcall
    cases congrArg CallEnd.ret hcall
  · intro htrue
    refine ⟨_, rfl, ?_⟩
    rw [taHttpHandler_data hpost hdata, validContentType_newRequest, htrue,
      if_neg Bool.false_ne_true.symm]
    exact if_neg (not_not.mpr rfl)

/-- The body is read exactly if there is a header `Content-Type` with a JSON value, as far as the
last header whose name begins like that says the same, or there is none and the memory is clear. -/
theorem readsBody_iff_hasJson_iff (hregexec : S.regexec.Lawful)
    (hpost : Method.ofText conn.method = some .post) {data : List Char} (hdata : data ≠ []) :
    (ReadsBody S conn memory data ↔ HasJsonContentType conn.headers) ↔
      ((∀ header ∈ conn.headers, ¬ header.LikeContentType) ∧ memory = false) ∨
      ∃ front last back, conn.headers = front ++ last :: back ∧ last.LikeContentType ∧
        (∀ header ∈ back, ¬ header.LikeContentType) ∧
        (last.IsJson ↔ HasJsonContentType conn.headers) := by
  rw [readsBody_iff hpost hdata]
  have hnot : (∀ header ∈ conn.headers, ¬ header.LikeContentType) →
      ¬ HasJsonContentType conn.headers := by
    rintro hnone ⟨header, hheader, hname, -⟩
    exact hnone header hheader hname.like
  constructor
  · intro hprop
    rcases exists_last_like conn.headers with hnone | ⟨front, last, back, heq, hlast, hback⟩
    · rw [foldl_of_not_like hnone, iff_false_right (hnot hnone), Bool.not_eq_true] at hprop
      exact .inl ⟨hnone, hprop⟩
    · refine .inr ⟨front, last, back, heq, hlast, hback, ?_⟩
      rw [← hprop, heq, foldl_eq_true_iff hregexec hlast hback]
  · rintro (⟨hnone, rfl⟩ | ⟨front, last, back, heq, hlast, hback, hjson⟩)
    · rw [foldl_of_not_like hnone]
      exact iff_of_false Bool.false_ne_true (hnot hnone)
    · rw [← hjson, heq, foldl_eq_true_iff hregexec hlast hback]

end Calls

namespace Sample

/-- A server. -/
def server : Server := ⟨derivatives, fun _ => true, true, fun _ => (200, none)⟩

/-- A POST. -/
def post (headers : List Header) : Connection :=
  ⟨"POST".toList, "/transaction".toList, headers⟩

/-- A header with a JSON value. -/
def json (key : String) : Header := ⟨key.toList, "application/json".toList⟩

end Sample

/-- A request with the one header. -/
theorem readsBody_contentType :
    Method.ofText (Sample.post [Sample.json "content-type"]).method = some .post ∧
    (ReadsBody Sample.server (Sample.post [Sample.json "content-type"]) true ['x'] ↔
      HasJsonContentType (Sample.post [Sample.json "content-type"]).headers) := by
  refine ⟨by decide, ?_⟩
  refine (readsBody_iff_hasJson_iff lawful_derivatives (by decide) (by decide)).mpr (.inr ?_)
  refine ⟨[], Sample.json "content-type", [], rfl, by decide, by simp, fun hjson => ?_, ?_⟩
  · exact ⟨_, List.mem_singleton_self _, by decide, hjson⟩
  · rintro ⟨header, hheader, -, hjson⟩
    rwa [List.mem_singleton.mp hheader] at hjson

/-- Without a header the memory decides, and a longer name counts as well. -/
theorem readsBody_without_contentType :
    ¬ (ReadsBody Sample.server (Sample.post []) true ['x'] ↔
      HasJsonContentType (Sample.post []).headers) ∧
    ¬ (ReadsBody Sample.server (Sample.post [Sample.json "Content-Type-Options"]) false ['x'] ↔
      HasJsonContentType (Sample.post [Sample.json "Content-Type-Options"]).headers) := by
  constructor
  · intro hiff
    obtain ⟨header, hheader, -⟩ := hiff.mp ((readsBody_iff (by decide) (by decide)).mpr rfl)
    exact List.not_mem_nil hheader
  · intro hiff
    obtain ⟨header, hheader, hname, -⟩ :=
      hiff.mp ((readsBody_iff (by decide) (by decide)).mpr (by decide))
    rw [List.mem_singleton.mp hheader] at hname
    exact absurd hname (by decide)

/-! ## The body -/

/-- The answer to a body that is too long. -/
def tooLong : Response := ⟨500, some strHttpRequestSizeExceed, responseHeaders false⟩

/-- What a POST with some body should lead to. -/
def expected (S : Server) (conn : Connection) (body : List Char) : Exchange :=
  if body.length < maxRequestLen then
    ⟨[⟨conn.url, some body, false⟩], [S.respond ⟨conn.url, some body, false⟩]⟩
  else ⟨[], [tooLong]⟩

/-- A way to split a body. -/
structure Splitting (body : List Char) where
  chunks : List (List Char)
  ne_nil : ∀ chunk ∈ chunks, chunk ≠ []
  flatten_chunks : chunks.flatten = body

/-- The first part of a body has been read. -/
structure HttpRequest.Reading (req : HttpRequest) (body : Option (List Char)) : Prop where
  valid : req.validContentType = true
  code : req.answerCode = 0
  request : req.request = body

/-- The first part of a body has been read, and the rest is too long. -/
structure HttpRequest.Refused (req : HttpRequest) (body : Option (List Char)) : Prop where
  valid : req.validContentType = true
  code : req.answerCode = 500
  answer : req.answerString = some strHttpRequestSizeExceed
  request : req.request = body

theorem HttpRequest.Reading.requestLen {req : HttpRequest} {body : Option (List Char)}
    (h : req.Reading body) : req.requestLen = (body.getD []).length := by
  rw [← req.length_request, h.request]

section Body

variable {S : Server} {conn : Connection} {memory : Bool} {req : HttpRequest}
  {body : Option (List Char)} {data : List Char}

/-- A chunk that fits is appended. -/
theorem HttpRequest.Reading.append (hreq : req.Reading body) (hmalloc : ∀ n, S.malloc n = true)
    (hdata : data ≠ []) (hlen : (body.getD []).length + data.length < maxRequestLen) :
    (buildRequest S.malloc req data).2.Reading (some (body.getD [] ++ data)) := by
  have hpos := List.length_pos_iff.mpr hdata
  have hreqLen := hreq.requestLen
  rw [buildRequest, if_neg (by omega), if_neg (by omega), if_pos (hmalloc _)]
  exact ⟨hreq.valid, hreq.code,
    congrArg (fun request => some (request.getD [] ++ data)) hreq.request⟩

/-- A chunk that does not fit is refused. -/
theorem HttpRequest.Reading.refuse (hreq : req.Reading body) (malloc : Nat → Bool)
    (hdata : data ≠ []) (hlen : maxRequestLen ≤ (body.getD []).length + data.length) :
    (buildRequest malloc req data).2.Refused body := by
  have hpos := List.length_pos_iff.mpr hdata
  have hreqLen := hreq.requestLen
  rw [buildRequest, if_neg (by omega), if_pos (by omega)]
  exact ⟨hreq.valid, rfl, rfl, hreq.request⟩

theorem taHttpHandler_reading (hpost : Method.ofText conn.method = some .post)
    (hreq : req.Reading body) (hdata : data ≠ []) :
    taHttpHandler S conn memory data (some req) =
      ⟨.yes, some (buildRequest S.malloc req data).2, none, none⟩ := by
  rw [taHttpHandler_data hpost hdata, hreq.valid, hreq.code]
  rfl

/-- The last call. -/
theorem taHttpHandler_nil (hpost : Method.ofText conn.method = some .post)
    (hvalid : req.validContentType = true) :
    taHttpHandler S conn memory [] (some req) =
      if req.request = none then ⟨.no, none, none, none⟩
      else if req.answerCode = 0 then
        ⟨.yes, none, some ⟨conn.url, req.request.map CString.text, false⟩,
          some (S.respond ⟨conn.url, req.request.map CString.text, false⟩)⟩
      else
        ⟨.yes, none, none, some ⟨req.answerCode, req.answerString, responseHeaders false⟩⟩ := by
  simp [taHttpHandler, hpost, hvalid]

/-- A call that only keeps something for the next one. -/
theorem exchange_cons {ptr ptr' : Option HttpRequest} (rest : List (List Char))
    (h : taHttpHandler S conn memory data ptr = ⟨.yes, ptr', none, none⟩) :
    exchange S conn memory (data :: rest) ptr = exchange S conn memory rest ptr' := by
  rw [exchange, h]
  rfl

/-- The chunks behind one that was refused are skipped, and the answer is sent if a chunk was
read before it. -/
theorem exchange_refused (hpost : Method.ofText conn.method = some .post)
    (hreq : req.Refused body) {chunks : List (List Char)} (hne : ∀ chunk ∈ chunks, chunk ≠ []) :
    exchange S conn memory (chunks ++ [[]]) (some req) =
      ⟨[], if body = none then [] else [tooLong]⟩ := by
  induction chunks with
  | nil =>
    rw [List.nil_append, exchange, taHttpHandler_nil hpost hreq.valid, hreq.request, hreq.code,
      hreq.answer]
    cases body with
    | none => rfl
    | some body => rfl
  | cons chunk chunks ih =>
    obtain ⟨hchunk, hchunks⟩ := List.forall_mem_cons.mp hne
    rw [List.cons_append, exchange_cons, ih hchunks]
    rw [taHttpHandler_data hpost hchunk, hreq.valid, hreq.code]
    rfl

/-- From a body that is not empty and not too long, the rest of it is read as expected. -/
theorem exchange_reading (hpost : Method.ofText conn.method = some .post)
    (hmalloc : ∀ n, S.malloc n = true) {chunks : List (List Char)} {body : List Char}
    (hreq : req.Reading (some body)) (hne : ∀ chunk ∈ chunks, chunk ≠ [])
    (hlen : body.length < maxRequestLen) (hnul : CString.NulFree (body ++ chunks.flatten)) :
    exchange S conn memory (chunks ++ [[]]) (some req) =
      expected S conn (body ++ chunks.flatten) := by
  -- over the chunks, with what has been read so far; a chunk that does not fit ends the reading
  induction chunks generalizing req body with
  | nil =>
    rw [List.flatten_nil, List.append_nil] at hnul ⊢
    rw [List.nil_append, exchange, taHttpHandler_nil hpost hreq.valid, hreq.request, hreq.code,
      Option.map_some, CString.text_of_nulFree hnul, expected, if_pos hlen]
    rfl
  | cons chunk chunks ih =>
    obtain ⟨hchunk, hchunks⟩ := List.forall_mem_cons.mp hne
    rw [List.flatten_cons, ← List.append_assoc] at hnul ⊢
    rw [List.cons_append, exchange_cons _ (taHttpHandler_reading hpost hreq hchunk)]
    by_cases hfits : body.length + chunk.length < maxRequestLen
    · refine ih (hreq.append hmalloc hchunk hfits) hchunks ?_ hnul
      rwa [List.length_append]
    · have hlong : ¬ (body ++ chunk ++ chunks.flatten).length < maxRequestLen := by
        simp only [List.length_append]
        omega
      rw [exchange_refused hpost (hreq.refuse _ hchunk (not_lt.mp hfits)) hchunks, expected,
        if_neg hlong]
      rfl

theorem reading_newRequest
    (hvalid : conn.headers.foldl (taHttpHeaderIter S.regexec) memory = true) :
    (newRequest S conn memory .post).Reading none :=
  ⟨validContentType_newRequest.trans hvalid, rfl, rfl⟩

section First

variable (hpost : Method.ofText conn.method = some .post)
  (hvalid : conn.headers.foldl (taHttpHeaderIter S.regexec) memory = true)

include hpost hvalid

/-- The first two calls. -/
theorem serve_cons {chunk : List Char} (hchunk : chunk ≠ []) (chunks : List (List Char)) :
    serve S conn memory (chunk :: chunks) = exchange S conn memory (chunks ++ [[]])
      (some (buildRequest S.malloc (newRequest S conn memory .post) chunk).2) := by
  rw [serve, List.cons_append, exchange_cons _ (taHttpHandler_first hpost []), List.cons_append,
    exchange_cons _ (taHttpHandler_reading hpost (reading_newRequest hvalid) hchunk)]

/-- A request whose first chunk fits is served as expected. -/
theorem serve_of_fits (hmalloc : ∀ n, S.malloc n = true) {chunk : List Char}
    {chunks : List (List Char)} (hne : ∀ c ∈ chunk :: chunks, c ≠ [])
    (hfits : chunk.length < maxRequestLen) (hnul : CString.NulFree (chunk :: chunks).flatten) :
    serve S conn memory (chunk :: chunks) = expected S conn (chunk :: chunks).flatten := by
  obtain ⟨hchunk, hchunks⟩ := List.forall_mem_cons.mp hne
  rw [serve_cons hpost hvalid hchunk]
  exact exchange_reading hpost hmalloc
    ((reading_newRequest hvalid).append hmalloc hchunk (by simpa using hfits)) hchunks hfits hnul

/-- A request whose first chunk does not fit is not answered. -/
theorem serve_of_long {chunk : List Char} {chunks : List (List Char)}
    (hne : ∀ c ∈ chunk :: chunks, c ≠ []) (hlong : maxRequestLen ≤ chunk.length) :
    serve S conn memory (chunk :: chunks) = ⟨[], []⟩ := by
  obtain ⟨hchunk, hchunks⟩ := List.forall_mem_cons.mp hne
  rw [serve_cons hpost hvalid hchunk, exchange_refused hpost
    ((reading_newRequest hvalid).refuse _ hchunk (by simpa using hlong)) hchunks, if_pos rfl]

/-- A request is served as expected, unless it is too long and its first chunk already is. -/
theorem serve_eq_expected_iff (hmalloc : ∀ n, S.malloc n = true) {body : List Char}
    (hnul : CString.NulFree body) (hbody : body ≠ []) (splitting : Splitting body) :
    serve S conn memory splitting.chunks = expected S conn body ↔
      body.length < maxRequestLen ∨
        ∀ chunk ∈ splitting.chunks.head?, chunk.length < maxRequestLen := by
  obtain ⟨chunks, hne, rfl⟩ := splitting
  dsimp only
  cases chunks with
  | nil => exact absurd rfl hbody
  | cons chunk chunks =>
    by_cases hfits : chunk.length < maxRequestLen
    · refine iff_of_true (serve_of_fits hpost hvalid hmalloc hne hfits hnul) (.inr ?_)
      intro first hfirst
      rwa [← Option.mem_some_iff.mp hfirst]
    · have hlong : ¬ (chunk :: chunks).flatten.length < maxRequestLen := by
        rw [List.flatten_cons, List.length_append]
        omega
      rw [serve_of_long hpost hvalid hne (not_lt.mp hfits), expected, if_neg hlong]
      refine iff_of_false (by simp) ?_
      rintro (hshort | hfirst)
      · exact hlong hshort
      · exact hfits (hfirst chunk rfl)

/-- Two ways to split a body lead to the expected exchange, as far as the body is not too long or
none of their first chunks is. -/
theorem chunking_iff (hmalloc : ∀ n, S.malloc n = true) {body : List Char}
    (hnul : CString.NulFree body) (hbody : body ≠ []) (splitting splitting' : Splitting body) :
    serve S conn memory splitting.chunks = expected S conn body ∧
      serve S conn memory splitting'.chunks = expected S conn body ↔
    body.length < maxRequestLen ∨
      (∀ chunk ∈ splitting.chunks.head?, chunk.length < maxRequestLen) ∧
      ∀ chunk ∈ splitting'.chunks.head?, chunk.length < maxRequestLen := by
  rw [serve_eq_expected_iff hpost hvalid hmalloc hnul hbody splitting,
    serve_eq_expected_iff hpost hvalid hmalloc hnul hbody splitting', or_and_left]

end First

end Body

namespace Sample

/-- A POST with JSON. -/
def postJson : Connection := post [json "Content-Type"]

theorem valid_postJson :
    postJson.headers.foldl (taHttpHeaderIter server.regexec) false = true := by
  decide

/-- A body of some length. -/
def xs (n : Nat) : List Char := List.replicate n 'x'

theorem length_xs (n : Nat) : (xs n).length = n := List.length_replicate

theorem xs_ne_nil {n : Nat} (hn : 0 < n) : xs n ≠ [] := by
  rwa [← List.length_pos_iff, length_xs]

theorem nulFree_xs (n : Nat) : CString.NulFree (xs n) := by
  intro hmem
  exact absurd (List.eq_of_mem_replicate hmem) (by decide)

/-- A body in one chunk. -/
def whole {n : Nat} (hn : 0 < n) : Splitting (xs n) where
  chunks := [xs n]
  ne_nil := List.forall_mem_singleton.mpr (xs_ne_nil hn)
  flatten_chunks := List.flatten_singleton

/-- A body in two chunks of the same length. -/
def halves {n : Nat} (hn : 0 < n) : Splitting (xs (n + n)) where
  chunks := [xs n, xs n]
  ne_nil := List.forall_mem_cons.mpr ⟨xs_ne_nil hn, List.forall_mem_singleton.mpr (xs_ne_nil hn)⟩
  flatten_chunks := by
    rw [List.flatten_cons, List.flatten_singleton]
    exact List.replicate_append_replicate

end Sample

/-- A body of two characters, in one chunk and in two. -/
theorem chunking_short :
    serve Sample.server Sample.postJson false ["hi".toList] =
      expected Sample.server Sample.postJson "hi".toList ∧
    serve Sample.server Sample.postJson false [['h'], ['i']] =
      expected Sample.server Sample.postJson "hi".toList :=
  (chunking_iff (by decide) Sample.valid_postJson (fun _ => rfl) (by decide) (by decide)
    ⟨["hi".toList], by decide, rfl⟩
    ⟨[['h'], ['i']], by decide, rfl⟩).mpr (.inl (by decide))

/-- A body that is too long is answered if it comes in two halves, and not if it comes at once. -/
theorem chunking_long :
    serve Sample.server Sample.postJson false [Sample.xs 32768, Sample.xs 32768] =
      expected Sample.server Sample.postJson (Sample.xs 65536) ∧
    serve Sample.server Sample.postJson false [Sample.xs 65536] ≠
      expected Sample.server Sample.postJson (Sample.xs 65536) := by
  have hne : Sample.xs 65536 ≠ [] := Sample.xs_ne_nil (by decide)
  have hiff := serve_eq_expected_iff (by decide) Sample.valid_postJson (fun _ => rfl)
    (Sample.nulFree_xs 65536) hne
  constructor
  · refine (hiff (Sample.halves (n := 32768) (by decide))).mpr (.inr ?_)
    intro chunk hchunk
    rw [← Option.mem_some_iff.mp hchunk, Sample.length_xs]
    decide
  · intro heq
    rcases (hiff (Sample.whole (by decide))).mp heq with hshort | hfirst
    · rw [Sample.length_xs] at hshort
      exact absurd hshort (by decide)
    · have hlt := hfirst (Sample.xs 65536) rfl
      rw [Sample.length_xs] at hlt
      exact absurd hlt (by decide)

end TangleAccelerator.Http
