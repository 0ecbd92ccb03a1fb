import TangleAccelerator.Http.Handler

/-!
# Whole bodies

What a request leads to, for every method, all headers, every way to split the body and every
pattern of failures of `malloc`.

The handler keeps the body it has read so far, or the answer to a failure.  A body of which a part
was lost is never given to the API, and no request is answered twice.  Only a POST may be left
without an answer.
-/

namespace TangleAccelerator.Http

/-- What has become of a body of which a first part has come in. -/
inductive HttpRequest.Stage (S : Server) (part : List Char) (req : HttpRequest) : Prop
  | reading (hcode : req.answerCode = 0)
      (hrequest : req.request = if part = [] then none else some part)
      (hlen : part.length < maxRequestLen)
  | tooLong (hcode : req.answerCode = 500) (hanswer : req.answerString = strHttpRequestSizeExceed)
      (hlen : maxRequestLen ≤ part.length)
  | noMemory (hcode : req.answerCode = 500)
      (hanswer : req.answerString = strHttpInternalServiceError) (n : Nat)
      (hmalloc : S.malloc n = false)

/-- The call of the API for a whole body, which the API sees as a C string. -/
def wholeCall (conn : Connection) (method : Method) (body : List Char) : ApiCall :=
  ⟨conn.url, if body = [] then none else some (CString.text body), method = .options⟩

/-- What a request may lead to: no answer, one answer that tells a failure, or one call of the API
with the whole body and its answer. -/
inductive Outcome (S : Server) (conn : Connection) (memory : Bool) (body : List Char) :
    Exchange → Prop
  | closed (hmethod : ∀ method, Method.ofText conn.method = some method → method = .post) :
      Outcome S conn memory body ⟨[], []⟩
  | tooLong (options : Bool) (hlen : maxRequestLen ≤ body.length) :
      Outcome S conn memory body
        ⟨[], [⟨500, some strHttpRequestSizeExceed, responseHeaders options⟩]⟩
  | noMemory (options : Bool) (n : Nat) (hmalloc : S.malloc n = false) :
      Outcome S conn memory body
        ⟨[], [⟨500, some strHttpInternalServiceError, responseHeaders options⟩]⟩
  | served (method : Method) (hmethod : Method.ofText conn.method = some method)
      (hlen : body.length < maxRequestLen)
      (hpost : method = .post → body ≠ [] ∧
        conn.headers.foldl (taHttpHeaderIter S.regexec) memory = true) :
      Outcome S conn memory body
        ⟨[wholeCall conn method body], [S.respond (wholeCall conn method body)]⟩

section Calls

variable {S : Server} {conn : Connection} {memory : Bool} {req : HttpRequest}
  {part data : List Char} {method : Method}

theorem validContentType_buildRequest (malloc : Nat → Bool) :
    (buildRequest malloc req data).2.validContentType = req.validContentType := by
  unfold buildRequest
  split
  · rfl
  split
  · rfl
  split
  · rfl
  · rfl

/-- One more chunk. -/
theorem HttpRequest.Stage.append (h : req.Stage S part) (hdata : data ≠ []) :
    HttpRequest.Stage S (part ++ data)
      (if req.answerCode ≠ 0 then req else (buildRequest S.malloc req data).2) := by
  have hpos := List.length_pos_iff.mpr hdata
  cases h with
  | tooLong hcode hanswer hlen =>
      rw [if_pos (by rw [hcode]; decide)]
      exact .tooLong hcode hanswer (by rw [List.length_append]; omega)
  | noMemory hcode hanswer n hmalloc =>
      rw [if_pos (by rw [hcode]; decide)]
      exact .noMemory hcode hanswer n hmalloc
  | reading hcode hrequest hlen =>
      have hpart : req.request.getD [] = part := by
        rw [hrequest]
        split
        case isTrue hnil => exact hnil.symm
        case isFalse => rfl
      have hreqLen : req.requestLen = part.length := by rw [← req.length_request, hpart]
      rw [if_neg (not_not.mpr hcode), buildRequest, if_neg (by omega)]
      by_cases hfits : maxRequestLen ≤ data.length + req.requestLen
      · rw [if_pos hfits]
        exact .tooLong rfl rfl (by rw [List.length_append]; omega)
      · rw [if_neg hfits]
        by_cases hmalloc : S.malloc (req.requestLen + data.length + 1) = true
        · rw [if_pos hmalloc]
          refine .reading hcode ?_ (by rw [List.length_append]; omega)
          rw [if_neg (List.append_ne_nil_of_right_ne_nil _ hdata), ← hpart]
        · rw [if_neg hmalloc]
          exact .noMemory rfl rfl _ (Bool.eq_false_iff.mpr hmalloc)

/-- A call that is not the first one. -/
theorem taHttpHandler_some (hmethod : Method.ofText conn.method = some method) :
    taHttpHandler S conn memory data (some req) =
      if method = .post ∧ req.validContentType = false then ⟨.no, none, none, none⟩
      else if data.length > 0 then
        ⟨.yes, some (if req.answerCode ≠ 0 then req else (buildRequest S.malloc req data).2),
          none, none⟩
      else if method = .post ∧ req.request = none then ⟨.no, none, none, none⟩
      else if req.answerCode = 0 then
        ⟨.yes, none, some ⟨conn.url, req.request.map CString.text, method = .options⟩,
          some (S.respond ⟨conn.url, req.request.map CString.text, method = .options⟩)⟩
      else
        ⟨.yes, none, none, some ⟨req.answerCode, req.answerString,
          responseHeaders (method = .options)⟩⟩ := by
  simp only [taHttpHandler, hmethod]
  by_cases hcode : req.answerCode ≠ 0
  · simp only [if_pos hcode]
  · simp only [if_neg hcode]

/-- The last call. -/
theorem HttpRequest.Stage.outcome (h : req.Stage S part)
    (hmethod : Method.ofText conn.method = some method)
    (hvalid : method = .post →
      req.validContentType = conn.headers.foldl (taHttpHeaderIter S.regexec) memory) :
    Outcome S conn memory part (exchange S conn memory [[]] (some req)) := by
  have hclosed : method = .post → Outcome S conn memory part ⟨[], []⟩ := by
    rintro rfl
    exact .closed fun method' hmethod' => (Option.some.inj (hmethod.symm.trans hmethod')).symm
  rw [exchange, taHttpHandler_some hmethod]
  split
  case isTrue hpost => exact hclosed hpost.1
  case isFalse hpost =>
    rw [if_neg (by decide)]
    split
    case isTrue hnone => exact hclosed hnone.1
    case isFalse hnone =>
      cases h with
      | tooLong hcode hanswer hlen =>
          rw [if_neg (by rw [hcode]; decide), hcode, hanswer]
          exact .tooLong _ hlen
      | noMemory hcode hanswer n hmalloc =>
          rw [if_neg (by rw [hcode]; decide), hcode, hanswer]
          exact .noMemory _ n hmalloc
      | reading hcode hrequest hlen =>
          have hcall : (⟨conn.url, req.request.map CString.text, method = .options⟩ : ApiCall) =
              wholeCall conn method part := by
            rw [wholeCall, hrequest]
            split
            · rfl
            · rfl
          rw [if_pos hcode, hcall]
          refine .served method hmethod hlen fun hm => ⟨?_, ?_⟩
          · rintro rfl
            exact hnone ⟨hm, hrequest⟩
          · rw [← hvalid hm, ← Bool.not_eq_false]
            exact fun hfalse => hpost ⟨hm, hfalse⟩

/-- The chunks and the last call, by induction over the chunks with the part that has come in. -/
theorem exchange_outcome (hmethod : Method.ofText conn.method = some method)
    {chunks : List (List Char)} (hne : ∀ chunk ∈ chunks, chunk ≠ []) (h : req.Stage S part)
    (hvalid : method = .post →
      req.validContentType = conn.headers.foldl (taHttpHeaderIter S.regexec) memory) :
    Outcome S conn memory (part ++ chunks.flatten)
      (exchange S conn memory (chunks ++ [[]]) (some req)) := by
  induction chunks generalizing req part with
  | nil =>
      rw [List.flatten_nil, List.append_nil]
      exact h.outcome hmethod hvalid
  | cons chunk chunks ih =>
      obtain ⟨hchunk, hchunks⟩ := List.forall_mem_cons.mp hne
      rw [List.flatten_cons, ← List.append_assoc, List.cons_append, exchange,
        taHttpHandler_some hmethod]
      split
      case isTrue hpost =>
        exact .closed fun method' hmethod' =>
          (Option.some.inj (hmethod.symm.trans hmethod')).symm.trans hpost.1
      case isFalse hpost =>
        rw [if_pos (List.length_pos_iff.mpr hchunk)]
        refine ih hchunks (h.append hchunk) fun hm => (hvalid hm).symm.trans ?_ |>.symm
        split
        · rfl
        · exact (validContentType_buildRequest S.malloc).symm

end Calls

end TangleAccelerator.Http
