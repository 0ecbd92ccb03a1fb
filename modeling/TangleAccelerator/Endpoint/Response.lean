import TangleAccelerator.Endpoint.Request
import TangleAccelerator.Endpoint.Transport

/-!
# The response to the endpoint

`conn_http.c`: `http_read_response`, and `https.c`: `send_https_msg` with the callback it gives to
`http_parser`.

The response is read once.  What arrives later is not read, and a read that fails is not an error.
The callback allocates a new buffer for each piece of the body, so the last piece is what is left.

What the functions of `mbedtls` return and what they read is given.  `http_parser` is a parameter:
for a text, the status code and the pieces it calls `on_body` with.  `malloc` succeeds.  A step
without a defined result has none: a buffer without a NUL that is read as a text, and a session of
TLS that is reset without TLS.
-/

namespace TangleAccelerator.Endpoint

open Bytes

/-! ## Reading -/

/-- `MBEDTLS_ERR_SSL_ASYNC_IN_PROGRESS`. -/
def asyncInProgress : Int := -0x6500

/-- `MBEDTLS_ERR_SSL_CRYPTO_IN_PROGRESS`. -/
def cryptoInProgress : Int := -0x7000

/-- The size of the buffer `res` of `send_https_msg`. -/
def resSize : Nat := 4096

/-- What `mbedtls_ssl_read` or `mbedtls_net_recv_timeout` returns, and the bytes it read. -/
structure Read where
  retLen : Int
  data : List UInt8
  length_data : data.length = retLen.toNat
  length_le : data.length ≤ resSize

/-- `http_read_response`: the status and the buffer.  Without TLS `ssl_ctx` is `NULL`, and
`mbedtls_ssl_session_reset` writes to what it points to. -/
def httpReadResponse (https : Bool) (read : Read) (res : Memory) :
    Option (Except Status Unit × Memory) :=
  (store res 0 read.data).bind fun res =>
    if read.retLen ∈ [0, wantRead, wantWrite, asyncInProgress, cryptoInProgress] then
      if https then some (.ok (), res) else none
    else some (.ok (), res)

/-! ## The parser -/

/-- A call of `on_body`: the offset of `at` in the text, and `length`. -/
structure Span where
  start : Nat
  length : Nat

/-- What `http_parser_execute` finds in a text. -/
structure Parsed where
  statusCode : Nat
  calls : List Span

/-- `http_parser_execute`, after `http_parser_init`. -/
structure HttpParser where
  execute : List UInt8 → Parsed
  /-- A piece of the body is in the text. -/
  inside : ∀ text, ∀ span ∈ (execute text).calls, span.start + span.length ≤ text.length
  /-- Nothing has no status. -/
  execute_nil : (execute []).statusCode = 0

/-- The bytes of a call. -/
def Span.piece (span : Span) (text : List UInt8) : List UInt8 :=
  (text.drop span.start).take span.length

/-- The pieces of the body in a text. -/
def HttpParser.pieces (P : HttpParser) (text : List UInt8) : List (List UInt8) :=
  (P.execute text).calls.map fun span => span.piece text

/-- The body of a response. -/
def HttpParser.body (P : HttpParser) (response : List UInt8) : List UInt8 :=
  (P.pieces response).flatten

/-- `https_response_t`.  The buffer may be `NULL`. -/
structure HttpsResponse where
  buffer : Option Memory
  len : Nat

/-- `https_parser_callback`.  The text goes on after the piece, and `snprintf` writes `length` bytes
of it. -/
def httpsParserCallback (text : List UInt8) (span : Span) : Option HttpsResponse :=
  (snprintf (malloc (span.length + 1)) (span.length + 1) (text.drop span.start)).map
    fun (buffer, _) => ⟨some buffer, span.length⟩

/-- The calls of the callback, one after the other, on `my_data`. -/
def runCallbacks (text : List UInt8) (myData : HttpsResponse) : List Span → Option HttpsResponse
  | [] => some myData
  | span :: calls =>
      (httpsParserCallback text span).bind fun myData => runCallbacks text myData calls

/-! ## Sending a message -/

/-- `https_ctx_t`, with the message that is sent.  The seed is seen by `mbedtls` only. -/
structure HttpsCtx where
  host : List UInt8
  port : Int
  api : List UInt8
  msg : List UInt8

/-- What `mbedtls` does with a connection before the response is read. -/
structure Connection where
  results : OpenResults
  handshake : Handshake
  writes : List Int

/-- The text of the request. -/
def HttpsCtx.request (ctx : HttpsCtx) : Option (List UInt8) :=
  (setPostRequest ctx.api ctx.host (ctx.port % 2 ^ 32).toNat ctx.msg).bind readText

/-- `send_https_msg` up to `http_send_request`. -/
def sendRequest (https : Bool) (ctx : HttpsCtx) (conn : Connection) (fuel : Nat) :
    Option (Except Status Unit) :=
  ctx.request.bind fun req =>
    (httpOpen https conn.results conn.handshake fuel).bind fun opened =>
      match opened with
      | .error e => some (.error e)
      | .ok () => (httpSendRequest req conn.writes).map Prod.fst

/-- `send_https_msg` from `http_read_response` on: the status, and what `s_res` is set to. -/
def receiveResponse (P : HttpParser) (https : Bool) (read : Read) :
    Option (Except Status Unit × Option HttpsResponse) :=
  (httpReadResponse https read (zeroed resSize)).bind fun (status, res) =>
    match status with
    | .error e => some (.error e, none)
    | .ok () =>
        (readText res).bind fun text =>
          (runCallbacks text ⟨none, 0⟩ (P.execute text).calls).map fun myData =>
            (if (P.execute text).statusCode ≠ 200 then .error .utilsHttpsResponseError else .ok (),
              some myData)

/-- `send_https_msg`. -/
def sendHttpsMsg (P : HttpParser) (https : Bool) (ctx : HttpsCtx) (conn : Connection) (read : Read)
    (fuel : Nat) : Option (Except Status Unit × Option HttpsResponse) :=
  (sendRequest https ctx conn fuel).bind fun status =>
    match status with
    | .error e => some (.error e, none)
    | .ok () => receiveResponse P https read

/-! ## The callback -/

/-- What a response says of the last piece of a body: a buffer with the piece and a NUL, and its
length. -/
def Keeps (myData : HttpsResponse) : Option (List UInt8) → Prop
  | none => myData = ⟨none, 0⟩
  | some piece => ∃ m, myData = ⟨some m, piece.length⟩ ∧ Holds m (piece ++ [0])

section Callback

variable {text piece : List UInt8} {span : Span} {calls : List Span} {myData : HttpsResponse}
variable {last : Option (List UInt8)}

theorem Span.length_piece (h : span.start + span.length ≤ text.length) :
    (span.piece text).length = span.length := by
  rw [Span.piece, List.length_take, List.length_drop]
  omega

/-- One call leaves its piece, whatever there was before. -/
theorem keeps_callback (htext : text.length < 2 ^ 31)
    (h : span.start + span.length ≤ text.length) :
    ∃ myData, httpsParserCallback text span = some myData ∧
      Keeps myData (some (span.piece text)) := by
  have houtput : (text.drop span.start).length < 2 ^ 31 := by
    rw [List.length_drop]
    omega
  obtain ⟨m, hprintf, -, hholds⟩ :=
    holds_snprintf (Nat.succ_pos span.length) (length_malloc (span.length + 1)).ge houtput
  refine ⟨⟨some m, span.length⟩, ?_, m, ?_, hholds⟩
  · rw [httpsParserCallback, hprintf, Option.map_some]
  · rw [Span.length_piece h]

/-- All calls leave the piece of the last one. -/
theorem keeps_runCallbacks (htext : text.length < 2 ^ 31)
    (hcalls : ∀ span ∈ calls, span.start + span.length ≤ text.length)
    (hdata : Keeps myData last) :
    ∃ result, runCallbacks text myData calls = some result ∧
      Keeps result ((calls.map fun span => span.piece text).getLast?.or last) := by
  induction calls generalizing myData last with
  | nil => exact ⟨myData, rfl, hdata⟩
  | cons span calls ih =>
      obtain ⟨next, hcallback, hnext⟩ := keeps_callback htext (hcalls span List.mem_cons_self)
      obtain ⟨result, hrun, hresult⟩ :=
        ih (fun s hs => hcalls s (List.mem_cons_of_mem span hs)) hnext
      refine ⟨result, ?_, ?_⟩
      · rw [runCallbacks, hcallback, Option.bind_some, hrun]
      · rw [List.map_cons, List.getLast?_cons]
        cases hlast : (calls.map fun span => span.piece text).getLast? with
        | none => rwa [hlast] at hresult
        | some piece => rwa [hlast] at hresult

/-- A response says of one piece only that it is the last one. -/
theorem keeps_some_iff (h : Keeps myData last) : Keeps myData (some piece) ↔ last = some piece := by
  constructor
  · rintro ⟨m, rfl, hholds⟩
    cases last with
    | none => cases h
    | some other =>
        obtain ⟨m', heq, hother⟩ := h
        injection heq with hbuffer hlength
        cases hbuffer
        have hlengths : (other ++ [0]).length = (piece ++ [0]).length := by
          rw [List.length_append, List.length_append, hlength]
        have heq := (hother.isPrefix hholds hlengths.le).eq_of_length hlengths
        rw [List.append_cancel_right heq]
  · rintro rfl
    exact h

end Callback

/-! ## Sending -/

/-- The connection is made, and it accepts the request to its end. -/
structure Sent (https : Bool) (ctx : HttpsCtx) (conn : Connection) : Prop where
  connects : conn.results.Connects https
  handshake : https → conn.handshake.first = 0
  written : ∃ req, ctx.request = some req ∧ Completes req.length conn.writes

section Sending

variable {P : HttpParser} {https : Bool} {ctx : HttpsCtx} {conn : Connection} {read : Read}
variable {fuel : Nat} {res : Option HttpsResponse}

/-- The request is sent when it can be, with one look at the result of the handshake. -/
theorem sendRequest_ok (h : Sent https ctx conn) :
    sendRequest https ctx conn 1 = some (.ok ()) := by
  obtain ⟨req, hreq, hcompletes⟩ := h.written
  obtain ⟨pieces, hsend⟩ := httpSendRequest_ok_iff.mpr hcompletes
  have hopen := httpOpen_ok h.connects h.handshake 0
  rw [sendRequest, hreq, Option.bind_some, hopen, Option.bind_some]
  exact congrArg (Option.map Prod.fst) hsend

/-- A request that is reported as sent could be sent. -/
theorem sent_of_sendRequest (h : sendRequest https ctx conn fuel = some (.ok ())) :
    Sent https ctx conn := by
  obtain ⟨req, hreq, hrest⟩ := Option.bind_eq_some_iff.mp h
  obtain ⟨opened, hopen, hsend⟩ := Option.bind_eq_some_iff.mp hrest
  cases opened with
  | error e => cases hsend
  | ok u =>
      obtain ⟨⟨status, pieces⟩, hsent, hstatus⟩ := Option.map_eq_some_iff.mp hsend
      cases hstatus
      obtain ⟨hconnects, hfirst⟩ := connects_of_httpOpen hopen
      exact ⟨hconnects, hfirst, req, hreq, httpSendRequest_ok_iff.mp ⟨pieces, hsent⟩⟩

/-- A message that is reported as sent was sent, and the response is that of the connection. -/
theorem sendHttpsMsg_ok (h : sendHttpsMsg P https ctx conn read fuel = some (.ok (), res)) :
    Sent https ctx conn ∧ receiveResponse P https read = some (.ok (), res) := by
  obtain ⟨status, hsend, hreceive⟩ := Option.bind_eq_some_iff.mp h
  cases status with
  | error e => cases hreceive
  | ok u => exact ⟨sent_of_sendRequest hsend, hreceive⟩

theorem sendHttpsMsg_of_sent (h : Sent https ctx conn) :
    sendHttpsMsg P https ctx conn read 1 = receiveResponse P https read := by
  rw [sendHttpsMsg, sendRequest_ok h, Option.bind_some]

theorem sendHttpsMsg_one {result : Except Status Unit × Option HttpsResponse}
    (h : sendHttpsMsg P https ctx conn read fuel = some result) :
    sendHttpsMsg P https ctx conn read 1 = some result := by
  obtain ⟨status, hsend, hreceive⟩ := Option.bind_eq_some_iff.mp h
  obtain ⟨req, hreq, hrest⟩ := Option.bind_eq_some_iff.mp hsend
  obtain ⟨opened, hopen, hwrite⟩ := Option.bind_eq_some_iff.mp hrest
  have hone : sendRequest https ctx conn 1 = some status := by
    rw [sendRequest, hreq, Option.bind_some, httpOpen_one hopen, Option.bind_some]
    exact hwrite
  rw [sendHttpsMsg, hone, Option.bind_some]
  exact hreceive

end Sending

/-! ## Receiving -/

/-- How a response arrives: the bytes of the successive reads. -/
structure Arrival where
  reads : List (List UInt8)
  reads_ne : ∀ data ∈ reads, data ≠ []
  length_le : reads.flatten.length ≤ 4095
  nul : 0 ∉ reads.flatten

/-- The response. -/
def Arrival.response (arrival : Arrival) : List UInt8 := arrival.reads.flatten

/-- The bytes of the first read.  There are none when the connection is closed before. -/
def Arrival.first (arrival : Arrival) : List UInt8 := arrival.reads.headD []

theorem Arrival.first_isPrefix (arrival : Arrival) : arrival.first <+: arrival.response := by
  rw [Arrival.first, Arrival.response]
  cases arrival.reads with
  | nil => exact List.nil_prefix
  | cons data reads => exact List.prefix_append _ _

theorem Arrival.length_first (arrival : Arrival) : arrival.first.length < resSize :=
  Nat.lt_succ_of_le (arrival.first_isPrefix.length_le.trans arrival.length_le)

/-- The first read. -/
def Arrival.read (arrival : Arrival) : Read where
  retLen := arrival.first.length
  data := arrival.first
  length_data := (Int.toNat_natCast _).symm
  length_le := arrival.length_first.le

section Receiving

variable {P : HttpParser} {https : Bool} {arrival : Arrival} {read : Read}

/-- A read never fails.  It fills the buffer as far as it goes, or has no defined result. -/
theorem httpReadResponse_cases (https : Bool) (hlength : read.data.length < resSize) :
    (httpReadResponse https read (zeroed resSize) = none ∧ read.retLen ≤ 0) ∨
      ∃ res, httpReadResponse https read (zeroed resSize) = some (.ok (), res) ∧
        Holds res (read.data ++ [0]) := by
  obtain ⟨res, hstore, hholds⟩ := holds_store_zeroed hlength
  rw [httpReadResponse, hstore, Option.bind_some]
  split_ifs with hreset
  · exact .inr ⟨res, rfl, hholds⟩
  · refine .inl ⟨rfl, ?_⟩
    have hcodes :
        ∀ code ∈ [0, wantRead, wantWrite, asyncInProgress, cryptoInProgress], code ≤ 0 := by
      decide
    exact hcodes _ hreset
  · exact .inr ⟨res, rfl, hholds⟩

/-- A text that was read is parsed, and the last piece of the body in it is what is left. -/
theorem receiveResponse_of_read {res : Memory}
    (hread : httpReadResponse https read (zeroed resSize) = some (.ok (), res))
    (hholds : Holds res (read.data ++ [0])) (hnul : 0 ∉ read.data) :
    ∃ myData, Keeps myData (P.pieces read.data).getLast? ∧
      receiveResponse P https read =
        some (if (P.execute read.data).statusCode ≠ 200 then .error .utilsHttpsResponseError
          else .ok (), some myData) := by
  have hdata : read.data.length < 2 ^ 31 := by
    have hle := read.length_le
    rw [resSize] at hle
    omega
  have hinit : Keeps ⟨none, 0⟩ none := rfl
  obtain ⟨myData, hrun, hkeeps⟩ := keeps_runCallbacks hdata (P.inside read.data) hinit
  rw [Option.or_none] at hkeeps
  refine ⟨myData, hkeeps, ?_⟩
  rw [receiveResponse, hread, Option.bind_some]
  simp only [readText_of_holds hholds hnul, Option.bind_some, hrun, Option.map_some]

/-- With nothing read there is no status. -/
theorem receiveResponse_ne_ok (hdata : read.data = []) (res : Option HttpsResponse) :
    receiveResponse P https read ≠ some (.ok (), res) := by
  intro h
  have hlength : read.data.length < resSize := by rw [hdata]; decide
  obtain ⟨hnone, -⟩ | ⟨buffer, hread, hholds⟩ := httpReadResponse_cases https hlength
  · rw [receiveResponse, hnone] at h
    cases h
  · obtain ⟨myData, -, hreceive⟩ :=
      receiveResponse_of_read (P := P) hread hholds (by rw [hdata]; exact List.not_mem_nil)
    rw [hreceive, hdata, P.execute_nil, if_pos (by decide)] at h
    cases h

/-- What is received of a response: the last piece of the body in the first read. -/
theorem receiveResponse_arrival (P : HttpParser) (https : Bool) (hfirst : arrival.first ≠ []) :
    ∃ myData, Keeps myData (P.pieces arrival.first).getLast? ∧
      receiveResponse P https arrival.read =
        some (if (P.execute arrival.first).statusCode ≠ 200 then .error .utilsHttpsResponseError
          else .ok (), some myData) := by
  have hnul : 0 ∉ arrival.first := fun h => arrival.nul (arrival.first_isPrefix.subset h)
  have hpos : 0 < arrival.first.length := List.length_pos_iff.mpr hfirst
  have hlength : arrival.read.data.length < resSize := arrival.length_first
  obtain ⟨-, hneg⟩ | ⟨res, hread, hholds⟩ := httpReadResponse_cases https hlength
  · have hret : arrival.read.retLen = arrival.first.length := rfl
    omega
  · exact receiveResponse_of_read hread hholds hnul

end Receiving

/-! ## The response as a whole -/

/-- A message that is reported as sent comes with the body of the response. -/
def Assembles (P : HttpParser) (https : Bool) (ctx : HttpsCtx) (conn : Connection)
    (arrival : Arrival) : Prop :=
  ∀ fuel res, sendHttpsMsg P https ctx conn arrival.read fuel = some (.ok (), res) →
    ∃ myData, res = some myData ∧ Keeps myData (some (P.body arrival.response))

/-- When the request is sent and the first read has the status `200`, the last piece of the body in
it is the body. -/
def AssemblesWhen (P : HttpParser) (https : Bool) (ctx : HttpsCtx) (conn : Connection)
    (arrival : Arrival) : Prop :=
  Sent https ctx conn → (P.execute arrival.first).statusCode = 200 →
    (P.pieces arrival.first).getLast? = some (P.body arrival.response)

/-- `http_read_response` reports a read that fails, or finds the connection closed. -/
def ReportsFailure (https : Bool) (read : Read) : Prop :=
  read.retLen ≤ 0 → ∃ e res, httpReadResponse https read (zeroed resSize) = some (.error e, res)

section Whole

variable (P : HttpParser) (https : Bool) (ctx : HttpsCtx) (conn : Connection) (arrival : Arrival)
variable (read : Read)

theorem data_eq_nil {read : Read} (h : read.retLen ≤ 0) : read.data = [] := by
  have hlength := read.length_data
  exact List.length_eq_zero_iff.mp (by omega)

/-- Without a byte that was read, no message is reported as sent. -/
theorem sendHttpsMsg_ne_ok {read : Read} (h : read.retLen ≤ 0) (fuel : Nat)
    (res : Option HttpsResponse) :
    sendHttpsMsg P https ctx conn read fuel ≠ some (.ok (), res) :=
  fun hsend => receiveResponse_ne_ok (data_eq_nil h) res (sendHttpsMsg_ok hsend).2

theorem assembles_iff :
    Assembles P https ctx conn arrival ↔ AssemblesWhen P https ctx conn arrival := by
  by_cases hfirst : arrival.first = []
  · have hleft : Assembles P https ctx conn arrival := fun fuel res hsend =>
      absurd (sendHttpsMsg_ok hsend).2 (receiveResponse_ne_ok hfirst res)
    have hright : AssemblesWhen P https ctx conn arrival := by
      intro _ hstatus
      rw [hfirst, P.execute_nil] at hstatus
      cases hstatus
    exact iff_of_true hleft hright
  obtain ⟨myData, hkeeps, hreceive⟩ := receiveResponse_arrival P https hfirst
  constructor
  · intro h hsent hstatus
    rw [if_neg (not_not.mpr hstatus)] at hreceive
    obtain ⟨_, heq, hbody⟩ := h 1 (some myData) ((sendHttpsMsg_of_sent hsent).trans hreceive)
    cases heq
    exact (keeps_some_iff hkeeps).mp hbody
  · intro h fuel res hsend
    obtain ⟨hsent, hok⟩ := sendHttpsMsg_ok hsend
    rw [hreceive] at hok
    split_ifs at hok with hstatus
    · cases hok
    · cases hok
      exact ⟨myData, rfl, (keeps_some_iff hkeeps).mpr (h hsent (not_not.mp hstatus))⟩

/-- No read that fails is reported. -/
theorem reportsFailure_iff : ReportsFailure https read ↔ 0 < read.retLen := by
  constructor
  · intro h
    by_contra hneg
    have hret : read.retLen ≤ 0 := Int.not_lt.mp hneg
    obtain ⟨e, res, herror⟩ := h hret
    have hlength : read.data.length < resSize := by rw [data_eq_nil hret]; decide
    obtain ⟨hnone, -⟩ | ⟨res', hok, -⟩ := httpReadResponse_cases https hlength
    · rw [hnone] at herror
      cases herror
    · rw [hok] at herror
      cases herror
  · intro hpos hneg
    omega

/-- The response is whole exactly when the last piece of the body in the first read is the body, and
a failure to read is reported exactly when there is none. -/
theorem sendHttpsMsg_assembles_iff :
    Assembles P https ctx conn arrival ∧ ReportsFailure https read ↔
      AssemblesWhen P https ctx conn arrival ∧ 0 < read.retLen :=
  and_congr (assembles_iff P https ctx conn arrival) (reportsFailure_iff https read)

end Whole

/-! ## A connection where nothing fails -/

/-- A connection that accepts a request in one call. -/
def readyConnection (ctx : HttpsCtx) : Connection where
  results := allSucceed
  handshake := oneCall
  writes :=
    [((printf (postReqFormat ctx.api ctx.host (ctx.port % 2 ^ 32).toNat ctx.msg)).length : Int)]

theorem sent_readyConnection (https : Bool) {ctx : HttpsCtx}
    (hport : (ctx.port % 2 ^ 32).toNat ≤ 65535) (hapi : 0 ∉ ctx.api) (hhost : 0 ∉ ctx.host)
    (hmsg : 0 ∉ ctx.msg) (hlength : ctx.api.length + ctx.host.length + ctx.msg.length < 2 ^ 30) :
    Sent https ctx (readyConnection ctx) := by
  obtain ⟨m, hpost, hread⟩ :=
    readText_setPostRequest hport hapi hhost hmsg (length_printf_lt hport hlength)
  refine ⟨allSucceed_connects https, fun _ => rfl, _, ?_, completes_whole _⟩
  exact (congrArg (Option.bind · readText) hpost).trans hread

/-! ## A body in two chunks -/

/-- A response with the body `ab` in two chunks. -/
def chunkedResponse : List UInt8 :=
  ascii ("HTTP/1.1 200 OK\r\nTransfer-Encoding: chunked\r\n\r\n" ++
    "1\r\na\r\n1\r\nb\r\n0\r\n\r\n")

/-- What `http_parser` finds in it.  Other texts do not matter here. -/
def chunkedParser : HttpParser where
  execute text := if text = chunkedResponse then ⟨200, [⟨50, 1⟩, ⟨56, 1⟩]⟩ else ⟨0, []⟩
  inside text := by
    by_cases h : text = chunkedResponse
    · rw [if_pos h, h]
      decide
    · rw [if_neg h]
      simp
  execute_nil := by decide

/-- It arrives in one read. -/
def chunkedArrival : Arrival := ⟨[chunkedResponse], by decide, by decide, by decide⟩

/-- A message for the API of MAM. -/
def emptyMessage : HttpsCtx :=
  ⟨ascii "localhost", 8000, ascii "mam/send/", ascii "\x7b\x7d"⟩

theorem sent_emptyMessage : Sent true emptyMessage (readyConnection emptyMessage) :=
  sent_readyConnection true (by decide) (by decide) (by decide) (by decide) (by decide)

/-- A closed connection. -/
def closedRead : Read := ⟨0, [], rfl, by decide⟩

/-- The first chunk is lost, and a connection that is closed before any byte is no error. -/
theorem sendHttpsMsg_not_assembles :
    chunkedParser.body chunkedArrival.response = ascii "ab" ∧
      (∃ myData,
        sendHttpsMsg chunkedParser true emptyMessage (readyConnection emptyMessage)
            chunkedArrival.read 1 =
          some (.ok (), some myData) ∧ Keeps myData (some (ascii "b"))) ∧
      ¬ Assembles chunkedParser true emptyMessage (readyConnection emptyMessage) chunkedArrival ∧
      (∃ res, httpReadResponse true closedRead (zeroed resSize) = some (.ok (), res)) ∧
      ¬ ReportsFailure true closedRead := by
  obtain ⟨myData, hkeeps, hreceive⟩ :=
    receiveResponse_arrival chunkedParser true (by decide : chunkedArrival.first ≠ [])
  have hlast : (chunkedParser.pieces chunkedArrival.first).getLast? = some (ascii "b") := by decide
  rw [hlast] at hkeeps
  have hbody : chunkedParser.body chunkedArrival.response = ascii "ab" := by decide
  have hsend := (sendHttpsMsg_of_sent sent_emptyMessage).trans hreceive
  refine ⟨hbody, ⟨myData, hsend, hkeeps⟩, ?_, ?_, ?_⟩
  · intro h
    have hwhen := (assembles_iff _ _ _ _ _).mp h sent_emptyMessage (by decide)
    rw [hlast, hbody] at hwhen
    revert hwhen
    decide
  · obtain ⟨res, hstore, -⟩ := holds_store_zeroed (by decide : closedRead.data.length < resSize)
    refine ⟨res, ?_⟩
    rw [httpReadResponse, hstore, Option.bind_some, if_pos (by decide), if_pos rfl]
  · intro h
    exact absurd ((reportsFailure_iff _ _).mp h) (by decide)

end TangleAccelerator.Endpoint
