import TangleAccelerator.Bytes.Printf

/-!
# The requests of the endpoint

`conn_http.c`: `set_post_request` and `set_get_request`, and the server at the other end of a
connection that is kept alive.

The buffer is large enough: the conversions in the format are counted as well, and they make up for
a `Content-Length` of more digits than are reserved for it.

The format of a request goes on after the body.  A server that reads as many bytes as
`Content-Length` says takes the rest for the start of the next request.

`malloc` succeeds.
-/

namespace TangleAccelerator.Endpoint

open Bytes

/-- The end of a line. -/
def crlf : List UInt8 := [13, 10]

/-! ## The functions -/

/-- `MAX_PORT_LEN`. -/
def maxPortLen : Nat := 5

/-- `MAX_CONTENT_LENGTH_LEN`. -/
def maxContentLengthLen : Nat := 5

/-- `post_req_format`, with its arguments. -/
def postReqFormat (path host : List UInt8) (port : Nat) (body : List UInt8) : List Piece :=
  [.text "POST /", .str path, .text " HTTP/1.1\r\nHost: ", .str host, .text ":",
    .int (toInt port),
    .text "\r\nConnection: Keep-Alive\r\nContent-Type: application/json\r\nContent-Length: ",
    .int (toInt body.length), .text "\r\n\r\n", .str body, .text "\r\n\r\n"]

/-- `get_req_format`, with its arguments. -/
def getReqFormat (path host : List UInt8) (port : Nat) : List Piece :=
  [.text "GET /", .str path, .text " HTTP/1.1\r\nHost: ", .str host, .text ":",
    .int (toInt port), .text "\r\n\r\n\r\n"]

/-- A buffer of a size, and `snprintf` to it.  What it returns is not looked at. -/
def formatted (outLen : Nat) (pieces : List Piece) : Option Memory :=
  (snprintf (malloc outLen) outLen (printf pieces)).map Prod.fst

/-- `set_post_request`: the buffer. -/
def setPostRequest (path host : List UInt8) (port : Nat) (body : List UInt8) : Option Memory :=
  let format := postReqFormat path host port body
  formatted ((spelling format).length + path.length + host.length + maxPortLen +
    maxContentLengthLen + body.length) format

/-- `set_get_request`: the buffer. -/
def setGetRequest (path host : List UInt8) (port : Nat) : Option Memory :=
  let format := getReqFormat path host port
  formatted ((spelling format).length + path.length + host.length + maxPortLen) format

/-! ## The server -/

/-- Lines, each with its end. -/
def joinLines (lines : List (List UInt8)) : List UInt8 := lines.flatMap (· ++ crlf)

/-- The lines of a header, from an unfinished line on, and what follows the empty line that ends
it. -/
def readHead (line : List UInt8) : List UInt8 → Option (List (List UInt8) × List UInt8)
  | [] => none
  | c :: rest =>
      if c = 10 ∧ line.getLast? = some 13 then
        if line.dropLast = [] then some ([], rest)
        else (readHead [] rest).map fun (lines, rest) => (line.dropLast :: lines, rest)
      else readHead (line ++ [c]) rest

/-- The name of the field, and what is before its value. -/
def contentLengthField : List UInt8 := ascii "Content-Length: "

/-- The value of a line with a `Content-Length`. -/
def lengthOfLine (line : List UInt8) : Option Nat :=
  if contentLengthField.isPrefixOf line then
    some (digitsValue (line.drop contentLengthField.length))
  else none

/-- The length of the body of a request, which has none when the header does not say. -/
def contentLength (lines : List (List UInt8)) : Nat := (lines.findSome? lengthOfLine).getD 0

/-- One request of a connection: its body, and what the next one is read from. -/
def serve (stream : List UInt8) : Option (List UInt8 × List UInt8) :=
  (readHead [] stream).bind fun (lines, rest) =>
    if contentLength lines ≤ rest.length then
      some (rest.take (contentLength lines), rest.drop (contentLength lines))
    else none

/-- A buffer holds a request as a whole, and a server finds its body and, where it ends, the next
request. -/
def Framed (buffer : Option Memory) (request body : List UInt8) : Prop :=
  (∃ m, buffer = some m ∧ readText m = some request) ∧
    ∀ next, serve (request ++ next) = some (body, next)

/-! ## Reading a header -/

section Head

variable {line before after rest : List UInt8} {lines : List (List UInt8)}

theorem joinLines_cons (line : List UInt8) (lines : List (List UInt8)) :
    joinLines (line :: lines) = line ++ crlf ++ joinLines lines := List.flatMap_cons

theorem readHead_crlf (rest : List UInt8) : readHead [] (crlf ++ rest) = some ([], rest) := rfl

/-- The end of a line that is not empty. -/
theorem readHead_end (hline : line ≠ []) (rest : List UInt8) :
    readHead line (crlf ++ rest) = (readHead [] rest).map fun r => (line :: r.1, r.2) := by
  have hlast : (line ++ [13]).getLast? = some 13 := List.getLast?_concat
  have hcr : ¬ ((13 : UInt8) = 10 ∧ line.getLast? = some 13) := fun h => absurd h.1 (by decide)
  rw [crlf, List.cons_append, List.cons_append, List.nil_append, readHead, if_neg hcr, readHead,
    if_pos ⟨rfl, hlast⟩, List.dropLast_concat, if_neg hline]

/-- A line without a carriage return is read up to its end. -/
theorem readHead_line {more : List UInt8} (hne : line ++ more ≠ []) (hline : 13 ∉ line)
    (hmore : 13 ∉ more) (rest : List UInt8) :
    readHead line (more ++ (crlf ++ rest)) =
      (readHead [] rest).map fun r => ((line ++ more) :: r.1, r.2) := by
  induction more generalizing line with
  | nil =>
      rw [List.append_nil] at hne ⊢
      exact readHead_end hne rest
  | cons c more ih =>
      have hlast : line.getLast? ≠ some 13 := fun h => hline (List.mem_of_getLast? h)
      have hc : 13 ∉ line ++ [c] := by
        rw [List.mem_append, List.mem_singleton]
        rintro (h | h)
        · exact hline h
        · exact hmore (h ▸ List.mem_cons_self)
      rw [List.cons_append, readHead, if_neg (fun h => hlast h.2),
        ih (by simp) hc (fun h => hmore (List.mem_cons_of_mem c h)), List.append_assoc,
        List.singleton_append]

/-- The header ends at the first empty line or before. -/
theorem exists_append_of_readHead
    (h : readHead line (before ++ (crlf ++ (crlf ++ after))) = some (lines, rest)) :
    ∃ extra, rest = extra ++ after := by
  induction before generalizing line lines with
  | nil =>
      rw [List.nil_append] at h
      by_cases hline : line = []
      · rw [hline, readHead_crlf] at h
        cases h
        exact ⟨crlf, rfl⟩
      · rw [readHead_end hline, readHead_crlf] at h
        cases h
        exact ⟨[], rfl⟩
  | cons c before ih =>
      rw [List.cons_append, readHead] at h
      split_ifs at h with hend hempty
      · cases h
        exact ⟨before ++ (crlf ++ crlf), by simp only [List.append_assoc]⟩
      · obtain ⟨⟨ls, r⟩, hread, heq⟩ := Option.map_eq_some_iff.mp h
        cases heq
        exact ih hread
      · exact ih h

/-- Lines that are not empty are read up to the empty line. -/
theorem readHead_joinLines (hlines : ∀ line ∈ lines, line ≠ [] ∧ 13 ∉ line)
    (rest : List UInt8) : readHead [] (joinLines lines ++ (crlf ++ rest)) = some (lines, rest) := by
  induction lines with
  | nil => rfl
  | cons line lines ih =>
      obtain ⟨hne, hcr⟩ := hlines line List.mem_cons_self
      rw [joinLines_cons, List.append_assoc, List.append_assoc,
        @readHead_line [] line hne List.not_mem_nil hcr,
        ih fun l hl => hlines l (List.mem_cons_of_mem line hl)]
      rfl

theorem exists_joinLines (hlines : lines ≠ []) : ∃ before, joinLines lines = before ++ crlf := by
  refine ⟨joinLines lines.dropLast ++ lines.getLast hlines, ?_⟩
  rw [List.append_assoc, ← List.append_nil (lines.getLast hlines ++ crlf)]
  conv_lhs => rw [← List.dropLast_concat_getLast hlines]
  exact List.flatMap_append

end Head

/-! ## Serving a request -/

section Serve

variable {lines : List (List UInt8)} {body trailer : List UInt8}

/-- What follows the body is left for the next request. -/
theorem serve_joinLines (hlines : ∀ line ∈ lines, line ≠ [] ∧ 13 ∉ line)
    (hlength : contentLength lines = body.length) (next : List UInt8) :
    serve (joinLines lines ++ (crlf ++ (body ++ next))) = some (body, next) := by
  have hle : body.length ≤ (body ++ next).length := by
    rw [List.length_append]
    exact Nat.le_add_right _ _
  rw [serve, readHead_joinLines hlines, Option.bind_some]
  simp only [hlength]
  rw [if_pos hle, List.take_left, List.drop_left]

/-- A request that goes on after its body is not read up to its end, whatever its lines are. -/
theorem serve_ne_of_trailer (hlines : lines ≠ []) (htrailer : trailer ≠ []) (next : List UInt8) :
    serve (joinLines lines ++ (crlf ++ (body ++ trailer)) ++ next) ≠ some (body, next) := by
  intro h
  obtain ⟨before, hbefore⟩ := exists_joinLines hlines
  obtain ⟨⟨lines', rest⟩, hread, hserve⟩ := Option.bind_eq_some_iff.mp h
  rw [hbefore] at hread
  simp only [List.append_assoc] at hread
  obtain ⟨extra, hrest⟩ := exists_append_of_readHead hread
  have hlength := congrArg List.length hrest
  simp only [List.length_append] at hlength
  have hpos := List.length_pos_iff.mpr htrailer
  -- The body and the next request are all that was left after the header.
  simp only at hserve
  split at hserve
  · cases hserve
    simp only [List.length_take, List.length_drop] at hlength
    omega
  · cases hserve

theorem not_framed_of_trailer (buffer : Option Memory) (hlines : lines ≠ [])
    (htrailer : trailer ≠ []) :
    ¬ Framed buffer (joinLines lines ++ (crlf ++ (body ++ trailer))) body := by
  rintro ⟨-, hserve⟩
  exact serve_ne_of_trailer hlines htrailer [] (hserve [])

end Serve

/-! ## The requests -/

/-- The lines of the header of a request with a body. -/
def postLines (path host : List UInt8) (port contentLength : Int) : List (List UInt8) :=
  [ascii "POST /" ++ path ++ ascii " HTTP/1.1", ascii "Host: " ++ host ++ ascii ":" ++ intText port,
    ascii "Connection: Keep-Alive", ascii "Content-Type: application/json",
    contentLengthField ++ intText contentLength]

/-- The lines of the header of a request without a body. -/
def getLines (path host : List UInt8) (port : Int) : List (List UInt8) :=
  [ascii "GET /" ++ path ++ ascii " HTTP/1.1", ascii "Host: " ++ host ++ ascii ":" ++ intText port]

section Requests

variable (path host body : List UInt8) (port : Nat)

/-- The body is followed by two ends of lines. -/
theorem printf_postReqFormat :
    printf (postReqFormat path host port body) =
      joinLines (postLines path host (toInt port) (toInt body.length)) ++
        (crlf ++ (body ++ (crlf ++ crlf))) := by
  have hhost : ascii " HTTP/1.1\r\nHost: " = ascii " HTTP/1.1" ++ crlf ++ ascii "Host: " := rfl
  have hfields :
      ascii "\r\nConnection: Keep-Alive\r\nContent-Type: application/json\r\nContent-Length: " =
        crlf ++ ascii "Connection: Keep-Alive" ++ crlf ++ ascii "Content-Type: application/json" ++
          crlf ++ contentLengthField := rfl
  have hend : ascii "\r\n\r\n" = crlf ++ crlf := rfl
  simp only [printf, postReqFormat, joinLines, postLines, List.flatMap_cons, List.flatMap_nil,
    Piece.output, hhost, hfields, hend, List.append_assoc, List.append_nil]

/-- The header is followed by one more end of a line than a request has. -/
theorem printf_getReqFormat :
    printf (getReqFormat path host port) =
      joinLines (getLines path host (toInt port)) ++ (crlf ++ ([] ++ crlf)) := by
  have hhost : ascii " HTTP/1.1\r\nHost: " = ascii " HTTP/1.1" ++ crlf ++ ascii "Host: " := rfl
  have hend : ascii "\r\n\r\n\r\n" = crlf ++ crlf ++ crlf := rfl
  simp only [printf, getReqFormat, joinLines, getLines, List.flatMap_cons, List.flatMap_nil,
    Piece.output, hhost, hend, List.append_assoc, List.append_nil, List.nil_append]

variable {path host body port}

theorem contentLength_postLines (port : Int) (n : Nat) :
    contentLength (postLines path host port n) = n := by
  have hlast : lengthOfLine (contentLengthField ++ intText n) = some n := by
    rw [lengthOfLine, if_pos (List.isPrefixOf_iff_prefix.mpr (List.prefix_append _ _)),
      List.drop_left, intText_natCast, digitsValue_decimal]
  rw [contentLength, postLines]
  have hpost : lengthOfLine (ascii "POST /" ++ path ++ ascii " HTTP/1.1") = none := rfl
  have hhost : lengthOfLine (ascii "Host: " ++ host ++ ascii ":" ++ intText port) = none := rfl
  have hconnection : lengthOfLine (ascii "Connection: Keep-Alive") = none := rfl
  have htype : lengthOfLine (ascii "Content-Type: application/json") = none := rfl
  simp only [List.findSome?_cons, hpost, hhost, hconnection, htype, hlast, Option.getD_some]

theorem not_mem_intText {c : UInt8} (hc : isDigit c = false) (hsign : c ≠ 45) (n : Int) :
    c ∉ intText n := by
  have hdecimal : c ∉ decimal n.natAbs := by
    intro hmem
    rw [isDigit_of_mem_decimal hmem] at hc
    cases hc
  rw [intText]
  split
  · simp [hsign, hdecimal]
  · exact hdecimal

/-- No line of the header is empty, or has a carriage return that the path and the host do not
have. -/
theorem postLines_lines (hpath : 13 ∉ path) (hhost : 13 ∉ host) (port n : Int) :
    ∀ line ∈ postLines path host port n, line ≠ [] ∧ 13 ∉ line := by
  have hint : ∀ n, 13 ∉ intText n := not_mem_intText rfl (by decide)
  have hpost : 13 ∉ ascii "POST /" ∧ 13 ∉ ascii " HTTP/1.1" := by decide
  have hname : 13 ∉ ascii "Host: " ∧ 13 ∉ ascii ":" := by decide
  have hfield : 13 ∉ contentLengthField := by decide
  intro line hline
  simp only [postLines, List.mem_cons, List.not_mem_nil, or_false] at hline
  rcases hline with rfl | rfl | rfl | rfl | rfl
  · exact ⟨List.cons_ne_nil _ _, by simp [hpost, hpath]⟩
  · exact ⟨List.cons_ne_nil _ _, by simp [hname, hhost, hint]⟩
  · exact ⟨List.cons_ne_nil _ _, by decide⟩
  · exact ⟨List.cons_ne_nil _ _, by decide⟩
  · exact ⟨List.cons_ne_nil _ _, by simp [hfield, hint]⟩

/-- A server takes the end of the request for the start of the next one. -/
theorem serve_post (hpath : 13 ∉ path) (hhost : 13 ∉ host) (hbody : body.length < 2 ^ 31)
    (next : List UInt8) :
    serve (printf (postReqFormat path host port body) ++ next) =
      some (body, crlf ++ crlf ++ next) := by
  have hlength : contentLength (postLines path host (toInt port) (toInt body.length)) =
      body.length := by
    rw [toInt_of_lt hbody, contentLength_postLines]
  rw [printf_postReqFormat]
  have h := serve_joinLines (postLines_lines hpath hhost (toInt port) (toInt body.length)) hlength
    (crlf ++ crlf ++ next)
  simpa only [List.append_assoc] using h

/-- A buffer that is larger than the output holds it as a text. -/
theorem readText_formatted {outLen : Nat} {pieces : List Piece}
    (hfits : (printf pieces).length < outLen) (hint : (printf pieces).length < 2 ^ 31)
    (hnul : 0 ∉ printf pieces) :
    ∃ m, formatted outLen pieces = some m ∧ readText m = some (printf pieces) := by
  obtain ⟨m, hprintf, -, hholds⟩ :=
    holds_snprintf (m := malloc outLen) (by omega) (length_malloc outLen).ge hint
  rw [List.take_of_length_le (by omega)] at hholds
  exact ⟨m, congrArg (Option.map Prod.fst) hprintf, readText_of_holds hholds hnul⟩

theorem length_printf_postReqFormat :
    (printf (postReqFormat path host port body)).length =
      106 + path.length + host.length + (intText (toInt port)).length +
        (intText (toInt body.length)).length + body.length := by
  have hpost : (ascii "POST /").length = 6 := rfl
  have hhost : (ascii " HTTP/1.1\r\nHost: ").length = 17 := rfl
  have hcolon : (ascii ":").length = 1 := rfl
  have hfields : (ascii
      "\r\nConnection: Keep-Alive\r\nContent-Type: application/json\r\nContent-Length: ").length =
      74 := rfl
  have hend : (ascii "\r\n\r\n").length = 4 := rfl
  simp only [printf, postReqFormat, List.flatMap_cons, List.flatMap_nil, Piece.output,
    List.length_append, List.length_nil]
  omega

/-- A port and the length of a body have as many digits as the format leaves room for. -/
theorem length_digits (hport : port ≤ 65535) (hbody : body.length < 2 ^ 31) :
    (intText (toInt port)).length + (intText (toInt body.length)).length ≤ 15 := by
  have hdigits := length_decimal_le (by decide : 0 < 10) (by omega : body.length < 10 ^ 10)
  have hportDigits := length_decimal_le (by decide : 0 < 5) (by omega : port < 10 ^ 5)
  rw [toInt_of_lt hbody, toInt_of_lt (by omega), intText_natCast, intText_natCast]
  omega

theorem length_printf_lt (hport : port ≤ 65535)
    (h : path.length + host.length + body.length < 2 ^ 30) :
    (printf (postReqFormat path host port body)).length < 2 ^ 31 := by
  have hdigits := length_digits hport (by omega : body.length < 2 ^ 31)
  rw [length_printf_postReqFormat]
  omega

/-- The size of the buffer is enough for a port, and for any length of a body. -/
theorem length_postReqFormat (hport : port ≤ 65535) (hbody : body.length < 2 ^ 31) :
    (printf (postReqFormat path host port body)).length <
      (spelling (postReqFormat path host port body)).length + path.length + host.length +
        maxPortLen + maxContentLengthLen + body.length := by
  have hspelling : (spelling (postReqFormat path host port body)).length = 116 := rfl
  have hdigits := length_digits hport hbody
  rw [length_printf_postReqFormat, hspelling, maxPortLen, maxContentLengthLen]
  omega

theorem nul_not_mem_postReqFormat (hpath : 0 ∉ path) (hhost : 0 ∉ host) (hbody : 0 ∉ body) :
    0 ∉ printf (postReqFormat path host port body) := by
  have hint : ∀ n, 0 ∉ intText n := not_mem_intText rfl (by decide)
  simp only [printf, postReqFormat, List.flatMap_cons, List.flatMap_nil, Piece.output,
    List.mem_append, hpath, hhost, hbody, hint, List.not_mem_nil, or_false, false_or]
  decide

/-- The request is not cut off, and a NUL ends it. -/
theorem readText_setPostRequest (hport : port ≤ 65535) (hpath : 0 ∉ path) (hhost : 0 ∉ host)
    (hbody : 0 ∉ body) (hlength : (printf (postReqFormat path host port body)).length < 2 ^ 31) :
    ∃ m, setPostRequest path host port body = some m ∧
      readText m = some (printf (postReqFormat path host port body)) := by
  have hlt : body.length < 2 ^ 31 := by
    rw [length_printf_postReqFormat] at hlength
    omega
  exact readText_formatted (length_postReqFormat hport hlt) hlength
    (nul_not_mem_postReqFormat hpath hhost hbody)

/-- No request with a body is framed: two ends of lines follow the body. -/
theorem setPostRequest_not_framed (path host : List UInt8) (port : Nat) (body : List UInt8) :
    ¬ Framed (setPostRequest path host port body) (printf (postReqFormat path host port body))
      body := by
  rw [printf_postReqFormat]
  exact not_framed_of_trailer _ (List.cons_ne_nil _ _) (List.cons_ne_nil _ _)

/-- A request for the API of transactions, with an empty object: the buffer holds it, and the server
reads the next request from four bytes before its start. -/
theorem setPostRequest_transaction_not_framed :
    let path := ascii "transaction"
    let host := ascii "localhost"
    let body := ascii "\x7b\x7d"
    let request := printf (postReqFormat path host 8000 body)
    (∃ m, setPostRequest path host 8000 body = some m ∧ readText m = some request) ∧
      (∀ next, serve (request ++ next) = some (body, [13, 10, 13, 10] ++ next)) ∧
      ¬ Framed (setPostRequest path host 8000 body) request body := by
  intro path host body request
  have hport : 8000 ≤ 65535 := by decide
  have hlength : request.length < 2 ^ 31 := length_printf_lt hport (by decide)
  have hserve : ∀ next, serve (request ++ next) = some (body, [13, 10, 13, 10] ++ next) :=
    serve_post (by decide) (by decide) (by decide)
  refine ⟨readText_setPostRequest hport (by decide) (by decide) (by decide) hlength, hserve, ?_⟩
  rintro ⟨-, hframed⟩
  have h := (hserve []).symm.trans (hframed [])
  revert h
  decide

/-- The same with a request without a body. -/
theorem not_framed_setGetRequest (path host : List UInt8) (port : Nat) :
    ¬ Framed (setGetRequest path host port) (printf (getReqFormat path host port)) [] := by
  rw [printf_getReqFormat]
  exact not_framed_of_trailer _ (List.cons_ne_nil _ _) (List.cons_ne_nil _ _)

end Requests

end TangleAccelerator.Endpoint
