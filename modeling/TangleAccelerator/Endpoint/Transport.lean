import TangleAccelerator.Common.Types

/-!
# The connection of the endpoint

`conn_http.c`: `http_open` and `http_send_request`.

What the functions of `mbedtls` return is given.  A run of a loop that does not end has no result.

`http_open` calls `mbedtls_ssl_handshake` once, before its loop.  The loop looks at that result
again and again, so it does not end when the handshake asks to be called again.

The result of `mbedtls_ssl_get_verify_result` is logged and nothing else, so it is not here.
-/

namespace TangleAccelerator.Endpoint

/-- `MBEDTLS_ERR_SSL_WANT_READ`. -/
def wantRead : Int := -0x6900

/-- `MBEDTLS_ERR_SSL_WANT_WRITE`. -/
def wantWrite : Int := -0x6880

/-! ## Opening -/

/-- Results of `mbedtls_ssl_handshake` in their order: those that ask for another call, and the one
that does not. -/
structure Handshake where
  wants : List Int
  final : Int
  wants_asks : ∀ ret ∈ wants, ret = wantRead ∨ ret = wantWrite
  final_ends : final ≠ wantRead ∧ final ≠ wantWrite

/-- What the first call returns. -/
def Handshake.first (hs : Handshake) : Int := hs.wants.headD hs.final

/-- What the functions `http_open` calls before the handshake return. -/
structure OpenResults where
  /-- `mbedtls_ctr_drbg_seed`. -/
  drbgSeed : Int
  /-- `mbedtls_x509_crt_parse`. -/
  crtParse : Int
  /-- `mbedtls_net_connect`. -/
  netConnect : Int
  /-- `mbedtls_ssl_config_defaults`. -/
  configDefaults : Int
  /-- `mbedtls_ssl_setup`. -/
  sslSetup : Int
  /-- `mbedtls_ssl_set_hostname`. -/
  setHostname : Int

/-- The loop after the handshake, for a number of iterations.  Nothing in it sets `ret`. -/
def handshakeLoop (ret : Int) : Nat → Option (Except Status Unit)
  | 0 => none
  | fuel + 1 =>
      if ret ≠ 0 then
        if ret ≠ wantRead ∧ ret ≠ wantWrite then some (.error .utilsHttpsSslError)
        else handshakeLoop ret fuel
      else some (.ok ())

/-- `http_open`. -/
def httpOpen (https : Bool) (results : OpenResults) (hs : Handshake) (fuel : Nat) :
    Option (Except Status Unit) :=
  if https ∧ results.drbgSeed ≠ 0 then some (.error .utilsHttpsInitError)
  else if https ∧ results.crtParse < 0 then some (.error .utilsHttpsX509Error)
  else if results.netConnect ≠ 0 then some (.error .utilsHttpsConnError)
  else if https then
    if results.configDefaults ≠ 0 then some (.error .utilsHttpsSslError)
    else if results.sslSetup ≠ 0 then some (.error .utilsHttpsSslError)
    else if results.setHostname ≠ 0 then some (.error .utilsHttpsSslError)
    else handshakeLoop hs.first fuel
  else some (.ok ())

/-- The connection is made and set up. -/
structure OpenResults.Connects (results : OpenResults) (https : Bool) : Prop where
  drbgSeed : https → results.drbgSeed = 0
  crtParse : https → 0 ≤ results.crtParse
  netConnect : results.netConnect = 0
  configDefaults : https → results.configDefaults = 0
  sslSetup : https → results.sslSetup = 0
  setHostname : https → results.setHostname = 0

section Opening

variable {https : Bool} {results : OpenResults} {hs : Handshake} {ret : Int}

/-- A handshake that asks for another call keeps the loop running. -/
theorem handshakeLoop_asks (h : ret = wantRead ∨ ret = wantWrite) (fuel : Nat) :
    handshakeLoop ret fuel = none := by
  have hne : ret ≠ 0 := by
    rintro rfl
    exact absurd h (by decide)
  induction fuel with
  | zero => rfl
  | succ fuel ih =>
      rw [handshakeLoop, if_pos hne, if_neg (fun hn => h.elim hn.1 hn.2)]
      exact ih

/-- Any other result ends the loop when it is first looked at. -/
theorem handshakeLoop_ends (h : ret ≠ wantRead ∧ ret ≠ wantWrite) (fuel : Nat) :
    handshakeLoop ret (fuel + 1) =
      some (if ret = 0 then .ok () else .error .utilsHttpsSslError) := by
  by_cases hret : ret = 0
  · rw [handshakeLoop, if_neg (not_not.mpr hret), if_pos hret]
  · rw [handshakeLoop, if_pos hret, if_pos h, if_neg hret]

theorem handshakeLoop_one {fuel : Nat} {status : Except Status Unit}
    (h : handshakeLoop ret fuel = some status) : handshakeLoop ret 1 = some status := by
  by_cases hasks : ret = wantRead ∨ ret = wantWrite
  · rw [handshakeLoop_asks hasks] at h
    cases h
  · cases fuel with
    | zero => cases h
    | succ fuel =>
        rw [handshakeLoop_ends (not_or.mp hasks)] at h ⊢
        exact h

theorem Handshake.first_asks (h : hs.wants ≠ []) : hs.first = wantRead ∨ hs.first = wantWrite := by
  obtain ⟨ret, rest, hcons⟩ := List.exists_cons_of_ne_nil h
  have hfirst : hs.first = ret := by rw [Handshake.first, hcons, List.headD_cons]
  rw [hfirst]
  exact hs.wants_asks ret (hcons ▸ List.mem_cons_self)

theorem Handshake.first_of_nil (h : hs.wants = []) : hs.first = hs.final := by
  rw [Handshake.first, h, List.headD_nil]

/-- A connection that is set up leaves the result to the loop. -/
theorem httpOpen_https (h : results.Connects true) (fuel : Nat) :
    httpOpen true results hs fuel = handshakeLoop hs.first fuel := by
  rw [httpOpen, if_neg (fun hn => hn.2 (h.drbgSeed rfl)),
    if_neg (fun hn => absurd (h.crtParse rfl) (Int.not_le.mpr hn.2)),
    if_neg (not_not.mpr h.netConnect), if_pos rfl, if_neg (not_not.mpr (h.configDefaults rfl)),
    if_neg (not_not.mpr (h.sslSetup rfl)), if_neg (not_not.mpr (h.setHostname rfl))]

theorem connects_false_iff : results.Connects false ↔ results.netConnect = 0 := by
  constructor
  · exact OpenResults.Connects.netConnect
  · intro h
    constructor <;> simp [h]

/-- Without TLS the result is that of the connection. -/
theorem httpOpen_http (fuel : Nat) :
    httpOpen false results hs fuel =
      some (if results.netConnect = 0 then .ok () else .error .utilsHttpsConnError) := by
  by_cases h : results.netConnect = 0 <;> simp [httpOpen, h]

theorem connects_of_httpOpen_https {fuel : Nat}
    (h : httpOpen true results hs fuel = some (.ok ())) : results.Connects true := by
  rw [httpOpen] at h
  -- Only the last branch, which runs the loop, can succeed.
  split_ifs at h with hseed hparse hconnect hhttps hdefaults hsetup hhost <;> try cases h
  · exact
      { drbgSeed := fun _ => not_not.mp fun hne => hseed ⟨rfl, hne⟩
        crtParse := fun _ => Int.not_lt.mp fun hlt => hparse ⟨rfl, hlt⟩
        netConnect := not_not.mp hconnect
        configDefaults := fun _ => not_not.mp hdefaults
        sslSetup := fun _ => not_not.mp hsetup
        setHostname := fun _ => not_not.mp hhost }
  · exact absurd rfl hhttps

theorem eq_zero_of_handshakeLoop_ok {fuel : Nat} (h : handshakeLoop ret fuel = some (.ok ())) :
    ret = 0 := by
  by_contra hne
  have hone := handshakeLoop_one h
  rw [handshakeLoop, if_pos hne] at hone
  split at hone <;> cases hone

/-- `http_open` succeeds when the connection is set up and, with TLS, the first call finishes the
handshake. -/
theorem httpOpen_ok (hconnects : results.Connects https) (hfirst : https → hs.first = 0)
    (fuel : Nat) : httpOpen https results hs (fuel + 1) = some (.ok ()) := by
  cases https with
  | false => rw [httpOpen_http, if_pos hconnects.netConnect]
  | true =>
      rw [httpOpen_https hconnects, hfirst rfl]
      rfl

/-- It succeeds in no other case. -/
theorem connects_of_httpOpen {fuel : Nat} (h : httpOpen https results hs fuel = some (.ok ())) :
    results.Connects https ∧ (https → hs.first = 0) := by
  cases https with
  | false =>
      rw [httpOpen_http] at h
      by_cases hconnect : results.netConnect = 0
      · exact ⟨connects_false_iff.mpr hconnect, fun hfalse => absurd hfalse Bool.false_ne_true⟩
      · rw [if_neg hconnect] at h
        cases h
  | true =>
      have hconnects := connects_of_httpOpen_https h
      rw [httpOpen_https hconnects] at h
      exact ⟨hconnects, fun _ => eq_zero_of_handshakeLoop_ok h⟩

/-- More looks at the result of the handshake do not change what `http_open` returns. -/
theorem httpOpen_one {fuel : Nat} {status : Except Status Unit}
    (h : httpOpen https results hs fuel = some status) :
    httpOpen https results hs 1 = some status := by
  rw [httpOpen] at h ⊢
  split_ifs at h ⊢
  all_goals try exact h
  exact handshakeLoop_one h

end Opening

/-! ## Sending -/

/-- The loop of `http_send_request` from an offset on: the status, and the pieces the connection
accepted.  It runs on the results of the calls, and has no result when they do not end it. -/
def sendLoop (req : List UInt8) (writeLen : Nat) :
    List Int → Option (Except Status Unit × List (List UInt8))
  | [] => if writeLen < req.length then none else some (.ok (), [])
  | retLen :: rest =>
      if writeLen < req.length then
        if retLen = wantWrite then sendLoop req writeLen rest
        else if retLen ≤ 0 then some (.error .utilsHttpsSendError, [])
        else
          (sendLoop req (writeLen + retLen.toNat) rest).map fun (status, pieces) =>
            (status, (req.drop writeLen).take retLen.toNat :: pieces)
      else some (.ok (), [])

/-- `http_send_request`.  With and without TLS it differs in the function it calls only. -/
def httpSendRequest (req : List UInt8) (results : List Int) :
    Option (Except Status Unit × List (List UInt8)) := sendLoop req 0 results

/-- No call accepts more than it is given, which is what remains of the request. -/
def Accepts : Nat → List Int → Prop
  | _, [] => True
  | remaining, retLen :: rest =>
      if remaining = 0 then True
      else if 0 < retLen then retLen ≤ remaining ∧ Accepts (remaining - retLen.toNat) rest
      else Accepts remaining rest

/-- The calls accept what remains of a request, to its end. -/
def Completes : Nat → List Int → Prop
  | remaining, [] => remaining = 0
  | remaining, retLen :: rest =>
      remaining = 0 ∨ retLen = wantWrite ∧ Completes remaining rest ∨
        0 < retLen ∧ Completes (remaining - retLen.toNat) rest

section Sending

variable {req : List UInt8} {results : List Int} {pieces : List (List UInt8)}

theorem sendLoop_of_le {writeLen : Nat} (h : req.length ≤ writeLen) (results : List Int) :
    sendLoop req writeLen results = some (.ok (), []) := by
  cases results with
  | nil => exact if_neg (Nat.not_lt.mpr h)
  | cons retLen rest => exact if_neg (Nat.not_lt.mpr h)

/-- One call of a loop that succeeds: it asks for another one, or accepts a piece at the offset. -/
theorem sendLoop_cons_ok_iff {writeLen : Nat} (h : writeLen < req.length) (retLen : Int)
    (rest : List Int) :
    sendLoop req writeLen (retLen :: rest) = some (.ok (), pieces) ↔
      retLen = wantWrite ∧ sendLoop req writeLen rest = some (.ok (), pieces) ∨
        0 < retLen ∧ ∃ tail, pieces = (req.drop writeLen).take retLen.toNat :: tail ∧
          sendLoop req (writeLen + retLen.toNat) rest = some (.ok (), tail) := by
  rw [sendLoop, if_pos h]
  split_ifs with hwant hfail
  · have hpos : ¬ 0 < retLen := by rw [hwant]; decide
    rw [and_iff_right hwant, or_iff_left (fun hn => hpos hn.1)]
  · refine iff_of_false (fun hn => by cases hn) ?_
    rintro (⟨hn, -⟩ | ⟨hn, -⟩)
    · exact hwant hn
    · exact absurd hn (Int.not_lt.mpr hfail)
  · rw [or_iff_right (fun hn => hwant hn.1), and_iff_right (Int.not_le.mp hfail),
      Option.map_eq_some_iff]
    constructor
    · rintro ⟨⟨status, tail⟩, htail, heq⟩
      cases heq
      exact ⟨tail, rfl, htail⟩
    · rintro ⟨tail, rfl, htail⟩
      exact ⟨(.ok (), tail), htail, rfl⟩

/-- The pieces of a loop that succeeds are what there was from its offset on. -/
theorem flatten_of_sendLoop {writeLen : Nat} (haccepts : Accepts (req.length - writeLen) results)
    (h : sendLoop req writeLen results = some (.ok (), pieces)) :
    pieces.flatten = req.drop writeLen := by
  induction results generalizing writeLen pieces with
  | nil =>
      rw [sendLoop] at h
      split at h
      · cases h
      · rename_i hle
        cases h
        exact (List.drop_eq_nil_of_le (Nat.not_lt.mp hle)).symm
  | cons retLen rest ih =>
      by_cases hlt : writeLen < req.length
      · rw [Accepts, if_neg (by omega)] at haccepts
        obtain ⟨hwant, hrest⟩ | ⟨hpos, tail, rfl, htail⟩ := (sendLoop_cons_ok_iff hlt _ _).mp h
        · rw [if_neg (by rw [hwant]; decide)] at haccepts
          exact ih haccepts hrest
        · -- The piece is in front of what the rest of the loop sends.
          rw [if_pos hpos, Nat.sub_sub] at haccepts
          rw [List.flatten_cons, ih haccepts.2 htail, ← List.drop_drop, List.take_append_drop]
      · rw [sendLoop_of_le (Nat.not_lt.mp hlt)] at h
        cases h
        exact (List.drop_eq_nil_of_le (Nat.not_lt.mp hlt)).symm

/-- The loop succeeds when the calls accept the request to its end. -/
theorem sendLoop_ok_iff (writeLen : Nat) :
    (∃ pieces, sendLoop req writeLen results = some (.ok (), pieces)) ↔
      Completes (req.length - writeLen) results := by
  induction results generalizing writeLen with
  | nil =>
      rw [Completes, sendLoop]
      by_cases hlt : writeLen < req.length
      · simp only [if_pos hlt]
        exact iff_of_false (fun h => by cases h.choose_spec) (by omega)
      · simp only [if_neg hlt]
        exact iff_of_true ⟨[], rfl⟩ (by omega)
  | cons retLen rest ih =>
      rw [Completes]
      by_cases hlt : writeLen < req.length
      · rw [or_iff_right (by omega : req.length - writeLen ≠ 0), Nat.sub_sub, ← ih, ← ih]
        simp only [sendLoop_cons_ok_iff hlt, exists_or, exists_and_left]
        refine or_congr_right (and_congr_right fun _ => ?_)
        constructor
        · rintro ⟨_, tail, -, htail⟩
          exact ⟨tail, htail⟩
        · rintro ⟨tail, htail⟩
          exact ⟨_, tail, rfl, htail⟩
      · rw [sendLoop_of_le (Nat.not_lt.mp hlt)]
        exact iff_of_true ⟨[], rfl⟩ (.inl (by omega))

/-- One call that accepts everything is enough. -/
theorem completes_whole (n : Nat) : Completes n [(n : Int)] := by
  simp only [Completes, Int.toNat_natCast]
  omega

/-- A request that is reported as sent was accepted as it is. -/
theorem flatten_of_httpSendRequest (haccepts : Accepts req.length results)
    (h : httpSendRequest req results = some (.ok (), pieces)) : pieces.flatten = req :=
  flatten_of_sendLoop haccepts h

example : httpSendRequest [1, 2, 3] [2, wantWrite, 1] = some (.ok (), [[1, 2], [3]]) := by decide

theorem httpSendRequest_ok_iff :
    (∃ pieces, httpSendRequest req results = some (.ok (), pieces)) ↔
      Completes req.length results := sendLoop_ok_iff 0

end Sending

/-! ## Progress -/

/-- The loop of the handshake ends.  `http_open` goes on when the last result is zero, and returns
an error when it is not. -/
def HandshakeEnds (results : OpenResults) (hs : Handshake) : Prop :=
  ∃ fuel status, httpOpen true results hs fuel = some status ∧ (status = .ok () ↔ hs.final = 0)

/-- A request is reported as sent only when the accepted pieces make it up. -/
def SendsWhole (req : List UInt8) (writes : List Int) : Prop :=
  Accepts req.length writes → ∀ pieces, httpSendRequest req writes = some (.ok (), pieces) →
    pieces.flatten = req

theorem handshakeEnds_iff {results : OpenResults} (hconnects : results.Connects true)
    (hs : Handshake) : HandshakeEnds results hs ↔ hs.wants = [] := by
  constructor
  · rintro ⟨fuel, status, hopen, -⟩
    by_contra hwants
    rw [httpOpen_https hconnects, handshakeLoop_asks (Handshake.first_asks hwants)] at hopen
    cases hopen
  · intro hwants
    have hends := handshakeLoop_ends hs.final_ends 0
    rw [← Handshake.first_of_nil hwants, ← httpOpen_https hconnects] at hends
    refine ⟨1, _, hends, ?_⟩
    rw [Handshake.first_of_nil hwants]
    by_cases h : hs.final = 0 <;> simp [h]

/-- With a connection that is set up, both loops of the transport do what they are for exactly when
the first call of `mbedtls_ssl_handshake` does not ask for another one. -/
theorem http_progress_iff (results : OpenResults) (hconnects : results.Connects true)
    (hs : Handshake) (req : List UInt8) (writes : List Int) :
    HandshakeEnds results hs ∧ SendsWhole req writes ↔ hs.wants = [] := by
  rw [handshakeEnds_iff hconnects, and_iff_left_iff_imp]
  intro _ haccepts pieces hsent
  exact flatten_of_httpSendRequest haccepts hsent

/-- Nothing fails before the handshake. -/
def allSucceed : OpenResults := ⟨0, 0, 0, 0, 0, 0⟩

theorem allSucceed_connects (https : Bool) : allSucceed.Connects https :=
  ⟨fun _ => rfl, fun _ => le_rfl, rfl, fun _ => rfl, fun _ => rfl, fun _ => rfl⟩

/-- A handshake that takes one call. -/
def oneCall : Handshake := ⟨[], 0, by simp, by decide⟩

/-- A handshake that asks to read once, and then succeeds. -/
def twoCalls : Handshake := ⟨[wantRead], 0, by simp, by decide⟩

/-- One call, and a request that is sent in two pieces. -/
theorem http_progress_oneCall :
    allSucceed.Connects true ∧ HandshakeEnds allSucceed oneCall ∧ SendsWhole [1, 2, 3] [2, 1] :=
  ⟨allSucceed_connects true,
    (http_progress_iff allSucceed (allSucceed_connects true) oneCall [1, 2, 3] [2, 1]).mpr rfl⟩

/-- The second call would succeed, but it is never made. -/
theorem http_not_progress :
    twoCalls.final = 0 ∧ (∀ fuel, httpOpen true allSucceed twoCalls fuel = none) ∧
      ¬ HandshakeEnds allSucceed twoCalls := by
  have hopen : ∀ fuel, httpOpen true allSucceed twoCalls fuel = none := by
    intro fuel
    rw [httpOpen_https (allSucceed_connects true)]
    exact handshakeLoop_asks (.inl rfl) fuel
  refine ⟨rfl, hopen, ?_⟩
  rintro ⟨fuel, status, h, -⟩
  rw [hopen] at h
  cases h

end TangleAccelerator.Endpoint
