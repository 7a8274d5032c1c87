import Kohaku.Http.Framework

/-!
# The layers around a handler

Each layer of `routing::build`, `http` and `auth::session` as a function from the service inside it
to the service it makes of it. For each layer there is a lemma about what is known when something
inside it is asked, and one about what it asks itself.
-/

namespace Kohaku.Http

open Routing Limits Ask Ask.Program

/-- What the layers know that does not change, and the third-party code they call. -/
structure Site extends Crypto, Framework where
  base : BaseUrl
  trusted : TrustedProxies
  /-- `IpAddr::from_str`. -/
  ip : IpText
  /-- `error.html` with a title and a text. -/
  errorPage : Str → Str → Bytes
  /-- The pairs of a form, by the headers and the body; `none` when axum's `Form` refuses it. -/
  formPairs : HeaderMap → Bytes → Option (List (Str × Str))

variable {site : Site} {next : Next} {request : Request} {h : History} {e : Op}
  {response : Response}

/-! ## Response headers -/

/-- The header's name, as it is compared. -/
def contentSecurityPolicy : Str := "content-security-policy".toList

/-- The header's name, as it is compared. -/
def cacheControl : Str := "cache-control".toList

/-- The release Content-Security-Policy. -/
def releaseCsp : Bytes :=
  asBytes ("default-src 'none'; script-src 'self'; style-src 'self'; img-src 'self'; ".toList ++
    "form-action 'self'; frame-ancestors 'none'; base-uri 'none'".toList)

/-- The value where a route or an answer has none of its own. -/
def noStore : Bytes := asBytes "no-store".toList

/-- The value of pages and of assets that can change. -/
def noCache : Bytes := asBytes "no-cache".toList

/-- `IMMUTABLE`, for assets named by their contents. -/
def immutable : Bytes := asBytes "public, max-age=31536000, immutable".toList

/-- `REDIRECT_MAX_AGE`, for the redirect to a project's domain. -/
def redirectMaxAge : Bytes := asBytes "max-age=3600".toList

/-- Sent exactly once with exactly this value on every response. -/
def fixedHeaders : List (Str × Bytes) :=
  [("referrer-policy".toList, asBytes "same-origin".toList),
    ("x-frame-options".toList, asBytes "DENY".toList),
    ("cross-origin-opener-policy".toList, asBytes "same-origin".toList),
    ("x-content-type-options".toList, asBytes "nosniff".toList),
    ("permissions-policy".toList, asBytes "".toList),
    ("strict-transport-security".toList, asBytes "max-age=31536000".toList)]

/-- `set_single_if_absent`: unless the header is there exactly once, it is set to the value. -/
def setSingleIfAbsent (headers : HeaderMap) (name : Str) (value : Bytes) : HeaderMap :=
  if (headers.getAll name).length ≠ 1 then insert (remove headers name) name value else headers

/-- Sets each header of a list, in place of any value it has. -/
def setAll (headers : HeaderMap) (fixed : List (Str × Bytes)) : HeaderMap :=
  fixed.foldl (fun headers h => insert (remove headers h.1) h.1 h.2) headers

/-- `headers::apply`. -/
def applyHeaders (headers : HeaderMap) : HeaderMap :=
  let headers := setAll headers fixedHeaders
  let headers := setSingleIfAbsent headers contentSecurityPolicy releaseCsp
  setSingleIfAbsent headers cacheControl noStore

section
variable {headers : HeaderMap} {name name' : Str} {value : Bytes}

theorem getAll_setSingleIfAbsent_self : (setSingleIfAbsent headers name value).getAll name =
    if (headers.getAll name).length = 1 then headers.getAll name else [value] := by
  unfold setSingleIfAbsent
  by_cases hone : (headers.getAll name).length = 1
  · rw [if_neg (not_not.mpr hone), if_pos hone]
  · rw [if_pos hone, if_neg hone, getAll_insert_self]

theorem getAll_setSingleIfAbsent_of_ne (h : name' ≠ name) :
    (setSingleIfAbsent headers name value).getAll name' = headers.getAll name' := by
  unfold setSingleIfAbsent
  split
  · rw [getAll_insert_of_ne h, getAll_remove_of_ne h]
  · rfl

theorem getAll_setAll_of_notMem {fixed : List (Str × Bytes)} (h : name ∉ fixed.map Prod.fst) :
    (setAll headers fixed).getAll name = headers.getAll name := by
  induction fixed generalizing headers with
  | nil => rfl
  | cons first fixed ih =>
    rw [List.map_cons, List.mem_cons, not_or] at h
    exact (ih h.2).trans (by rw [getAll_insert_of_ne h.1, getAll_remove_of_ne h.1])

theorem getAll_setAll_of_mem {fixed : List (Str × Bytes)} (hnd : (fixed.map Prod.fst).Nodup)
    (h : (name, value) ∈ fixed) : (setAll headers fixed).getAll name = [value] := by
  induction fixed generalizing headers with
  | nil => cases h
  | cons first fixed ih =>
    rw [List.map_cons, List.nodup_cons] at hnd
    rcases List.mem_cons.mp h with rfl | h
    · exact (getAll_setAll_of_notMem hnd.1).trans getAll_insert_self
    · exact ih hnd.2 h

theorem nodup_fixedHeaders : (fixedHeaders.map Prod.fst).Nodup := by decide

theorem getAll_applyHeaders_fixed (h : (name, value) ∈ fixedHeaders) :
    (applyHeaders headers).getAll name = [value] := by
  have hnames : name ∈ fixedHeaders.map Prod.fst := List.mem_map_of_mem h
  have hcsp : name ≠ contentSecurityPolicy := by
    rintro rfl
    exact absurd hnames (by decide)
  have hcache : name ≠ cacheControl := by
    rintro rfl
    exact absurd hnames (by decide)
  unfold applyHeaders
  rw [getAll_setSingleIfAbsent_of_ne hcache, getAll_setSingleIfAbsent_of_ne hcsp]
  exact getAll_setAll_of_mem nodup_fixedHeaders h

/-- A header that the policy does not name stays as it is. -/
theorem getAll_applyHeaders_of_notMem
    (h : name ∉ contentSecurityPolicy :: cacheControl :: fixedHeaders.map Prod.fst) :
    (applyHeaders headers).getAll name = headers.getAll name := by
  rw [List.mem_cons, not_or, List.mem_cons, not_or] at h
  unfold applyHeaders
  rw [getAll_setSingleIfAbsent_of_ne h.2.1, getAll_setSingleIfAbsent_of_ne h.1]
  exact getAll_setAll_of_notMem h.2.2

theorem getAll_applyHeaders_csp (h : headers.getAll contentSecurityPolicy = []) :
    (applyHeaders headers).getAll contentSecurityPolicy = [releaseCsp] := by
  have hcsp : contentSecurityPolicy ∉ fixedHeaders.map Prod.fst := by decide
  have hkept : (setAll headers fixedHeaders).getAll contentSecurityPolicy = [] :=
    (getAll_setAll_of_notMem hcsp).trans h
  have hne : contentSecurityPolicy ≠ cacheControl := by decide
  unfold applyHeaders
  rw [getAll_setSingleIfAbsent_of_ne hne, getAll_setSingleIfAbsent_self]
  exact if_neg (by rw [hkept]; decide)

/-- `Cache-Control` stays when there is one value, else it becomes `no-store`. -/
theorem getAll_applyHeaders_cacheControl : (applyHeaders headers).getAll cacheControl =
    if (headers.getAll cacheControl).length = 1 then headers.getAll cacheControl
    else [noStore] := by
  have hcache : cacheControl ∉ fixedHeaders.map Prod.fst := by decide
  have hkept : (setAll headers fixedHeaders).getAll cacheControl = headers.getAll cacheControl :=
    getAll_setAll_of_notMem hcache
  have hne : cacheControl ≠ contentSecurityPolicy := by decide
  unfold applyHeaders
  rw [getAll_setSingleIfAbsent_self, getAll_setSingleIfAbsent_of_ne hne, hkept]

end

/-- The reason under which a response is counted. -/
def countedReason (response : Response) : Option Reason :=
  match response.rejected with
  | some reason => some reason
  | none =>
    if response.status = 408 then some .deadline
    else if response.status = 413 then some .bodyTooLarge
    else none

/-- The response with the headers of every response. -/
@[simps]
def withPolicy (response : Response) : Response :=
  { response with headers := applyHeaders response.headers }

/-- `headers::layer`. -/
def headersLayer (next : Next) : Next := fun request => do
  let response ← next request
  match countedReason response with
  | some reason =>
    let _ ← perform (Op.increment reason)
    return withPolicy response
  | none => return withPolicy response

/-- The `Cache-Control` of a response. -/
def cacheValue (cache : CacheClass) (method : Method) (response : Response) : Bytes :=
  match cache with
  | .noStore => noStore
  | .noCache => noCache
  | .staticAsset =>
    if response.hashedAsset && response.status = 200 &&
      (method = .get || method = .head) then immutable else noCache
  | .canonicalRedirect => if response.status = 308 then redirectMaxAge else noStore

/-- The response with its declared `Cache-Control` and without a policy of the handler's. -/
@[simps status body rejected hashedAsset ownBody]
def cached (cache : CacheClass) (csp : Csp) (method : Method) (response : Response) : Response :=
  let headers := insert (remove response.headers cacheControl) cacheControl
    (cacheValue cache method response)
  { response with
    headers :=
      match csp with
      | .release => remove headers contentSecurityPolicy }

/-- `cache_layer` of `build`. -/
def cacheLayer (cache : CacheClass) (csp : Csp) (next : Next) : Next := fun request => do
  let response ← next request
  return cached cache csp request.method response

/-! ## Error bodies -/

/-- Code, title and text of an error. -/
def describe (status : Nat) : Str × Str × Str :=
  match status with
  | 400 =>
    ("bad_request".toList, "Bad request".toList, "The request could not be understood.".toList)
  | 403 => ("forbidden".toList, "Forbidden".toList, "This request is not allowed.".toList)
  | 404 => ("not_found".toList, "Not found".toList, "There is nothing here.".toList)
  | 405 =>
    ("method_not_allowed".toList, "Method not allowed".toList,
      "This address does not accept that method.".toList)
  | 408 => ("timeout".toList, "Request timeout".toList, "The request took too long.".toList)
  | 413 => ("too_large".toList, "Too large".toList, "The request is too large.".toList)
  | 415 => ("unsupported_media_type".toList, "Unsupported media type".toList,
      "This content type is not accepted here.".toList)
  | 421 =>
    ("misdirected".toList, "Misdirected request".toList,
      "This server does not serve that host.".toList)
  | 429 =>
    ("too_many_requests".toList, "Too many requests".toList,
      "Too many requests. Try again later.".toList)
  | 503 => ("busy".toList, "Busy".toList, "The server is busy. Try again later.".toList)
  | _ =>
    if 500 ≤ status && status < 600 then
      ("internal".toList, "Server error".toList, "Something went wrong.".toList)
    else ("error".toList, "Error".toList, "The request failed.".toList)

/-- Content type and body of an error. -/
def render (site : Site) (status : Nat) (format : ErrorFormat) : Bytes × Bytes :=
  let (code, title, text) := describe status
  match format with
  | .html => (asBytes "text/html; charset=utf-8".toList, site.errorPage title text)
  | .json =>
    (asBytes "application/json".toList,
      asBytes ("\x7b\"error\":\"".toList ++ code ++ "\",\"message\":\"".toList ++ text ++
        "\"\x7d".toList))

/-- `errors::response`: the fixed error response. -/
def errorResponse (site : Site) (status : Nat) (format : ErrorFormat) : Response :=
  let (type, body) := render site status format
  { Response.ofStatus status with headers := [(contentType, type)], body }

/-- The error body in place of a handler's, unless it is marked. -/
def withErrorBody (site : Site) (format : ErrorFormat) (response : Response) : Response :=
  if !response.isError || response.ownBody then response
  else
    let (type, body) := render site response.status format
    { response with
      headers := insert (remove response.headers "content-length".toList) contentType type
      body }

/-- `errors::layer`. -/
def errorsLayer (site : Site) (format : ErrorFormat) (next : Next) : Next := fun request => do
  let response ← next request
  return withErrorBody site format response

/-! ## Origin, rate and multipart -/

/-- Whether a state-changing request may reach its route. -/
def originAllowed (headers : HeaderMap) (expected : Str) (headerless : Headerless) : Bool :=
  match single headers "sec-fetch-site".toList, single headers "origin".toList with
  | .ok (some site), .ok origin =>
    site = asBytes "same-origin".toList && origin.all fun o => o = asBytes expected
  | .ok none, .ok (some origin) => origin = asBytes expected
  | .ok none, .ok none => headerless = .exempt
  | _, _ => false

/-- `origin_layer`. -/
def originLayer (headerless : Headerless) (next : Next) : Next := fun request =>
  if request.method.isSafe then next request
  else
    match request.routed with
    | some host =>
      if originAllowed request.headers host.origin headerless then next request
      else return .rejection 403 .crossSite
    | none => return .rejection 403 .crossSite

/-- The loop of `rate_layer`: the class that has no token left, if any. -/
def takeRates (client : IpAddr) (method : Method) (now : Instant) :
    List RateClass → Serving (Option RateClass)
  | [] => return none
  | c :: classes =>
    if appliesTo c method then do
      let admitted ← perform (Op.admitDemand (.ofClass c client) now)
      if admitted then takeRates client method now classes else return some c
    else takeRates client method now classes

/-- `rate_layer`. -/
def rateLayer (classes : List RateClass) (next : Next) : Next := fun request =>
  match request.client with
  | none => return .ofStatus 500
  | some client => do
    let now ← perform Op.now
    match ← takeRates client request.method now classes with
    | some c => return .rejection 429 (.rateLimited c)
    | none => next request

/-- Whether any `Content-Type` names the `multipart` media type. -/
def isMultipart (headers : HeaderMap) : Bool :=
  (headers.getAll contentType).any fun value =>
    let trimmed := trimAscii (value.takeWhile (· ≠ 0x3B))
    10 < trimmed.length && isCaseless (trimmed.take 10) "multipart/".toList

/-- `multipart_layer`. -/
def multipartLayer (multipart : Multipart) (next : Next) : Next := fun request =>
  match multipart with
  | .rejected =>
    if isMultipart request.headers then return .rejection 415 .multipart else next request

/-! ## Sessions -/

/-- `SESSION_COOKIE`. -/
def sessionCookie : Str := "__Host-kohaku_session".toList

/-- `LOGIN_PATH`, where a request without a session is sent. -/
def loginPath : Str := "/admin/login".toList

/-- The request's session, if valid at `now`; its use is recorded at most every five minutes. -/
def current (site : Site) (headers : HeaderMap) (now : Time) :
    Serving (Except Unit (Option SessionUser)) :=
  match cookieToken site.base64 headers sessionCookie with
  | none => return .ok none
  | some token => do
    match ← perform (Op.readSession (site.sha256 (asBytes token)) now) with
    | .error _ => return .error ()
    | .ok none => return .ok none
    | .ok (some (user, lastSeen)) =>
      if now - lastSeen ≥ touchSeconds then do
        match ← perform (Op.touchSession user.sessionId now) with
        | .error _ => return .error ()
        | .ok _ => return .ok (some user)
      else return .ok (some user)

/-- The `csrf` field of a form; a missing one is empty, a repeated one an error. -/
def csrfField (pairs : List (Str × Str)) : Option Str :=
  match pairs.filter fun pair => pair.1 = "csrf".toList with
  | [] => some []
  | [pair] => some pair.2
  | _ => none

/-- The form carries the session's token. -/
def csrfAccepted (site : Site) (headers : HeaderMap) (body csrf : Bytes) : Bool :=
  ((site.formPairs headers body).bind csrfField).any fun field =>
    isTokenText site.base64 field && (site.base64.decode field).any fun token => ctEq token csrf

/-- The form has one `csrf` field, the text that the session's own forms have there. -/
def CarriesToken (site : Site) (headers : HeaderMap) (body csrf : Bytes) : Prop :=
  ∃ pairs, site.formPairs headers body = some pairs ∧ valuesOf "csrf".toList pairs =
    [site.base64.encode csrf]

theorem csrfField_of_valuesOf {pairs : List (Str × Str)} {field : Str}
    (h : valuesOf "csrf".toList pairs = [field]) : csrfField pairs = some field := by
  unfold valuesOf at h
  unfold csrfField
  obtain ⟨pair, hpair, rfl⟩ := List.map_eq_singleton_iff.mp h
  rw [hpair]

theorem valuesOf_of_csrfField {pairs : List (Str × Str)} {field : Str}
    (h : csrfField pairs = some field)
    (hne : field ≠ []) : valuesOf "csrf".toList pairs = [field] := by
  unfold csrfField at h
  unfold valuesOf
  split at h
  next =>
    cases h
    exact absurd rfl hne
  next pair hpair =>
    cases h
    rw [hpair]
    rfl
  next => cases h

/-- The guard accepts the forms with the token. -/
theorem csrfAccepted_iff {headers : HeaderMap} {body csrf : Bytes} :
    csrfAccepted site headers body csrf = true ↔
    CarriesToken site headers body csrf ∧
    isTokenText site.base64 (site.base64.encode csrf) = true := by
  simp only [csrfAccepted, Option.any_eq_true, Bool.and_eq_true, Option.bind_eq_some_iff]
  constructor
  · rintro ⟨field, ⟨pairs, hpairs, hfield⟩, htoken, bytes, hdecode, heq⟩
    rw [ctEq_iff] at heq
    rw [← heq, site.base64.encode_of_decode hdecode]
    have hne : field ≠ [] := by
      rintro rfl
      exact absurd htoken Bool.false_ne_true
    refine ⟨⟨pairs, hpairs, ?_⟩, htoken⟩
    rw [site.base64.encode_of_decode hdecode]
    exact valuesOf_of_csrfField hfield hne
  · rintro ⟨⟨pairs, hpairs, hvalues⟩, htoken⟩
    exact ⟨_, ⟨pairs, hpairs, csrfField_of_valuesOf hvalues⟩, htoken, csrf,
      site.base64.decode_encode csrf, ctEq_iff.mpr rfl⟩

/-- The bytes of a body; `none` when they do not arrive. -/
def Body.read : Body → Serving (Option Bytes)
  | .incoming cap => perform (Op.readBody cap)
  | .bytes b => return some b

/-- `check_csrf`: the request with its body put back. -/
def checkCsrf (site : Site) (request : Request) (csrf : Bytes) : Serving (Option Request) := do
  match ← request.body.read with
  | none => return none
  | some bytes =>
    return if csrfAccepted site request.headers bytes csrf then some
      { request with body := .bytes bytes } else none

/-- `session::layer`. -/
def sessionLayer (site : Site) (next : Next) : Next := fun request => do
  let now ← perform Op.unix
  match ← current site request.headers now with
  | .error _ => return .ofStatus 500
  | .ok none => return if request.method.isSafe then .seeOther loginPath else .ofStatus 403
  | .ok (some user) =>
    if request.method.isSafe then next { request with user := some user }
    else do
      match ← checkCsrf site request user.csrf with
      | none => return .ofStatus 403
      | some request => next { request with user := some user }

/-- `session::admin_layer`. -/
def adminLayer (next : Next) : Next := fun request =>
  match request.user with
  | some user => if user.role = .admin then next request else return .ofStatus 404
  | none => return .ofStatus 404

/-! ## Client address -/

/-- The warnings about forwarded addresses, one after the other. -/
def noteAll : List Warning → Serving Unit
  | [] => return ()
  | warning :: warnings => do
    let _ ← perform (Op.note warning)
    noteAll warnings

/-- `client_address_layer`. -/
def clientAddressLayer (site : Site) (next : Next) : Next := fun request =>
  match request.peer with
  | none => return .ofStatus 500
  | some peer => do
    let resolution :=
      resolve site.ip peer (request.headers.getAll "x-forwarded-for".toList) site.trusted
    let _ ← noteAll resolution.warnings
    next { request with client := some resolution.client }

/-! ## What is known when a handler is run -/

section Handled
variable {handler : Handler} {r : Request}

theorem asks_headersLayer (hask : (headersLayer next request).Asks h (.handle handler r)) :
    (next request).Asks h (.handle handler r) := by
  rcases asks_bind.mp hask with hask | ⟨h₁, h₂, response, rfl, -, hask⟩
  · exact hask
  · split at hask
    · rcases asks_perform.mp hask with ⟨-, heq⟩ | ⟨-, h', -, hask⟩
      · cases heq
      · exact absurd hask asks_pure
    · exact absurd hask asks_pure

theorem asks_cacheLayer {cache : CacheClass} {csp : Csp} :
    (cacheLayer cache csp next request).Asks h e ↔ (next request).Asks h e := asks_bind_pure

theorem asks_errorsLayer {format : ErrorFormat} :
    (errorsLayer site format next request).Asks h e ↔ (next request).Asks h e := asks_bind_pure

/-- A request that may change something comes from its own origin. -/
def SameOrigin (headerless : Headerless) (request : Request) : Prop :=
  request.method.isSafe = false →
    ∃ host, request.routed = some host ∧ originAllowed request.headers host.origin headerless = true

theorem asks_originLayer {headerless : Headerless}
    (hask : (originLayer headerless next request).Asks h e) :
    SameOrigin headerless request ∧ (next request).Asks h e := by
  unfold originLayer at hask
  split at hask
  next hsafe => exact ⟨fun hwrites => by simp [hsafe] at hwrites, hask⟩
  next =>
    split at hask
    next host hrouted =>
      split at hask
      next hallowed => exact ⟨fun _ => ⟨host, hrouted, hallowed⟩, hask⟩
      next => exact absurd hask asks_pure
    next => exact absurd hask asks_pure

theorem only_takeRates {client : IpAddr} {method : Method} {now : Instant}
    {classes : List RateClass} : (takeRates client method now classes).Only (·.isOwn) := by
  induction classes with
  | nil => exact only_pure
  | cons c classes ih =>
    unfold takeRates
    split
    · refine only_bind (only_perform rfl) fun admitted => ?_
      split
      · exact ih
      · exact only_pure
    · exact ih

/-- Every class that covers the method has given a token. -/
def Rated (client : IpAddr) (method : Method) (classes : List RateClass) (h : History) : Prop :=
  ∀ c ∈ classes, appliesTo c method = true → ∃ now, ⟨.admitDemand (.ofClass c client) now, true⟩ ∈ h

theorem rated_of_takeRates {client : IpAddr} {method : Method} {now : Instant}
    {classes : List RateClass}
    (hrun : (takeRates client method now classes).Runs h none) : Rated client method classes h := by
  induction classes generalizing h with
  | nil =>
    intro c hc
    cases hc
  | cons c classes ih =>
    unfold takeRates at hrun
    split at hrun
    next happlies =>
      obtain ⟨admitted, h', rfl, hrest⟩ := runs_perform.mp hrun
      split at hrest
      next hadmitted =>
        intro c' hc' happlies'
        rcases List.mem_cons.mp hc' with rfl | hc'
        · rw [hadmitted]
          exact ⟨now, List.mem_cons_self⟩
        · obtain ⟨now', hmem⟩ := ih hrest c' hc' happlies'
          exact ⟨now', List.mem_cons_of_mem _ hmem⟩
      next => cases hrest.2
    next happlies =>
      intro c' hc' happlies'
      rcases List.mem_cons.mp hc' with rfl | hc'
      · exact absurd happlies' happlies
      · exact ih hrun c' hc' happlies'

theorem Rated.mono {client : IpAddr} {method : Method} {classes : List RateClass} {h' : History}
    (hrated : Rated client method classes h) (hsub : h ⊆ h') : Rated client method classes h' := by
  intro c hc happlies
  obtain ⟨now, hmem⟩ := hrated c hc happlies
  exact ⟨now, hsub hmem⟩

theorem asks_rateLayer {classes : List RateClass}
    (hask : (rateLayer classes next request).Asks h (.handle handler r)) :
    ∃ client, request.client = some client ∧ Rated client request.method classes h ∧
      ∃ h', h'.Sublist h ∧ (next request).Asks h' (.handle handler r) := by
  unfold rateLayer at hask
  split at hask
  next => exact absurd hask asks_pure
  next client hclient =>
    rcases asks_perform.mp hask with ⟨-, heq⟩ | ⟨now, h', rfl, htake⟩
    · cases heq
    · rcases asks_bind.mp htake with hrate | ⟨h₁, h₂, refused, rfl, hrun, hnext⟩
      · cases only_takeRates _ _ hrate
      · split at hnext
        · exact absurd hnext asks_pure
        · have hrated := rated_of_takeRates hrun
          refine ⟨client, hclient, hrated.mono fun ev hev => ?_, h₂, ?_, hnext⟩
          · exact List.mem_cons_of_mem _ (List.mem_append_left _ hev)
          · exact (List.sublist_append_right _ _).cons _

theorem asks_multipartLayer {multipart : Multipart}
    (hask : (multipartLayer multipart next request).Asks h e) :
    isMultipart request.headers = false ∧ (next request).Asks h e := by
  unfold multipartLayer at hask
  split at hask
  split at hask
  next => exact absurd hask asks_pure
  next hnot => exact ⟨eq_false_of_ne_true hnot, hask⟩

/-- A session of the request's cookie was read, as valid at the time. -/
def SignedIn (site : Site) (request : Request) (user : SessionUser) (h : History) : Prop :=
  ∃ token now lastSeen, cookieToken site.base64 request.headers sessionCookie = some token ∧
    ⟨.unix, now⟩ ∈ h ∧
    ⟨.readSession (site.sha256 (asBytes token)) now, .ok (some (user, lastSeen))⟩ ∈ h

theorem SignedIn.mono {user : SessionUser} {h' : History} (hsigned : SignedIn site request user h)
    (hsub : h ⊆ h') : SignedIn site request user h' := by
  obtain ⟨token, now, lastSeen, htoken, hnow, hread⟩ := hsigned
  exact ⟨token, now, lastSeen, htoken, hsub hnow, hsub hread⟩

/-- Only the headers of the request count. -/
theorem SignedIn.congr {user : SessionUser} {request' : Request}
    (hsigned : SignedIn site request' user h)
    (heq : request'.headers = request.headers) : SignedIn site request user h := by
  rwa [SignedIn, heq] at hsigned

theorem only_current {headers : HeaderMap} {now : Time} :
    (current site headers now).Only (·.isOwn) := by
  unfold current
  split
  · exact only_pure
  · refine only_bind (only_perform rfl) fun found => ?_
    split
    · exact only_pure
    · exact only_pure
    · split
      · refine only_bind (only_perform rfl) fun touched => ?_
        split
        · exact only_pure
        · exact only_pure
      · exact only_pure

/-- The user of `current` is one that was read. -/
theorem read_of_current {headers : HeaderMap} {now : Time} {user : SessionUser}
    (hrun : (current site headers now).Runs h (.ok (some user))) :
    ∃ token lastSeen, cookieToken site.base64 headers sessionCookie = some token ∧
      ⟨.readSession (site.sha256 (asBytes token)) now, .ok (some (user, lastSeen))⟩ ∈ h := by
  unfold current at hrun
  split at hrun
  next => cases hrun.2
  next token htoken =>
    obtain ⟨found, h', rfl, hfound⟩ := runs_perform.mp hrun
    split at hfound
    next => cases hfound.2
    next => cases hfound.2
    next user' lastSeen =>
      refine ⟨token, lastSeen, htoken, ?_⟩
      split at hfound
      next =>
        obtain ⟨touched, h'', rfl, htouched⟩ := runs_perform.mp hfound
        split at htouched
        · cases htouched.2
        · cases htouched.2
          exact List.mem_cons_self
      next =>
        cases hfound.2
        exact List.mem_cons_self

theorem only_checkCsrf {csrf : Bytes} : (checkCsrf site request csrf).Only (·.isOwn) := by
  refine only_bind ?_ fun bytes => ?_
  · unfold Body.read
    split
    · exact only_perform rfl
    · exact only_pure
  · split
    · exact only_pure
    · exact only_pure

theorem carriesToken_of_checkCsrf {csrf : Bytes} {request' : Request}
    (hrun : (checkCsrf site request csrf).Runs h (some request')) :
    ∃ bytes, request' = { request with body := .bytes bytes } ∧
      CarriesToken site request.headers bytes csrf := by
  obtain ⟨h₁, h₂, bytes, -, -, hrest⟩ := runs_bind.mp hrun
  split at hrest
  next => cases hrest.2
  next bytes =>
    have heq := hrest.2
    split at heq
    next haccepted =>
      cases heq
      exact ⟨bytes, rfl, (csrfAccepted_iff.mp haccepted).1⟩
    next => cases heq

/-- The body behind the session guard: as it was, or read and found to carry the session's token. -/
def Guarded (site : Site) (request : Request) (user : SessionUser) (body : Body) : Prop :=
  if request.method.isSafe then body = request.body
  else ∃ bytes, body = .bytes bytes ∧ CarriesToken site request.headers bytes user.csrf

theorem asks_sessionLayer (hask : (sessionLayer site next request).Asks h (.handle handler r)) :
    ∃ user body, SignedIn site request user h ∧ Guarded site request user body ∧
      ∃ h', h'.Sublist h ∧ (next { request with body, user := some user }).Asks h'
        (.handle handler r) := by
  rcases asks_perform.mp hask with ⟨-, heq⟩ | ⟨now, h', rfl, hnow⟩
  · cases heq
  rcases asks_bind.mp hnow with hcurrent | ⟨h₁, h₂, found, rfl, hrun, hfound⟩
  · cases only_current _ _ hcurrent
  split at hfound
  next => exact absurd hfound asks_pure
  next => exact absurd hfound asks_pure
  next user =>
    obtain ⟨token, lastSeen, htoken, hread⟩ := read_of_current hrun
    have hsigned : SignedIn site request user (⟨.unix, now⟩ :: (h₁ ++ h₂)) :=
      ⟨token, now, lastSeen, htoken, List.mem_cons_self,
        List.mem_cons_of_mem _ (List.mem_append_left _ hread)⟩
    split at hfound
    next hsafe =>
      refine ⟨user, request.body, hsigned, ?_, h₂, (List.sublist_append_right _ _).cons _, hfound⟩
      rw [Guarded, if_pos hsafe]
    next hwrites =>
      rcases asks_bind.mp hfound with hcheck | ⟨h₃, h₄, checked, rfl, hcheck, hchecked⟩
      · cases only_checkCsrf _ _ hcheck
      · split at hchecked
        next => exact absurd hchecked asks_pure
        next request' =>
          obtain ⟨bytes, rfl, hcarries⟩ := carriesToken_of_checkCsrf hcheck
          refine ⟨user, .bytes bytes, hsigned, ?_, h₄, ?_, hchecked⟩
          · rw [Guarded, if_neg hwrites]
            exact ⟨bytes, rfl, hcarries⟩
          · exact ((List.sublist_append_right _ _).trans (List.sublist_append_right _ _)).cons _

theorem asks_adminLayer (hask : (adminLayer next request).Asks h e) :
    (∃ user, request.user = some user ∧ user.role = .admin) ∧ (next request).Asks h e := by
  unfold adminLayer at hask
  split at hask
  next user huser =>
    split at hask
    next hrole => exact ⟨⟨user, huser, hrole⟩, hask⟩
    next => exact absurd hask asks_pure
  next => exact absurd hask asks_pure

theorem only_noteAll {warnings : List Warning} : (noteAll warnings).Only (·.isOwn) := by
  induction warnings with
  | nil => exact only_pure
  | cons warning warnings ih => exact only_bind (only_perform rfl) fun _ => ih

theorem asks_clientAddressLayer
    (hask : (clientAddressLayer site next request).Asks h (.handle handler r)) :
    ∃ peer, request.peer = some peer ∧ ∃ h', h'.Sublist h ∧
      (next { request with
        client :=
          some (resolve site.ip peer (request.headers.getAll "x-forwarded-for".toList)
            site.trusted).client
        }).Asks h' (.handle handler r) := by
  unfold clientAddressLayer at hask
  split at hask
  next => exact absurd hask asks_pure
  next peer hpeer =>
    rcases asks_bind.mp hask with hnote | ⟨h₁, h₂, -, rfl, -, hnext⟩
    · cases only_noteAll _ _ hnote
    · exact ⟨peer, hpeer, h₂, List.sublist_append_right _ _, hnext⟩

end Handled

/-! ## What the layers ask -/

section Asked
variable {p : Op → Prop} (hown : ∀ e : Op, e.isOwn = true → p e)

theorem only_cacheLayer {cache : CacheClass} {csp : Csp} (hnext : (next request).Only p) :
    (cacheLayer cache csp next request).Only p := only_bind hnext fun _ => only_pure

theorem only_errorsLayer {format : ErrorFormat} (hnext : (next request).Only p) :
    (errorsLayer site format next request).Only p := only_bind hnext fun _ => only_pure

theorem only_originLayer {headerless : Headerless} (hnext : (next request).Only p) :
    (originLayer headerless next request).Only p := by
  unfold originLayer
  split
  · exact hnext
  split
  · split
    · exact hnext
    · exact only_pure
  · exact only_pure

theorem only_multipartLayer {multipart : Multipart} (hnext : (next request).Only p) :
    (multipartLayer multipart next request).Only p := by
  unfold multipartLayer
  split
  split
  · exact only_pure
  · exact hnext

theorem only_adminLayer (hnext : (next request).Only p) : (adminLayer next request).Only p := by
  unfold adminLayer
  split
  · split
    · exact hnext
    · exact only_pure
  · exact only_pure

include hown

theorem only_rateLayer {classes : List RateClass} (hnext : (next request).Only p) :
    (rateLayer classes next request).Only p := by
  unfold rateLayer
  split
  · exact only_pure
  · refine only_bind (only_perform (hown .now rfl)) fun now => only_bind (only_takeRates.mono hown)
      fun refused => ?_
    split
    · exact only_pure
    · exact hnext

theorem only_sessionLayer (hnext : ∀ request, (next request).Only p) :
    (sessionLayer site next request).Only p := by
  refine only_bind (only_perform (hown .unix rfl)) fun now => only_bind (only_current.mono hown)
    fun found => ?_
  split
  · exact only_pure
  · exact only_pure
  · split
    · exact hnext _
    · refine only_bind (only_checkCsrf.mono hown) fun checked => ?_
      split
      · exact only_pure
      · exact hnext _

theorem only_clientAddressLayer (hnext : ∀ request, (next request).Only p) :
    (clientAddressLayer site next request).Only p := by
  unfold clientAddressLayer
  split
  · exact only_pure
  · exact only_bind (only_noteAll.mono hown) fun _ => hnext _

end Asked

end Kohaku.Http
