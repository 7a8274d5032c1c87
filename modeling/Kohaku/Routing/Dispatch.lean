import Kohaku.Routing.Hosts

/-!
# Dispatch, TLS ask and canonical redirect

The three readers of the host map: the dispatcher, which chooses a router from `Host`; the TLS ask,
which answers for the `domain` of its query; and the redirect of `/p/{slug}` to the project's custom
domain.
-/

namespace Kohaku.Routing

open Projects

/-! ## Requests -/

/-- The methods that the dispatcher tells apart. -/
inductive Method
  | get
  | head
  | other
  deriving DecidableEq, Repr

/-- A character that a request's path or query can have: no control, no space. -/
def isUriChar (c : Char) : Bool := 0x21 ≤ c.toNat && c.toNat ≠ 0x7F

/-- The request target. -/
structure Uri where
  path : Str
  query : Option Str
  valid : ∀ c ∈ path ++ query.getD [], isUriChar c = true

/-- The query as it is appended to a location. -/
def Uri.queryText (uri : Uri) : Str :=
  match uri.query with
  | some query => '?' :: query
  | none => []

/-- What the dispatcher reads of a request. -/
structure Request where
  method : Method
  uri : Uri
  headers : HeaderMap

/-- The one value of a header; an error when it is repeated. -/
def single (headers : HeaderMap) (name : Str) : Except Unit (Option Bytes) :=
  match headers.getAll name with
  | [] => .ok none
  | [value] => .ok (some value)
  | _ => .error ()

/-- A main-host GET or HEAD for `/admin` or below passes resource isolation. -/
def adminIsolationAllows (method : Method) (path : Str) (headers : HeaderMap) : Bool :=
  let admin := path = "/admin".toList || "/admin/".toList.isPrefixOf path
  if !admin || (method ≠ .get && method ≠ .head) then true
  else
    match single headers "sec-fetch-site".toList with
    | .error _ => false
    | .ok none => true
    | .ok (some site) =>
      if site = asBytes "same-origin".toList || site = asBytes "none".toList then true
      else if site = asBytes "same-site".toList || site = asBytes "cross-site".toList then
        match single headers "sec-fetch-mode".toList with
        | .ok (some mode) => mode = asBytes "navigate".toList
        | _ => false
      else false

/-! ## The dispatcher -/

/-- A project-host origin. -/
def projectOrigin (host : Str) : Str := "https://".toList ++ host

/-- `HEALTHZ`. -/
def healthz : Str := "/healthz".toList

/-- `TLS_ASK`. -/
def tlsAskPath : Str := "/.well-known/kohaku/tls-ask".toList

/-- The paths matched before host routing. -/
def internalPaths : List Str := [healthz, tlsAskPath]

/-- Where a request goes; a router gets the origin of the host it was routed by. -/
inductive Dispatch
  | internal
  /-- 421. -/
  | misdirected
  /-- 403: the main host refuses it by admin isolation. -/
  | isolated
  | main (origin : Str)
  | project (id : Nat) (origin : Str)
  deriving DecidableEq

/-- `Dispatcher::call`. -/
def dispatch (map : HostMap) (base : BaseUrl) (request : Request) : Dispatch :=
  if internalPaths.contains request.uri.path then .internal
  else
    match requestHost request.headers with
    | none => .misdirected
    | some host =>
      match map.get host with
      | none => .misdirected
      | some .main =>
        if adminIsolationAllows request.method request.uri.path request.headers then
          .main base.origin
        else .isolated
      | some (.project id) => .project id (projectOrigin host)

/-! ## The TLS ask -/

/-- The value of an ASCII hexadecimal digit. -/
def hexDigit (b : UInt8) : Option UInt8 :=
  if 0x30 ≤ b && b ≤ 0x39 then some (b - 0x30)
  else if 0x61 ≤ b && b ≤ 0x66 then some (b - 0x61 + 10)
  else if 0x41 ≤ b && b ≤ 0x46 then some (b - 0x41 + 10)
  else none

/-- `u8::from_str_radix(_, 16)` of two characters: a leading `+` is a sign. -/
def fromStrRadix (x y : UInt8) : Option UInt8 :=
  if x = 0x2B then hexDigit y
  else do
    let hi ← hexDigit x
    let lo ← hexDigit y
    return 16 * hi + lo

/-- The bytes of `percent_decode`, before they are read as text. -/
def percentDecodeBytes : Bytes → Option Bytes
  | [] => some []
  | b :: rest =>
    if b = 0x25 then
      match rest with
      | x :: y :: rest => do
        let _ ← fromUtf8 [x, y]
        let value ← fromStrRadix x y
        let out ← percentDecodeBytes rest
        return value :: out
      | _ => none
    else do
      let out ← percentDecodeBytes rest
      return b :: out

/-- `percent_decode`. -/
def percentDecode (text : Str) : Option Str := do
  let out ← percentDecodeBytes (asBytes text)
  fromUtf8 out

/-- `str::split_once('=')`, with an empty value when there is none. -/
def splitPair (pair : Str) : Str × Str :=
  (pair.takeWhile (· ≠ '='), (pair.dropWhile (· ≠ '=')).tail)

/-- The loop of `single_domain`: the one value of `domain`, so far `found`; `none` when it is
repeated. -/
def findDomain (found : Option Str) : List Str → Option (Option Str)
  | [] => some found
  | pair :: pairs =>
    let (name, value) := splitPair pair
    if name ≠ "domain".toList then findDomain found pairs
    else if found.isSome then none
    else findDomain (some value) pairs

/-- The percent-decoded value of the one `domain` parameter. -/
def singleDomain (query : Str) : Option Str := do
  let found ← findDomain none (query.splitOn '&')
  let value ← found
  let decoded ← percentDecode value
  if decoded.isEmpty then none else some decoded

example : singleDomain "x=1&domain=a%2Eb".toList = some "a.b".toList := by decide +kernel
example : singleDomain "domain=a&domain=b".toList = none := by decide +kernel

/-- Whether the TLS ask answers 200, else 404. -/
def tlsAsk (map : HostMap) (query : Option Str) : Bool :=
  (query.bind singleDomain).any fun domain =>
    match map.get (normalize domain) with
    | some (.project _) => true
    | _ => false

/-! ## The canonical redirect -/

/-- What `canonical` answers. -/
inductive Canonical
  /-- 404. -/
  | notFound
  /-- 400: the location is no header value. -/
  | badRequest
  /-- 308. -/
  | redirect (location : Str)
  deriving DecidableEq

/-- A byte of a header value. -/
def isHeaderByte (b : UInt8) : Bool := (0x20 ≤ b && b ≠ 0x7F) || b = 0x09

/-- The rest of a path is under `api`. -/
def underApi (rest : Str) : Bool := rest = "/api".toList || "/api/".toList.isPrefixOf rest

/-- `canonical`: a path below `/p/{slug}` goes to the project's custom domain. -/
def canonical (map : HostMap) (uri : Uri) : Canonical :=
  match uri.path.dropPrefix? "/p/".toList with
  | none => .notFound
  | some after =>
    let slug := after.takeWhile (· ≠ '/')
    let rest := after.dropWhile (· ≠ '/')
    if underApi rest then .notFound
    else
      match map.domain slug with
      | none => .notFound
      | some host =>
        let path := if rest.isEmpty then ['/'] else rest
        let location := projectOrigin host ++ path ++ uri.queryText
        if (asBytes location).all isHeaderByte then .redirect location else .badRequest

end Kohaku.Routing
