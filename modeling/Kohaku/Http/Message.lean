import Kohaku.Auth.Cookies
import Kohaku.Auth.Session
import Kohaku.Logging
import Kohaku.Network.ClientIp
import Kohaku.Routing.Dispatch

/-!
# Requests and responses

What the layers around a handler read of a request and set on a response. A header is replaced by
removing every value of its name first, so the result has it once. The marks that handlers and
layers leave on a response for the layers further out (axum's extensions) are fields.
-/

namespace Kohaku.Http

open Routing Limits

/-! ## Headers -/

section
variable {headers : HeaderMap} {name name' : Str} {value : Bytes}

/-- `HeaderMap::remove`. -/
def remove (headers : HeaderMap) (name : Str) : HeaderMap := headers.filter fun h => h.1 ≠ name

/-- `HeaderMap::insert`: replaces every value of the name. -/
def insert (headers : HeaderMap) (name : Str) (value : Bytes) : HeaderMap :=
  remove headers name ++ [(name, value)]

@[simp] theorem getAll_remove_self : (remove headers name).getAll name = [] := by
  simp [HeaderMap.getAll, remove, List.filter_filter]

theorem getAll_remove_of_ne (h : name' ≠ name) :
    (remove headers name).getAll name' = headers.getAll name' := by
  rw [HeaderMap.getAll, remove, List.filter_filter, HeaderMap.getAll]
  congr 1
  refine List.filter_congr fun entry _ => ?_
  by_cases hentry : entry.1 = name'
  · simp [hentry, h]
  · simp [hentry]

@[simp] theorem getAll_insert_self : (insert headers name value).getAll name = [value] := by
  have hremoved : ((remove headers name).filter fun h => h.1 = name).map Prod.snd = [] :=
    getAll_remove_self
  simp [HeaderMap.getAll, insert, List.filter_append, hremoved]

theorem getAll_insert_of_ne (h : name' ≠ name) :
    (insert headers name value).getAll name' = headers.getAll name' := by
  have hremoved : ((remove headers name).filter fun h => h.1 = name').map Prod.snd =
      headers.getAll name' :=
    getAll_remove_of_ne h
  simp [HeaderMap.getAll, insert, List.filter_append, Ne.symm h] at hremoved ⊢
  exact hremoved

end

/-- `eq_ignore_ascii_case` with a lowercase text. -/
def isCaseless (bytes : Bytes) (text : Str) : Bool :=
  bytes.map (fun b => if 0x41 ≤ b && b ≤ 0x5A then b + 32 else b) = asBytes text

/-- `[u8]::trim_ascii`. -/
def trimAscii (bytes : Bytes) : Bytes :=
  let blank (b : UInt8) : Bool := b = 0x20 || b = 0x09 || b = 0x0A || b = 0x0C || b = 0x0D
  ((bytes.dropWhile blank).reverse.dropWhile blank).reverse

/-! ## Requests -/

/-- `http::Method`. -/
inductive Method
  | get
  | head
  | post
  | other (name : Str)
  deriving DecidableEq, Repr

/-- The methods that change nothing. -/
def Method.isSafe (method : Method) : Bool := method = .get || method = .head

/-- The method as the dispatcher sees it. -/
def Method.routing : Method → Routing.Method
  | .get => .get
  | .head => .head
  | _ => .other

/-- Whether a request with the method draws from the class. -/
def appliesTo (c : RateClass) (method : Method) : Bool :=
  match c with
  | .read => method = .get || method = .head
  | .login | .reset => method = .post

/-- The host-map entry a request was routed by, with the origin a state-changing request must come
from. -/
structure RoutedHost where
  entry : HostEntry
  origin : Str
  deriving DecidableEq

/-- A request body: still to be read, up to a cap, or read and put back. -/
inductive Body
  | incoming (cap : Option Nat)
  | bytes (bytes : Bytes)
  deriving DecidableEq

/-- A request with its extensions. -/
structure Request where
  method : Method
  uri : Uri
  headers : HeaderMap
  body : Body
  /-- `PeerAddr`, set by the server. -/
  peer : Option IpAddr
  /-- `ClientAddr`. -/
  client : Option IpAddr
  routed : Option RoutedHost
  project : Option Nat
  user : Option SessionUser

/-- The request as the dispatcher sees it. -/
def Request.routing (request : Request) : Routing.Request :=
  ⟨request.method.routing, request.uri, request.headers⟩

/-! ## Responses -/

/-- A response with its extensions. -/
structure Response where
  status : Nat
  headers : HeaderMap
  body : Bytes
  rejected : Option Reason
  /-- Serves a content-hashed asset. -/
  hashedAsset : Bool
  /-- The handler wrote the body of an error itself. -/
  ownBody : Bool
  deriving DecidableEq

namespace Response

/-- `StatusCode::into_response`. -/
def ofStatus (status : Nat) : Response := ⟨status, [], [], none, false, false⟩

/-- The response marked as a rejection. -/
@[simps]
def mark (response : Response) (reason : Reason) : Response :=
  { response with rejected := some reason }

/-- An answer of a bare status that is counted as a rejection. -/
def rejection (status : Nat) (reason : Reason) : Response := (ofStatus status).mark reason

/-- `see_other`: 303 to a fixed path. -/
def seeOther (path : Str) : Response :=
  { ofStatus 303 with headers := [("location".toList, asBytes path)] }

/-- `StatusCode::is_client_error`. -/
def isClientError (response : Response) : Bool := 400 ≤ response.status && response.status < 500

/-- `StatusCode::is_server_error`. -/
def isServerError (response : Response) : Bool := 500 ≤ response.status && response.status < 600

/-- A response that the error layer looks at. -/
def isError (response : Response) : Bool := response.isClientError || response.isServerError

theorem isError_congr {response response' : Response} (h : response'.status = response.status) :
    response'.isError = response.isError := by
  simp only [isError, isClientError, isServerError, h]

end Response

/-- The answer when a bound is full. -/
def busy (bound : Bound) : Response := .rejection 503 (.busy bound)

end Kohaku.Http
