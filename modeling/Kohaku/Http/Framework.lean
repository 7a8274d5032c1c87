import Kohaku.Ask.Program
import Kohaku.Routing.Table

/-!
# The web framework

A service asks its environment for whatever it does not compute: the host map, tokens of the
limiter, the session, the count of a rejection and the answer of a handler. So other requests may do
anything in between, and a request may be dropped at each of these points.

axum, matchit and tower-http are not part of the program. What the program relies on of them are the
fields and laws of `Framework`: which route a router takes, what it does to the response of that
route, and the method router, the body limit and the deadline as services. `Framework.sample` has
functions that evaluate for all of them.
-/

namespace Kohaku.Http

open Routing Limits Ask Ask.Program

/-! ## Operations -/

/-- What a service asks its environment. -/
inductive Op
  /-- The host map of the moment. -/
  | hostMap
  | note (warning : Warning)
  /-- The monotonic clock. -/
  | now
  /-- `Limiter::admit`. -/
  | admitDemand (demand : Demand) (now : Instant)
  /-- The clock in unix seconds. -/
  | unix
  /-- The read of `session::current`. -/
  | readSession (hash : Bytes) (now : Time)
  /-- The write of `session::current`. -/
  | touchSession (id : Nat) (now : Time)
  /-- The body as it arrives, up to the cap. -/
  | readBody (cap : Option Nat)
  | handle (handler : Handler) (request : Request)
  /-- Whether the request's deadline has passed. -/
  | timer
  | increment (reason : Reason)

/-- The answers; a failure of the database is `error`. -/
abbrev Answer : Op → Type
  | .hostMap => HostMap
  | .note _ => Unit
  | .now => Instant
  | .admitDemand _ _ => Bool
  | .unix => Time
  | .readSession _ _ => Except Unit (Option (SessionUser × Time))
  | .touchSession _ _ => Except Unit Unit
  | .readBody _ => Option Bytes
  | .handle _ _ => Response
  | .timer => Bool
  | .increment _ => Unit

/-- A computation of a service. -/
abbrev Serving (α : Type) := Program Op Answer α

/-- Asked by a layer on its own behalf: neither the handler nor the count. -/
def Op.isOwn : Op → Bool
  | .handle _ _ | .increment _ => false
  | _ => true

/-- What was asked and answered. -/
abbrev History := List (Ask.Event Op Answer)

/-- A service: what a layer is around, and what it makes of it. -/
abbrev Next := Request → Serving Response

/-! ## Bodies -/

/-- The name of the `Content-Type` header. -/
def contentType : Str := "content-type".toList

/-- `str::parse::<usize>`: digits, with an optional sign. -/
def parseUsize (text : Str) : Option Nat :=
  let digits := match text with
    | '+' :: rest => rest
    | _ => text
  if isDigits digits then parseDigits 64 digits else none

/-- The `Content-Length` of a request. -/
def contentLength (headers : HeaderMap) : Option Nat := do
  let value ← (headers.getAll "content-length".toList).head?
  let text ← toStr value
  parseUsize text

/-- The request with a body that gives at most `n` bytes. -/
def Request.limited (request : Request) (n : Nat) : Request :=
  match request.body with
  | .incoming _ => { request with body := .incoming (some n) }
  | .bytes _ => request

@[simp] theorem Request.method_limited (request : Request) (n : Nat) :
    (request.limited n).method = request.method := by
  unfold Request.limited
  split <;> rfl

@[simp] theorem Request.headers_limited (request : Request) (n : Nat) :
    (request.limited n).headers = request.headers := by
  unfold Request.limited
  split <;> rfl

/-! ## What is relied on -/

/-- What a router may do to the response of a route: it sets `Allow` and `Content-Length`, and it
takes the body of an answer to HEAD and of a success away. -/
structure Finished (method : Method) (inner response : Response) : Prop where
  status : response.status = inner.status
  rejected : response.rejected = inner.rejected
  hashedAsset : response.hashedAsset = inner.hashedAsset
  ownBody : response.ownBody = inner.ownBody
  headers : ∀ name, name ≠ "allow".toList → name ≠ "content-length".toList →
    response.headers.getAll name = inner.headers.getAll name
  body : method ≠ .head → inner.isError = true → response.body = inner.body

/-- axum, matchit and tower-http, as far as the program uses them. -/
structure Framework where
  /-- The route that a router takes for a path (matchit). -/
  select : List Route → Str → Option Route
  /-- A route that is taken is registered and matches. -/
  mem_of_select : ∀ {routes path r}, select routes path = some r →
    r ∈ routes ∧ ∃ segs, segments path = some segs ∧ matchSegments r.pattern segs = true
  /-- One is taken when one matches. -/
  select_isSome : ∀ {routes path segs r}, segments path = some segs → r ∈ routes →
    matchSegments r.pattern segs = true → (select routes path).isSome = true
  /-- `Router` as a service, by the service of the route that it takes. -/
  respond : Option Next → Next
  asks_respond : ∀ {service request h e}, (respond service request).Asks h e →
    ∃ next, service = some next ∧ (next request).Asks h e
  runs_respond : ∀ {next request h response}, (respond (some next) request).Runs h response →
    ∃ inner, (next request).Runs h inner ∧ Finished request.method inner response
  /-- `MethodRouter` as a service. -/
  callMethods : MethodRouter → Next
  /-- It runs the handler of the method, on the request as it is. -/
  asks_callMethods : ∀ {methods request h e}, (callMethods methods request).Asks h e →
    ∃ handler, methods.handler request.method = some handler ∧ e = .handle handler request
  /-- `RequestBodyLimitLayer`. -/
  bodyLimitLayer : Nat → Next → Next
  /-- A body that is announced as longer than the cap is refused, any other one is cut off at the
  cap. -/
  asks_bodyLimitLayer : ∀ {cap next request h e}, (bodyLimitLayer cap next request).Asks h e →
    (∀ n, contentLength request.headers = some n → n ≤ cap) ∧
      ∃ n ≤ cap, (next (request.limited n)).Asks h e
  runs_bodyLimitLayer : ∀ {cap next request h response},
    (bodyLimitLayer cap next request).Runs h response →
    response.status = 413 ∨ ∃ n ≤ cap, (next (request.limited n)).Runs h response
  /-- `TimeoutLayer`. -/
  deadlineLayer : Next → Next
  /-- It looks at the timer between the operations of the service inside. -/
  asks_deadlineLayer : ∀ {next request h e}, (deadlineLayer next request).Asks h e →
    e = .timer ∨ ∃ h', h'.Sublist h ∧ (next request).Asks h' e
  runs_deadlineLayer : ∀ {next request h response}, (deadlineLayer next request).Runs h response →
    response.status = 408 ∨ ∃ h', h'.Sublist h ∧ (next request).Runs h' response

section
variable {F : Framework} {next : Next} {request r : Request} {h : History} {handler : Handler}
  {p : Op → Prop}

theorem Framework.asks_deadlineLayer_handle
    (hask : (F.deadlineLayer next request).Asks h (.handle handler r)) :
    ∃ h', h'.Sublist h ∧ (next request).Asks h' (.handle handler r) :=
  (F.asks_deadlineLayer hask).resolve_left fun heq => by cases heq

theorem Framework.asks_callMethods_handle {methods : MethodRouter}
    (hask : (F.callMethods methods request).Asks h (.handle handler r)) :
    methods.handler request.method = some handler ∧ r = request := by
  obtain ⟨handler', hhandler, heq⟩ := F.asks_callMethods hask
  cases heq
  exact ⟨hhandler, rfl⟩

theorem Framework.only_respond {service : Option Next}
    (hservice : ∀ next ∈ service, (next request).Only p) : (F.respond service request).Only p := by
  intro h e hask
  obtain ⟨next, hnext, hask⟩ := F.asks_respond hask
  exact hservice next hnext h e hask

theorem Framework.only_callMethods {methods : MethodRouter}
    (hhandle : ∀ handler r, p (.handle handler r)) : (F.callMethods methods request).Only p := by
  intro h e hask
  obtain ⟨handler, -, rfl⟩ := F.asks_callMethods hask
  exact hhandle handler request

theorem Framework.only_bodyLimitLayer {cap : Nat} (hnext : ∀ request, (next request).Only p) :
    (F.bodyLimitLayer cap next request).Only p := by
  intro h e hask
  obtain ⟨-, n, -, hask⟩ := F.asks_bodyLimitLayer hask
  exact hnext _ h e hask

theorem Framework.only_deadlineLayer (htimer : p .timer) (hnext : (next request).Only p) :
    (F.deadlineLayer next request).Only p := by
  intro h e hask
  rcases F.asks_deadlineLayer hask with rfl | ⟨h', -, hask⟩
  · exact htimer
  · exact hnext h' e hask

end

/-! ## Functions that evaluate -/

/-- The length as `Content-Length` where there is none, and no body for HEAD. -/
def finish (method : Method) (response : Response) : Response :=
  let length := "content-length".toList
  let headers :=
    if response.headers.getAll length = [] then
      insert response.headers length (asBytes (Nat.toDigits 10 response.body.length))
    else response.headers
  { response with headers, body := if method = .head then [] else response.body }

/-- A router: 404 without a route. -/
def respond (service : Option Next) : Next := fun request =>
  match service with
  | some next => do
    let response ← next request
    return finish request.method response
  | none => return finish request.method (.ofStatus 404)

/-- The handler of the method, or 405. -/
def callMethods (methods : MethodRouter) : Next := fun request =>
  match methods.handler request.method with
  | some handler => perform (Op.handle handler request)
  | none => return .ofStatus 405

/-- The answer of `RequestBodyLimitLayer`. -/
def payloadTooLarge : Response :=
  { Response.ofStatus 413 with
    headers := [(contentType, asBytes "text/plain; charset=utf-8".toList)]
    body := asBytes "length limit exceeded".toList }

/-- Too long a body is refused, or cut off when it is read. -/
def bodyLimitLayer (cap : Nat) (next : Next) : Next := fun request =>
  match contentLength request.headers with
  | some length =>
    if cap < length then return payloadTooLarge else next (request.limited (min cap length))
  | none => next (request.limited cap)

/-- The service inside as long as the timer has not run down, else 408. -/
def deadlineLayer (next : Next) : Next := fun request => do
  match ← (next request).within .timer id with
  | some response => return response
  | none => return .ofStatus 408

section
variable {next : Next} {request : Request} {h : History} {e : Op} {response : Response}

theorem finished_finish (method : Method) (response : Response) :
    Finished method response (finish method response) := by
  refine ⟨rfl, rfl, rfl, rfl, fun name _ hlength => ?_, fun hhead _ => if_neg hhead⟩
  dsimp only [finish]
  split
  · exact getAll_insert_of_ne hlength
  · rfl

theorem asks_respond {service : Option Next} (hask : (respond service request).Asks h e) :
    ∃ next, service = some next ∧ (next request).Asks h e := by
  cases service with
  | none => exact absurd hask asks_pure
  | some next => exact ⟨next, rfl, asks_bind_pure.mp hask⟩

theorem runs_respond (hrun : (respond (some next) request).Runs h response) :
    ∃ inner, (next request).Runs h inner ∧ Finished request.method inner response := by
  obtain ⟨inner, hinner, rfl⟩ := runs_bind_pure.mp hrun
  exact ⟨inner, hinner, finished_finish _ inner⟩

theorem asks_callMethods {methods : MethodRouter} (hask : (callMethods methods request).Asks h e) :
    ∃ handler, methods.handler request.method = some handler ∧ e = .handle handler request := by
  unfold callMethods at hask
  split at hask
  next handler hhandler =>
    rcases hask with ⟨-, heq⟩ | ⟨response, h', -, hpure⟩
    · exact ⟨handler, hhandler, heq⟩
    · exact absurd hpure asks_pure
  next => exact absurd hask asks_pure

theorem asks_bodyLimitLayer {cap : Nat} (hask : (bodyLimitLayer cap next request).Asks h e) :
    (∀ n, contentLength request.headers = some n → n ≤ cap) ∧
      ∃ n ≤ cap, (next (request.limited n)).Asks h e := by
  unfold bodyLimitLayer at hask
  split at hask
  next length hlength =>
    split at hask
    next => exact absurd hask asks_pure
    next hle =>
      refine ⟨fun n hn => ?_, min cap length, Nat.min_le_left _ _, hask⟩
      rw [hlength, Option.some.injEq] at hn
      omega
  next hlength =>
    refine ⟨fun n hn => ?_, cap, Nat.le_refl cap, hask⟩
    rw [hlength] at hn
    cases hn

theorem runs_bodyLimitLayer {cap : Nat} (hrun : (bodyLimitLayer cap next request).Runs h response) :
    response.status = 413 ∨ ∃ n ≤ cap, (next (request.limited n)).Runs h response := by
  unfold bodyLimitLayer at hrun
  split at hrun
  next length _ =>
    split at hrun
    next =>
      rw [hrun.2]
      exact .inl rfl
    next => exact .inr ⟨min cap length, Nat.min_le_left _ _, hrun⟩
  next => exact .inr ⟨cap, Nat.le_refl cap, hrun⟩

theorem asks_deadlineLayer (hask : (deadlineLayer next request).Asks h e) :
    e = .timer ∨ ∃ h', h'.Sublist h ∧ (next request).Asks h' e := by
  rcases asks_bind.mp hask with hask | ⟨h₁, h₂, response, rfl, -, hask⟩
  · exact or_iff_not_imp_left.mpr (asks_of_within hask)
  · split at hask
    · exact absurd hask asks_pure
    · exact absurd hask asks_pure

theorem runs_deadlineLayer (hrun : (deadlineLayer next request).Runs h response) :
    response.status = 408 ∨ ∃ h', h'.Sublist h ∧ (next request).Runs h' response := by
  obtain ⟨h₁, h₂, answered, rfl, hwithin, hrest⟩ := runs_bind.mp hrun
  split at hrest
  next =>
    obtain ⟨rfl, rfl⟩ := hrest
    obtain ⟨h', hsub, hnext⟩ := runs_of_within hwithin
    exact .inr ⟨h', hsub.trans (List.sublist_append_left _ _), hnext⟩
  next =>
    rw [hrest.2]
    exact .inl rfl

end

/-- The framework of these functions. -/
def Framework.sample : Framework where
  select := Http.select
  mem_of_select := Http.mem_of_select
  select_isSome := Http.select_isSome
  respond := Http.respond
  asks_respond := Http.asks_respond
  runs_respond := Http.runs_respond
  callMethods := Http.callMethods
  asks_callMethods := Http.asks_callMethods
  bodyLimitLayer := Http.bodyLimitLayer
  asks_bodyLimitLayer := Http.asks_bodyLimitLayer
  runs_bodyLimitLayer := Http.runs_bodyLimitLayer
  deadlineLayer := Http.deadlineLayer
  asks_deadlineLayer := Http.asks_deadlineLayer
  runs_deadlineLayer := Http.runs_deadlineLayer

end Kohaku.Http
