import Kohaku.Http.Layers

/-!
# The service built from the table

`layered` puts a route's method router under its declared layers, the dispatcher sends a request to
a router by its path and the host map, and the header layer is around everything. What a handler may
rely on is proved about every run of the service, complete or left in the middle, and for every
answer of the database, the limiter and the clocks: its request was routed to a route that has it
for the method, and passed each check that the route declares (`asks_service`). The two internal
endpoints are found by their path alone and have only the body cap.
-/

namespace Kohaku.Http

open Routing Limits Ask Ask.Program

/-! ## Assembly -/

/-- The guard of a route's access. -/
def guard (site : Site) (access : Access) (methods : Next) : Next :=
  match access with
  | .everyone => methods
  | .session => sessionLayer site methods
  | .admin => sessionLayer site (adminLayer methods)

/-- A route's method router under its declared layers, outermost first: cache class, error body,
deadline, origin check, rate classes, multipart, body cap, access. -/
def layered (site : Site) (route : Route) : Next :=
  let methods :=
    site.bodyLimitLayer route.body.cap (guard site route.access (site.callMethods route.methods))
  if route.host = .internal then
    cacheLayer route.cache route.csp (errorsLayer site route.errors methods)
  else
    cacheLayer route.cache route.csp (errorsLayer site route.errors (site.deadlineLayer
      (originLayer route.headerless
        (rateLayer route.rate (multipartLayer route.multipart methods)))))

/-- The route of a path in a router. -/
def routeOf (site : Site) (routes : List Route) (fallback : Option Route) (path : Str) :
    Option Route :=
  (site.select routes path).or fallback

/-- A `Router` with the layer around each of its routes. -/
def callRouter (site : Site) (layer : Next → Next) (routes : List Route) (fallback : Option Route) :
    Next :=
  fun request =>
    site.respond ((routeOf site routes fallback request.uri.path).map fun route =>
      layer (layered site route)) request

/-- A router of the main or of a project host. -/
def hostRouter (site : Site) (routes : List Route) (fallback : Option Route) : Next :=
  callRouter site (clientAddressLayer site) routes fallback

/-- The answer for an unknown host. -/
def misdirected (site : Site) : Response := (errorResponse site 421 .html).mark .unknownHost

/-- The answer of admin isolation. -/
def isolated (site : Site) : Response := (errorResponse site 403 .html).mark .adminIsolation

/-- `Dispatcher::call`. -/
def dispatcher (site : Site) : Next := fun request =>
  if routers.internalPaths.contains request.uri.path then
    callRouter site id routers.internal none request
  else
    match requestHost request.headers with
    | none => return misdirected site
    | some host => do
      let map ← perform Op.hostMap
      match map.get host with
      | none => return misdirected site
      | some .main =>
        if adminIsolationAllows request.method.routing request.uri.path request.headers then
          hostRouter site routers.main routers.mainFallback
            { request with routed := some ⟨.main, site.base.origin⟩ }
        else return isolated site
      | some (.project id) =>
        hostRouter site routers.project routers.projectFallback
          { request with project := some id, routed := some ⟨.project id, projectOrigin host⟩ }

/-- The whole HTTP service: header layer over the dispatcher. -/
def service (site : Site) : Next := headersLayer (dispatcher site)

variable {site : Site} {request r : Request} {route : Route} {handler : Handler} {h : History}
  {response : Response}

/-! ## Routing -/

/-- The client address of a request from the peer. -/
def clientOf (site : Site) (request : Request) (peer : IpAddr) : IpAddr :=
  (resolve site.ip peer (request.headers.getAll "x-forwarded-for".toList) site.trusted).client

/-- The request as the route's layers get it. -/
inductive RoutedTo (site : Site) (request : Request) (h : History) : Route → Request → Prop
  | internal {route : Route} (hpath : request.uri.path ∈ internalPaths)
      (hroute : routeOf site routers.internal none request.uri.path = some route) :
      RoutedTo site request h route request
  | main {route : Route} {map : HostMap} {origin : Str} {peer : IpAddr} (hmap : ⟨.hostMap, map⟩ ∈ h)
      (hdispatch : dispatch map site.base request.routing = .main origin)
      (hroute : routeOf site routers.main routers.mainFallback request.uri.path = some route)
      (hpeer : request.peer = some peer) : RoutedTo site request h route
        { request with routed := some ⟨.main, origin⟩, client := some (clientOf site request peer) }
  | project {route : Route} {map : HostMap} {id : Nat} {origin : Str} {peer : IpAddr}
      (hmap : ⟨.hostMap, map⟩ ∈ h)
      (hdispatch : dispatch map site.base request.routing = .project id origin)
      (hroute : routeOf site routers.project routers.projectFallback request.uri.path = some route)
      (hpeer : request.peer = some peer) : RoutedTo site request h route
        { request with
          project := some id
          routed := some ⟨.project id, origin⟩
          client := some (clientOf site request peer) }

/-- A route of a router is one of those registered, or the fallback. -/
theorem routeOf_mem {routes : List Route} {fallback : Option Route} {path : Str} {p : Route → Prop}
    (hroute : routeOf site routes fallback path = some route) (hroutes : ∀ route ∈ routes, p route)
    (hfallback : ∀ route ∈ fallback, p route) : p route := by
  rcases Option.or_eq_some_iff.mp hroute with hselect | ⟨-, hfall⟩
  · exact hroutes route (site.mem_of_select hselect).1
  · exact hfallback route hfall

/-- A request is routed to a route of the table. -/
theorem RoutedTo.mem_table (hrouted : RoutedTo site request h route r) : route ∈ table := by
  cases hrouted with
  | internal _ hroute => exact routeOf_mem hroute (by decide) (by decide)
  | main _ _ hroute _ => exact routeOf_mem hroute (by decide) (by decide)
  | project _ _ hroute _ => exact routeOf_mem hroute (by decide) (by decide)

theorem RoutedTo.mono {h' : History} (hrouted : RoutedTo site request h route r) (hsub : h ⊆ h') :
    RoutedTo site request h' route r := by
  cases hrouted with
  | internal hpath hroute => exact .internal hpath hroute
  | main hmap hdispatch hroute hpeer => exact .main (hsub hmap) hdispatch hroute hpeer
  | project hmap hdispatch hroute hpeer => exact .project (hsub hmap) hdispatch hroute hpeer

theorem RoutedTo.request_eq (hrouted : RoutedTo site request h route r) :
    r.method = request.method ∧ r.uri = request.uri ∧ r.headers = request.headers ∧
      r.user = request.user := by
  cases hrouted with
  | internal => exact ⟨rfl, rfl, rfl, rfl⟩
  | main => exact ⟨rfl, rfl, rfl, rfl⟩
  | project => exact ⟨rfl, rfl, rfl, rfl⟩

/-! ## What a handler may rely on -/

/-- The request as the handler gets it, behind the guard. -/
inductive Permitted (site : Site) (request : Request) (h : History) : Access → Request → Prop
  | everyone : Permitted site request h .everyone request
  | session {user : SessionUser} {body : Body} (hsigned : SignedIn site request user h)
      (hguarded : Guarded site request user body) :
      Permitted site request h .session { request with body, user := some user }
  | admin {user : SessionUser} {body : Body} (hsigned : SignedIn site request user h)
      (hguarded : Guarded site request user body) (hrole : user.role = .admin) :
      Permitted site request h .admin { request with body, user := some user }

/-- What is checked of a host-routed request before its body is read. -/
structure Checked (route : Route) (request : Request) (h : History) : Prop where
  sameOrigin : SameOrigin route.headerless request
  rated : ∃ client, request.client = some client ∧ Rated client request.method route.rate h
  notMultipart : isMultipart request.headers = false

/-- Everything that holds when the handler `handler` of the route is run on `r`. -/
structure Passed (site : Site) (route : Route) (request : Request) (h : History) (handler : Handler)
    (r : Request) : Prop where
  serves : route.methods.handler request.method = some handler
  checked : route.host ≠ .internal → Checked route request h
  capped : ∀ n, contentLength request.headers = some n → n ≤ route.body.cap
  /-- The body the handler reads, or the guard has read, is one of at most the cap. -/
  permitted : ∃ n ≤ route.body.cap, Permitted site (request.limited n) h route.access r

theorem asks_guard {access : Access} {methods : MethodRouter}
    (hask : (guard site access (site.callMethods methods) request).Asks h (.handle handler r)) :
    methods.handler request.method = some handler ∧ Permitted site request h access r := by
  cases access with
  | everyone =>
    obtain ⟨hserves, rfl⟩ := site.asks_callMethods_handle hask
    exact ⟨hserves, .everyone⟩
  | session =>
    obtain ⟨user, body, hsigned, hguarded, h', -, hcall⟩ := asks_sessionLayer hask
    obtain ⟨hserves, rfl⟩ := site.asks_callMethods_handle hcall
    exact ⟨hserves, .session hsigned hguarded⟩
  | admin =>
    obtain ⟨user, body, hsigned, hguarded, h', -, hadmin⟩ := asks_sessionLayer hask
    obtain ⟨⟨user', huser, hrole⟩, hcall⟩ := asks_adminLayer hadmin
    obtain ⟨hserves, rfl⟩ := site.asks_callMethods_handle hcall
    cases huser
    exact ⟨hserves, .admin hsigned hguarded hrole⟩

theorem Permitted.mono {access : Access} {h' : History}
    (hpermitted : Permitted site request h access r)
    (hsub : h ⊆ h') : Permitted site request h' access r := by
  cases hpermitted with
  | everyone => exact .everyone
  | session hsigned hguarded => exact .session (hsigned.mono hsub) hguarded
  | admin hsigned hguarded hrole => exact .admin (hsigned.mono hsub) hguarded hrole

/-- Behind a guard there is a user. -/
theorem Permitted.signedIn {access : Access} (hpermitted : Permitted site request h access r)
    (haccess : access ≠ .everyone) : ∃ user, r.user = some user ∧ SignedIn site request user h ∧
      Guarded site request user r.body ∧ (access = .admin → user.role = .admin) := by
  cases hpermitted with
  | everyone => exact absurd rfl haccess
  | session hsigned hguarded => exact ⟨_, rfl, hsigned, hguarded, fun hadmin => by cases hadmin⟩
  | admin hsigned hguarded hrole => exact ⟨_, rfl, hsigned, hguarded, fun _ => hrole⟩

theorem asks_bodyLimit_guard {cap : Nat} {access : Access} {methods : MethodRouter}
    (hask : (site.bodyLimitLayer cap (guard site access (site.callMethods methods)) request).Asks h
      (.handle handler r)) :
    methods.handler request.method = some handler ∧
      (∀ n, contentLength request.headers = some n → n ≤ cap) ∧
      ∃ n ≤ cap, Permitted site (request.limited n) h access r := by
  obtain ⟨hcapped, n, hn, hguard⟩ := site.asks_bodyLimitLayer hask
  obtain ⟨hserves, hpermitted⟩ := asks_guard hguard
  rw [Request.method_limited] at hserves
  exact ⟨hserves, hcapped, n, hn, hpermitted⟩

/-- A handler is run only behind all its route's layers. -/
theorem asks_layered (hask : (layered site route request).Asks h (.handle handler r)) :
    Passed site route request h handler r := by
  unfold layered at hask
  split at hask
  next hinternal =>
    rw [asks_cacheLayer, asks_errorsLayer] at hask
    obtain ⟨hserves, hcapped, hpermitted⟩ := asks_bodyLimit_guard hask
    exact ⟨hserves, fun hne => absurd hinternal hne, hcapped, hpermitted⟩
  next =>
    rw [asks_cacheLayer, asks_errorsLayer] at hask
    obtain ⟨h₁, hsub₁, hdeadline⟩ := site.asks_deadlineLayer_handle hask
    obtain ⟨horigin, hrest⟩ := asks_originLayer hdeadline
    obtain ⟨client, hclient, hrated, h₂, hsub₂, hrate⟩ := asks_rateLayer hrest
    obtain ⟨hmultipart, hbody⟩ := asks_multipartLayer hrate
    obtain ⟨hserves, hcapped, n, hn, hpermitted⟩ := asks_bodyLimit_guard hbody
    have hsub : h₂ ⊆ h := (hsub₂.trans hsub₁).subset
    refine ⟨hserves, fun _ => ⟨horigin, ?_, hmultipart⟩, hcapped, n, hn, hpermitted.mono hsub⟩
    exact ⟨client, hclient, hrated.mono hsub₁.subset⟩

theorem Passed.mono {h' : History} (hpassed : Passed site route request h handler r)
    (hsub : h ⊆ h') : Passed site route request h' handler r := by
  obtain ⟨hserves, hchecked, hcapped, n, hn, hpermitted⟩ := hpassed
  refine ⟨hserves, fun hne => ?_, hcapped, n, hn, hpermitted.mono hsub⟩
  obtain ⟨horigin, ⟨client, hclient, hrated⟩, hmultipart⟩ := hchecked hne
  exact ⟨horigin, ⟨client, hclient, hrated.mono hsub⟩, hmultipart⟩

theorem asks_callRouter {layer : Next → Next} {routes : List Route}
    {fallback : Option Route} {e : Op}
    (hask : (callRouter site layer routes fallback request).Asks h e) :
    ∃ route, routeOf site routes fallback request.uri.path = some route ∧
      (layer (layered site route) request).Asks h e := by
  obtain ⟨next, hnext, hask⟩ := site.asks_respond hask
  obtain ⟨route, hroute, rfl⟩ := Option.map_eq_some_iff.mp hnext
  exact ⟨route, hroute, hask⟩

theorem asks_hostRouter {routes : List Route} {fallback : Option Route}
    (hask : (hostRouter site routes fallback request).Asks h (.handle handler r)) :
    ∃ peer route, request.peer = some peer ∧ routeOf site routes fallback request.uri.path =
      some route ∧
      Passed site route { request with client := some (clientOf site request peer) } h
        handler r := by
  obtain ⟨route, hroute, hcall⟩ := asks_callRouter hask
  obtain ⟨peer, hpeer, h', hsub, hlayered⟩ := asks_clientAddressLayer hcall
  exact ⟨peer, route, hpeer, hroute, (asks_layered hlayered).mono hsub.subset⟩

section Dispatcher
variable {host : Str}

theorem mem_internalPaths : routers.internalPaths.contains request.uri.path = true ↔
    request.uri.path ∈ internalPaths := by
  rw [internalPaths_routers, List.contains_iff_mem]

/-- The dispatcher sends a request where `dispatch` says. -/
theorem dispatch_eq (site : Site) (map : HostMap) (hpath : request.uri.path ∉ internalPaths)
    (hhost : requestHost request.headers = some host) : dispatch map site.base request.routing =
      match map.get host with
      | none => .misdirected
      | some .main =>
        if adminIsolationAllows request.method.routing request.uri.path request.headers then
          .main site.base.origin
        else .isolated
      | some (.project id) => .project id (projectOrigin host) := by
  have hcontains : internalPaths.contains request.routing.uri.path = false := by
    rw [← Bool.not_eq_true, List.contains_iff_mem]
    exact hpath
  have hhost' : requestHost request.routing.headers = some host := hhost
  unfold dispatch
  rw [hcontains, if_neg Bool.false_ne_true, hhost']
  rfl

theorem asks_dispatcher (hask : (dispatcher site request).Asks h (.handle handler r)) :
    ∃ route routed, RoutedTo site request h route routed ∧
      Passed site route routed h handler r := by
  unfold dispatcher at hask
  split at hask
  next hpath =>
    obtain ⟨route, hroute, hlayered⟩ := asks_callRouter hask
    exact ⟨route, request, .internal (mem_internalPaths.mp hpath) hroute, asks_layered hlayered⟩
  next hpath =>
    split at hask
    next => exact absurd hask asks_pure
    next host hhost =>
      rcases asks_perform.mp hask with ⟨-, heq⟩ | ⟨map, h', rfl, hmap⟩
      · cases heq
      have hmem : ⟨.hostMap, map⟩ ∈ (⟨.hostMap, map⟩ :: h' : History) := List.mem_cons_self
      have hdispatch := dispatch_eq site map (mem_internalPaths.not.mp hpath) hhost
      split at hmap
      next => exact absurd hmap asks_pure
      next hget =>
        rw [hget] at hdispatch
        split at hmap
        next hallows =>
          obtain ⟨peer, route, hpeer, hroute, hpassed⟩ := asks_hostRouter hmap
          rw [if_pos hallows] at hdispatch
          exact ⟨route, _, .main hmem hdispatch hroute hpeer,
            hpassed.mono (List.subset_cons_self _ _)⟩
        next => exact absurd hmap asks_pure
      next id hget =>
        rw [hget] at hdispatch
        obtain ⟨peer, route, hpeer, hroute, hpassed⟩ := asks_hostRouter hmap
        exact ⟨route, _, .project hmem hdispatch hroute hpeer,
          hpassed.mono (List.subset_cons_self _ _)⟩

end Dispatcher

/-- The handler of a request is one of the route it was routed to, which passed all that the route
declares. -/
theorem asks_service (hask : (service site request).Asks h (.handle handler r)) :
    ∃ route routed, RoutedTo site request h route routed ∧ Passed site route routed h handler r :=
  asks_dispatcher (asks_headersLayer hask)

/-! ## A sample instance -/

/-- Hashing keeps the bytes, and a form is its `csrf` field alone. -/
def Site.sample : Site where
  toFramework := .sample
  sha256 := id
  hmacSha256 _ _ := Vector.replicate 32 0
  hmacSha1 _ _ := Vector.replicate 20 0
  verifyPassword password phc := password.isPrefixOf phc
  hashPassword password _ := password
  base64 := Base64.urlSafeNoPad
  base := ⟨true, ⟨"kohaku.test".toList, by decide⟩, none⟩
  trusted := .none
  ip := dotted
  errorPage title text := asBytes (title ++ text)
  formPairs _ body := some [("csrf".toList, body.map fun b => Char.ofNat b.toNat)]

/-- The admin's session, with a token of zeros. -/
def adminUser : SessionUser where
  sessionId := 1
  userId := 1
  role := .admin
  email := "admin@kohaku.test".toList
  totpEnrolled := true
  csrf := List.replicate 32 0

/-- An environment in which every check passes, with the session that is read. -/
def answers (found : Option SessionUser) : (e : Op) → Answer e
  | .hostMap => .new Site.sample.base
  | .note _ | .increment _ => ()
  | .now => 0
  | .admitDemand _ _ => true
  | .unix => 0
  | .readSession _ _ => .ok (found.map (·, 0))
  | .touchSession _ _ => .ok ()
  | .readBody _ => some (asBytes (List.replicate 43 'A'))
  | .handle _ _ => .ofStatus 404
  | .timer => false

/-- A request to the main host, with the cookie of the session. -/
def Request.sample (method : Method) (path : Str) (valid : ∀ c ∈ path ++ [], isUriChar c = true) :
    Request where
  method := method
  uri := ⟨path, none, valid⟩
  headers := [("host".toList, asBytes "kohaku.test".toList),
    ("origin".toList, asBytes Site.sample.base.origin),
    ("cookie".toList, asBytes (sessionCookie ++ '=' :: List.replicate 43 'A'))]
  body := .incoming none
  peer := some (.v4 0x7F000001)
  client := none
  routed := none
  project := none
  user := none

/-- The deletion of a project. -/
def Request.delete : Request :=
  .sample .post "/admin/p/demo/delete".toList (List.all_eq_true.mp (by decide))

theorem asks_delete : ∃ h r, (service .sample .delete).Asks h (.handle .projectDelete r) := by
  have hany : (((service .sample .delete).runWith (answers (some adminUser))).1.any fun ev =>
      match ev.1 with
      | .handle handler _ => handler = .projectDelete
      | _ => false) = true := by decide
  obtain ⟨⟨e, answer⟩, hev, he⟩ := List.any_eq_true.mp hany
  dsimp only at he
  split at he
  next handler r =>
    obtain ⟨h₁, h₂, heq⟩ := List.append_of_mem hev
    have hrun := runs_runWith (answers (some adminUser)) (service .sample .delete)
    rw [heq] at hrun
    rw [← of_decide_eq_true he]
    exact ⟨h₁, r, hrun.asks⟩
  next => cases he

/-! ## All checks of the route -/

theorem handler_passes_declared_checks (hask : (service site request).Asks h (.handle handler r)) :
    ∃ route ∈ table, ∃ routed, RoutedTo site request h route routed ∧
      Passed site route routed h handler r := by
  obtain ⟨route, routed, hrouted, hpassed⟩ := asks_service hask
  exact ⟨route, hrouted.mem_table, routed, hrouted, hpassed⟩

theorem handler_passes_declared_checks_delete : ∃ h r,
    (service .sample .delete).Asks h (.handle .projectDelete r) ∧
      ∃ route ∈ table, ∃ routed, RoutedTo .sample .delete h route routed ∧
        Passed .sample route routed h .projectDelete r := by
  obtain ⟨h, r, hask⟩ := asks_delete
  exact ⟨h, r, hask, handler_passes_declared_checks hask⟩

/-! ## Handlers for accounts -/

/-- Who a handler is for. -/
def Handler.requires : Handler → Access
  | .healthz | .tlsAsk | .landing | .serveAsset | .notFound | .canonical => .everyone
  | .loginForm | .loginSubmit | .resetRequestForm | .resetRequest | .resetLinkForm
      | .resetLinkSubmit => .everyone
  | .projectsList | .projectsCreate | .projectSettings | .projectSave | .projectDelete => .admin
  | .adminHome | .logout | .accountShow | .changePassword | .startTotp | .confirmTotp | .disableTotp
  | .regenerateCodes | .endOtherSessions | .adminNotFound => .session

/-- The handlers of a method router. -/
def MethodRouter.handlers (methods : MethodRouter) : List Handler :=
  methods.get.toList ++ methods.post.toList ++ methods.fallback.toList

theorem MethodRouter.mem_handlers {methods : MethodRouter} {method : Method}
    (hserves : methods.handler method = some handler) : handler ∈ methods.handlers := by
  simp only [handlers, List.mem_append, Option.mem_toList]
  cases method with
  | get | head =>
    rcases Option.or_eq_some_iff.mp (Option.orElse_eq_or.symm.trans hserves) with hget
      | ⟨-, hfallback⟩
    · exact .inl (.inl hget)
    · exact .inr hfallback
  | post =>
    rcases Option.or_eq_some_iff.mp (Option.orElse_eq_or.symm.trans hserves) with hpost
      | ⟨-, hfallback⟩
    · exact .inl (.inr hpost)
    · exact .inr hfallback
  | other => exact .inr hserves

/-- The route declares what its handlers need. -/
def Route.declaresAccess (route : Route) : Bool :=
  route.methods.handlers.all fun handler => handler.requires = .everyone ||
    (route.access = handler.requires && route.host ≠ .internal && route.headerless = .notExempt)

/-- The route is for everyone. -/
def Route.forEveryone (route : Route) : Bool :=
  route.methods.handlers.all fun handler => handler.requires = .everyone

theorem origin_of_dispatch {map : HostMap} {base : BaseUrl} {request : Routing.Request}
    {origin : Str}
    (hdispatch : dispatch map base request = .main origin) : origin = base.origin := by
  unfold dispatch at hdispatch
  split at hdispatch
  · cases hdispatch
  split at hdispatch
  · cases hdispatch
  split at hdispatch
  · cases hdispatch
  · split at hdispatch
    · cases hdispatch
      rfl
    · cases hdispatch
  · cases hdispatch

/-- The request comes with a session of the main host and, when it may change something, from that
host's own pages. -/
structure Authorized (site : Site) (request : Request) (h : History) (r : Request)
    (user : SessionUser) : Prop where
  onMain : ∃ map, ⟨.hostMap, map⟩ ∈ h ∧ dispatch map site.base request.routing =
    .main site.base.origin
  user_eq : r.user = some user
  signedIn : SignedIn site request user h
  ownOrigin : request.method.isSafe = false →
    originAllowed request.headers site.base.origin .notExempt = true
  ownForm : request.method.isSafe = false →
    ∃ bytes, r.body = .bytes bytes ∧ CarriesToken site request.headers bytes user.csrf

/-- A handler that is for accounts is run only for an account, and one for the admin only for the
admin. -/
theorem account_handler_authorized (hask : (service site request).Asks h (.handle handler r))
    (hrequires : handler.requires ≠ .everyone) :
    ∃ user, Authorized site request h r user ∧
      (handler.requires = .admin → user.role = .admin) := by
  obtain ⟨route, routed, hrouted, hpassed⟩ := asks_service hask
  have hhandler := MethodRouter.mem_handlers hpassed.serves
  have heveryone (hall : route.forEveryone = true) : False :=
    hrequires (of_decide_eq_true (List.all_eq_true.mp hall handler hhandler))
  cases hrouted with
  | internal _ hroute =>
    have hall := routeOf_mem (p := (·.forEveryone = true)) hroute (by decide) (by decide)
    exact (heveryone hall).elim
  | project _ _ hroute _ =>
    have hall := routeOf_mem (p := (·.forEveryone = true)) hroute (by decide) (by decide)
    exact (heveryone hall).elim
  | @main map origin peer hmap hdispatch hroute hpeer =>
    have hdeclares := routeOf_mem (p := (·.declaresAccess = true)) hroute (by decide) (by decide)
    have hdeclared := List.all_eq_true.mp hdeclares handler hhandler
    simp only [Bool.or_eq_true, Bool.and_eq_true, decide_eq_true_eq, hrequires, false_or]
      at hdeclared
    obtain ⟨⟨haccess, hhost⟩, hheaderless⟩ := hdeclared
    obtain rfl := origin_of_dispatch hdispatch
    obtain ⟨n, -, hpermitted⟩ := hpassed.permitted
    obtain ⟨user, huser, hsigned, hguarded, hadmin⟩ :=
      hpermitted.signedIn (by rw [haccess]; exact hrequires)
    refine ⟨user, ⟨⟨map, hmap, hdispatch⟩, huser, hsigned.congr (by simp), fun hwrites => ?_,
      fun hwrites => ?_⟩, ?_⟩
    · obtain ⟨host, hrouted, hallowed⟩ := (hpassed.checked hhost).sameOrigin hwrites
      cases hrouted
      rwa [hheaderless] at hallowed
    · rw [Guarded, Request.method_limited, Request.headers_limited, if_neg (by simp [hwrites])]
        at hguarded
      exact hguarded
    · rw [← haccess]
      exact hadmin

theorem account_handler_authorized_delete : ∃ h r user,
    (service .sample .delete).Asks h (.handle .projectDelete r) ∧
    Authorized .sample .delete h r user ∧ user.role = .admin := by
  obtain ⟨h, r, hask⟩ := asks_delete
  obtain ⟨user, hauthorized, hadmin⟩ := account_handler_authorized hask (by decide)
  exact ⟨h, r, user, hask, hauthorized, hadmin rfl⟩

end Kohaku.Http
