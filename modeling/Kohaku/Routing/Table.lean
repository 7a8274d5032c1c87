import Kohaku.Http.Message

/-!
# The route table

Every route as data, with its security declarations, and the registration loop of `build`. A pattern
is a list of segments; of the patterns that match a path matchit takes the most specific one, a
literal segment before a parameter before a catch-all (`select`). Every path `/admin` or below on
the main host has a route of its own there (`exists_match_admin`), and of the routes that match it
only the three sign-in and reset pages need no session (`declared_of_matchSegments`).
-/

namespace Kohaku.Http

open Routing Limits

/-! ## Declarations -/

/-- Which router serves a route. -/
inductive HostKind
  /-- Matched by exact path before host routing. -/
  | internal
  | main
  | project
  /-- The main and every project router. -/
  | both
  deriving DecidableEq, Repr

/-- One segment of a path pattern. -/
inductive Segment
  | text (text : Str)
  /-- Exactly one segment, not empty. -/
  | param (name : Str)
  /-- The rest of the path, not empty. -/
  | catchAll (name : Str)
  deriving DecidableEq, Repr

/-- What a route matches. -/
inductive RoutePath
  | pattern (segments : List Segment)
  /-- Every path no pattern matches. -/
  | fallback
  deriving DecidableEq, Repr

/-- Who may use a route. -/
inductive Access
  /-- `Public`. -/
  | everyone
  /-- A signed-in account. -/
  | session
  /-- A signed-in account, and then the admin only. -/
  | admin
  deriving DecidableEq, Repr

/-- `Cache-Control` of every response. -/
inductive CacheClass
  | noStore
  | noCache
  | staticAsset
  | canonicalRedirect
  deriving DecidableEq, Repr

/-- The route's Content-Security-Policy. -/
inductive Csp
  | release
  deriving DecidableEq, Repr

/-- Body cap and request deadline. -/
inductive BodyClass
  | default
  deriving DecidableEq, Repr

/-- In bytes. -/
def BodyClass.cap : BodyClass → Nat
  | .default => 64 * 1024

/-- Whether a route takes multipart bodies; none does. -/
inductive Multipart
  | rejected
  deriving DecidableEq, Repr

/-- Whether a request with neither `Origin` nor `Sec-Fetch-Site` may pass the origin check. -/
inductive Headerless
  | notExempt
  | exempt
  deriving DecidableEq, Repr

/-- Body format of error responses. -/
inductive ErrorFormat
  | html
  | json
  deriving DecidableEq, Repr

/-- The handlers, by the module they are in. -/
inductive Handler
  | healthz
  | tlsAsk
  | landing
  | serveAsset
  | notFound
  | adminHome
  | loginForm
  | loginSubmit
  | logout
  | accountShow
  | changePassword
  | startTotp
  | confirmTotp
  | disableTotp
  | regenerateCodes
  | endOtherSessions
  | resetRequestForm
  | resetRequest
  | resetLinkForm
  | resetLinkSubmit
  | projectsList
  | projectsCreate
  | projectSettings
  | projectSave
  | projectDelete
  | adminNotFound
  | canonical
  deriving DecidableEq, Repr

/-- axum's `MethodRouter`; a handler for GET also answers HEAD. -/
structure MethodRouter where
  get : Option Handler
  post : Option Handler
  fallback : Option Handler
  deriving DecidableEq, Repr

namespace MethodRouter

/-- `get(handler)`. -/
def ofGet (handler : Handler) : MethodRouter := ⟨some handler, none, none⟩

/-- `post(handler)`. -/
def ofPost (handler : Handler) : MethodRouter := ⟨none, some handler, none⟩

/-- `any(handler)`. -/
def any (handler : Handler) : MethodRouter := ⟨none, none, some handler⟩

/-- `.post(handler)`. -/
def andPost (methods : MethodRouter) (handler : Handler) : MethodRouter :=
  { methods with post := some handler }

/-- `.fallback(handler)`. -/
def orElse (methods : MethodRouter) (handler : Handler) : MethodRouter :=
  { methods with fallback := some handler }

/-- The handler for a method; without one it is 405. -/
def handler (methods : MethodRouter) (method : Method) : Option Handler :=
  match method with
  | .get | .head => methods.get <|> methods.fallback
  | .post => methods.post <|> methods.fallback
  | .other _ => methods.fallback

end MethodRouter

/-- A line of the table: where a route is, what it serves and what it declares. -/
structure Route where
  host : HostKind
  path : RoutePath
  methods : MethodRouter
  access : Access
  cache : CacheClass
  csp : Csp
  body : BodyClass
  multipart : Multipart
  headerless : Headerless
  /-- Rate classes drawn from, each only for the methods it covers. -/
  rate : List RateClass
  errors : ErrorFormat
  deriving DecidableEq, Repr

/-! ## The table -/

/-- A literal segment. -/
def lit (text : String) : Segment := .text text.toList

/-- A segment that is a parameter. -/
def param (name : String) : Segment := .param name.toList

/-- What every entry of the table declares alike. -/
def route (host : HostKind) (path : RoutePath) (methods : MethodRouter) (access : Access)
    (cache : CacheClass) (rate : List RateClass) (errors : ErrorFormat) : Route where
  host := host
  path := path
  methods := methods
  access := access
  cache := cache
  csp := .release
  body := .default
  multipart := .rejected
  headerless := .notExempt
  rate := rate
  errors := errors

/-- The routes outside the admin area. -/
def baseRoutes : List Route :=
  [route .internal (.pattern [lit "healthz"]) (.ofGet .healthz) .everyone .noStore [] .json,
    route .internal (.pattern [lit ".well-known", lit "kohaku", lit "tls-ask"])
      (.ofGet .tlsAsk) .everyone .noStore [] .json,
    route .main (.pattern [lit ""]) (.ofGet .landing) .everyone .noCache [.read] .html,
    route .both (.pattern [lit "static", param "name"]) (.ofGet .serveAsset) .everyone .staticAsset
      [] .html,
    route .main .fallback ((MethodRouter.ofGet .notFound).orElse .notFound) .everyone .noStore
      [.read] .html,
    route .project .fallback ((MethodRouter.ofGet .notFound).orElse .notFound) .everyone .noStore
      [.read] .html]

/-- A route of the admin area: main host only, `no-store`. -/
def adminRoute (path : List Segment) (methods : MethodRouter) (access : Access)
    (rate : List RateClass) : Route :=
  route .main (.pattern (lit "admin" :: path)) methods access .noStore rate .html

/-- The routes of the admin area. -/
def adminRoutes : List Route :=
  [adminRoute [] (.ofGet .adminHome) .session [.read],
    adminRoute [lit "login"] ((MethodRouter.ofGet .loginForm).andPost .loginSubmit) .everyone
      [.read, .login],
    adminRoute [lit "logout"] (.ofPost .logout) .session [],
    adminRoute [lit "account"] (.ofGet .accountShow) .session [.read],
    adminRoute [lit "account", lit "password"] (.ofPost .changePassword) .session [.login],
    adminRoute [lit "account", lit "totp"] (.ofPost .startTotp) .session [.login],
    adminRoute [lit "account", lit "totp", lit "confirm"] (.ofPost .confirmTotp) .session [.login],
    adminRoute [lit "account", lit "totp", lit "disable"] (.ofPost .disableTotp) .session [.login],
    adminRoute [lit "account", lit "recovery-codes"] (.ofPost .regenerateCodes) .session [.login],
    adminRoute [lit "account", lit "sessions", lit "end-others"]
      (.ofPost .endOtherSessions) .session [],
    adminRoute [lit "reset"] ((MethodRouter.ofGet .resetRequestForm).andPost .resetRequest)
      .everyone [.read, .reset],
    adminRoute [lit "reset", param "token"]
      ((MethodRouter.ofGet .resetLinkForm).andPost .resetLinkSubmit) .everyone
      [.read, .login],
    adminRoute [lit "projects"] ((MethodRouter.ofGet .projectsList).andPost .projectsCreate) .admin
      [.read],
    adminRoute [lit "p", param "slug", lit "settings"]
      ((MethodRouter.ofGet .projectSettings).andPost .projectSave) .admin [.read],
    adminRoute [lit "p", param "slug", lit "delete"] (.ofPost .projectDelete) .admin [],
    adminRoute [lit ""] (.any .adminNotFound) .session [.read],
    adminRoute [.catchAll "rest".toList] (.any .adminNotFound) .session [.read]]

/-- `/p/{slug}` and below on the main host: the canonical redirect. -/
def projectRoutes : List Route :=
  [[lit "p", param "slug"], [lit "p", param "slug", lit ""],
    [lit "p", param "slug", .catchAll "rest".toList]].map fun path =>
      route .main (.pattern path) ((MethodRouter.ofGet .canonical).orElse .notFound) .everyone
        .canonicalRedirect [.read]
        .html

/-- Every route of a release build. -/
def table : List Route := baseRoutes ++ adminRoutes ++ projectRoutes

/-! ## Registration -/

/-- The segments of a path. -/
def segments : Str → Option (List Str)
  | '/' :: rest => some (rest.splitOn '/')
  | _ => none

/-- A segment as matchit has it in a pattern. -/
def Segment.patternText : Segment → Str
  | .text t => t
  | .param name => '{' :: name ++ ['}']
  | .catchAll name => '{' :: '*' :: name ++ ['}']

/-- A pattern as it is written in the source. -/
def patternText (pattern : List Segment) : Str :=
  pattern.flatMap fun segment => '/' :: segment.patternText

/-- What `build` collects from the table. -/
structure Routers where
  internal : List Route
  internalPaths : List Str
  main : List Route
  mainFallback : Option Route
  project : List Route
  projectFallback : Option Route
  deriving DecidableEq

/-- No routes. -/
def Routers.empty : Routers := ⟨[], [], [], none, [], none⟩

/-- The route is in the main host's router. -/
def HostKind.onMain (kind : HostKind) : Bool := kind = .main || kind = .both

/-- The route is in the project hosts' router. -/
def HostKind.onProject (kind : HostKind) : Bool := kind = .project || kind = .both

/-- One round of the loop of `build`; `none` is its panic. -/
def Routers.add (r : Routers) (route : Route) : Option Routers :=
  match route.host, route.path with
  | .internal, .pattern pattern =>
    some { r with
      internal := r.internal ++ [route]
      internalPaths := r.internalPaths ++ [patternText pattern] }
  | .internal, .fallback => none
  | kind, .pattern _ =>
    some { r with
      main := if kind.onMain then r.main ++ [route] else r.main
      project := if kind.onProject then r.project ++ [route] else r.project }
  | kind, .fallback =>
    some { r with
      mainFallback := if kind.onMain then some route else r.mainFallback
      projectFallback := if kind.onProject then some route else r.projectFallback }

/-- `build`: the routers of a table. -/
def build (table : List Route) : Option Routers := table.foldlM Routers.add .empty

/-- The routers of the table. -/
def routers : Routers := (build table).getD .empty

theorem build_table : build table = some routers := by decide

/-- The paths matched before host routing are those of the two internal endpoints. -/
theorem internalPaths_routers : routers.internalPaths = Routing.internalPaths := by decide

/-! ## Matching -/

/-- A pattern matches the segments of a path. -/
def matchSegments : List Segment → List Str → Bool
  | [], [] => true
  | .text text :: pattern, s :: rest => text = s && matchSegments pattern rest
  | .param _ :: pattern, s :: rest => !s.isEmpty && matchSegments pattern rest
  | [.catchAll _], rest => rest ≠ [] && rest ≠ [[]]
  | _, _ => false

section
variable {pattern : List Segment} {segs : List Str}

theorem eq_nil_of_matchSegments (h : matchSegments [] segs = true) : segs = [] := by
  cases segs with
  | nil => rfl
  | cons s rest => cases h

theorem eq_cons_of_matchSegments_text {t : Str}
    (h : matchSegments (.text t :: pattern) segs = true) :
    ∃ rest, segs = t :: rest ∧ matchSegments pattern rest = true := by
  cases segs with
  | nil => cases h
  | cons s rest =>
    rw [matchSegments, Bool.and_eq_true, decide_eq_true_eq] at h
    exact ⟨rest, by rw [h.1], h.2⟩

theorem eq_cons_of_matchSegments_param {name : Str}
    (h : matchSegments (.param name :: pattern) segs = true) :
    ∃ s rest, segs = s :: rest ∧ matchSegments pattern rest = true := by
  cases segs with
  | nil => cases h
  | cons s rest =>
    rw [matchSegments, Bool.and_eq_true] at h
    exact ⟨s, rest, rfl, h.2⟩

end

/-- The order in which matchit tries segments. -/
def Segment.rank : Segment → Nat
  | .text _ => 0
  | .param _ => 1
  | .catchAll _ => 2

/-- The segments of a route, none for a fallback. -/
def Route.pattern (route : Route) : List Segment :=
  match route.path with
  | .pattern segments => segments
  | .fallback => []

/-- The more specific of two routes. -/
def Route.orBetter (route : Route) : Option Route → Option Route
  | none => some route
  | some other =>
    if other.pattern.map Segment.rank < route.pattern.map Segment.rank then some other
    else some route

/-- The route of a path: the most specific pattern that matches. -/
def select (routes : List Route) (path : Str) : Option Route := do
  let segments ← segments path
  (routes.filter fun route => matchSegments route.pattern segments).foldr Route.orBetter none

section
variable {routes : List Route} {r : Route} {path : Str} {segs : List Str}

theorem foldr_orBetter_mem (h : routes.foldr Route.orBetter none = some r) : r ∈ routes := by
  induction routes generalizing r with
  | nil => cases h
  | cons first routes ih =>
    rw [List.foldr_cons] at h
    cases hrest : routes.foldr Route.orBetter none with
    | none =>
      rw [hrest] at h
      cases h
      exact List.mem_cons_self
    | some other =>
      rw [hrest, Route.orBetter] at h
      split at h
      · cases h
        exact List.mem_cons_of_mem _ (ih hrest)
      · cases h
        exact List.mem_cons_self

theorem foldr_orBetter_isSome (h : routes ≠ []) :
    (routes.foldr Route.orBetter none).isSome = true := by
  cases routes with
  | nil => exact absurd rfl h
  | cons first routes =>
    rw [List.foldr_cons]
    cases routes.foldr Route.orBetter none with
    | none => rfl
    | some other =>
      rw [Route.orBetter]
      split <;> rfl

/-- A route that is taken is one of those that match. -/
theorem mem_of_select (h : select routes path = some r) :
    r ∈ routes ∧ ∃ segs, segments path = some segs ∧ matchSegments r.pattern segs = true := by
  obtain ⟨segs, hsegs, h⟩ := Option.bind_eq_some_iff.mp h
  obtain ⟨hmem, hmatch⟩ := List.mem_filter.mp (foldr_orBetter_mem h)
  exact ⟨hmem, segs, hsegs, hmatch⟩

/-- A path with a matching route has one. -/
theorem select_isSome (hsegs : segments path = some segs) (hr : r ∈ routes)
    (hmatch : matchSegments r.pattern segs = true) : (select routes path).isSome = true := by
  rw [select, hsegs, Option.bind_eq_bind, Option.bind_some]
  exact foldr_orBetter_isSome (List.ne_nil_of_mem (List.mem_filter.mpr ⟨hr, hmatch⟩))

end

example : (select routers.main "/admin/login".toList).map Route.pattern = some
    [lit "admin", lit "login"] := by
  decide

/-! ## The admin area -/

/-- The path is `/admin` or below. -/
def isAdminPath (path : Str) : Bool := path = "/admin".toList || "/admin/".toList.isPrefixOf path

/-- The pages of the admin area that need no session. -/
def publicAdminPatterns : List (List Segment) :=
  [[lit "admin", lit "login"], [lit "admin", lit "reset"],
    [lit "admin", lit "reset", param "token"]]

theorem segments_admin : segments "/admin".toList = some ["admin".toList] := by decide

theorem segments_cons {first : Str} (h : '/' ∉ first) (rest : Str) :
    segments ('/' :: (first ++ '/' :: rest)) = some (first :: rest.splitOn '/') := by
  refine congrArg some ?_
  rw [splitOn_append_of_notMem h, List.splitOn_cons_eq_if_modifyHead, if_pos (beq_self_eq_true _)]
  exact congrArg (· :: rest.splitOn '/') (List.append_nil first)

/-- The segments of a path in the admin area. -/
theorem segments_of_isAdminPath {path : Str} (h : isAdminPath path = true) :
    ∃ rest, segments path = some ("admin".toList :: rest) := by
  rw [isAdminPath, Bool.or_eq_true, decide_eq_true_eq, List.isPrefixOf_iff_prefix] at h
  rcases h with rfl | ⟨rest, rfl⟩
  · exact ⟨[], segments_admin⟩
  · have hadmin : '/' ∉ "admin".toList := by decide
    exact ⟨rest.splitOn '/', segments_cons hadmin rest⟩

/-- What the table declares for the admin area, route by route. -/
def Route.okForAdmin (route : Route) : Bool :=
  match route.pattern with
  | .text t :: _ =>
    t ≠ "admin".toList ||
      (route.cache = .noStore && (route.access ≠ .everyone || route.pattern ∈ publicAdminPatterns))
  | _ => false

theorem okForAdmin_of_mem {r : Route} (h : r ∈ routers.main) : r.okForAdmin = true := by
  have hall : routers.main.all Route.okForAdmin = true := by decide
  exact List.all_eq_true.mp hall r h

/-- A route that matches a path of the admin area is `no-store`, and needs a session unless it is
one of the public pages. -/
theorem declared_of_matchSegments {r : Route} {rest : List Str} (hr : r ∈ routers.main)
    (hmatch : matchSegments r.pattern ("admin".toList :: rest) = true) :
    r.cache = .noStore ∧ (r.access = .everyone → r.pattern ∈ publicAdminPatterns) := by
  have hok := okForAdmin_of_mem hr
  rw [Route.okForAdmin] at hok
  split at hok
  next t pattern hpattern =>
    rw [hpattern, matchSegments, Bool.and_eq_true, decide_eq_true_eq] at hmatch
    simp only [hmatch.1, ne_eq, not_true_eq_false, decide_false, Bool.false_or, Bool.and_eq_true,
      decide_eq_true_eq, Bool.or_eq_true] at hok
    exact ⟨hok.1, fun haccess => hok.2.resolve_left fun hne => hne haccess⟩
  next => cases hok

/-- Each path of the admin area has a route of its own. -/
theorem exists_match_admin (rest : List Str) :
    ∃ r ∈ routers.main, matchSegments r.pattern ("admin".toList :: rest) = true := by
  have hpatterns : ∀ pattern ∈ [[lit "admin"], [lit "admin", lit ""],
      [lit "admin", .catchAll "rest".toList]], ∃ r ∈ routers.main, r.pattern = pattern := by decide
  have hmatch : ∃ pattern ∈ [[lit "admin"], [lit "admin", lit ""],
      [lit "admin", .catchAll "rest".toList]],
      matchSegments pattern ("admin".toList :: rest) = true := by
    by_cases hnil : rest = []
    · exact ⟨_, List.mem_cons_self, by simp [hnil, matchSegments, lit]⟩
    · by_cases hblank : rest = [[]]
      · exact ⟨[lit "admin", lit ""], by simp, by simp [hblank, matchSegments, lit]⟩
      · exact
          ⟨[lit "admin", .catchAll "rest".toList], by simp, by simp [hnil, hblank,
            matchSegments, lit]⟩
  obtain ⟨pattern, hmem, hpattern⟩ := hmatch
  obtain ⟨r, hr, rfl⟩ := hpatterns pattern hmem
  exact ⟨r, hr, hpattern⟩

end Kohaku.Http
