import Kohaku.Routing.Build

/-!
# The responses of the service

What holds of the response to every request, whatever the handlers answer: its headers, the body of
an error and what is counted for it. A complete run of the service ends in one of the dispatcher's
own answers or in a route's layers, of which the two outermost decide about the response
(`runs_dispatcher`, `runs_layered`); the router then finishes it.
-/

namespace Kohaku.Http

open Routing Limits Ask Ask.Program

variable {site : Site} {request r : Request} {route : Route} {h : History} {response : Response}

/-! ## Where a run ends -/

/-- What a route's layers answer has been through the two outermost ones. -/
theorem runs_layered (hrun : (layered site route request).Runs h response) :
    ∃ inner, response = cached route.cache route.csp request.method
      (withErrorBody site route.errors inner) := by
  unfold layered at hrun
  split at hrun
  all_goals
    obtain ⟨outer, houter, rfl⟩ := runs_bind_pure.mp hrun
    obtain ⟨inner, -, rfl⟩ := runs_bind_pure.mp houter
    exact ⟨inner, rfl⟩

theorem runs_callRouter {layer : Next → Next} {routes : List Route} {fallback : Option Route}
    (hsome : (routeOf site routes fallback request.uri.path).isSome = true)
    (hrun : (callRouter site layer routes fallback request).Runs h response) :
    ∃ route inner, routeOf site routes fallback request.uri.path = some route ∧
      (layer (layered site route) request).Runs h inner ∧
      Finished request.method inner response := by
  obtain ⟨route, hroute⟩ := Option.isSome_iff_exists.mp hsome
  unfold callRouter at hrun
  rw [hroute, Option.map_some] at hrun
  obtain ⟨inner, hinner, hfinished⟩ := site.runs_respond hrun
  exact ⟨route, inner, hroute, hinner, hfinished⟩

theorem runs_hostRouter {routes : List Route} {fallback : Option Route}
    (hsome : fallback.isSome = true)
    (hrun : (hostRouter site routes fallback request).Runs h response) :
    ∃ inner, Finished request.method inner response ∧ (request.peer = none ∧ inner = .ofStatus 500 ∨
      ∃ peer route h', request.peer = some peer ∧ routeOf site routes fallback request.uri.path =
        some route ∧ h'.Sublist h ∧
        (layered site route { request with client := some (clientOf site request peer) }).Runs h'
          inner) := by
  obtain ⟨route, inner, hroute, hinner, hfinished⟩ :=
    runs_callRouter (by simp [routeOf, hsome]) hrun
  refine ⟨inner, hfinished, ?_⟩
  unfold clientAddressLayer at hinner
  split at hinner
  next hpeer => exact .inl ⟨hpeer, hinner.2⟩
  next peer hpeer =>
    obtain ⟨h₁, h₂, -, rfl, -, hlayered⟩ := runs_bind.mp hinner
    exact .inr ⟨peer, route, h₂, hpeer, hroute, List.sublist_append_right _ _, hlayered⟩

/-- Each internal endpoint has its route. -/
theorem routeOf_internal_isSome (hpath : request.uri.path ∈ internalPaths) :
    (routeOf site routers.internal none request.uri.path).isSome = true := by
  have hall : ∀ path ∈ internalPaths, ((segments path).any fun segs =>
      routers.internal.any fun route => matchSegments route.pattern segs) = true := by decide
  have hany := hall _ hpath
  cases hsegs : segments request.uri.path with
  | none => simp [hsegs] at hany
  | some segs =>
    rw [hsegs, Option.any_some] at hany
    obtain ⟨route, hroute, hmatch⟩ := List.any_eq_true.mp hany
    rw [routeOf, Option.or_none]
    exact site.select_isSome hsegs hroute hmatch

/-- A complete run ends in an answer of the dispatcher or in a route's layers. -/
theorem runs_dispatcher (hrun : (dispatcher site request).Runs h response) :
    (∀ host, requestHost request.headers = some host → ∃ map, ⟨.hostMap, map⟩ ∈ h ∧
      map.get host = none) ∧ response = misdirected site ∨
      response = isolated site ∨
      ∃ inner, Finished request.method inner response ∧
      (request.peer = none ∧ inner = .ofStatus 500 ∨
        ∃ route routed h', RoutedTo site request h route routed ∧ h'.Sublist h ∧
          (layered site route routed).Runs h' inner) := by
  unfold dispatcher at hrun
  split at hrun
  next hpath =>
    have hmem := mem_internalPaths.mp hpath
    obtain ⟨route, inner, hroute, hlayered, hfinished⟩ :=
      runs_callRouter (routeOf_internal_isSome hmem) hrun
    exact .inr (.inr ⟨inner, hfinished,
      .inr ⟨route, request, h, .internal hmem hroute, List.Sublist.refl h, hlayered⟩⟩)
  next hpath =>
    split at hrun
    next hnone =>
      refine .inl ⟨fun host hhost => ?_, hrun.2⟩
      rw [hnone] at hhost
      cases hhost
    next host hhost =>
      obtain ⟨map, h', rfl, hmap⟩ := runs_perform.mp hrun
      have hmem : ⟨.hostMap, map⟩ ∈ (⟨.hostMap, map⟩ :: h' : History) := List.mem_cons_self
      have hdispatch := dispatch_eq site map (mem_internalPaths.not.mp hpath) hhost
      split at hmap
      next hget =>
        refine .inl ⟨fun host' hhost' => ⟨map, hmem, ?_⟩, hmap.2⟩
        rw [hhost, Option.some.injEq] at hhost'
        rw [← hhost', hget]
      next hget =>
        rw [hget] at hdispatch
        split at hmap
        next hallows =>
          rw [if_pos hallows] at hdispatch
          obtain ⟨inner, hfinished, hends⟩ := runs_hostRouter (by decide) hmap
          refine .inr (.inr ⟨inner, hfinished, hends.imp_right ?_⟩)
          rintro ⟨peer, route, h'', hpeer, hroute, hsub, hlayered⟩
          exact ⟨route, _, h'', .main hmem hdispatch hroute hpeer, hsub.cons _, hlayered⟩
        next => exact .inr (.inl hmap.2)
      next id hget =>
        rw [hget] at hdispatch
        obtain ⟨inner, hfinished, hends⟩ := runs_hostRouter (by decide) hmap
        refine .inr (.inr ⟨inner, hfinished, hends.imp_right ?_⟩)
        rintro ⟨peer, route, h'', hpeer, hroute, hsub, hlayered⟩
        exact ⟨route, _, h'', .project hmem hdispatch hroute hpeer, hsub.cons _, hlayered⟩

/-- The header layer counts a response once and sets its headers. -/
theorem runs_headersLayer {next : Next} (hrun : (headersLayer next request).Runs h response) :
    ∃ h' inner, (next request).Runs h' inner ∧ response = withPolicy inner ∧
      h = h' ++ (countedReason inner).toList.map fun reason => ⟨.increment reason, ()⟩ := by
  obtain ⟨h₁, h₂, inner, rfl, hnext, hrest⟩ := runs_bind.mp hrun
  refine ⟨h₁, inner, hnext, ?_⟩
  split at hrest
  next reason hreason =>
    obtain ⟨-, h', rfl, rfl, rfl⟩ := runs_perform.mp hrest
    exact ⟨rfl, by rw [hreason]; rfl⟩
  next hnone =>
    obtain ⟨rfl, rfl⟩ := hrest
    exact ⟨rfl, by rw [hnone]; rfl⟩

/-! ## Headers -/

section
variable {cache : CacheClass} {csp : Csp} {method : Method} {name : Str}

theorem getAll_cached_cacheControl :
    (cached cache csp method response).headers.getAll cacheControl =
    [cacheValue cache method response] := by
  have hne : cacheControl ≠ contentSecurityPolicy := by decide
  cases csp
  exact (getAll_remove_of_ne hne).trans getAll_insert_self

theorem getAll_cached_csp :
    (cached cache csp method response).headers.getAll contentSecurityPolicy = [] := by
  cases csp
  exact getAll_remove_self

theorem getAll_cached_of_ne (hcache : name ≠ cacheControl) (hcsp : name ≠ contentSecurityPolicy) :
    (cached cache csp method response).headers.getAll name = response.headers.getAll name := by
  cases csp
  exact (getAll_remove_of_ne hcsp).trans
    ((getAll_insert_of_ne hcache).trans (getAll_remove_of_ne hcache))

end

theorem getAll_errorResponse_of_ne {status : Nat} {format : ErrorFormat} {name : Str}
    (hne : name ≠ contentType) : (errorResponse site status format).headers.getAll name = [] := by
  simp [errorResponse, HeaderMap.getAll, Ne.symm hne]

theorem getAll_csp_of_dispatcher (hrun : (dispatcher site request).Runs h response) :
    response.headers.getAll contentSecurityPolicy = [] := by
  have hne : contentSecurityPolicy ≠ contentType := by decide
  rcases runs_dispatcher hrun with ⟨-, rfl⟩ | rfl | ⟨inner, hfinished, hends⟩
  · rw [misdirected, Response.mark_headers, getAll_errorResponse_of_ne hne]
  · rw [isolated, Response.mark_headers, getAll_errorResponse_of_ne hne]
  · rw [hfinished.headers _ (by decide) (by decide)]
    rcases hends with ⟨-, rfl⟩ | ⟨route, routed, h', -, -, hlayered⟩
    · rfl
    · obtain ⟨inner, rfl⟩ := runs_layered hlayered
      exact getAll_cached_csp

/-- Every response has each fixed header once and the release policy, whatever its handler set. -/
theorem response_security_headers (hrun : (service site request).Runs h response) :
    (∀ p ∈ fixedHeaders, response.headers.getAll p.1 = [p.2]) ∧
      response.headers.getAll contentSecurityPolicy = [releaseCsp] := by
  obtain ⟨h', inner, hinner, rfl, -⟩ := runs_headersLayer hrun
  rw [withPolicy_headers]
  exact ⟨fun p hp => getAll_applyHeaders_fixed hp,
    getAll_applyHeaders_csp (getAll_csp_of_dispatcher hinner)⟩

/-- A page of the admin area. -/
def Request.settings : Request :=
  .sample .get "/admin/p/demo/settings".toList (List.all_eq_true.mp (by decide))

theorem response_security_headers_settings :
    ∃ h response, (service .sample .settings).Runs h response ∧
    (∀ p ∈ fixedHeaders, response.headers.getAll p.1 = [p.2]) ∧
      response.headers.getAll contentSecurityPolicy = [releaseCsp] := by
  have hrun := runs_runWith (answers (some adminUser)) (service .sample .settings)
  exact ⟨_, _, hrun, response_security_headers hrun⟩

/-! ## Caching -/

/-- A route other than a fallback matches the path. -/
theorem RoutedTo.matches (hrouted : RoutedTo site request h route r)
    (hcache : route.cache ≠ .noStore) :
    ∃ segs, segments request.uri.path = some segs ∧ matchSegments route.pattern segs = true := by
  have hselected {routes : List Route} {fallback : Option Route}
      (hfallback : ∀ route ∈ fallback, route.cache = .noStore)
      (hroute : routeOf site routes fallback request.uri.path = some route) :
      ∃ segs, segments request.uri.path = some segs ∧ matchSegments route.pattern segs = true := by
    rcases Option.or_eq_some_iff.mp hroute with hselect | ⟨-, hfall⟩
    · exact (site.mem_of_select hselect).2
    · exact absurd (hfallback route hfall) hcache
  cases hrouted with
  | internal _ hroute => exact hselected (by decide) hroute
  | main _ _ hroute _ => exact hselected (by decide) hroute
  | project _ _ hroute _ => exact hselected (by decide) hroute

/-- The patterns of the routes that are cached, by their class. -/
def Route.okForCache (route : Route) : Bool :=
  match route.cache with
  | .noStore => true
  | .noCache => route.pattern = [lit ""]
  | .staticAsset => route.pattern = [lit "static", param "name"]
  | .canonicalRedirect => route.pattern.head? = some (lit "p")

theorem okForCache_of_mem (h : route ∈ table) : route.okForCache = true := by
  have hall : table.all Route.okForCache = true := by decide
  exact List.all_eq_true.mp hall route h

/-- What a response may say about caching. -/
inductive CacheAllowed (request : Request) (response : Response) : Bytes → Prop
  | noStore : CacheAllowed request response noStore
  /-- The landing page, and what is not there of the assets. -/
  | noCache (hpath : segments request.uri.path = some [[]] ∨
      ∃ name, segments request.uri.path = some ["static".toList, name]) :
      CacheAllowed request response noCache
  /-- Only a content-hashed asset that is served. -/
  | immutable {name : Str} (hpath : segments request.uri.path = some ["static".toList, name])
      (hasset : response.hashedAsset = true) (hstatus : response.status = 200)
      (hsafe : request.method.isSafe = true) : CacheAllowed request response immutable
  /-- Only the canonical redirect. -/
  | redirect {rest : List Str} (hpath : segments request.uri.path = some ("p".toList :: rest))
      (hstatus : response.status = 308) : CacheAllowed request response redirectMaxAge

theorem matchSegments_static {segs : List Str}
    (h : matchSegments [lit "static", param "name"] segs = true) :
    ∃ name, segs = ["static".toList, name] := by
  obtain ⟨rest, rfl, hrest⟩ := eq_cons_of_matchSegments_text h
  obtain ⟨name, rest, rfl, hnil⟩ := eq_cons_of_matchSegments_param hrest
  exact ⟨name, by rw [eq_nil_of_matchSegments hnil]⟩

theorem RoutedTo.cacheAllowed (hrouted : RoutedTo site request h route r) :
    CacheAllowed request response (cacheValue route.cache request.method response) := by
  have hok := okForCache_of_mem hrouted.mem_table
  unfold Route.okForCache at hok
  unfold cacheValue
  cases hcache : route.cache with
  | noStore => exact .noStore
  | noCache =>
    obtain ⟨segs, hsegs, hmatch⟩ := hrouted.matches (by rw [hcache]; decide)
    rw [hcache] at hok
    rw [of_decide_eq_true hok] at hmatch
    obtain ⟨rest, rfl, hrest⟩ := eq_cons_of_matchSegments_text hmatch
    rw [eq_nil_of_matchSegments hrest] at hsegs
    exact .noCache (.inl hsegs)
  | staticAsset =>
    obtain ⟨segs, hsegs, hmatch⟩ := hrouted.matches (by rw [hcache]; decide)
    rw [hcache] at hok
    rw [of_decide_eq_true hok] at hmatch
    obtain ⟨name, rfl⟩ := matchSegments_static hmatch
    dsimp only
    split
    next hserved =>
      simp only [Bool.and_eq_true, decide_eq_true_eq] at hserved
      exact .immutable hsegs hserved.1.1 hserved.1.2 hserved.2
    next => exact .noCache (.inr ⟨name, hsegs⟩)
  | canonicalRedirect =>
    obtain ⟨segs, hsegs, hmatch⟩ := hrouted.matches (by rw [hcache]; decide)
    rw [hcache] at hok
    obtain ⟨pattern, hpattern⟩ := List.head?_eq_some_iff.mp (of_decide_eq_true hok)
    rw [hpattern] at hmatch
    obtain ⟨rest, rfl, -⟩ := eq_cons_of_matchSegments_text hmatch
    dsimp only
    split
    next hstatus => exact .redirect hsegs hstatus
    next => exact .noStore

/-- Only the status and the mark of the response count. -/
theorem CacheAllowed.congr {response' : Response} {value : Bytes}
    (hallowed : CacheAllowed request response value)
    (hasset : response'.hashedAsset = response.hashedAsset)
    (hstatus : response'.status = response.status) : CacheAllowed request response' value := by
  cases hallowed with
  | noStore => exact .noStore
  | noCache hpath => exact .noCache hpath
  | immutable hpath hhashed hok hsafe =>
    exact .immutable hpath (hasset.trans hhashed) (hstatus.trans hok) hsafe
  | redirect hpath hmoved => exact .redirect hpath (hstatus.trans hmoved)

/-- Nothing of the admin area may be stored. -/
theorem CacheAllowed.eq_noStore {value : Bytes} (hallowed : CacheAllowed request response value)
    (hadmin : isAdminPath request.uri.path = true) : value = Http.noStore := by
  obtain ⟨rest, hsegs⟩ := segments_of_isAdminPath hadmin
  have hfirst {first : Str} {rest' : List Str}
      (hpath : segments request.uri.path = some (first :: rest')) :
      first = "admin".toList := by
    rw [hsegs, Option.some.injEq] at hpath
    exact (List.cons.inj hpath).1.symm
  cases hallowed with
  | noStore => rfl
  | noCache hpath =>
    rcases hpath with hpath | ⟨name, hpath⟩
    · exact absurd (hfirst hpath) (by decide)
    · exact absurd (hfirst hpath) (by decide)
  | immutable hpath => exact absurd (hfirst hpath) (by decide)
  | redirect hpath => exact absurd (hfirst hpath) (by decide)

/-- Every response has one `Cache-Control`, as its route declares; in the admin area it is
`no-store`. -/
theorem response_cache_control (hrun : (service site request).Runs h response) :
    ∃ value, response.headers.getAll cacheControl = [value] ∧ CacheAllowed request response value ∧
      (isAdminPath request.uri.path = true → value = noStore) := by
  obtain ⟨h', inner, hinner, rfl, -⟩ := runs_headersLayer hrun
  rw [withPolicy_headers, getAll_applyHeaders_cacheControl]
  suffices hsuffices : ∃ value, (inner.headers.getAll cacheControl = [] ∧ value = noStore ∨
      inner.headers.getAll cacheControl = [value]) ∧
      CacheAllowed request (withPolicy inner) value by
    obtain ⟨value, hvalue, hallowed⟩ := hsuffices
    refine ⟨value, ?_, hallowed, hallowed.eq_noStore⟩
    rcases hvalue with ⟨hnone, rfl⟩ | hone
    · rw [hnone, if_neg (by decide)]
    · rw [hone, if_pos (by rfl)]
  have hne : cacheControl ≠ contentType := by decide
  rcases runs_dispatcher hinner with ⟨-, rfl⟩ | rfl | ⟨inner', hfinished, hends⟩
  · exact ⟨noStore,
      .inl ⟨by rw [misdirected, Response.mark_headers, getAll_errorResponse_of_ne hne], rfl⟩,
      .noStore⟩
  · exact ⟨noStore, .inl ⟨by rw [isolated, Response.mark_headers, getAll_errorResponse_of_ne hne],
      rfl⟩, .noStore⟩
  · rw [hfinished.headers _ (by decide) (by decide)]
    rcases hends with ⟨-, rfl⟩ | ⟨route, routed, h'', hrouted, -, hlayered⟩
    · exact ⟨noStore, .inl ⟨rfl, rfl⟩, .noStore⟩
    · obtain ⟨inner'', rfl⟩ := runs_layered hlayered
      refine ⟨_, .inr getAll_cached_cacheControl, ?_⟩
      rw [hrouted.request_eq.1]
      refine hrouted.cacheAllowed.congr ?_ ?_
      · rw [withPolicy_hashedAsset, hfinished.hashedAsset, cached_hashedAsset]
      · rw [withPolicy_status, hfinished.status, cached_status]

theorem response_cache_control_settings :
    ∃ h response value, (service .sample .settings).Runs h response ∧
    response.headers.getAll cacheControl = [value] ∧ value = noStore := by
  have hrun := runs_runWith (answers (some adminUser)) (service .sample .settings)
  obtain ⟨value, hvalue, -, hadmin⟩ := response_cache_control hrun
  exact ⟨_, _, value, hrun, hvalue, hadmin (by decide)⟩

/-! ## Error bodies -/

section
variable {format : ErrorFormat}

@[simp] theorem status_withErrorBody :
    (withErrorBody site format response).status = response.status := by
  unfold withErrorBody
  split <;> rfl

@[simp] theorem ownBody_withErrorBody :
    (withErrorBody site format response).ownBody = response.ownBody := by
  unfold withErrorBody
  split <;> rfl

/-- The error body is the fixed one of the status. -/
def FixedBody (site : Site) (format : ErrorFormat) (response : Response) : Prop :=
  response.body = (render site response.status format).2 ∧
    response.headers.getAll contentType = [(render site response.status format).1]

theorem fixedBody_withErrorBody (herror : response.isError = true)
    (hown : response.ownBody = false) :
    FixedBody site format (withErrorBody site format response) := by
  rw [FixedBody, status_withErrorBody, withErrorBody, if_neg (by simp [herror, hown])]
  exact ⟨rfl, getAll_insert_self⟩

theorem fixedBody_errorResponse {status : Nat} :
    FixedBody site format (errorResponse site status format) := by
  simp [FixedBody, errorResponse, HeaderMap.getAll, Response.ofStatus]

theorem FixedBody.mark {reason : Reason} (hfixed : FixedBody site format response) :
    FixedBody site format (response.mark reason) := by
  rw [FixedBody, Response.mark_body, Response.mark_status, Response.mark_headers]
  exact hfixed

theorem FixedBody.withPolicy (hfixed : FixedBody site format response) :
    FixedBody site format (withPolicy response) := by
  rw [FixedBody, withPolicy_body, withPolicy_status, withPolicy_headers]
  rw [getAll_applyHeaders_of_notMem (by decide)]
  exact hfixed

theorem FixedBody.finished {method : Method} {inner : Response}
    (hfixed : FixedBody site format inner)
    (hfinished : Finished method inner response) (hhead : method ≠ .head)
    (herror : inner.isError = true) : FixedBody site format response := by
  rw [FixedBody, hfinished.body hhead herror, hfinished.status,
    hfinished.headers _ (by decide) (by decide)]
  exact hfixed

theorem FixedBody.cached {cache : CacheClass} {csp : Csp} {method : Method}
    (hfixed : FixedBody site format response) :
    FixedBody site format (cached cache csp method response) := by
  rw [FixedBody, cached_body, cached_status, getAll_cached_of_ne (by decide) (by decide)]
  exact hfixed

end

theorem RoutedTo.errors_eq_html (hrouted : RoutedTo site request h route r)
    (hpath : request.uri.path ∉ internalPaths) : route.errors = .html := by
  cases hrouted with
  | internal hinternal => exact absurd hinternal hpath
  | main _ _ hroute => exact routeOf_mem (p := (·.errors = .html)) hroute (by decide) (by decide)
  | project _ _ hroute => exact routeOf_mem (p := (·.errors = .html)) hroute (by decide) (by decide)

/-- The body of an error tells nothing but its status, unless the handler marked it as its own. The
answers to HEAD have none: the router takes them away. -/
theorem error_body_fixed (hrun : (service site request).Runs h response)
    (hpeer : request.peer ≠ none)
    (hhead : request.method ≠ .head) (herror : response.isError = true)
    (hown : response.ownBody = false) :
    ∃ format, FixedBody site format response ∧
      (request.uri.path ∉ internalPaths → format = .html) := by
  obtain ⟨h', inner, hinner, rfl, -⟩ := runs_headersLayer hrun
  rcases runs_dispatcher hinner with ⟨-, rfl⟩ | rfl | ⟨inner', hfinished, ⟨hnone, -⟩ | hends⟩
  · exact ⟨.html, fixedBody_errorResponse.mark.withPolicy, fun _ => rfl⟩
  · exact ⟨.html, fixedBody_errorResponse.mark.withPolicy, fun _ => rfl⟩
  · exact absurd hnone hpeer
  · obtain ⟨route, routed, h'', hrouted, -, hlayered⟩ := hends
    obtain ⟨inner'', rfl⟩ := runs_layered hlayered
    rw [withPolicy_ownBody, hfinished.ownBody, cached_ownBody, ownBody_withErrorBody] at hown
    have herror' : inner''.isError = true := by
      rw [← herror]
      refine Response.isError_congr ?_
      rw [withPolicy_status, hfinished.status, cached_status, status_withErrorBody]
    exact ⟨route.errors, ((fixedBody_withErrorBody herror' hown).cached.finished hfinished hhead (by
      rw [← herror']
      exact Response.isError_congr (by simp))).withPolicy, hrouted.errors_eq_html⟩

theorem error_body_fixed_settings : ∃ h response, (service .sample .settings).Runs h response ∧
    response.status = 404 ∧ FixedBody .sample .html response := by
  have hrun := runs_runWith (answers (some adminUser)) (service .sample .settings)
  obtain ⟨hstatus, hown⟩ : ((service .sample .settings).runWith
      (answers (some adminUser))).2.status = 404 ∧
      ((service .sample .settings).runWith (answers (some adminUser))).2.ownBody =
        false := by decide
  have herror : ((service .sample .settings).runWith (answers (some adminUser))).2.isError =
      true := by
    simp [Response.isError, Response.isClientError, hstatus]
  obtain ⟨format, hfixed, hformat⟩ := error_body_fixed hrun (by decide) (by decide) herror hown
  rw [hformat (by decide)] at hfixed
  exact ⟨_, _, hrun, hstatus, hfixed⟩

/-! ## Counts -/

/-- The reasons counted during a run. -/
def counts (h : History) : List Reason :=
  h.filterMap fun ev =>
    match ev.1 with
    | .increment reason => some reason
    | _ => none

theorem counts_eq_nil (honly : ∀ ev ∈ h, ∀ reason, ev.1 ≠ .increment reason) : counts h = [] := by
  rw [counts, List.filterMap_eq_nil_iff]
  intro ev hev
  split
  next reason heq => exact absurd heq (honly ev hev reason)
  next => rfl

section
variable {p : Op → Prop} (hown : ∀ e : Op, e.isOwn = true → p e)
  (hhandle : ∀ handler r, p (.handle handler r))
include hown hhandle

theorem only_guard {access : Access} {methods : MethodRouter} :
    (guard site access (site.callMethods methods) request).Only p := by
  cases access with
  | everyone => exact site.only_callMethods hhandle
  | session => exact only_sessionLayer hown fun _ => site.only_callMethods hhandle
  | admin => exact only_sessionLayer hown fun _ => only_adminLayer (site.only_callMethods hhandle)

theorem only_layered : (layered site route request).Only p := by
  have hmethods (request : Request) : (site.bodyLimitLayer route.body.cap
      (guard site route.access (site.callMethods route.methods)) request).Only p :=
    site.only_bodyLimitLayer fun _ => only_guard hown hhandle
  unfold layered
  split
  · exact only_cacheLayer (only_errorsLayer (hmethods request))
  · exact only_cacheLayer (only_errorsLayer
      (site.only_deadlineLayer (hown .timer rfl) (only_originLayer (only_rateLayer hown
      (only_multipartLayer (hmethods request))))))

omit hown hhandle in
theorem only_callRouter {layer : Next → Next} {routes : List Route} {fallback : Option Route}
    (hlayer : ∀ route, (layer (layered site route) request).Only p) :
    (callRouter site layer routes fallback request).Only p := by
  refine site.only_respond fun next hnext => ?_
  obtain ⟨route, -, rfl⟩ := Option.map_eq_some_iff.mp hnext
  exact hlayer route

theorem only_dispatcher : (dispatcher site request).Only p := by
  have hrouter (routes : List Route) (fallback : Option Route) (request : Request) :
      (hostRouter site routes fallback request).Only p :=
    only_callRouter fun route => only_clientAddressLayer hown fun _ => only_layered hown hhandle
  unfold dispatcher
  split
  · exact only_callRouter fun route => only_layered hown hhandle
  split
  · exact only_pure
  refine only_bind (only_perform (hown .hostMap rfl)) fun map => ?_
  split
  · exact only_pure
  · split
    · exact hrouter _ _ _
    · exact only_pure
  · exact hrouter _ _ _

end

/-- Each request is counted at most once, under the reason of its response. -/
theorem request_counted_once (hrun : (service site request).Runs h response) :
    counts h = (countedReason response).toList := by
  obtain ⟨h', inner, hinner, rfl, rfl⟩ := runs_headersLayer hrun
  have honly : (dispatcher site request).Only fun e => ∀ reason, e ≠ .increment reason := by
    refine only_dispatcher (fun e hown reason heq => ?_) fun handler r reason heq => ?_
    · rw [heq] at hown
      cases hown
    · cases heq
  have hinside : counts h' = [] := counts_eq_nil (honly.mem_of_runs hinner)
  have hreason : countedReason (withPolicy inner) = countedReason inner := by
    simp only [countedReason, withPolicy_rejected, withPolicy_status]
  rw [counts, List.filterMap_append, ← counts, hinside, hreason]
  cases countedReason inner with
  | none => rfl
  | some reason => rfl

/-- The same page of a host that is not served. -/
def Request.elsewhere : Request :=
  { Request.settings with headers := [("host".toList, asBytes "other.test".toList)] }

theorem request_counted_once_elsewhere :
    ∃ h response, (service .sample .elsewhere).Runs h response ∧ counts h = [.unknownHost] := by
  have hrun := runs_runWith (answers none) (service .sample .elsewhere)
  have hreason : countedReason ((service .sample .elsewhere).runWith (answers none)).2 =
      some .unknownHost := by
    decide
  refine ⟨_, _, hrun, ?_⟩
  rw [request_counted_once hrun, hreason]
  rfl

end Kohaku.Http
