import Kohaku.Routing.Responses

/-!
# The admin area without a session

A request for the admin area in which no valid session is read gets to no handler, and its answer is
one of a few that do not depend on the route: each layer around the guard answers so itself or
passes the guard's answer on (`guards_layered`), and every route of the area but the public pages
has a guard.
-/

namespace Kohaku.Http

open Routing Limits Ask Ask.Program

variable {site : Site} {request r : Request} {route : Route} {h : History} {response : Response}

/-- The header's name, as it is compared. -/
def location : Str := "location".toList

/-- No valid session was read. -/
def SignedOut (h : History) : Prop :=
  ∀ hash now found, ⟨.readSession hash now, .ok (some found)⟩ ∉ h

theorem SignedOut.mono {h' : History} (hout : SignedOut h) (hsub : h' ⊆ h) : SignedOut h' :=
  fun hash now found hmem => hout hash now found (hsub hmem)

theorem SignedIn.not_signedOut {user : SessionUser} (hsigned : SignedIn site request user h) :
    ¬SignedOut h := by
  obtain ⟨token, now, lastSeen, -, -, hread⟩ := hsigned
  exact fun hout => hout _ _ _ hread

/-! ## Being sent away -/

/-- The answers of the layers: to the login page, or an error. -/
def SentAway (response : Response) : Prop :=
  response.status = 303 ∧ response.headers.getAll location = [asBytes loginPath] ∨
    response.status ∈ [403, 408, 413, 415, 429, 500]

theorem SentAway.withPolicy (hsent : SentAway response) : SentAway (withPolicy response) := by
  rw [SentAway, withPolicy_status, withPolicy_headers, getAll_applyHeaders_of_notMem (by decide)]
  exact hsent

theorem SentAway.cached {cache : CacheClass} {csp : Csp} {method : Method}
    (hsent : SentAway response) : SentAway (cached cache csp method response) := by
  rw [SentAway, cached_status, getAll_cached_of_ne (by decide) (by decide)]
  exact hsent

theorem SentAway.finished {method : Method} {inner : Response} (hsent : SentAway inner)
    (hfinished : Finished method inner response) : SentAway response := by
  rw [SentAway, hfinished.status, hfinished.headers _ (by decide) (by decide)]
  exact hsent

theorem SentAway.withErrorBody {format : ErrorFormat} (hsent : SentAway response) :
    SentAway (Http.withErrorBody site format response) := by
  rcases hsent with ⟨hstatus, hlocation⟩ | hstatus
  · have hkept : Http.withErrorBody site format response = response := by
      rw [Http.withErrorBody, if_pos]
      simp [Response.isError, Response.isClientError, Response.isServerError, hstatus]
    rw [hkept]
    exact .inl ⟨hstatus, hlocation⟩
  · refine .inr ?_
    rwa [status_withErrorBody]

/-! ## Layers around a guard -/

/-- Without a session the service only sends away. -/
def Guards (x : Serving Response) : Prop :=
  ∀ h response, SignedOut h → x.Runs h response → SentAway response

section
variable {next : Next}

theorem guards_sessionLayer : Guards (sessionLayer site next request) := by
  intro h response hout hrun
  obtain ⟨now, h', rfl, hnow⟩ := runs_perform.mp hrun
  obtain ⟨h₁, h₂, found, rfl, hcurrent, hfound⟩ := runs_bind.mp hnow
  split at hfound
  next =>
    obtain ⟨-, rfl⟩ := hfound
    exact .inr (by decide)
  next =>
    obtain ⟨-, rfl⟩ := hfound
    split
    · exact .inl ⟨rfl, by decide⟩
    · exact .inr (by decide)
  next user =>
    obtain ⟨token, lastSeen, -, hread⟩ := read_of_current hcurrent
    exact absurd (List.mem_cons_of_mem _ (List.mem_append_left _ hread)) (hout _ _ _)

theorem guards_guard {access : Access} (haccess : access ≠ .everyone) :
    Guards (guard site access next request) := by
  cases access with
  | everyone => exact absurd rfl haccess
  | session => exact guards_sessionLayer
  | admin => exact guards_sessionLayer

theorem guards_bodyLimitLayer {cap : Nat} (hnext : ∀ request, Guards (next request)) :
    Guards (site.bodyLimitLayer cap next request) := by
  intro h response hout hrun
  rcases site.runs_bodyLimitLayer hrun with hstatus | ⟨n, -, hrun⟩
  · exact .inr (by simp [hstatus])
  · exact hnext _ h response hout hrun

theorem guards_multipartLayer {multipart : Multipart} (hnext : Guards (next request)) :
    Guards (multipartLayer multipart next request) := by
  unfold multipartLayer
  split
  split
  · rintro h response - ⟨-, rfl⟩
    exact .inr (by decide)
  · exact hnext

theorem guards_rateLayer {classes : List RateClass} (hnext : Guards (next request)) :
    Guards (rateLayer classes next request) := by
  unfold rateLayer
  split
  · rintro h response - ⟨-, rfl⟩
    exact .inr (by decide)
  · intro h response hout hrun
    obtain ⟨now, h', rfl, hnow⟩ := runs_perform.mp hrun
    obtain ⟨h₁, h₂, refused, rfl, -, hrest⟩ := runs_bind.mp hnow
    split at hrest
    · obtain ⟨-, rfl⟩ := hrest
      exact .inr (by simp [Response.rejection, Response.ofStatus])
    · exact hnext h₂ response (hout.mono fun ev hev =>
        List.mem_cons_of_mem _ (List.mem_append_right _ hev)) hrest

theorem guards_originLayer {headerless : Headerless} (hnext : Guards (next request)) :
    Guards (originLayer headerless next request) := by
  have hrejected : Guards (Pure.pure (.rejection 403 .crossSite)) := by
    rintro h response - ⟨-, rfl⟩
    exact .inr (by decide)
  unfold originLayer
  split
  · exact hnext
  split
  · split
    · exact hnext
    · exact hrejected
  · exact hrejected

theorem guards_deadlineLayer (hnext : Guards (next request)) :
    Guards (site.deadlineLayer next request) := by
  intro h response hout hrun
  rcases site.runs_deadlineLayer hrun with hstatus | ⟨h', hsub, hrun⟩
  · exact .inr (by simp [hstatus])
  · exact hnext h' response (hout.mono hsub.subset) hrun

theorem guards_errorsLayer {format : ErrorFormat} (hnext : Guards (next request)) :
    Guards (errorsLayer site format next request) := by
  intro h response hout hrun
  obtain ⟨inner, hinner, rfl⟩ := runs_bind_pure.mp hrun
  exact (hnext h inner hout hinner).withErrorBody

theorem guards_cacheLayer {cache : CacheClass} {csp : Csp} (hnext : Guards (next request)) :
    Guards (cacheLayer cache csp next request) := by
  intro h response hout hrun
  obtain ⟨inner, hinner, rfl⟩ := runs_bind_pure.mp hrun
  exact (hnext h inner hout hinner).cached

end

/-- A route that declares a session or the admin only sends away without one. -/
theorem guards_layered (haccess : route.access ≠ .everyone) :
    Guards (layered site route request) := by
  have hmethods (request : Request) : Guards (site.bodyLimitLayer route.body.cap
      (guard site route.access (site.callMethods route.methods)) request) :=
    guards_bodyLimitLayer fun _ => guards_guard haccess
  unfold layered
  split
  · exact guards_cacheLayer (guards_errorsLayer (hmethods request))
  · exact guards_cacheLayer (guards_errorsLayer
      (guards_deadlineLayer (guards_originLayer (guards_rateLayer
      (guards_multipartLayer (hmethods request))))))

/-! ## The admin area -/

/-- The path of a sign-in or reset page. -/
def isPublicAdminPath (path : Str) : Bool :=
  (segments path).any fun segs => publicAdminPatterns.any (matchSegments · segs)

/-- Every host map that is read names the request's host as the main host. -/
def OnMainHost (request : Request) (h : History) : Prop :=
  ∃ host, requestHost request.headers = some host ∧ ∀ map, ⟨.hostMap, map⟩ ∈ h →
    map.get host = some .main

/-- The route of a path of the admin area. -/
theorem select_admin {path : Str} (site : Site) (h : isAdminPath path = true) : ∃ r ∈ routers.main,
    site.select routers.main path = some r ∧ r.cache = .noStore ∧
      (r.access = .everyone → r.pattern ∈ publicAdminPatterns) := by
  obtain ⟨rest, hsegs⟩ := segments_of_isAdminPath h
  obtain ⟨r', hr', hmatch'⟩ := exists_match_admin rest
  obtain ⟨r, hselect⟩ := Option.isSome_iff_exists.mp (site.select_isSome hsegs hr' hmatch')
  obtain ⟨hr, segs, hsegs', hmatch⟩ := site.mem_of_select hselect
  rw [hsegs, Option.some.injEq] at hsegs'
  rw [← hsegs'] at hmatch
  exact ⟨r, hr, hselect, declared_of_matchSegments hr hmatch⟩

theorem RoutedTo.access_ne_everyone (hrouted : RoutedTo site request h route r)
    (hmain : OnMainHost request h)
    (hadmin : isAdminPath request.uri.path = true)
    (hguarded : isPublicAdminPath request.uri.path = false) :
    route.access ≠ .everyone := by
  have hpath : request.uri.path ∉ internalPaths := by
    have hall : ∀ path ∈ internalPaths, isAdminPath path = false := by decide
    intro hmem
    rw [hall _ hmem] at hadmin
    cases hadmin
  cases hrouted with
  | internal hinternal => exact absurd hinternal hpath
  | main _ _ hroute _ =>
    obtain ⟨r, -, hselect, -, hpublic⟩ := select_admin site hadmin
    rw [routeOf, hselect, Option.some_or, Option.some.injEq] at hroute
    rw [← hroute]
    intro heveryone
    obtain ⟨-, segs, hsegs, hmatch⟩ := site.mem_of_select hselect
    rw [isPublicAdminPath, hsegs, Option.any_some, List.any_eq_false] at hguarded
    exact hguarded _ (hpublic heveryone) hmatch
  | project hmap hdispatch _ _ =>
    obtain ⟨host, hhost, hget⟩ := hmain
    rw [dispatch_eq site _ hpath hhost, hget _ hmap] at hdispatch
    dsimp only at hdispatch
    split at hdispatch <;> cases hdispatch

/-- Without a session the admin area runs no handler and only sends away, apart from its sign-in and
reset pages. -/
theorem admin_area_signed_out (hrun : (service site request).Runs h response)
    (hmain : OnMainHost request h)
    (hadmin : isAdminPath request.uri.path = true)
    (hguarded : isPublicAdminPath request.uri.path = false)
    (hout : SignedOut h) : SentAway response ∧ ∀ ev ∈ h, ∀ handler r, ev.1 ≠ .handle handler r := by
  constructor
  · obtain ⟨h', inner, hinner, rfl, rfl⟩ := runs_headersLayer hrun
    have hsub : h' ⊆ h' ++ (countedReason inner).toList.map fun reason => ⟨.increment reason, ()⟩ :=
      List.subset_append_left _ _
    rcases runs_dispatcher hinner with ⟨hmiss, -⟩ | rfl | ⟨inner', hfinished, ⟨-, rfl⟩ | hends⟩
    · obtain ⟨host, hhost, hget⟩ := hmain
      obtain ⟨map, hmap, hnone⟩ := hmiss host hhost
      rw [hget map (hsub hmap)] at hnone
      cases hnone
    · exact SentAway.withPolicy (.inr (by simp [isolated, errorResponse, Response.ofStatus]))
    · exact (SentAway.finished (.inr (by decide)) hfinished).withPolicy
    · obtain ⟨route, routed, h'', hrouted, hsub', hlayered⟩ := hends
      have haccess := (hrouted.mono hsub).access_ne_everyone hmain hadmin hguarded
      have hout' : SignedOut h'' := hout.mono fun ev hev => hsub (hsub'.subset hev)
      exact ((guards_layered haccess h'' inner' hout' hlayered).finished hfinished).withPolicy
  · rintro ⟨e, answer⟩ hev handler r rfl
    -- a handler would have been behind the guard, which read a session
    obtain ⟨h₁, h₂, rfl⟩ := List.append_of_mem hev
    obtain ⟨route, routed, hrouted, hpassed⟩ := asks_service (Runs.asks hrun)
    have hsub : h₁ ⊆ h₁ ++ ⟨.handle handler r, answer⟩ :: h₂ := List.subset_append_left _ _
    have haccess := (hrouted.mono hsub).access_ne_everyone hmain hadmin hguarded
    obtain ⟨n, -, hpermitted⟩ := hpassed.permitted
    obtain ⟨user, -, hsigned, -⟩ := hpermitted.signedIn haccess
    exact hsigned.not_signedOut (hout.mono hsub)

/-- The event reads no session, and the sample's host as the main host. -/
def isSignedOut : Ask.Event Op Answer → Bool
  | ⟨.readSession _ _, .ok (some _)⟩ => false
  | ⟨.hostMap, map⟩ => map.get "kohaku.test".toList = some .main
  | _ => true

theorem admin_area_signed_out_settings : ∃ h response, (service .sample .settings).Runs h response ∧
    SentAway response ∧ ∀ ev ∈ h, ∀ handler r, ev.1 ≠ .handle handler r := by
  have hrun := runs_runWith (answers none) (service .sample .settings)
  have hall : ((service .sample .settings).runWith (answers none)).1.all isSignedOut =
      true := by decide
  rw [List.all_eq_true] at hall
  have hmain : OnMainHost .settings ((service .sample .settings).runWith (answers none)).1 :=
    ⟨"kohaku.test".toList, by decide, fun map hmap => of_decide_eq_true (hall _ hmap)⟩
  have hout : SignedOut ((service .sample .settings).runWith (answers none)).1 :=
    fun hash now found hmem => Bool.false_ne_true (hall _ hmem)
  exact ⟨_, _, hrun, admin_area_signed_out hrun hmain (by decide) (by decide) hout⟩

end Kohaku.Http
