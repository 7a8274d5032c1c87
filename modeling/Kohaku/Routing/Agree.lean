import Kohaku.Routing.Dispatch

/-!
# Routing, TLS ask and canonical redirect agree

The three handlers read two maps, by host and by slug, after different decodings. For a store whose
slugs and hosts are unique they agree on every input: a host reaches a project exactly when that
project has it, whatever its case and port, and the TLS ask and the redirect follow suit.
-/

namespace Kohaku.Routing

open Projects Sql

/-- Unique slugs and unique valid hosts, none of them the main host. -/
structure Configured (store : Store) (base : BaseUrl) : Prop where
  slugs : ∀ {p q}, p ∈ store.projects → q ∈ store.projects → p.slug = q.slug → p = q
  hosts : ∀ {p q host}, p ∈ store.projects → q ∈ store.projects → p.host = some host →
    q.host = some host → p = q
  valid : ∀ {p host}, p ∈ store.projects → p.host = some host → IsHost host
  notMain : ∀ {p}, p ∈ store.projects → p.host ≠ some base.host.text

variable {store : Store} {base : BaseUrl} {host slug : Str} {p : ProjectRow} {map : HostMap}
  {request : Request}

namespace Configured

theorem get_eq_project (W : Configured store base) (hp : p ∈ store.projects) :
    (load store.projects.rows base).get host = some (.project p.id) ↔ p.host = some host := by
  rcases get_load store.projects.rows base host with ⟨q, hq, hhost, hget⟩ | ⟨hnone, hget⟩
  · rw [hget]
    constructor
    · intro heq
      have hid : q.id = p.id := HostEntry.project.inj (Option.some.inj heq)
      rwa [← AutoTable.eq_of_id_eq hq hp hid]
    · intro heq
      rw [W.hosts hq hp hhost heq]
  · rw [hget]
    refine ⟨fun heq => ?_, fun heq => absurd heq (hnone p hp)⟩
    split at heq <;> cases heq

theorem domain_eq_some (W : Configured store base) :
    (load store.projects.rows base).domain slug = some host ↔
      ∃ p ∈ store.projects, p.slug = slug ∧ p.host = some host := by
  rcases domain_load store.projects.rows base slug with ⟨q, hq, hslug, -, hget⟩ | ⟨hnone, hget⟩
  · rw [hget]
    constructor
    · intro hhost
      exact ⟨q, hq, hslug, hhost⟩
    · rintro ⟨p, hp, hps, hhost⟩
      rw [W.slugs hq hp (hslug.trans hps.symm), hhost]
  · rw [hget]
    refine ⟨(nomatch ·), ?_⟩
    rintro ⟨p, hp, hslug, hhost⟩
    rw [hnone p hp hslug] at hhost
    cases hhost

/-- A host of a project is its own normal form. -/
theorem normalize_host (W : Configured store base) (hp : p ∈ store.projects)
    (hhost : p.host = some host) : normalize host = host :=
  normalize_dnsName ⟨host, (W.valid hp hhost).1⟩

end Configured

/-! ## The dispatcher -/

/-- Where a request outside the internal paths goes. -/
theorem dispatch_of_host (hpath : request.uri.path ∉ internalPaths)
    (hhost : requestHost request.headers = some host) :
    dispatch map base request =
      match map.get host with
      | none => .misdirected
      | some .main =>
        if adminIsolationAllows request.method request.uri.path request.headers then
          .main base.origin
        else .isolated
      | some (.project id) => .project id (projectOrigin host) := by
  have hnot : internalPaths.contains request.uri.path = false := by simpa using hpath
  unfold dispatch
  cases hget : map.get host with
  | none => simp only [hnot, hhost, hget, Bool.false_eq_true, if_false]
  | some entry => cases entry <;> simp only [hnot, hhost, hget, Bool.false_eq_true, if_false]

theorem requestHost_of_value {headers : HeaderMap} {value : Bytes} {text : Str}
    (hvalue : headers.getAll "host".toList = [value]) (htext : toStr value = some text)
    (hne : text ≠ []) : requestHost headers = some (normalize text) := by
  unfold requestHost
  rw [hvalue]
  dsimp only
  rw [htext, Option.bind_eq_bind, Option.bind_some, if_neg (by simpa using hne)]

theorem lt_of_isVisibleAscii (b : UInt8) (h : isVisibleAscii b = true) : b < 0x80 := by
  simp only [isVisibleAscii, Bool.or_eq_true, Bool.and_eq_true, decide_eq_true_eq] at h
  rcases h with ⟨-, hlt⟩ | rfl
  · exact UInt8.lt_trans hlt (by decide)
  · decide

/-- A visible text is what `to_str` reads back from its bytes. -/
theorem toStr_asBytes {text : Str} (h : (asBytes text).all isVisibleAscii = true) :
    toStr (asBytes text) = some text := by
  have hascii := of_all_asBytes lt_of_isVisibleAscii h
  rw [toStr, if_pos h, asBytes_of_ascii fun c hc => (hascii c hc).1, List.map_map]
  congr 1
  refine (List.map_congr_left fun c hc => ?_).trans (List.map_id _)
  have hlt := (hascii c hc).1
  rw [Function.comp_apply, UInt8.toNat_ofNat', Nat.mod_eq_of_lt (by omega), Char.ofNat_toNat, id]

theorem asBytes_dnsName (name : DnsName) : (asBytes name.text).all isVisibleAscii = true := by
  rw [asBytes_of_ascii fun c hc => (name.isNameChar_of_mem hc).1, List.all_map, List.all_eq_true]
  intro c hc
  obtain ⟨hlt, hname⟩ := name.isNameChar_of_mem hc
  exact of_ascii (fun c => DnsName.isNameChar c = true →
    isVisibleAscii (UInt8.ofNat c.toNat) = true) (by decide) hlt hname

/-! ## The redirect -/

/-- A header value can carry every character of a request target. -/
theorem isHeaderByte_of_isUriChar {c : Char} (h : isUriChar c = true) :
    (String.utf8EncodeChar c).all isHeaderByte = true := by
  by_cases hlt : c.toNat < 0x80
  · rw [utf8EncodeChar_of_lt hlt, List.all_cons, List.all_nil, Bool.and_true]
    exact of_ascii (fun c => isUriChar c = true → isHeaderByte (UInt8.ofNat c.toNat) = true)
      (by decide) hlt h
  · rw [List.all_eq_true]
    intro b hb
    have hle := le_of_mem_utf8EncodeChar (Nat.le_of_not_lt hlt) b hb
    have h20 : 0x20 ≤ b := UInt8.le_trans (by decide) hle
    have h7F : b ≠ 0x7F := by
      rintro rfl
      exact absurd hle (by decide)
    simp [isHeaderByte, h20, h7F]

theorem isHeaderByte_asBytes {text : Str} (h : ∀ c ∈ text, isUriChar c = true) :
    (asBytes text).all isHeaderByte = true := by
  rw [asBytes, List.all_flatMap, List.all_eq_true]
  exact fun c hc => isHeaderByte_of_isUriChar (h c hc)

theorem isUriChar_dnsName (name : DnsName) {c : Char} (hc : c ∈ name.text) :
    isUriChar c = true := by
  obtain ⟨hlt, hname⟩ := name.isNameChar_of_mem hc
  exact of_ascii (fun c => DnsName.isNameChar c = true → isUriChar c = true)
    (by decide) hlt hname

theorem isUriChar_queryText (uri : Uri) : ∀ c ∈ uri.queryText, isUriChar c = true := by
  have hvalid := uri.valid
  unfold Uri.queryText
  cases hq : uri.query with
  | none => simp
  | some query =>
    rw [hq] at hvalid
    intro c hc
    rcases List.mem_cons.mp hc with rfl | hc
    · decide
    · exact hvalid c (List.mem_append_right _ hc)

/-- The location of a redirect to a DNS name is a header value. -/
theorem isHeaderByte_location {uri : Uri} {path : Str} (hhost : isDnsName host = true)
    (hpath : ∀ c ∈ path, isUriChar c = true) :
    (asBytes (projectOrigin host ++ path ++ uri.queryText)).all isHeaderByte = true := by
  have hscheme : ∀ c ∈ "https://".toList, isUriChar c = true :=
    List.all_eq_true.mp (by decide)
  refine isHeaderByte_asBytes fun c hc => ?_
  rw [List.mem_append, List.mem_append] at hc
  rcases hc with (hc | hc) | hc
  · rcases List.mem_append.mp hc with hc | hc
    · exact hscheme c hc
    · exact isUriChar_dnsName ⟨host, hhost⟩ hc
  · exact hpath c hc
  · exact isUriChar_queryText uri c hc

/-- A path is split after its slug. -/
theorem takeWhile_slug {rest : Str} (hslug : '/' ∉ slug)
    (hrest : rest = [] ∨ rest.head? = some '/') :
    (slug ++ rest).takeWhile (· ≠ '/') = slug ∧ (slug ++ rest).dropWhile (· ≠ '/') = rest := by
  have hne : ∀ c ∈ slug, decide (c ≠ '/') = true := by
    intro c hc
    exact decide_eq_true fun heq => hslug (heq ▸ hc)
  rw [List.takeWhile_append_of_pos hne, List.dropWhile_append_of_pos hne]
  cases rest with
  | nil => exact ⟨List.append_nil _, rfl⟩
  | cons c rest =>
    obtain rfl : c = '/' := by simpa using hrest
    exact ⟨List.append_nil _, rfl⟩

/-- The redirect of `/p/{slug}` and what follows it, not under `api`. -/
theorem canonical_eq {uri : Uri} {rest : Str} (hpath : uri.path = "/p/".toList ++ slug ++ rest)
    (hslug : '/' ∉ slug) (hrest : rest = [] ∨ rest.head? = some '/') (hapi : underApi rest = false)
    (hdomain : ∀ host, map.domain slug = some host → isDnsName host = true) :
    canonical map uri =
      match map.domain slug with
      | none => .notFound
      | some host =>
        .redirect (projectOrigin host ++ (if rest.isEmpty then ['/'] else rest) ++
          uri.queryText) := by
  have hdrop : uri.path.dropPrefix? "/p/".toList = some (slug ++ rest) :=
    List.dropPrefix?_eq_some_iff.mpr ⟨"/p/".toList, by rw [hpath, List.append_assoc], by decide⟩
  obtain ⟨htake, hrest'⟩ := takeWhile_slug hslug hrest
  unfold canonical
  rw [hdrop]
  dsimp only
  rw [htake, hrest', if_neg (by simp [hapi])]
  cases hd : map.domain slug with
  | none => rfl
  | some host =>
    dsimp only
    rw [if_pos (isHeaderByte_location (hdomain host hd) ?_)]
    intro c hc
    split at hc
    · rw [List.mem_singleton.mp hc]
      decide
    · refine uri.valid c (List.mem_append_left _ ?_)
      rw [hpath]
      exact List.mem_append_right _ hc

/-! ## Agreement -/

/-- A request with the one `Host` value goes to the routers as its normal form is configured. -/
theorem dispatch_cases (store : Store) (base : BaseUrl) {value : Bytes} {text : Str}
    (hpath : request.uri.path ∉ internalPaths)
    (hvalue : request.headers.getAll "host".toList = [value]) (htext : toStr value = some text)
    (hne : text ≠ []) :
    (∃ p ∈ store.projects, p.host = some (normalize text) ∧
      dispatch (load store.projects.rows base) base request =
        .project p.id (projectOrigin (normalize text))) ∨
    (normalize text = base.host.text ∧
      (dispatch (load store.projects.rows base) base request = .main base.origin ∨
        dispatch (load store.projects.rows base) base request = .isolated)) ∨
    ((∀ p ∈ store.projects, p.host ≠ some (normalize text)) ∧ normalize text ≠ base.host.text ∧
      dispatch (load store.projects.rows base) base request = .misdirected) := by
  rw [dispatch_of_host hpath (requestHost_of_value hvalue htext hne)]
  rcases get_load store.projects.rows base (normalize text) with ⟨p, hp, hhost, hget⟩
    | ⟨hnone, hget⟩
  · rw [hget]
    exact .inl ⟨p, hp, hhost, rfl⟩
  · rw [hget]
    by_cases hmain : normalize text = base.host.text
    · rw [if_pos hmain]
      refine .inr (.inl ⟨hmain, ?_⟩)
      dsimp only
      split
      · exact .inl rfl
      · exact .inr rfl
    · rw [if_neg hmain]
      exact .inr (.inr ⟨hnone, hmain, rfl⟩)

/-- A project's own host reaches the project. -/
theorem Configured.dispatch_host (W : Configured store base) (hp : p ∈ store.projects)
    (hhost : p.host = some host) (hpath : request.uri.path ∉ internalPaths)
    (hvalue : request.headers.getAll "host".toList = [asBytes host]) :
    dispatch (load store.projects.rows base) base request = .project p.id (projectOrigin host) := by
  have hname := (W.valid hp hhost).1
  have hreq := requestHost_of_value hvalue (toStr_asBytes (asBytes_dnsName ⟨host, hname⟩))
    (DnsName.ne_nil ⟨host, hname⟩)
  rw [W.normalize_host hp hhost] at hreq
  rw [dispatch_of_host hpath hreq, (W.get_eq_project hp).mpr hhost]

theorem ne_nil_of_singleDomain {query domain : Str} (h : singleDomain query = some domain) :
    domain ≠ [] := by
  simp only [singleDomain, Option.bind_eq_bind, Option.bind_eq_some_iff] at h
  obtain ⟨found, -, value, -, decoded, -, hif⟩ := h
  split at hif
  · cases hif
  · rename_i hne
    cases hif
    simpa using hne

theorem tlsAsk_eq_true {query domain : Str} (h : singleDomain query = some domain) :
    tlsAsk map (some query) = true ↔ ∃ id, map.get (normalize domain) = some (.project id) := by
  rw [tlsAsk, Option.bind_some, h, Option.any_some]
  cases hget : map.get (normalize domain) with
  | none => simp
  | some entry => cases entry <;> simp

/-- Which router a request outside the internal paths gets. -/
theorem Configured.dispatch_iff (W : Configured store base) {value : Bytes} {text : Str}
    (hpath : request.uri.path ∉ internalPaths)
    (hvalue : request.headers.getAll "host".toList = [value]) (htext : toStr value = some text)
    (hne : text ≠ []) :
    (∀ p ∈ store.projects,
      (∃ origin, dispatch (load store.projects.rows base) base request = .project p.id origin) ↔
        p.host = some (normalize text)) ∧
    (dispatch (load store.projects.rows base) base request = .main base.origin ∨
      dispatch (load store.projects.rows base) base request = .isolated ↔
        normalize text = base.host.text) ∧
    (dispatch (load store.projects.rows base) base request = .misdirected ↔
      normalize text ≠ base.host.text ∧ ∀ p ∈ store.projects, p.host ≠ some (normalize text)) := by
  rcases dispatch_cases store base hpath hvalue htext hne with
    ⟨p, hp, hhost, hd⟩ | ⟨hmain, hd⟩ | ⟨hnone, hmain, hd⟩
  · rw [hd]
    refine ⟨fun q hq => ⟨?_, fun hq' => ⟨_, by rw [W.hosts hp hq hhost hq']⟩⟩, ?_, ?_⟩
    · rintro ⟨origin, heq⟩
      rwa [← AutoTable.eq_of_id_eq hp hq (Dispatch.project.inj heq).1]
    · refine ⟨by simp, fun hmain => absurd ?_ (W.notMain hp)⟩
      rw [hhost, hmain]
    · exact ⟨(nomatch ·), fun h => absurd hhost (h.2 p hp)⟩
  · refine ⟨fun q hq => ⟨?_, fun hq' => absurd ?_ (W.notMain hq)⟩,
      ⟨fun _ => hmain, fun _ => hd⟩, ?_⟩
    · rintro ⟨origin, heq⟩
      rcases hd with hd | hd <;> rw [hd] at heq <;> cases heq
    · rw [hq', hmain]
    · refine ⟨fun heq => ?_, fun h => absurd hmain h.1⟩
      rcases hd with hd | hd <;> rw [hd] at heq <;> cases heq
  · rw [hd]
    refine ⟨fun q hq => ⟨by simp, fun hq' => absurd hq' (hnone q hq)⟩, ?_, ?_⟩
    · exact ⟨by simp, fun h => absurd h hmain⟩
    · exact ⟨fun _ => ⟨hmain, hnone⟩, fun _ => rfl⟩

/-- The TLS ask answers for the domains that are dispatched to a project. -/
theorem tlsAsk_iff_dispatch {query domain : Str} (hdomain : singleDomain query = some domain)
    (hvis : (asBytes domain).all isVisibleAscii = true) (hpath : request.uri.path ∉ internalPaths)
    (hvalue : request.headers.getAll "host".toList = [asBytes domain]) :
    tlsAsk (load store.projects.rows base) (some query) = true ↔
      ∃ p ∈ store.projects, ∃ origin,
        dispatch (load store.projects.rows base) base request = .project p.id origin := by
  rw [tlsAsk_eq_true hdomain]
  have hreq := requestHost_of_value hvalue (toStr_asBytes hvis) (ne_nil_of_singleDomain hdomain)
  rw [dispatch_of_host hpath hreq]
  rcases get_load store.projects.rows base (normalize domain) with ⟨p, hp, hhost, hget⟩
    | ⟨hnone, hget⟩
  · rw [hget]
    exact ⟨fun _ => ⟨p, hp, _, rfl⟩, fun _ => ⟨p.id, rfl⟩⟩
  · rw [hget]
    by_cases hmain : normalize domain = base.host.text
    · rw [if_pos hmain]
      refine ⟨by simp, ?_⟩
      rintro ⟨p, hp, origin, heq⟩
      dsimp only at heq
      split at heq <;> cases heq
    · rw [if_neg hmain]
      simp

/-- A path of a project is redirected to its custom domain, if it has one. -/
theorem Configured.canonical_iff (W : Configured store base) {uri : Uri} {rest : Str}
    (hpath : uri.path = "/p/".toList ++ slug ++ rest) (hslug : '/' ∉ slug)
    (hrest : rest = [] ∨ rest.head? = some '/') (hapi : underApi rest = false) :
    ((∃ location, canonical (load store.projects.rows base) uri = .redirect location) ↔
      ∃ p ∈ store.projects, p.slug = slug ∧ p.host.isSome = true) ∧
    ∀ location, canonical (load store.projects.rows base) uri = .redirect location →
      ∃ p ∈ store.projects, ∃ host, p.slug = slug ∧ p.host = some host ∧
        location = projectOrigin host ++ (if rest.isEmpty then ['/'] else rest) ++ uri.queryText ∧
        ∀ request, request.uri.path ∉ internalPaths →
          request.headers.getAll "host".toList = [asBytes host] →
          dispatch (load store.projects.rows base) base request =
            .project p.id (projectOrigin host) := by
  have hdomain : ∀ host, (load store.projects.rows base).domain slug = some host →
      isDnsName host = true := by
    intro host hd
    obtain ⟨p, hp, -, hhost⟩ := W.domain_eq_some.mp hd
    exact (W.valid hp hhost).1
  rw [canonical_eq hpath hslug hrest hapi hdomain]
  cases hd : (load store.projects.rows base).domain slug with
  | none =>
    refine ⟨⟨by simp, ?_⟩, by simp⟩
    rintro ⟨p, hp, hps, hsome⟩
    obtain ⟨host, hhost⟩ := Option.isSome_iff_exists.mp hsome
    rw [W.domain_eq_some.mpr ⟨p, hp, hps, hhost⟩] at hd
    cases hd
  | some host =>
    obtain ⟨p, hp, hps, hhost⟩ := W.domain_eq_some.mp hd
    refine ⟨⟨fun _ => ⟨p, hp, hps, by rw [hhost]; rfl⟩, fun _ => ⟨_, rfl⟩⟩, ?_⟩
    rintro location heq
    exact ⟨p, hp, host, hps, hhost, (Canonical.redirect.inj heq).symm,
      fun request => W.dispatch_host hp hhost⟩

/-- **Routing, TLS ask and canonical redirect agree.** A request outside the internal paths goes to
the project whose custom domain its normalized `Host` is, to the main host if it is that, and is
refused otherwise. The TLS ask answers 200 exactly for the domains that would be dispatched to a
project. A path of a project is redirected exactly if the project has a custom domain, and that
domain is dispatched to the project. -/
theorem routing_agrees {store : Store} {base : BaseUrl} (W : Configured store base) :
    (∀ request value text, request.uri.path ∉ internalPaths →
      request.headers.getAll "host".toList = [value] → toStr value = some text → text ≠ [] →
      (∀ p ∈ store.projects,
        (∃ origin, dispatch (load store.projects.rows base) base request = .project p.id origin) ↔
          p.host = some (normalize text)) ∧
      (dispatch (load store.projects.rows base) base request = .main base.origin ∨
        dispatch (load store.projects.rows base) base request = .isolated ↔
          normalize text = base.host.text) ∧
      (dispatch (load store.projects.rows base) base request = .misdirected ↔
        normalize text ≠ base.host.text ∧ ∀ p ∈ store.projects, p.host ≠ some (normalize text))) ∧
    (∀ query domain request, singleDomain query = some domain →
      (asBytes domain).all isVisibleAscii = true → request.uri.path ∉ internalPaths →
      request.headers.getAll "host".toList = [asBytes domain] →
      (tlsAsk (load store.projects.rows base) (some query) = true ↔
        ∃ p ∈ store.projects, ∃ origin,
          dispatch (load store.projects.rows base) base request = .project p.id origin)) ∧
    ∀ uri slug rest, uri.path = "/p/".toList ++ slug ++ rest → '/' ∉ slug →
      (rest = [] ∨ rest.head? = some '/') → underApi rest = false →
      ((∃ location, canonical (load store.projects.rows base) uri = .redirect location) ↔
        ∃ p ∈ store.projects, p.slug = slug ∧ p.host.isSome = true) ∧
      ∀ location, canonical (load store.projects.rows base) uri = .redirect location →
        ∃ p ∈ store.projects, ∃ host, p.slug = slug ∧ p.host = some host ∧
          location = projectOrigin host ++ (if rest.isEmpty then ['/'] else rest) ++ uri.queryText ∧
          ∀ request, request.uri.path ∉ internalPaths →
            request.headers.getAll "host".toList = [asBytes host] →
            dispatch (load store.projects.rows base) base request =
              .project p.id (projectOrigin host) := by
  refine ⟨?_, ?_, ?_⟩
  · intro request value text hpath hvalue htext hne
    exact W.dispatch_iff hpath hvalue htext hne
  · intro query domain request hdomain hvis hpath hvalue
    exact tlsAsk_iff_dispatch hdomain hvis hpath hvalue
  · intro uri slug rest hpath hslug hrest hapi
    exact W.canonical_iff hpath hslug hrest hapi

/-! ## Two projects, one with a custom domain -/

namespace TwoProjects

def site : BaseUrl := ⟨true, ⟨"kohaku.example.org".toList, by decide⟩, some 8443⟩

def row (slug : String) (host : Option String) (id : Nat) : ProjectRow where
  id := id
  slug := slug.toList
  settings := .new "Demo".toList (host.map String.toList)
  createdAt := 0

def stored : Store where
  projects := (AutoTable.empty.insertNew (row "demo" (some "bugs.example.net"))).insertNew
    (row "app" none)
  auditLog := []

theorem configured : Configured stored site where
  slugs hp hq := (by decide : ∀ p ∈ stored.projects.rows, ∀ q ∈ stored.projects.rows,
    p.slug = q.slug → p = q) _ hp _ hq
  hosts hp hq hhost hhost' :=
    (by decide : ∀ p ∈ stored.projects.rows, ∀ q ∈ stored.projects.rows,
    p.host.isSome = true → p.host = q.host → p = q) _ hp _ hq (by rw [hhost]; rfl)
      (hhost.trans hhost'.symm)
  valid hp hhost := by
    have := (by decide : ∀ p ∈ stored.projects.rows,
      p.host.all fun host => isDnsName host && host.contains '.') _ hp
    rw [hhost] at this
    simpa [IsHost] using this
  notMain hp := (by decide : ∀ p ∈ stored.projects.rows, p.host ≠ some site.host.text) _ hp

end TwoProjects

open TwoProjects in
theorem routing_agrees_two_projects :
    tlsAsk (load stored.projects.rows site) (some "domain=Bugs.Example.NET:443".toList) = true ∧
    ∀ request, request.uri.path ∉ internalPaths →
      request.headers.getAll "host".toList = [asBytes "Bugs.Example.NET:443".toList] →
      ∃ p ∈ stored.projects, ∃ origin,
        dispatch (load stored.projects.rows site) site request = .project p.id origin := by
  have hask : tlsAsk (load stored.projects.rows site) (some "domain=Bugs.Example.NET:443".toList) =
      true := by
    decide +kernel
  refine ⟨hask, fun request hpath hvalue => ?_⟩
  exact ((routing_agrees configured).2.1 _ _ request (by decide +kernel) (by decide +kernel) hpath
    hvalue).mp hask

end Kohaku.Routing
