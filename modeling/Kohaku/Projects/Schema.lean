import Kohaku.Projects.Concurrent

/-!
# Parsed project values and the schema

The `CHECK` constraints of `projects` without `GLOB`, and the parsers against them: whatever a
parser returns meets the constraints of its column, so a creation or an update with parsed values
never fails on a constraint (`parsed_values_fit`). A table is one the program can have when its rows
meet the constraints and have the ids that `AUTOINCREMENT` gives; every change keeps that
(`Desk.permitted`).
-/

namespace Kohaku.Projects

open Sql

variable {text : Str}

/-! ## The patterns -/

/-- `[a-z0-9]`. -/
def isSlugStart (c : Char) : Bool := ('a' ≤ c && c ≤ 'z') || ('0' ≤ c && c ≤ '9')

theorem contains_slugStart (c : Char) :
    Glob.CharSet.contains ⟨false, [('a', 'z'), ('0', '9')]⟩ c = isSlugStart c := by
  simp [Glob.CharSet.contains, isSlugStart]

theorem contains_notSlug (c : Char) :
    Glob.CharSet.contains ⟨true, [('a', 'z'), ('0', '9'), ('-', '-')]⟩ c =
      !(isSlugStart c || c = '-') := by
  simp [Glob.CharSet.contains, isSlugStart]
  grind

theorem contains_notHost (c : Char) :
    Glob.CharSet.contains ⟨true, [('a', 'z'), ('0', '9'), ('.', '.'), ('-', '-')]⟩ c =
      !(isSlugStart c || c = '.' || c = '-') := by
  simp [Glob.CharSet.contains, isSlugStart]
  grind

/-- The constraint on the slug, by its characters. -/
theorem slugCheck_eq (slug : Str) :
    slugCheck slug = ((1 ≤ (cText slug).length && (cText slug).length ≤ 40) &&
    (cText slug).head?.any isSlugStart && !(cText slug).any fun c =>
      !(isSlugStart c || c = '-')) := by
  have hfirst : Glob.compile "[a-z0-9]*".toList =
      some [.one ⟨false, [('a', 'z'), ('0', '9')]⟩, .star] := by decide
  have hchars : Glob.compile "*[^a-z0-9-]*".toList =
      some [.star, .one ⟨true, [('a', 'z'), ('0', '9'), ('-', '-')]⟩, .star] := by decide
  have hstart : glob "[a-z0-9]*" (cText slug) = (cText slug).head?.any isSlugStart := by
    rw [Bool.eq_iff_iff, Glob.glob_eq hfirst, Glob.accepts_first, Option.any_eq_true]
    simp only [contains_slugStart, Option.mem_def]
  have hother : glob "*[^a-z0-9-]*" (cText slug) = (cText slug).any fun c =>
      !(isSlugStart c || c = '-') := by
    rw [Bool.eq_iff_iff, Glob.glob_eq hchars, Glob.accepts_somewhere, List.any_eq_true]
    simp only [contains_notSlug]
  rw [slugCheck, hstart, hother]

/-- The constraint on the custom domain, by its characters. -/
theorem hostCheck_eq (host : Str) :
    hostCheck host = ((3 ≤ (cText host).length && (cText host).length ≤ 253) &&
    (cText host).contains '.' && !(cText host).any fun c =>
      !(isSlugStart c || c = '.' || c = '-')) := by
  have hdot : Glob.compile "*.*".toList = some [.star, .char '.', .star] := by decide
  have hchars : Glob.compile "*[^a-z0-9.-]*".toList =
      some [.star, .one ⟨true, [('a', 'z'), ('0', '9'), ('.', '.'), ('-', '-')]⟩,
        .star] := by decide
  have hcontains : glob "*.*" (cText host) = (cText host).contains '.' := by
    rw [Bool.eq_iff_iff, Glob.glob_eq hdot, Glob.accepts_char_somewhere, List.contains_iff_mem]
  have hother : glob "*[^a-z0-9.-]*" (cText host) =
      (cText host).any fun c => !(isSlugStart c || c = '.' || c = '-') := by
    rw [Bool.eq_iff_iff, Glob.glob_eq hchars, Glob.accepts_somewhere, List.any_eq_true]
    simp only [contains_notHost]
  rw [hostCheck, hcontains, hother]

/-! ## What the parsers return -/

/-- The texts that `parseSlug` accepts, by their characters. -/
structure IsSlug (text : Str) : Prop where
  ne_nil : text ≠ []
  length_le : text.length ≤ slugMax
  head_ne : text.head? ≠ some '-'
  chars : ∀ c ∈ text, isLabelChar c = true

theorem parseSlug_eq_ok {slug : Str} : parseSlug text = .ok slug ↔ slug = text ∧ IsSlug text := by
  have hvalid : (!(asBytes text).isEmpty && (asBytes text).length ≤ slugMax &&
      (asBytes text).head? ≠ some 0x2D && (asBytes text).all isLabelByte) = true ↔ IsSlug text := by
    rw [Bool.and_eq_true, all_isLabelByte]
    constructor
    · intro h
      obtain ⟨h, hchars⟩ := h
      rw [asBytes_of_ascii fun c hc => toNat_lt_of_isLabelChar (hchars c hc)] at h
      simp only [Bool.and_eq_true, Bool.not_eq_true', List.isEmpty_eq_false_iff, decide_eq_true_eq,
        ne_eq, List.map_eq_nil_iff, List.length_map, List.head?_map] at h
      refine ⟨h.1.1, h.1.2, ?_, hchars⟩
      intro hhead
      exact h.2 (by rw [hhead]; rfl)
    · intro h
      refine ⟨?_, h.chars⟩
      rw [asBytes_of_ascii fun c hc => toNat_lt_of_isLabelChar (h.chars c hc)]
      simp only [Bool.and_eq_true, Bool.not_eq_true', List.isEmpty_eq_false_iff, decide_eq_true_eq,
        ne_eq, List.map_eq_nil_iff, List.length_map, List.head?_map]
      refine ⟨⟨h.ne_nil, h.length_le⟩, ?_⟩
      intro hhead
      obtain ⟨c, hc, hbyte⟩ := Option.map_eq_some_iff.mp hhead
      have hlt := toNat_lt_of_isLabelChar (h.chars c (List.mem_of_mem_head? hc))
      exact h.head_ne (hc.trans (congrArg some
        (of_ascii (fun c => UInt8.ofNat c.toNat = 0x2D → c = '-') (by decide) hlt hbyte)))
  unfold parseSlug
  dsimp only
  split
  · rename_i h
    simpa [hvalid.mp h] using eq_comm
  · rename_i h
    simpa using fun _ hslug => h (hvalid.mpr hslug)

theorem isSlug_iff_slugCheck (h : '\x00' ∉ text) : IsSlug text ↔ slugCheck text = true := by
  rw [slugCheck_eq, cText_of_notMem h]
  simp only [Bool.and_eq_true, Bool.not_eq_true', decide_eq_true_eq, Option.any_eq_true,
    List.any_eq_false, Bool.not_eq_false]
  constructor
  · intro hs
    refine ⟨⟨⟨List.length_pos_iff.mpr hs.ne_nil, hs.length_le⟩, ?_⟩, hs.chars⟩
    obtain ⟨c, rest, rfl⟩ := List.exists_cons_of_ne_nil hs.ne_nil
    refine ⟨c, rfl, ?_⟩
    have hc : c ≠ '-' := fun hc => hs.head_ne (congrArg some hc)
    simpa [isLabelChar, isSlugStart, hc] using hs.chars c (List.mem_cons_self ..)
  · intro hs
    obtain ⟨⟨⟨hpos, hle⟩, c, hhead, hstart⟩, hchars⟩ := hs
    refine ⟨List.length_pos_iff.mp hpos, hle, ?_, hchars⟩
    intro hdash
    cases hhead.symm.trans hdash
    exact absurd hstart (by decide)

theorem nul_notMem_of_isSlug (h : IsSlug text) : '\x00' ∉ text := fun hmem =>
  absurd (h.chars _ hmem) (by decide)

theorem nul_notMem_of_isSingleLine (h : isSingleLine text = true) : '\x00' ∉ text := by
  intro hmem
  rw [isSingleLine, Bool.not_eq_true', List.any_eq_false] at h
  exact h _ hmem (by decide)

theorem mem_of_mem_trim {c : Char} (h : c ∈ trim text) : c ∈ text := by
  obtain ⟨left, right, heq, -, -⟩ := exists_eq_trimMatches isWhitespace text
  rw [heq]
  exact List.mem_append_left _ (List.mem_append_right _ h)

theorem slugCheck_of_parseSlug {slug : Str} (h : parseSlug text = .ok slug) :
    slugCheck slug = true := by
  obtain ⟨rfl, hslug⟩ := parseSlug_eq_ok.mp h
  exact (isSlug_iff_slugCheck (nul_notMem_of_isSlug hslug)).mp hslug

theorem nul_notMem_trim (h : isSingleLine text = true) : '\x00' ∉ trim text := fun hmem =>
  nul_notMem_of_isSingleLine h (mem_of_mem_trim hmem)

theorem nameCheck_of_parseName {name : Str} (h : parseName text = .ok name) :
    nameCheck name = true := by
  obtain ⟨hline, rfl, hne, hle⟩ := parseName_eq_ok.mp h
  rw [nameCheck, cText_of_notMem (nul_notMem_trim hline)]
  simpa using ⟨List.length_pos_iff.mpr hne, hle⟩

theorem contactCheck_of_parseSecurityContact {contact : Option Str}
    (h : parseSecurityContact text = .ok contact) : contact.all contactCheck = true := by
  obtain ⟨hline, hle, rfl⟩ := parseSecurityContact_eq_ok.mp h
  rw [Option.all_eq_true]
  intro value hvalue
  obtain ⟨rfl, hne⟩ := nonEmpty_eq_some.mp hvalue
  rw [contactCheck, cText_of_notMem (nul_notMem_trim hline)]
  simpa using ⟨List.length_pos_iff.mpr hne, hle⟩

theorem noticeCheck_of_parsePrivacyNotice {notice : Option Str}
    (h : parsePrivacyNotice text = .ok notice) : notice.all noticeCheck = true := by
  obtain ⟨-, hle, rfl⟩ := parsePrivacyNotice_eq_ok.mp h
  rw [Option.all_eq_true]
  intro value hvalue
  obtain ⟨rfl, hne⟩ := nonEmpty_eq_some.mp hvalue
  have hbytes : asBytes (trim (normalizeLineEndings text)) ≠ [] :=
    fun hnil => hne (asBytes_injective hnil)
  simpa [noticeCheck] using ⟨List.length_pos_iff.mpr hbytes, hle⟩

theorem isLabel_ne_nil {label : Str} (h : isLabel label = true) : label ≠ [] := by
  intro hnil
  rw [hnil] at h
  exact absurd h (by decide)

/-- A label stands before and one behind the dot. -/
theorem three_le_of_isHost {host : Str} (h : IsHost host) : 3 ≤ host.length := by
  obtain ⟨hname, hdot⟩ := h
  obtain ⟨before, after, rfl, hnot⟩ := List.eq_append_cons_of_mem hdot
  simp only [isDnsName, Bool.and_eq_true, List.all_eq_true] at hname
  have hlabels := hname.1.2
  rw [splitOn_append_of_notMem hnot, List.splitOn_cons_eq_if_modifyHead, if_pos (by simp)]
    at hlabels
  have hbefore : before ≠ [] := isLabel_ne_nil (hlabels before (by simp))
  have hafter : after ≠ [] := by
    rintro rfl
    exact isLabel_ne_nil (hlabels [] (by simp)) rfl
  have h1 := List.length_pos_iff.mpr hbefore
  have h2 := List.length_pos_iff.mpr hafter
  rw [List.length_append, List.length_cons]
  omega

theorem hostCheck_of_isHost {host : Str} (h : IsHost host) : hostCheck host = true := by
  have hchar : ∀ c ∈ host, c.toNat < 0x80 ∧ DnsName.isNameChar c = true :=
    fun c hc => DnsName.isNameChar_of_mem ⟨host, h.1⟩ hc
  have hnul : '\x00' ∉ host := fun hmem => absurd (hchar _ hmem).2 (by decide)
  have hlength : host.length ≤ 253 := by
    have hname := h.1
    simp only [isDnsName, Bool.and_eq_true, Bool.not_eq_true', Bool.or_eq_false_iff,
      decide_eq_false_iff_not] at hname
    have hle := hname.1.1.2
    rw [asBytes_of_ascii fun c hc => (hchar c hc).1, List.length_map] at hle
    omega
  rw [hostCheck_eq, cText_of_notMem hnul]
  simp only [Bool.and_eq_true, Bool.not_eq_true', decide_eq_true_eq, List.any_eq_false,
    List.contains_iff_mem]
  refine ⟨⟨⟨three_le_of_isHost h, hlength⟩, h.2⟩, ?_⟩
  intro c hc
  have hname := (hchar c hc).2
  simp only [DnsName.isNameChar, isSlugStart] at hname ⊢
  grind

theorem hostCheck_of_parseHost {base : BaseUrl} {host : Option Str}
    (h : parseHost text base = .ok host) : host.all hostCheck = true := by
  rw [Option.all_eq_true]
  intro value hvalue
  rw [hvalue] at h
  exact hostCheck_of_isHost (of_parseHost h).1

/-! ## Parsed settings -/

/-- Every value of the settings came out of its parser; the switches are any. -/
structure Settings.Parsed (s : Settings) : Prop where
  name : ∃ text, parseName text = .ok s.name
  publicHost : ∃ text base, parseHost text base = .ok s.publicHost
  privacyNotice : ∃ text, parsePrivacyNotice text = .ok s.privacyNotice
  securityContact : ∃ text, parseSecurityContact text = .ok s.securityContact

theorem Settings.parsed_new {name : Str} {host : Option Str} {base : BaseUrl}
    {nameText hostText : Str}
    (hname : parseName nameText = .ok name) (hhost : parseHost hostText base = .ok host) :
    (Settings.new name host).Parsed :=
  ⟨⟨nameText, hname⟩, ⟨hostText, base, hhost⟩, ⟨[], rfl⟩, ⟨[], rfl⟩⟩

theorem SettingsForm.parsed {form : SettingsForm} {base : BaseUrl} {settings : Settings}
    (h : form.parse base = .ok settings) : settings.Parsed := by
  obtain ⟨hname, hhost, hnotice, hcontact, -⟩ := parse_eq_ok.mp h
  exact ⟨⟨_, hname⟩, ⟨_, _, hhost⟩, ⟨_, hnotice⟩, ⟨_, hcontact⟩⟩

/-- The constraints of a row whose values were parsed. -/
theorem Settings.Parsed.checks {s : Settings} (h : s.Parsed) {slug : Str}
    (hslug : slugCheck slug = true)
    (id : Nat) (createdAt : Time) : ProjectRow.checks ⟨id, slug, s, createdAt⟩ = true := by
  obtain ⟨_, hname⟩ := h.name
  obtain ⟨_, _, hhost⟩ := h.publicHost
  obtain ⟨_, hnotice⟩ := h.privacyNotice
  obtain ⟨_, hcontact⟩ := h.securityContact
  simp only [ProjectRow.checks, Bool.and_eq_true]
  exact ⟨⟨⟨⟨hslug, nameCheck_of_parseName hname⟩, hostCheck_of_parseHost hhost⟩,
    noticeCheck_of_parsePrivacyNotice hnotice⟩, contactCheck_of_parseSecurityContact hcontact⟩

/-! ## Tables the program can have -/

namespace Store

variable {store : Store} {slug : Str} {settings : Settings} {actor : Actor} {now : Time} {id : Nat}
  {p : ProjectRow}

/-- A table that the schema permits: each row meets the `CHECK` constraints, slugs and custom
domains are unique, and the ids are those that `AUTOINCREMENT` gives. -/
structure Permitted (store : Store) : Prop where
  checks : ∀ p ∈ store.projects, p.checks = true
  apart : ∀ p ∈ store.projects, store.Apart p
  id_pos : ∀ p ∈ store.projects, 0 < p.id

theorem fits_of_apart (hchecks : p.checks = true) (h : store.Apart p) : store.fits p = true := by
  rw [fits, hchecks, Bool.true_and, Bool.not_eq_true', Table.any_eq_false]
  intro q hq
  by_cases hid : q.id = p.id
  · simp [hid]
  · obtain ⟨hslug, hhost⟩ := h q hq hid
    simp only [ne_eq, hid, not_false_eq_true, decide_true, Bool.true_and, Bool.or_eq_false_iff,
      decide_eq_false_iff_not, hslug, true_and, Bool.and_eq_false_imp, Option.isSome_iff_exists]
    intro hsome heq
    obtain ⟨host, hq⟩ := hsome
    exact hhost host (heq.symm.trans hq) hq

/-- The check of the host leaves no other project with it. -/
theorem host_ne_of_hostTaken {host : Str} {except : Nat}
    (h : store.hostTaken (some host) except = false)
    (hp : p ∈ store.projects) (hid : p.id ≠ except) : p.host ≠ some host := by
  intro hhost
  have hfalse := Table.any_eq_false.mp h p hp
  simp [hhost, hid] at hfalse

/-- With a slug and settings from the parsers a creation does not fail on a constraint. -/
theorem Permitted.create_ne_database (h : store.Permitted) (hslug : slugCheck slug = true)
    (hsettings : settings.Parsed) : store.create slug settings actor now ≠ .error .database := by
  unfold create
  split
  · simp
  · rename_i htaken
    split
    · simp
    · rename_i hhost
      have hapart : store.Apart ⟨store.projects.seq + 1, slug, settings, now⟩ := by
        intro q hq _
        refine ⟨?_, ?_⟩
        · simpa using Table.any_eq_false.mp (Bool.eq_false_iff.mpr htaken) q hq
        · intro host hsome
          -- `host_taken` leaves out the id 0, which no row has
          rw [show settings.publicHost = some host from hsome] at hhost
          exact host_ne_of_hostTaken (Bool.eq_false_iff.mpr hhost) hq (h.id_pos q hq).ne'
      dsimp only
      rw [if_pos (fits_of_apart (hsettings.checks hslug _ _) hapart)]
      simp

theorem Permitted.update_ne_database (h : store.Permitted) (hsettings : settings.Parsed) :
    store.update id settings actor now ≠ .error .database := by
  unfold update
  split
  · simp
  · rename_i project hproject
    split
    · simp
    · split
      · simp
      · rename_i hhost
        have hmem : project ∈ store.projects := Table.mem_of_get? hproject
        have hid : project.id = id := Table.key_of_get? hproject
        have hslug : slugCheck project.slug = true := by
          have hchecks := h.checks project hmem
          simp only [ProjectRow.checks, Bool.and_eq_true] at hchecks
          exact hchecks.1.1.1.1
        have hapart : store.Apart { project with settings } := by
          intro q hq hne
          refine ⟨(h.apart project hmem q hq hne).1, ?_⟩
          intro host hsome
          rw [show settings.publicHost = some host from hsome] at hhost
          exact host_ne_of_hostTaken (Bool.eq_false_iff.mpr hhost) hq (hid ▸ hne)
        rw [if_pos (fits_of_apart (hsettings.checks hslug _ _) hapart)]
        simp

/-! ## Runs -/

/-- What a row carries whatever the others are. -/
def Sound (store : Store) : Prop := ∀ p ∈ store.projects, p.checks = true ∧ 0 < p.id

theorem checks_of_fits (h : store.fits p = true) : p.checks = true := (Bool.and_eq_true_iff.mp h).1

theorem Sound.create (h : store.Sound) :
    (committed store (store.create slug settings actor now)).Sound := by
  unfold Store.create
  split
  · exact h
  · split
    · exact h
    · dsimp only
      split
      · rename_i hfits
        intro p hp
        obtain hp | rfl := AutoTable.mem_insertNew.mp hp
        · exact h p hp
        · exact ⟨checks_of_fits hfits, Nat.succ_pos _⟩
      · exact h

theorem Sound.update (h : store.Sound) :
    (committed store (store.update id settings actor now)).Sound := by
  unfold Store.update
  split
  · exact h
  · rename_i project hproject
    split
    · exact h
    · split
      · exact h
      · split
        · rename_i hfits
          intro p hp
          obtain ⟨q, hq, rfl⟩ := AutoTable.mem_update.mp hp
          split
          · rename_i hid
            rw [decide_eq_true_eq] at hid
            obtain rfl : q = project :=
              Table.eq_of_key_eq hq (Table.mem_of_get? hproject)
                (hid.trans (Table.key_of_get? hproject).symm)
            exact ⟨checks_of_fits hfits, (h q hq).2⟩
          · exact h q hq
        · exact h

theorem Sound.delete (h : store.Sound) : (store.delete id actor now).2.Sound := fun p hp =>
  h p (mem_delete hp)

end Store

namespace Desk

variable {base : BaseUrl} {s s' : Desk} {a : Act}

theorem sound_step (h : s.store.Sound) (hstep : s.step base a = some s') : s'.store.Sound := by
  cases a with
  | create | save | delete | drop =>
    cases hstep
    exact h
  | commit n now =>
    obtain ⟨w, -, rfl⟩ := Option.map_eq_some_iff.mp hstep
    cases w with
    | create => exact h.create
    | save => exact h.update
    | delete => exact h.delete
  | createCli args now =>
    rw [step] at hstep
    split at hstep
    · cases hstep
      exact h.create
    · cases hstep
      exact h

/-- The table after any run of requests and commands, from the empty one on. -/
theorem permitted {s₀ : Desk} {h : List Desk.Event} (h0 : Init s₀)
    (H : Lts.Exec (Desk.step base) s₀ h s) : s.store.Permitted := by
  have hsound : s.store.Sound := by
    refine H.rec_snoc (fun _ t => t.store.Sound) ?_ fun _ I hstep => sound_step I hstep
    intro p hp
    rw [h0.projects] at hp
    exact absurd hp AutoTable.not_mem_empty
  have hconfigured := (Inv.run h0 H).configured
  refine ⟨fun p hp => (hsound p hp).1, ?_, fun p hp => (hsound p hp).2⟩
  intro p hp q hq hid
  refine ⟨fun hslug => hid (congrArg _ (hconfigured.slugs hq hp hslug)), ?_⟩
  intro host hph hqh
  exact hid (congrArg _ (hconfigured.hosts hq hp hqh hph))

end Desk

/-! ## The result -/

/-- Every value a parser returns meets the constraints of its column; every table the program comes
to is a permitted one; with parsed values no creation and no update fails on a constraint in a
permitted table; and on texts without a NUL `parseSlug` accepts what the constraint accepts. -/
theorem parsed_values_fit :
    (∀ text slug, parseSlug text = .ok slug → slugCheck slug = true) ∧
      (∀ text name, parseName text = .ok name → nameCheck name = true) ∧
      (∀ text base host, parseHost text base = .ok host → host.all hostCheck = true) ∧
      (∀ text notice, parsePrivacyNotice text = .ok notice → notice.all noticeCheck = true) ∧
      (∀ text contact, parseSecurityContact text = .ok contact → contact.all contactCheck = true) ∧
      (∀ base s₀ s (h : List Desk.Event), Desk.Init s₀ → Lts.Exec (Desk.step base) s₀ h s →
        s.store.Permitted) ∧
      (∀ (store : Store) text slug (settings : Settings) actor now, store.Permitted →
        parseSlug text = .ok slug →
        settings.Parsed → store.create slug settings actor now ≠ .error .database) ∧
      (∀ (store : Store) id (settings : Settings) actor now, store.Permitted → settings.Parsed →
        store.update id settings actor now ≠ .error .database) ∧
      ∀ text, '\x00' ∉ text → ((∃ slug, parseSlug text = .ok slug) ↔ slugCheck text = true) := by
  refine ⟨fun _ _ => slugCheck_of_parseSlug, fun _ _ => nameCheck_of_parseName, fun _ _ _ =>
    hostCheck_of_parseHost,
    fun _ _ => noticeCheck_of_parsePrivacyNotice, fun _ _ => contactCheck_of_parseSecurityContact,
    fun _ _ _ _ => Desk.permitted, ?_, ?_, ?_⟩
  · intro store text slug settings actor now hstore hslug hsettings
    exact hstore.create_ne_database (slugCheck_of_parseSlug hslug) hsettings
  · intro store id settings actor now hstore hsettings
    exact hstore.update_ne_database hsettings
  · intro text hnul
    simp only [parseSlug_eq_ok, isSlug_iff_slugCheck hnul, exists_eq_left]

open Recreated in
theorem parsed_values_fit_second :
    slugCheck "second".toList = true ∧ ∀ actor now,
      (Lts.last start history).store.create "second".toList
      (.new "Second".toList (some "b.test".toList)) actor
        now ≠ .error .database := by
  obtain ⟨hslug, -, -, -, -, hpermitted, hcreate, -, -⟩ := parsed_values_fit
  have hparse : parseSlug "second".toList = .ok "second".toList := by decide
  have hname : parseName "Second".toList = .ok "Second".toList := by decide
  have hhost : parseHost "B.Test ".toList base = .ok (some "b.test".toList) := by decide
  refine ⟨hslug _ _ hparse, fun actor now => ?_⟩
  exact hcreate _ _ _ _ actor now (hpermitted base _ _ _ ⟨rfl, rfl, rfl, rfl⟩ run) hparse
    (Settings.parsed_new hname hhost)

end Kohaku.Projects
