import Kohaku.Projects.Schema

/-!
# Saving an unchanged form

The settings page shows the stored settings in a form (`SettingsForm.of`). Each parser fixes what it
returned, also after a browser has sent the line feeds of the privacy notice as CR LF, so sending
the form back as it was gives the same settings and changes nothing (`resubmit_unchanged`).
-/

namespace Kohaku.Projects

open Sql

/-- A checked box sends `on`. -/
def on (value : Bool) : Option Str := if value then some "on".toList else none

/-- The form of stored settings. -/
def SettingsForm.of (settings : Settings) : SettingsForm where
  name := settings.name
  publicHost := settings.publicHost.getD []
  screenshotsEnabled := on settings.screenshotsEnabled
  featuresEnabled := on settings.featuresEnabled
  requireEmail := on settings.requireEmail
  plusOneEnabled := on settings.plusOneEnabled
  privacyNotice := settings.privacyNotice.getD []
  securityContact := settings.securityContact.getD []

/-- Every line feed as CR LF. -/
def crLf (text : Str) : Str := text.flatMap fun c => if c = '\n' then ['\r', '\n'] else [c]

/-- The form as a browser sends it, with CR LF between the lines of a text area. -/
def SettingsForm.sent (form : SettingsForm) : SettingsForm :=
  { form with privacyNotice := crLf form.privacyNotice }

variable {text : Str}

/-! ## Trimming -/

theorem trimMatches_trimMatches (p : Char → Bool) (text : Str) :
    trimMatches p (trimMatches p text) = trimMatches p text := by
  have hfirst : (trimMatches p text).dropWhile p = trimMatches p text := by
    rw [List.dropWhile_eq_self_iff]
    intro hpos
    -- the first character is that of the text after its leading ones are gone
    have hpre : trimMatches p text <+: text.dropWhile p := List.rdropWhile_prefix p _
    rw [hpre.getElem hpos]
    exact List.dropWhile_get_zero_not p text (hpos.trans_le hpre.length_le)
  rw [trimMatches, hfirst]
  exact List.rdropWhile_idempotent p _

theorem trim_trim (text : Str) : trim (trim text) = trim text := trimMatches_trimMatches _ _

theorem isSingleLine_trim (h : isSingleLine text = true) : isSingleLine (trim text) = true := by
  rw [isSingleLine, Bool.not_eq_true', List.any_eq_false] at h ⊢
  exact fun c hc => h c (mem_of_mem_trim hc)

theorem isMultiLine_trim (h : isMultiLine text = true) : isMultiLine (trim text) = true := by
  rw [isMultiLine, Bool.not_eq_true', List.any_eq_false] at h ⊢
  exact fun c hc => h c (mem_of_mem_trim hc)

theorem nonEmpty_getD (text : Str) : (nonEmpty text).getD [] = text := by
  unfold nonEmpty
  split
  · rename_i h
    exact (List.isEmpty_iff.mp h).symm
  · rfl

/-! ## Line endings -/

theorem cr_notMem_normalizeLineEndings (text : Str) : '\r' ∉ normalizeLineEndings text := by
  intro hmem
  obtain ⟨c, -, hc⟩ := List.mem_map.mp hmem
  split at hc
  · exact absurd hc (by decide)
  · exact absurd hc ‹_›

theorem replaceCrLf_cons {c : Char} (hc : c ≠ '\r') (text : Str) :
    replaceCrLf (c :: text) = c :: replaceCrLf text := by
  rw [replaceCrLf]
  intro rest heq
  cases heq
  exact absurd rfl hc

theorem replaceCrLf_eq_self (h : '\r' ∉ text) : replaceCrLf text = text := by
  induction text with
  | nil => rfl
  | cons c text ih =>
    rw [List.mem_cons, not_or] at h
    rw [replaceCrLf_cons (Ne.symm h.1), ih h.2]

theorem replaceCrLf_crLf (h : '\r' ∉ text) : replaceCrLf (crLf text) = text := by
  induction text with
  | nil => rfl
  | cons c text ih =>
    rw [List.mem_cons, not_or] at h
    rw [crLf, List.flatMap_cons]
    split
    · rename_i hc
      rw [hc]
      exact congrArg ('\n' :: ·) (ih h.2)
    · exact (replaceCrLf_cons (Ne.symm h.1) _).trans (congrArg (c :: ·) (ih h.2))

theorem map_cr_eq_self (h : '\r' ∉ text) :
    (text.map fun c => if c = '\r' then '\n' else c) = text := by
  have hmap : (text.map fun c => if c = '\r' then '\n' else c) = text.map id := by
    apply List.map_congr_left
    intro c hc
    have hne : c ≠ '\r' := fun heq => h (heq ▸ hc)
    exact if_neg hne
  rw [hmap, List.map_id]

theorem normalizeLineEndings_eq_self (h : '\r' ∉ text) : normalizeLineEndings text = text := by
  rw [normalizeLineEndings, replaceCrLf_eq_self h, map_cr_eq_self h]

theorem normalizeLineEndings_crLf (h : '\r' ∉ text) : normalizeLineEndings (crLf text) = text := by
  rw [normalizeLineEndings, replaceCrLf_crLf h, map_cr_eq_self h]

/-! ## Each parser fixes what it returned -/

theorem parseName_fixed {name : Str} (h : parseName text = .ok name) :
    parseName name = .ok name := by
  obtain ⟨hline, rfl, hne, hle⟩ := parseName_eq_ok.mp h
  exact parseName_eq_ok.mpr ⟨isSingleLine_trim hline, (trim_trim text).symm, hne, hle⟩

theorem parseSecurityContact_fixed {contact : Option Str}
    (h : parseSecurityContact text = .ok contact) :
    parseSecurityContact (contact.getD []) = .ok contact := by
  obtain ⟨hline, hle, rfl⟩ := parseSecurityContact_eq_ok.mp h
  rw [nonEmpty_getD, parseSecurityContact_eq_ok, trim_trim]
  exact ⟨isSingleLine_trim hline, hle, rfl⟩

/-- The notice comes back whatever text normalizes to it. -/
theorem parsePrivacyNotice_of_normalize {notice : Option Str} {sent : Str}
    (h : parsePrivacyNotice text = .ok notice)
    (hsent : normalizeLineEndings sent = notice.getD []) :
    parsePrivacyNotice sent = .ok notice := by
  obtain ⟨hline, hle, rfl⟩ := parsePrivacyNotice_eq_ok.mp h
  rw [nonEmpty_getD] at hsent
  rw [parsePrivacyNotice_eq_ok, hsent, trim_trim]
  exact ⟨isMultiLine_trim hline, hle, rfl⟩

theorem cr_notMem_of_parsePrivacyNotice {notice : Option Str}
    (h : parsePrivacyNotice text = .ok notice) : '\r' ∉ notice.getD [] := by
  obtain ⟨-, -, rfl⟩ := parsePrivacyNotice_eq_ok.mp h
  rw [nonEmpty_getD]
  exact fun hmem => cr_notMem_normalizeLineEndings text (mem_of_mem_trim hmem)

theorem parseHost_fixed {base : BaseUrl} {host : Option Str} (h : parseHost text base = .ok host) :
    parseHost (host.getD []) base = .ok host := by
  cases host with
  | none => rfl
  | some host =>
    obtain ⟨⟨hname, hdot⟩, hmain⟩ := of_parseHost h
    have hchar : ∀ c ∈ host, isWhitespace c = false ∧ isAsciiUppercase c = false := by
      intro c hc
      obtain ⟨hlt, hname⟩ := DnsName.isNameChar_of_mem ⟨host, hname⟩ hc
      exact of_ascii (fun c => DnsName.isNameChar c = true → isWhitespace c = false ∧
        isAsciiUppercase c = false) (by decide) hlt hname
    have hhost : strToAsciiLowercase (trim host) = host := by
      rw [trim_eq_self fun c hc => (hchar c hc).1, strToAsciiLowercase_eq_self fun c hc =>
        (hchar c hc).2]
    have hne : host.isEmpty = false := List.isEmpty_eq_false_iff.mpr (DnsName.ne_nil ⟨host, hname⟩)
    have hcontains : host.contains '.' = true := List.contains_iff_mem.mpr hdot
    have hbase : (⟨host, hname⟩ : DnsName) ≠ base.host :=
      fun heq => hmain (congrArg DnsName.text heq)
    simp only [parseHost, Option.getD_some, hhost, hne, DnsName.parse, dif_pos hname,
      hcontains, hbase]
    rfl

/-! ## The form -/

theorem isSome_on (value : Bool) : (on value).isSome = value := by cases value <;> rfl

/-- The form of parsed settings, with any notice that normalizes to the stored one. -/
theorem SettingsForm.parse_of {form : SettingsForm} {base : BaseUrl} {s : Settings} {notice : Str}
    (h : form.parse base = .ok s)
    (hnotice : normalizeLineEndings notice = s.privacyNotice.getD []) :
    { SettingsForm.of s with privacyNotice := notice }.parse base = .ok s := by
  obtain ⟨hname, hhost, hparsed, hcontact, -⟩ := parse_eq_ok.mp h
  exact parse_eq_ok.mpr ⟨parseName_fixed hname, parseHost_fixed hhost,
    parsePrivacyNotice_of_normalize hparsed hnotice, parseSecurityContact_fixed hcontact,
    isSome_on _, isSome_on _, isSome_on _, isSome_on _⟩

theorem Store.update_unchanged {store : Store} {id : Nat} {settings : Settings} {actor : Actor}
    {now : Time} (h : ∀ p, store.projects.get? id = some p → p.settings = settings) :
    store.update id settings actor now = .ok (false, store) := by
  unfold Store.update
  split
  · rfl
  · rename_i p hp
    rw [if_pos (h p hp)]

/-- Sending back the form of settings that were parsed gives these settings, also with CR LF for
each line feed of the notice; parsing again through the form changes no outcome; and an update of a
project that has the settings answers `false` and leaves the store, its audit log included, as it
was. -/
theorem resubmit_unchanged (base : BaseUrl) (form : SettingsForm) (s : Settings)
    (h : form.parse base = .ok s) :
    (SettingsForm.of s).parse base = .ok s ∧ (SettingsForm.of s).sent.parse base = .ok s ∧
      (form.parse base >>= fun s => (SettingsForm.of s).parse base) = form.parse base ∧
      ∀ (store : Store) id actor now t,
        (∀ p, store.projects.get? id = some p → p.settings = s) →
        (SettingsForm.of s).parse base = .ok t ∨ (SettingsForm.of s).sent.parse base = .ok t →
        store.update id t actor now = .ok (false, store) := by
  have hcr : '\r' ∉ s.privacyNotice.getD [] :=
    cr_notMem_of_parsePrivacyNotice (SettingsForm.parse_eq_ok.mp h).2.2.1
  have hof : (SettingsForm.of s).parse base = .ok s :=
    SettingsForm.parse_of h (normalizeLineEndings_eq_self hcr)
  have hsent : (SettingsForm.of s).sent.parse base = .ok s :=
    SettingsForm.parse_of h (normalizeLineEndings_crLf hcr)
  refine ⟨hof, hsent, by rw [h]; exact hof, ?_⟩
  intro store id actor now t hstored ht
  have hts : s = t := by
    obtain ht | ht := ht
    · exact Except.ok.inj (hof.symm.trans ht)
    · exact Except.ok.inj (hsent.symm.trans ht)
  rw [← hts]
  exact Store.update_unchanged hstored

namespace TwoLines

/-- A form that is not in its stored form. -/
def form : SettingsForm where
  name := " Demo ".toList
  publicHost := "Bugs.Kohaku.Test".toList
  screenshotsEnabled := some "on".toList
  featuresEnabled := none
  requireEmail := none
  plusOneEnabled := some "yes".toList
  privacyNotice := "first line\r\nsecond line\r".toList
  securityContact := "mail us".toList

/-- What is stored for it. -/
def settings : Settings where
  name := "Demo".toList
  publicHost := some "bugs.kohaku.test".toList
  screenshotsEnabled := true
  featuresEnabled := false
  requireEmail := false
  plusOneEnabled := true
  privacyNotice := some "first line\nsecond line".toList
  securityContact := some "mail us".toList

theorem parse_form : form.parse Recreated.base = .ok settings := by decide

end TwoLines

open TwoLines in
theorem resubmit_unchanged_two_lines :
    (SettingsForm.of settings).sent.privacyNotice = "first line\r\nsecond line".toList ∧
      (SettingsForm.of settings).sent.parse Recreated.base = .ok settings :=
  ⟨by decide, (resubmit_unchanged _ form settings parse_form).2.1⟩

end Kohaku.Projects
