import Kohaku.Config
import Kohaku.Network.Proxies

/-!
# The base URL

`parse_base_url` of `config.rs` in a build without the `dev` feature. What it accepts is the text of
an origin, which `origin` prints again (`base_url_round_trip`).
-/

namespace Kohaku

open Limits

/-- The text for a base URL of another form. -/
def baseUrlForm : Str :=
  ("must be exactly https://host[:port]: no path (not even /), query, fragment or " ++
    "user information").toList

/-- The text for another scheme. -/
def baseUrlScheme : Str := "must start with https://".toList

/-- The text for a port that is refused. -/
def baseUrlPort : Str :=
  ("port must be 1-65535 without leading zeros, and not the scheme's default (443, or " ++
    "80 for http)").toList

/-- `u16::try_from`. -/
def u16TryFrom (n : Nat) : Option UInt16 := if n < 2 ^ 16 then some (UInt16.ofNat n) else none

/-- `parse_port`: 1 to 65535, written as a plain decimal. -/
def parsePort (text : Str) : Option UInt16 :=
  ((parseDecimal text).bind u16TryFrom).filter fun n => n ≠ 0

/-- Host and port of the part behind the scheme. -/
def splitHostPort (rest : Str) : Except Str (Str × Option UInt16) :=
  match splitOnce ':' rest with
  | some (host, port) =>
    match parsePort port with
    | some port => .ok (host, some port)
    | none => .error baseUrlPort
  | none => .ok (rest, none)

/-- The part behind the scheme. -/
def parseOrigin (rest : Str) : Except Str BaseUrl :=
  if rest.any fun c => c = '/' || c = '?' || c = '#' || c = '@' then .error baseUrlForm
  else do
    let parts ← splitHostPort rest
    if parts.2 = some 443 then .error baseUrlPort
    else
      let host ← DnsName.parse parts.1
      .ok ⟨true, host, parts.2⟩

/-- `parse_base_url`. `http://` is for dev builds only, so the scheme is always https here. -/
def parseBaseUrl (text : Str) : Except Str BaseUrl :=
  match text.dropPrefix? "https://".toList with
  | some rest => parseOrigin rest
  | none => .error baseUrlScheme

/-! ## The grammar -/

/-- 1 to 63 characters from `a`–`z`, `0`–`9` and `-`, the first and last none of `-`. -/
structure IsLabel (label : Str) : Prop where
  one_le : 1 ≤ label.length
  le_63 : label.length ≤ 63
  chars : ∀ c ∈ label, isLabelChar c = true
  head_ne : label.head? ≠ some '-'
  last_ne : label.getLast? ≠ some '-'

/-- Labels joined by dots, at most 253 characters, the last label not all digits. -/
def IsDnsText (text : Str) : Prop :=
  ∃ labels : List Str, ∃ hne : labels ≠ [], (∀ label ∈ labels, IsLabel label) ∧
    text = ['.'].intercalate labels ∧
    text.length ≤ 253 ∧ ¬∀ c ∈ labels.getLast hne, c.isDigit = true

/-- Nothing, or a colon and a port other than 443, in decimal without leading zeros. -/
def IsPortText (text : Str) : Prop :=
  text = [] ∨ ∃ n, 1 ≤ n ∧ n ≤ 65535 ∧ n ≠ 443 ∧ text = ':' :: Nat.toDigits 10 n

variable {text : Str}

theorem isLabel_iff {label : Str} : isLabel label = true ↔ IsLabel label := by
  rw [isLabel]
  simp only [Bool.not_eq_true', Bool.or_eq_false_iff, Bool.not_eq_false', List.isEmpty_eq_false_iff,
    decide_eq_false_iff_not, all_isLabelByte, gt_iff_lt, Nat.not_lt]
  constructor
  · intro h
    obtain ⟨⟨⟨⟨hne, hle⟩, hchars⟩, hhead⟩, hlast⟩ := h
    rw [asBytes_of_ascii fun c hc => toNat_lt_of_isLabelChar (hchars c hc), List.length_map] at hle
    exact ⟨List.length_pos_iff.mpr hne, hle, hchars, hhead, hlast⟩
  · intro h
    refine ⟨⟨⟨⟨List.length_pos_iff.mp h.one_le, ?_⟩, h.chars⟩, h.head_ne⟩, h.last_ne⟩
    rw [asBytes_of_ascii fun c hc => toNat_lt_of_isLabelChar (h.chars c hc), List.length_map]
    exact h.le_63

theorem IsLabel.dot_notMem {label : Str} (h : IsLabel label) : '.' ∉ label := fun hmem =>
  absurd (h.chars _ hmem) (by decide)

theorem IsLabel.ne_nil {label : Str} (h : IsLabel label) : label ≠ [] :=
  List.length_pos_iff.mp h.one_le

/-- The characters of joined labels are ASCII. -/
theorem toNat_lt_of_mem_intercalate {labels : List Str} (h : ∀ label ∈ labels, IsLabel label) :
    ∀ c ∈ ['.'].intercalate labels, c.toNat < 0x80 := by
  induction labels with
  | nil => simp
  | cons label labels ih =>
    have hlabel : ∀ c ∈ label, c.toNat < 0x80 := fun c hc =>
      toNat_lt_of_isLabelChar ((h label (List.mem_cons_self ..)).chars c hc)
    cases labels with
    | nil => simpa using hlabel
    | cons next labels =>
      intro c hc
      rw [List.intercalate_cons_cons, List.mem_append, List.mem_append, List.mem_singleton] at hc
      obtain (hc | rfl) | hc := hc
      · exact hlabel c hc
      · decide
      · exact ih (fun l hl => h l (List.mem_cons_of_mem _ hl)) c hc

theorem intercalate_ne_nil {labels : List Str} (hne : labels ≠ [])
    (h : ∀ label ∈ labels, IsLabel label) : ['.'].intercalate labels ≠ [] := by
  cases labels with
  | nil => exact absurd rfl hne
  | cons label labels =>
    have hlabel := (h label (List.mem_cons_self ..)).ne_nil
    cases labels with
    | nil => simpa using hlabel
    | cons next labels => simp [List.intercalate_cons_cons, hlabel]

/-- The last label is digits only, by its bytes as by its characters. -/
theorem all_isAsciiDigit {label : Str} (hne : label ≠ []) :
    (asBytes label).all isAsciiDigit = true ↔ ∀ c ∈ label, c.isDigit = true := by
  have hdigits : isDigits label = true ↔ label ≠ [] ∧ ∀ c ∈ label, c.isDigit = true := isDigits_iff
  rw [isDigits, Bool.and_eq_true, Bool.not_eq_true', List.isEmpty_eq_false_iff] at hdigits
  exact ⟨fun h => (hdigits.mp ⟨hne, h⟩).2, fun h => (hdigits.mpr ⟨hne, h⟩).2⟩

theorem isDnsName_intercalate {labels : List Str} (hne : labels ≠ [])
    (h : ∀ label ∈ labels, IsLabel label) : isDnsName (['.'].intercalate labels) = true ↔
      (['.'].intercalate labels).length ≤ 253 ∧ ¬∀ c ∈ labels.getLast hne, c.isDigit = true := by
  have hsplit : (['.'].intercalate labels).splitOn '.' = labels :=
    List.splitOn_intercalate '.' (fun label hl => (h label hl).dot_notMem) hne
  have hlast : labels.getLastD [] = labels.getLast hne := by
    rw [List.getLastD_eq_getLast?, List.getLast?_eq_some_getLast hne]
    rfl
  have hall : labels.all isLabel = true :=
    List.all_eq_true.mpr fun label hl => isLabel_iff.mpr (h label hl)
  rw [isDnsName, hsplit, hlast, hall, asBytes_of_ascii (toNat_lt_of_mem_intercalate h),
    List.length_map]
  rw [← all_isAsciiDigit (h _ (List.getLast_mem hne)).ne_nil]
  simp [intercalate_ne_nil hne h]

theorem isDnsName_iff : isDnsName text = true ↔ IsDnsText text := by
  constructor
  · intro h
    have hlabels : ∀ label ∈ text.splitOn '.', IsLabel label := by
      simp only [isDnsName, Bool.and_eq_true, List.all_eq_true] at h
      exact fun label hl => isLabel_iff.mp (h.1.2 label hl)
    have hne : text.splitOn '.' ≠ [] := List.splitOn_ne_nil _ _
    have htext : ['.'].intercalate (text.splitOn '.') = text := List.intercalate_splitOn '.'
    refine ⟨_, hne, hlabels, htext.symm, ?_⟩
    rw [← htext] at h
    have hiff := (isDnsName_intercalate hne hlabels).mp h
    rwa [htext] at hiff
  · intro h
    obtain ⟨labels, hne, hlabels, rfl, hlength, hdigits⟩ := h
    exact (isDnsName_intercalate hne hlabels).mpr ⟨hlength, hdigits⟩

/-! ## The port -/

theorem parsePort_eq_some {port : UInt16} :
    parsePort text = some port ↔ port ≠ 0 ∧ text = Nat.toDigits 10 port.toNat := by
  rw [parsePort, Option.filter_eq_some_iff, Option.bind_eq_some_iff]
  constructor
  · intro h
    obtain ⟨⟨n, hn, hport⟩, hne⟩ := h
    rw [u16TryFrom, Option.ite_none_right_eq_some, Option.some.injEq] at hport
    obtain ⟨hlt, rfl⟩ := hport
    refine ⟨by simpa using hne, ?_⟩
    rw [UInt16.toNat_ofNat', Nat.mod_eq_of_lt hlt]
    exact (parseDecimal_eq_some.mp hn).1
  · intro h
    obtain ⟨hne, rfl⟩ := h
    have hlt : port.toNat < 2 ^ 16 := port.toNat_lt
    refine ⟨⟨port.toNat, parseDecimal_eq_some.mpr ⟨rfl, hlt.trans (by decide)⟩,
      ?_⟩, by simpa using hne⟩
    rw [u16TryFrom, if_pos hlt, UInt16.ofNat_toNat]

/-- The text of a port that is not the default. -/
theorem isPortText_iff : IsPortText text ↔
    text = [] ∨ ∃ port : UInt16, port ≠ 0 ∧ port ≠ 443 ∧
    text = ':' :: Nat.toDigits 10 port.toNat := by
  apply or_congr_right
  constructor
  · intro h
    obtain ⟨n, hpos, hle, hne, rfl⟩ := h
    have htoNat : (UInt16.ofNat n).toNat = n := by
      rw [UInt16.toNat_ofNat']
      omega
    refine ⟨UInt16.ofNat n, ?_, ?_, by rw [htoNat]⟩
    · intro h0
      rw [h0] at htoNat
      exact absurd htoNat.symm (Nat.ne_of_gt hpos)
    · intro h443
      rw [h443] at htoNat
      exact hne htoNat.symm
  · intro h
    obtain ⟨port, hne, h443, rfl⟩ := h
    have hlt := port.toNat_lt
    refine ⟨port.toNat, ?_, by omega, fun heq => h443 (UInt16.toNat_inj.mp heq), rfl⟩
    exact Nat.pos_of_ne_zero fun h0 => hne (UInt16.toNat_inj.mp h0)

/-! ## The origin -/

/-- What `origin` prints behind the host. -/
def portText : Option UInt16 → Str
  | some port => ':' :: Nat.toDigits 10 port.toNat
  | none => []

theorem origin_https {host : DnsName} {port : Option UInt16} :
    BaseUrl.origin ⟨true, host, port⟩ = "https://".toList ++ (host.text ++ portText port) := by
  cases port <;> simp [BaseUrl.origin, portText]

theorem digit_ne {c : Char} (h : c.isDigit = true) :
    (c = ':' || c = '/' || c = '?' || c = '#' || c = '@') = false :=
  of_ascii
    (fun c => c.isDigit = true → (c = ':' || c = '/' || c = '?' || c = '#' || c = '@') = false)
    (by decide) (toNat_lt_of_isDigit h) h

theorem DnsName.char_ne (host : DnsName) {c : Char} (hc : c ∈ host.text) :
    (c = ':' || c = '/' || c = '?' || c = '#' || c = '@') = false := by
  obtain ⟨hlt, hname⟩ := host.isNameChar_of_mem hc
  exact of_ascii (fun c => isNameChar c = true →
    (c = ':' || c = '/' || c = '?' || c = '#' || c = '@') = false)
    (by decide) hlt hname

theorem DnsName.colon_notMem (host : DnsName) : ':' ∉ host.text := fun hmem =>
  absurd (host.char_ne hmem) (by decide)

/-- The port a base URL can have. -/
def PortOk (port : Option UInt16) : Prop := ∀ n, port = some n → n ≠ 0 ∧ n ≠ 443

/-- Host and port are split at the colon. -/
theorem splitHostPort_eq_ok {rest host : Str} {port : Option UInt16} (hcolon : ':' ∉ host) :
    splitHostPort rest = .ok (host, port) ↔ rest = host ++ portText port ∧ port ≠ some 0 := by
  unfold splitHostPort
  constructor
  · intro h
    split at h
    · rename_i before after hsplit
      obtain ⟨rfl, -⟩ := splitOnce_eq_some.mp hsplit
      split at h
      · rename_i n hn
        cases h
        obtain ⟨hne, rfl⟩ := parsePort_eq_some.mp hn
        exact ⟨rfl, fun h => hne (Option.some.inj h)⟩
      · cases h
    · cases h
      exact ⟨(List.append_nil _).symm, by simp⟩
  · intro h
    obtain ⟨rfl, hne⟩ := h
    cases port with
    | none =>
      rw [portText, List.append_nil, splitOnce_eq_none.mpr hcolon]
    | some n =>
      have hsplit : splitOnce ':' (host ++ portText (some n)) =
          some (host, Nat.toDigits 10 n.toNat) :=
        splitOnce_eq_some.mpr ⟨rfl, hcolon⟩
      have hport : parsePort (Nat.toDigits 10 n.toNat) = some n :=
        parsePort_eq_some.mpr ⟨fun h => hne (congrArg some h), rfl⟩
      simp only [hsplit, hport]

theorem any_origin (host : DnsName) (port : Option UInt16) :
    (host.text ++ portText port).any (fun c => c = '/' || c = '?' || c = '#' || c = '@') =
      false := by
  rw [List.any_eq_false]
  intro c hc
  have hne : (c = ':' || c = '/' || c = '?' || c = '#' || c = '@') = false ∨ c = ':' := by
    obtain hc | hc := List.mem_append.mp hc
    · exact .inl (host.char_ne hc)
    · cases port with
      | none => cases hc
      | some n =>
        obtain rfl | hc := List.mem_cons.mp hc
        · exact .inr rfl
        · exact .inl (digit_ne (Nat.isDigit_of_mem_toDigits (by decide) (by decide) hc))
  obtain hne | rfl := hne
  · simp only [Bool.or_eq_false_iff] at hne
    simp [hne]
  · decide

theorem parseOrigin_eq_ok {rest : Str} {base : BaseUrl} : parseOrigin rest = .ok base ↔
    ∃ host port, base = ⟨true, host, port⟩ ∧ PortOk port ∧ rest = host.text ++ portText port := by
  constructor
  · intro h
    unfold parseOrigin at h
    split at h
    · cases h
    · obtain ⟨⟨text, port⟩, hparts, h⟩ := bind_eq_ok.mp h
      dsimp only at h
      split at h
      · cases h
      · rename_i h443
        obtain ⟨host, hhost, h⟩ := bind_eq_ok.mp h
        cases h
        obtain rfl := DnsName.text_of_parse hhost
        obtain ⟨rfl, hzero⟩ := (splitHostPort_eq_ok host.colon_notMem).mp hparts
        refine ⟨host, port, rfl, ?_, rfl⟩
        intro n hn
        rw [hn] at hzero h443
        exact ⟨fun h => hzero (congrArg some h), fun h => h443 (congrArg some h)⟩
  · intro h
    obtain ⟨host, port, rfl, hport, rfl⟩ := h
    have hparts : splitHostPort (host.text ++ portText port) = .ok (host.text, port) :=
      (splitHostPort_eq_ok host.colon_notMem).mpr ⟨rfl, fun h => (hport 0 h).1 rfl⟩
    unfold parseOrigin
    rw [if_neg (by rw [any_origin]; decide)]
    refine bind_eq_ok.mpr ⟨_, hparts, ?_⟩
    rw [if_neg fun h => (hport 443 h).2 rfl]
    exact bind_eq_ok.mpr ⟨host, host.parse_text, rfl⟩

theorem parseBaseUrl_eq_ok {base : BaseUrl} : parseBaseUrl text = .ok base ↔
    base.https = true ∧ PortOk base.port ∧ text = base.origin := by
  have hdrop : ∀ rest, text.dropPrefix? "https://".toList = some rest ↔
      text = "https://".toList ++ rest := by
    intro rest
    rw [List.dropPrefix?_eq_some_iff]
    constructor
    · intro h
      obtain ⟨scheme, htext, heq⟩ := h
      rw [htext, eq_of_beq heq]
    · intro h
      exact ⟨_, h, beq_self_eq_true _⟩
  unfold parseBaseUrl
  constructor
  · intro h
    split at h
    · rename_i rest hrest
      obtain ⟨host, port, rfl, hport, rfl⟩ := parseOrigin_eq_ok.mp h
      exact ⟨rfl, hport, by rw [origin_https, (hdrop _).mp hrest]⟩
    · cases h
  · intro h
    obtain ⟨https, host, port⟩ := base
    obtain ⟨rfl, hport, htext⟩ := h
    rw [origin_https] at htext
    rw [(hdrop _).mpr htext]
    exact parseOrigin_eq_ok.mpr ⟨host, port, rfl, hport, rfl⟩

theorem isPortText_portText_iff : IsPortText text ↔ ∃ port, PortOk port ∧ text = portText port := by
  rw [isPortText_iff]
  constructor
  · intro h
    obtain rfl | ⟨port, hne, h443, rfl⟩ := h
    · exact ⟨none, fun n hn => absurd hn.symm (Option.some_ne_none n), rfl⟩
    · refine ⟨some port, ?_, rfl⟩
      intro n hn
      cases hn
      exact ⟨hne, h443⟩
  · intro h
    obtain ⟨port, hport, rfl⟩ := h
    cases port with
    | none => exact .inl rfl
    | some n => exact .inr ⟨n, (hport n rfl).1, (hport n rfl).2, rfl⟩

/-- A text is accepted as a base URL when it is `https://`, a DNS name and perhaps a port; the
origin of what was read is the text, so different texts have different origins. -/
theorem base_url_round_trip (text : Str) :
    ((∃ base, parseBaseUrl text = .ok base) ↔
        ∃ host port, text = "https://".toList ++ host ++ port ∧ IsDnsText host ∧ IsPortText port) ∧
      (∀ base, parseBaseUrl text = .ok base → base.origin = text) ∧
      ∀ other base base', parseBaseUrl text = .ok base → parseBaseUrl other = .ok base' →
      text ≠ other → base.origin ≠ base'.origin := by
  have horigin : ∀ {text base}, parseBaseUrl text = .ok base → base.origin = text := fun h =>
    (parseBaseUrl_eq_ok.mp h).2.2.symm
  refine ⟨?_, fun _ => horigin, ?_⟩
  · constructor
    · intro h
      obtain ⟨⟨https, host, port⟩, h⟩ := h
      obtain ⟨rfl, hport, rfl⟩ := parseBaseUrl_eq_ok.mp h
      refine ⟨host.text, portText port, ?_, isDnsName_iff.mp host.valid, ?_⟩
      · rw [origin_https, List.append_assoc]
      · exact isPortText_portText_iff.mpr ⟨port, hport, rfl⟩
    · intro h
      obtain ⟨host, port, rfl, hhost, hport⟩ := h
      obtain ⟨port, hok, rfl⟩ := isPortText_portText_iff.mp hport
      refine ⟨⟨true, ⟨host, isDnsName_iff.mpr hhost⟩, port⟩, parseBaseUrl_eq_ok.mpr ⟨rfl, hok, ?_⟩⟩
      rw [origin_https, List.append_assoc]
  · intro other base base' h h' hne heq
    exact hne ((horigin h).symm.trans (heq.trans (horigin h')))

theorem base_url_round_trip_port :
    ∃ base, parseBaseUrl "https://bugs.example.net:8443".toList = .ok base ∧
    base.origin = "https://bugs.example.net:8443".toList := by
  have hok : (parseBaseUrl "https://bugs.example.net:8443".toList).toOption.isSome =
      true := by decide
  cases h : parseBaseUrl "https://bugs.example.net:8443".toList with
  | error e =>
    rw [h] at hok
    cases hok
  | ok base => exact ⟨base, rfl, (base_url_round_trip _).2.1 base h⟩

end Kohaku
