import Kohaku.Text

/-!
# Configured hosts

`DnsName` and `BaseUrl` of `config.rs`. A `DnsName` carries the proof that `DnsName::parse` accepts
it, and the lemmas say which characters it can have.
-/

namespace Kohaku

/-- A byte of a label. -/
def isLabelByte (b : UInt8) : Bool := isAsciiLowercase b || isAsciiDigit b || b = 0x2D

theorem lt_of_isLabelByte (b : UInt8) (h : isLabelByte b = true) : b < 0x80 := by
  simp only [isLabelByte, isAsciiLowercase, isAsciiDigit, Bool.or_eq_true, Bool.and_eq_true,
    decide_eq_true_eq] at h
  rcases h with (⟨-, hle⟩ | ⟨-, hle⟩) | rfl
  · exact UInt8.lt_of_le_of_lt hle (by decide)
  · exact UInt8.lt_of_le_of_lt hle (by decide)
  · decide

/-- A character of a label. -/
def isLabelChar (c : Char) : Bool := ('a' ≤ c && c ≤ 'z') || ('0' ≤ c && c ≤ '9') || c = '-'

theorem toNat_lt_of_isLabelChar {c : Char} (h : isLabelChar c = true) : c.toNat < 0x80 := by
  have hle : ∀ d : Char, c ≤ d → c.toNat ≤ d.toNat := fun d hd => UInt32.le_iff_toNat_le.mp hd
  simp only [isLabelChar, Bool.or_eq_true, Bool.and_eq_true, decide_eq_true_eq] at h
  obtain (⟨-, h⟩ | ⟨-, h⟩) | rfl := h
  · exact lt_of_le_of_lt (hle _ h) (by decide)
  · exact lt_of_le_of_lt (hle _ h) (by decide)
  · decide

/-- The bytes of a text are those of labels when its characters are. -/
theorem all_isLabelByte {text : Str} :
    (asBytes text).all isLabelByte = true ↔ ∀ c ∈ text, isLabelChar c = true := by
  have hchar : ∀ c : Char, c.toNat < 0x80 → isLabelByte (UInt8.ofNat c.toNat) = isLabelChar c := by
    intro c hc
    exact of_ascii (fun c => isLabelByte (UInt8.ofNat c.toNat) = isLabelChar c) (by decide) hc
  constructor
  · intro h c hc
    obtain ⟨hlt, hb⟩ := of_all_asBytes lt_of_isLabelByte h c hc
    rwa [← hchar c hlt]
  · intro h
    have hascii : ∀ c ∈ text, c.toNat < 0x80 := fun c hc => toNat_lt_of_isLabelChar (h c hc)
    rw [asBytes_of_ascii hascii, List.all_map, List.all_eq_true]
    intro c hc
    exact (hchar c (hascii c hc)).trans (h c hc)

/-- A label that `DnsName::parse` accepts. -/
def isLabel (label : Str) : Bool :=
  !(label.isEmpty || (asBytes label).length > 63 || !(asBytes label).all isLabelByte ||
    label.head? = some '-' || label.getLast? = some '-')

/-- The test of `DnsName::parse`. -/
def isDnsName (text : Str) : Bool :=
  let labels := text.splitOn '.'
  !(text.isEmpty || (asBytes text).length > 253) && labels.all isLabel &&
    !(asBytes (labels.getLastD [])).all isAsciiDigit

/-- A lowercase ASCII DNS name. -/
@[ext] structure DnsName where
  text : Str
  valid : isDnsName text = true
  deriving DecidableEq

namespace DnsName

/-- `DnsName::RULE`, the text for a name that is refused. -/
def rule : Str :=
  ("must be a lowercase ASCII DNS name (letters, digits, '-' and " ++
    "dots; internationalized names in punycode), without trailing dot, port or scheme, " ++
    "and not an IP address").toList

/-- `DnsName::parse`. -/
def parse (text : Str) : Except Str DnsName :=
  if h : isDnsName text = true then .ok ⟨text, h⟩ else .error rule

theorem text_of_parse {text : Str} {name : DnsName} (h : parse text = .ok name) :
    name.text = text := by
  unfold parse at h
  split at h
  · cases h
    rfl
  · cases h

theorem parse_text (name : DnsName) : parse name.text = .ok name := dif_pos name.valid

example : (parse "bugs.example.net".toList).toOption.isSome = true := by decide
example : (parse "203.0.113.7".toList).toOption.isSome = false := by decide

/-- A character of a DNS name. -/
def isNameChar (c : Char) : Bool :=
  c = '.' || c = '-' || ('a' ≤ c && c ≤ 'z') || ('0' ≤ c && c ≤ '9')

/-- A DNS name is ASCII and has no other character. -/
theorem isNameChar_of_mem (name : DnsName) {c : Char} (hc : c ∈ name.text) :
    c.toNat < 0x80 ∧ isNameChar c = true := by
  have hvalid := name.valid
  simp only [isDnsName, Bool.and_eq_true] at hvalid
  rcases mem_splitOn_or '.' hc with rfl | ⟨label, hlabel, hc⟩
  · decide
  · have hl := List.all_eq_true.mp hvalid.1.2 label hlabel
    simp only [isLabel, Bool.not_eq_true', Bool.or_eq_false_iff, Bool.not_eq_false'] at hl
    obtain ⟨hlt, hb⟩ := of_all_asBytes lt_of_isLabelByte hl.1.1.2 c hc
    refine ⟨hlt, ?_⟩
    exact of_ascii (fun c => isLabelByte (UInt8.ofNat c.toNat) = true → isNameChar c = true)
      (by decide) hlt hb

theorem ne_nil (name : DnsName) : name.text ≠ [] := by
  have hvalid := name.valid
  simp only [isDnsName, Bool.and_eq_true, Bool.not_eq_true', Bool.or_eq_false_iff,
    List.isEmpty_eq_false_iff] at hvalid
  exact hvalid.1.1.1

end DnsName

/-- `KOHAKU_BASE_URL`: the main host's origin. -/
structure BaseUrl where
  https : Bool
  host : DnsName
  port : Option UInt16
  deriving DecidableEq

/-- Scheme, host and optional port, as a browser sends them in `Origin`. -/
def BaseUrl.origin (base : BaseUrl) : Str :=
  let scheme := if base.https then "https".toList else "http".toList
  match base.port with
  | some port => scheme ++ "://".toList ++ base.host.text ++ ':' :: Nat.toDigits 10 port.toNat
  | none => scheme ++ "://".toList ++ base.host.text

end Kohaku
