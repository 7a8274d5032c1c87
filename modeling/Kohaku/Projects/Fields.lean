import Kohaku.Config

/-!
# Project fields

The rules for the values an admin or the command line gives for a project, with the problem each
refusal names.
-/

namespace Kohaku.Projects

/-- Longest slug. -/
def slugMax : Nat := 40
/-- Longest name, in Unicode scalar values. -/
def nameMax : Nat := 80
/-- Longest privacy notice, in bytes of UTF-8 after line endings are normalized. -/
def privacyNoticeMax : Nat := 1024
/-- Longest security contact, in Unicode scalar values. -/
def securityContactMax : Nat := 254

/-- A field a problem is about. -/
inductive Field
  | slug
  | name
  | publicHost
  | privacyNotice
  | securityContact
  deriving DecidableEq, Repr

/-- Why a value was refused. -/
structure Problem where
  field : Field
  message : String
  deriving DecidableEq, Repr

/-- The slug has another form. -/
def slugRule : Problem where
  field := .slug
  message :=
    "The slug must be 1 to 40 characters from a-z, 0-9 and '-', starting with a letter or digit."

/-- Another project has the slug. -/
def slugTaken : Problem where
  field := .slug
  message := "The slug is taken by another project."

/-- The name is empty or too long. -/
def nameLength : Problem where
  field := .name
  message := "The name must be 1 to 80 characters long."

/-- The name is not one line of visible text. -/
def nameCharacters : Problem where
  field := .name
  message :=
    "The name must be one line without control, invisible or direction-changing characters."

/-- The custom domain is no DNS name with a dot. -/
def hostRule : Problem where
  field := .publicHost
  message :=
    "The custom domain must be a DNS name with at least one dot, such as bugs.example.net, " ++
    "without scheme, port or trailing dot, and not an IP address."

/-- The custom domain is the main host. -/
def hostMain : Problem where
  field := .publicHost
  message := "The custom domain cannot be Kohaku's own host."

/-- Another project has the custom domain. -/
def hostTaken : Problem where
  field := .publicHost
  message := "The custom domain is used by another project."

/-- The notice is too long. -/
def noticeLength : Problem where
  field := .privacyNotice
  message := "The privacy notice must be at most 1024 bytes long."

/-- The notice has characters that hide something. -/
def noticeCharacters : Problem where
  field := .privacyNotice
  message :=
    "The privacy notice must not contain control, invisible or direction-changing characters."

/-- The contact is too long. -/
def contactLength : Problem where
  field := .securityContact
  message := "The security contact must be at most 254 characters long."

/-- The contact is not one line of visible text. -/
def contactCharacters : Problem where
  field := .securityContact
  message :=
    "The security contact must be one line without control, invisible or direction-changing " ++
    "characters."

/-! ## The parsers -/

/-- `[a-z0-9][a-z0-9-]{0,39}`, exactly as given. -/
def parseSlug (text : Str) : Except Problem Str :=
  let bytes := asBytes text
  if !bytes.isEmpty && bytes.length ≤ slugMax && bytes.head? ≠ some 0x2D &&
    bytes.all isLabelByte then
    .ok text
  else .error slugRule

/-- One line of 1 to 80 characters; the surrounding whitespace is removed after the character
check. -/
def parseName (text : Str) : Except Problem Str :=
  if !isSingleLine text then .error nameCharacters
  else
    let name := trim text
    if name.isEmpty || name.length > nameMax then .error nameLength else .ok name

/-- A custom domain, or `none` for an empty one. -/
def parseHost (text : Str) (base : BaseUrl) : Except Problem (Option Str) :=
  let host := strToAsciiLowercase (trim text)
  if host.isEmpty then .ok none
  else
    match DnsName.parse host with
    | .error _ => .error hostRule
    | .ok host =>
      if !host.text.contains '.' then .error hostRule
      else if host = base.host then .error hostMain
      else .ok (some host.text)

/-- Plain text with line feeds; `none` when only whitespace. -/
def parsePrivacyNotice (text : Str) : Except Problem (Option Str) :=
  let text := normalizeLineEndings text
  if !isMultiLine text then .error noticeCharacters
  else
    let notice := trim text
    if (asBytes notice).length > privacyNoticeMax then .error noticeLength
    else .ok (if notice.isEmpty then none else some notice)

/-- One line of at most 254 characters; `none` when only whitespace. -/
def parseSecurityContact (text : Str) : Except Problem (Option Str) :=
  if !isSingleLine text then .error contactCharacters
  else
    let contact := trim text
    if contact.length > securityContactMax then .error contactLength
    else .ok (if contact.isEmpty then none else some contact)

/-! ## What the parsers accept -/

theorem parseName_eq_ok {text name : Str} : parseName text = .ok name ↔
    isSingleLine text = true ∧ name = trim text ∧ name ≠ [] ∧ name.length ≤ nameMax := by
  unfold parseName
  dsimp only
  split
  · rename_i hline
    simp at hline
    simp [hline]
  · rename_i hline
    simp only [Bool.not_eq_true', Bool.not_eq_false] at hline
    split
    · rename_i hlength
      simp only [Bool.or_eq_true, List.isEmpty_iff, decide_eq_true_eq] at hlength
      simp only [reduceCtorEq, false_iff]
      intro h
      obtain ⟨-, rfl, hne, hle⟩ := h
      exact hlength.elim hne (Nat.not_lt_of_le hle)
    · rename_i hlength
      simp only [Bool.or_eq_true, List.isEmpty_iff, decide_eq_true_eq, not_or, Nat.not_lt]
        at hlength
      constructor
      · intro h
        cases h
        exact ⟨hline, rfl, hlength⟩
      · intro h
        rw [h.2.1]

/-- A text, or `none` for the empty one. -/
def nonEmpty (text : Str) : Option Str := if text.isEmpty then none else some text

theorem nonEmpty_eq_some {text value : Str} :
    nonEmpty text = some value ↔ value = text ∧ value ≠ [] := by
  unfold nonEmpty
  split
  · rename_i h
    rw [List.isEmpty_iff] at h
    simp [h]
  · rename_i h
    rw [List.isEmpty_iff] at h
    constructor
    · intro hsome
      cases hsome
      exact ⟨rfl, h⟩
    · intro hvalue
      rw [hvalue.1]

theorem parsePrivacyNotice_eq_ok {text : Str} {notice : Option Str} :
    parsePrivacyNotice text = .ok notice ↔ isMultiLine (normalizeLineEndings text) = true ∧
      (asBytes (trim (normalizeLineEndings text))).length ≤ privacyNoticeMax ∧
      notice = nonEmpty (trim (normalizeLineEndings text)) := by
  unfold parsePrivacyNotice
  dsimp only
  split
  · rename_i hline
    simp at hline
    simp [hline]
  · rename_i hline
    simp only [Bool.not_eq_true', Bool.not_eq_false] at hline
    split
    · rename_i hlength
      simp [Nat.not_le_of_lt hlength]
    · rename_i hlength
      simp only [hline, Nat.le_of_not_lt hlength, true_and, Except.ok.injEq]
      exact eq_comm

theorem parseSecurityContact_eq_ok {text : Str} {contact : Option Str} :
    parseSecurityContact text = .ok contact ↔
      isSingleLine text = true ∧ (trim text).length ≤ securityContactMax ∧
      contact = nonEmpty (trim text) := by
  unfold parseSecurityContact
  dsimp only
  split
  · rename_i hline
    simp at hline
    simp [hline]
  · rename_i hline
    simp only [Bool.not_eq_true', Bool.not_eq_false] at hline
    split
    · rename_i hlength
      simp [Nat.not_le_of_lt hlength]
    · rename_i hlength
      simp only [hline, Nat.le_of_not_lt hlength, true_and, Except.ok.injEq]
      exact eq_comm

/-! ## Hosts -/

/-- A host that can be stored: a DNS name with a dot. -/
def IsHost (host : Str) : Prop := isDnsName host = true ∧ '.' ∈ host

/-- What `parseHost` accepts is a host and not the main one. -/
theorem of_parseHost {text host : Str} {base : BaseUrl}
    (h : parseHost text base = .ok (some host)) : IsHost host ∧ host ≠ base.host.text := by
  unfold parseHost at h
  dsimp only at h
  split at h
  · cases h
  · cases hparse : DnsName.parse (strToAsciiLowercase (trim text)) with
    | error => simp [hparse] at h
    | ok name =>
      simp only [hparse] at h
      split at h
      · cases h
      · rename_i hdot
        split at h
        · cases h
        · rename_i hmain
          cases h
          exact ⟨⟨name.valid, by simpa using hdot⟩, fun heq => hmain (DnsName.ext heq)⟩

end Kohaku.Projects
