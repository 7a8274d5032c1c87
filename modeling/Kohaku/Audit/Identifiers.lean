import Kohaku.Projects.Store
import Kohaku.Sql.Glob

/-!
# Identifiers of the audit log

The columns of an audit entry and the `CHECK` constraints of `audit_log` on them. An action and a
target type are constrained by one positive and three negated patterns, which together leave exactly
the dotted names of the entry format (`audit_identifiers`); every entry the program can write meets
the constraints (`AuditRow.checks_columns`).
-/

namespace Kohaku

open Sql Projects

/-! ## The columns -/

/-- `Role::as_str`, the text of the `role` column. -/
def Role.asStr : Role → Str
  | .admin => "admin".toList
  | .maintainer => "maintainer".toList

/-- The label and the id of an actor. -/
def Actor.columns : Actor → Str × Option Nat
  | .cli => ("cli".toList, none)
  | .user id role => (role.asStr, some id)

/-- The dotted name of an action. -/
def Action.identifier : Action → Str
  | .instanceRestore => "instance.restore".toList
  | .userUnlock => "user.unlock".toList
  | .userResetLink => "user.reset_link".toList
  | .userPasswordChange => "user.password_change".toList
  | .userPasswordReset => "user.password_reset".toList
  | .userTotpEnable => "user.totp_enable".toList
  | .userTotpDisable => "user.totp_disable".toList
  | .userRecoveryCodes => "user.recovery_codes".toList
  | .userSessionsEnd => "user.sessions_end".toList
  | .projectCreate => "project.create".toList
  | .projectUpdate => "project.update".toList
  | .projectDelete => "project.delete".toList

/-- The type and the id of a target. -/
def Target.columns : Target → Str × Option Nat
  | .theInstance => ("instance".toList, none)
  | .user id => ("user".toList, some id)
  | .project id => ("project".toList, some id)

/-- The row that `audit` inserts. -/
structure AuditColumns where
  actorLabel : Str
  actorId : Option Nat
  action : Str
  targetType : Str
  targetId : Option Nat
  time : Time

/-- An entry as it is stored. -/
def AuditRow.columns (row : AuditRow) : AuditColumns where
  actorLabel := row.actor.columns.1
  actorId := row.actor.columns.2
  action := row.action.identifier
  targetType := row.target.columns.1
  targetId := row.target.columns.2
  time := row.time

/-! ## The constraints -/

/-- `length(x) <= 64 AND x GLOB '[a-z]*' AND NOT x GLOB '*[^a-z0-9_.]*' AND NOT x GLOB '*.[^a-z]*'
AND NOT x GLOB '*.'`. -/
def identifierCheck (x : Str) : Bool :=
  let s := cText x
  s.length ≤ 64 && glob "[a-z]*" s && !glob "*[^a-z0-9_.]*" s && !glob "*.[^a-z]*" s && !glob "*." s

/-- The `CHECK` constraint of `audit_log.action`. -/
def actionCheck (action : Str) : Bool := identifierCheck action

/-- The `CHECK` constraint of `audit_log.target_type`. -/
def targetTypeCheck (targetType : Str) : Bool := identifierCheck targetType

/-- The `CHECK` constraints of a row. -/
def AuditColumns.checks (row : AuditColumns) : Bool :=
  ["cli".toList, "admin".toList, "maintainer".toList].contains row.actorLabel &&
    (row.actorId.isNone == (row.actorLabel = "cli".toList)) && actionCheck row.action &&
    targetTypeCheck row.targetType && (row.targetId.isNone == (row.targetType = "instance".toList))

theorem Actor.checks_columns (actor : Actor) :
    ["cli".toList, "admin".toList, "maintainer".toList].contains actor.columns.1 = true ∧
      actor.columns.2.isNone = decide (actor.columns.1 = "cli".toList) := by
  cases actor with
  | cli => exact ⟨rfl, rfl⟩
  | user id role => cases role <;> exact ⟨rfl, rfl⟩

theorem Action.check_identifier (action : Action) : actionCheck action.identifier = true := by
  cases action <;> decide

theorem Target.checks_columns (target : Target) : targetTypeCheck target.columns.1 = true ∧
    target.columns.2.isNone = decide (target.columns.1 = "instance".toList) := by
  have hinstance : targetTypeCheck "instance".toList = true := by decide
  have huser : targetTypeCheck "user".toList = true := by decide
  have hproject : targetTypeCheck "project".toList = true := by decide
  cases target with
  | theInstance => exact ⟨hinstance, rfl⟩
  | user id => exact ⟨huser, rfl⟩
  | project id => exact ⟨hproject, rfl⟩

/-- No constraint refuses an entry of the program. -/
theorem AuditRow.checks_columns (row : AuditRow) : row.columns.checks = true := by
  obtain ⟨hlabel, hactor⟩ := row.actor.checks_columns
  obtain ⟨htype, htarget⟩ := row.target.checks_columns
  rw [AuditColumns.checks, columns, hlabel, row.action.check_identifier, htype, hactor, htarget]
  simp

/-! ## The identifier grammar -/

/-- A character of the class `[a-z]`. -/
def isLowercase (c : Char) : Bool := 'a' ≤ c && c ≤ 'z'

/-- A character after the first of a segment. -/
def isSegmentChar (c : Char) : Bool := isLowercase c || ('0' ≤ c && c ≤ '9') || c = '_'

/-- A lowercase letter followed by lowercase letters, digits and underscores. -/
def isSegment : Str → Bool
  | [] => false
  | c :: rest => isLowercase c && rest.all isSegmentChar

/-- One or more segments joined by single dots. -/
def IsIdentifier (x : Str) : Prop :=
  ∃ segments : List Str, segments ≠ [] ∧ (∀ s ∈ segments, isSegment s = true) ∧
    x = ['.'].intercalate segments

theorem contains_lowercase (c : Char) :
    Glob.CharSet.contains ⟨false, [('a', 'z')]⟩ c = isLowercase c := by
  simp [Glob.CharSet.contains, isLowercase]

theorem contains_notLowercase (c : Char) :
    Glob.CharSet.contains ⟨true, [('a', 'z')]⟩ c = true ↔ ¬isLowercase c = true := by
  simp [Glob.CharSet.contains, isLowercase]
  grind

/-- What the patterns ask of a text: it starts with a letter, has no character that is neither of a
segment nor a dot, and a letter follows each dot. -/
structure Dotted (s : Str) : Prop where
  first : ∃ c ∈ s.head?, isLowercase c = true
  chars : ∀ c ∈ s, isSegmentChar c = true ∨ c = '.'
  dots : ∀ before after, s = before ++ '.' :: after → ∃ c ∈ after.head?, isLowercase c = true

theorem contains_other (c : Char) :
    Glob.CharSet.contains ⟨true, [('a', 'z'), ('0', '9'), ('_', '_'), ('.', '.')]⟩ c = true ↔
      ¬(isSegmentChar c = true ∨ c = '.') := by
  simp [Glob.CharSet.contains, isSegmentChar, isLowercase]
  grind

theorem glob_identifier (s : Str) :
    (glob "[a-z]*" s && !glob "*[^a-z0-9_.]*" s && !glob "*.[^a-z]*" s &&
    !glob "*." s) = true ↔ Dotted s := by
  have hfirst : Glob.compile "[a-z]*".toList = some [.one ⟨false, [('a', 'z')]⟩, .star] := by decide
  have hchars : Glob.compile "*[^a-z0-9_.]*".toList =
      some [.star, .one ⟨true, [('a', 'z'), ('0', '9'), ('_', '_'), ('.', '.')]⟩,
        .star] := by decide
  have hdots : Glob.compile "*.[^a-z]*".toList =
      some [.star, .char '.', .one ⟨true, [('a', 'z')]⟩, .star] := by decide
  have hlast : Glob.compile "*.".toList = some [.star, .char '.'] := by decide
  rw [Glob.glob_eq hfirst, Glob.glob_eq hchars, Glob.glob_eq hdots, Glob.glob_eq hlast]
  simp only [Bool.and_eq_true, Bool.not_eq_true', ← Bool.not_eq_true, Glob.accepts_first,
    Glob.accepts_somewhere, Glob.accepts_pair_somewhere, Glob.accepts_char_last, contains_lowercase,
    contains_notLowercase, contains_other]
  constructor
  · intro h
    obtain ⟨⟨⟨hfirst, hchars⟩, hdots⟩, hlast⟩ := h
    refine ⟨hfirst, fun c hc => ?_, fun before after hs => ?_⟩
    · by_contra hnot
      exact hchars ⟨c, hc, hnot⟩
    · cases after with
      | nil => exact absurd ⟨before, hs⟩ hlast
      | cons c after =>
        refine ⟨c, rfl, ?_⟩
        by_contra hnot
        exact hdots ⟨before, c, after, hs, hnot⟩
  · intro h
    refine ⟨⟨⟨h.first, ?_⟩, ?_⟩, ?_⟩
    · intro hother
      obtain ⟨c, hc, hnot⟩ := hother
      exact hnot (h.chars c hc)
    · intro hpair
      obtain ⟨before, c, after, hs, hnot⟩ := hpair
      obtain ⟨d, hd, hlower⟩ := h.dots _ _ hs
      cases hd
      exact hnot hlower
    · intro hlast
      obtain ⟨before, hs⟩ := hlast
      obtain ⟨d, hd, -⟩ := h.dots _ _ hs
      cases hd

/-! ## Dotted texts are the identifiers -/

theorem isSegmentChar_of_isLowercase {c : Char} (h : isLowercase c = true) :
    isSegmentChar c = true := by
  simp [isSegmentChar, h]

theorem isSegmentChar_of_mem {s : Str} (h : isSegment s = true) :
    ∀ c ∈ s, isSegmentChar c = true := by
  cases s with
  | nil => cases h
  | cons c rest =>
    rw [isSegment, Bool.and_eq_true, List.all_eq_true] at h
    exact List.forall_mem_cons.mpr ⟨isSegmentChar_of_isLowercase h.1, h.2⟩

theorem dot_notMem_of_isSegment {s : Str} (h : isSegment s = true) : '.' ∉ s :=
  fun hmem => absurd (isSegmentChar_of_mem h _ hmem) (by decide)

/-- A text with a letter at its start and only characters of a segment is one. -/
theorem isSegment_of_first {s : Str} (hfirst : ∃ c ∈ s.head?, isLowercase c = true)
    (hchars : ∀ c ∈ s, isSegmentChar c = true) : isSegment s = true := by
  obtain ⟨c, hc, hlower⟩ := hfirst
  obtain ⟨rest, rfl⟩ := List.head?_eq_some_iff.mp hc
  rw [isSegment, hlower, Bool.true_and, List.all_eq_true]
  exact fun d hd => hchars d (List.mem_cons_of_mem _ hd)

theorem first_of_isSegment {s : Str} (h : isSegment s = true) (t : Str) :
    ∃ c ∈ (s ++ t).head?, isLowercase c = true := by
  cases s with
  | nil => cases h
  | cons c rest => exact ⟨c, rfl, (Bool.and_eq_true_iff.mp h).1⟩

theorem Dotted.of_isSegment {s : Str} (h : isSegment s = true) : Dotted s where
  first := by simpa using first_of_isSegment h []
  chars c hc := .inl (isSegmentChar_of_mem h c hc)
  dots before after hs := absurd (hs ▸ by simp) (dot_notMem_of_isSegment h)

/-- A segment and a dot in front. -/
theorem dotted_append {s t : Str} (h : isSegment s = true) : Dotted (s ++ '.' :: t) ↔ Dotted t := by
  constructor
  · intro hs
    refine ⟨hs.dots s t rfl, fun c hc => hs.chars c (by simp [hc]), ?_⟩
    intro before after ht
    exact hs.dots (s ++ '.' :: before) after (by simp [ht])
  · intro ht
    refine ⟨first_of_isSegment h _, ?_, ?_⟩
    · intro c hc
      obtain hc | rfl | hc : c ∈ s ∨ c = '.' ∨ c ∈ t := by simpa using hc
      · exact .inl (isSegmentChar_of_mem h c hc)
      · exact .inr rfl
      · exact ht.chars c hc
    · -- the dot is the one behind the segment, or one of the rest
      intro before after hs
      obtain ⟨more, rfl, hmore⟩ | ⟨more, rfl, hmore⟩ := List.append_eq_append_iff.mp hs
      · cases more with
        | nil =>
          obtain rfl : t = after := by simpa using hmore
          exact ht.first
        | cons c more =>
          obtain ⟨-, rfl⟩ : '.' = c ∧ t = more ++ '.' :: after := by simpa using hmore
          exact ht.dots more after rfl
      · cases more with
        | nil =>
          obtain rfl : after = t := by simpa using hmore
          exact ht.first
        | cons c more =>
          obtain ⟨rfl, -⟩ : '.' = c ∧ after = more ++ '.' :: t := by simpa using hmore
          exact absurd (by simp) (dot_notMem_of_isSegment h)

/-- The first segment of a dotted text is all of it, or a dot follows. -/
theorem Dotted.segment {s : Str} (h : Dotted s) :
    isSegment s = true ∨ ∃ t rest, isSegment t = true ∧ s = t ++ '.' :: rest := by
  by_cases hmem : '.' ∈ s
  · obtain ⟨t, rest, rfl, hdot⟩ := List.eq_append_cons_of_mem hmem
    refine .inr ⟨t, rest, isSegment_of_first ?_ ?_, rfl⟩
    · obtain ⟨c, hc, hlower⟩ := h.first
      cases t with
      | nil =>
        cases hc
        exact absurd hlower (by decide)
      | cons d t => exact ⟨c, hc, hlower⟩
    · intro c hc
      exact (h.chars c (by simp [hc])).resolve_right fun heq => hdot (heq ▸ hc)
  · refine .inl (isSegment_of_first h.first ?_)
    intro c hc
    exact (h.chars c hc).resolve_right fun heq => hmem (heq ▸ hc)

theorem Dotted.of_segments {segments : List Str} (hne : segments ≠ [])
    (h : ∀ s ∈ segments, isSegment s = true) : Dotted (['.'].intercalate segments) := by
  induction segments with
  | nil => exact absurd rfl hne
  | cons s segments ih =>
    have hs := h s (List.mem_cons_self ..)
    cases segments with
    | nil => simpa using Dotted.of_isSegment hs
    | cons t rest =>
      rw [List.intercalate_cons_cons, List.append_assoc, List.singleton_append]
      exact (dotted_append hs).mpr
        (ih (List.cons_ne_nil _ _) fun u hu => h u (List.mem_cons_of_mem _ hu))

-- induction on the length: a dotted text loses its first segment and the dot behind it
theorem Dotted.isIdentifier {s : Str} (h : Dotted s) : IsIdentifier s := by
  induction hn : s.length using Nat.strong_induction_on generalizing s with
  | _ n ih =>
    obtain hs | ⟨t, rest, ht, rfl⟩ := h.segment
    · exact ⟨[s], by simp, by simpa using hs, by simp⟩
    · have hlt : rest.length < n := by
        rw [← hn, List.length_append, List.length_cons]
        omega
      obtain ⟨segments, hne, hsegments, rfl⟩ := ih _ hlt ((dotted_append ht).mp h) rfl
      refine ⟨t :: segments, by simp, List.forall_mem_cons.mpr ⟨ht, hsegments⟩, ?_⟩
      cases segments with
      | nil => exact absurd rfl hne
      | cons u rest => rw [List.intercalate_cons_cons, List.append_assoc, List.singleton_append]

theorem dotted_iff {s : Str} : Dotted s ↔ IsIdentifier s := by
  constructor
  · exact Dotted.isIdentifier
  · intro h
    obtain ⟨segments, hne, hsegments, rfl⟩ := h
    exact Dotted.of_segments hne hsegments

theorem identifierCheck_iff {x : Str} (h : '\x00' ∉ x) :
    identifierCheck x = true ↔ x.length ≤ 64 ∧ IsIdentifier x := by
  rw [identifierCheck, cText_of_notMem h, ← dotted_iff, ← glob_identifier]
  simp [and_assoc]

/-- On a text without a NUL the constraint on the action, and the one on the target type, accept
exactly the identifiers of at most 64 characters. -/
theorem audit_identifiers (x : Str) (h : '\x00' ∉ x) :
    (actionCheck x = true ↔ x.length ≤ 64 ∧ IsIdentifier x) ∧
      (targetTypeCheck x = true ↔ x.length ≤ 64 ∧ IsIdentifier x) :=
  ⟨identifierCheck_iff h, identifierCheck_iff h⟩

theorem audit_identifiers_reset_link :
    actionCheck "user.reset_link".toList = true ↔
      "user.reset_link".toList.length ≤ 64 ∧ IsIdentifier "user.reset_link".toList :=
  (audit_identifiers "user.reset_link".toList (by decide)).1

end Kohaku
