import Mathlib

/-!
# GLOB patterns

The patterns of SQLite's `GLOB`: `*` stands for any text, `?` for one character, `[…]` for one
character of a list of characters and ranges, `[^…]` for one that is not in it. A `]` right at the
start of a list and a `-` at its end stand for themselves; a list that is not closed matches
nothing. A pattern is compiled to its items once, and the lemmas below say which texts the usual
shapes accept.
-/

namespace Sql.Glob

/-- The characters of `[…]`, or all others. -/
structure CharSet where
  negated : Bool
  ranges : List (Char × Char)
  deriving DecidableEq

/-- A character of the class. -/
def CharSet.contains (set : CharSet) (c : Char) : Bool :=
  (set.ranges.any fun range => range.1 ≤ c && c ≤ range.2) != set.negated

/-- A part of a pattern. -/
inductive Item
  /-- `*` -/
  | star
  /-- `?` -/
  | any
  | one (set : CharSet)
  | char (c : Char)
  deriving DecidableEq

/-! ## Reading a pattern -/

/-- The list behind `[` or `[^` up to its `]`, and what follows. -/
def readRanges : List Char → Option (List (Char × Char) × List Char)
  | [] => none
  | ']' :: rest => some ([], rest)
  | c :: '-' :: d :: rest =>
    if d = ']' then (readRanges ('-' :: d :: rest)).map fun x => ((c, c) :: x.1, x.2)
    else (readRanges rest).map fun x => ((c, d) :: x.1, x.2)
  | c :: rest => (readRanges rest).map fun x => ((c, c) :: x.1, x.2)

/-- A list from its first character on, where `]` stands for itself. -/
def readList : List Char → Option (List (Char × Char) × List Char)
  | ']' :: rest => (readRanges rest).map fun x => ((']', ']') :: x.1, x.2)
  | rest => readRanges rest

/-- A class after its opening bracket, and the rest of the pattern. -/
def readSet : List Char → Option (CharSet × List Char)
  | '^' :: rest => (readList rest).map fun x => (⟨true, x.1⟩, x.2)
  | rest => (readList rest).map fun x => (⟨false, x.1⟩, x.2)

/-- The items of a pattern with at most `fuel` of them. -/
def read : Nat → List Char → Option (List Item)
  | _, [] => some []
  | 0, _ => none
  | fuel + 1, '*' :: rest => (read fuel rest).map (.star :: ·)
  | fuel + 1, '?' :: rest => (read fuel rest).map (.any :: ·)
  | fuel + 1, '[' :: rest => do
    let (set, rest) ← readSet rest
    let items ← read fuel rest
    return .one set :: items
  | fuel + 1, c :: rest => (read fuel rest).map (.char c :: ·)

/-- The parts of a pattern. -/
def compile (pattern : List Char) : Option (List Item) := read pattern.length pattern

/-! ## Matching -/

/-- The text is of the form of the parts. -/
def accepts : List Item → List Char → Bool
  | [], text => text.isEmpty
  | .star :: items, text => text.tails.any (accepts items)
  | _ :: _, [] => false
  | .any :: items, _ :: text => accepts items text
  | .one set :: items, c :: text => set.contains c && accepts items text
  | .char d :: items, c :: text => c = d && accepts items text

end Sql.Glob

namespace Sql

/-- `text GLOB pattern`. -/
def glob (pattern : String) (text : List Char) : Bool :=
  (Glob.compile pattern.toList).any fun items => Glob.accepts items text

example : glob "a[b-d]?*" "acxyz".toList = true := by decide
example : glob "[]x-]" "-".toList = true := by decide
example : glob "[a-c" "a".toList = false := by decide

namespace Glob

variable {items : List Item} {set : CharSet} {text : List Char} {c d : Char}

theorem glob_eq {pattern : String} (h : compile pattern.toList = some items) :
    glob pattern text = accepts items text := by
  rw [glob, h, Option.any_some]

theorem accepts_nil : accepts [] text = true ↔ text = [] := List.isEmpty_iff

theorem accepts_star : accepts (.star :: items) text = true ↔
    ∃ before after, text = before ++ after ∧ accepts items after = true := by
  change text.tails.any (accepts items) = true ↔ _
  rw [List.any_eq_true]
  constructor
  · intro h
    obtain ⟨after, hmem, hafter⟩ := h
    obtain ⟨before, rfl⟩ := (List.mem_tails _ _).mp hmem
    exact ⟨before, after, rfl, hafter⟩
  · intro h
    obtain ⟨before, after, rfl, hafter⟩ := h
    exact ⟨after, (List.mem_tails _ _).mpr (List.suffix_append _ _), hafter⟩

theorem accepts_one : accepts (.one set :: items) text = true ↔
    ∃ c rest, text = c :: rest ∧ set.contains c = true ∧ accepts items rest = true := by
  cases text with
  | nil =>
    change false = true ↔ _
    simp
  | cons c text =>
    change (set.contains c && accepts items text) = true ↔ _
    simp

theorem accepts_char : accepts (.char d :: items) text = true ↔
    ∃ rest, text = d :: rest ∧ accepts items rest = true := by
  cases text with
  | nil =>
    change false = true ↔ _
    simp
  | cons c text =>
    change (c = d && accepts items text) = true ↔ _
    simp [and_assoc]

/-- A star at the end takes the rest. -/
theorem accepts_rest : accepts [.star] text = true :=
  accepts_star.mpr ⟨text, [], (List.append_nil _).symm, rfl⟩

/-! ## Shapes -/

/-- `[…]*`: the text starts with such a character. -/
theorem accepts_first : accepts [.one set, .star] text = true ↔
    ∃ c ∈ text.head?, set.contains c = true := by
  rw [accepts_one]
  constructor
  · intro h
    obtain ⟨c, rest, rfl, hc, -⟩ := h
    exact ⟨c, rfl, hc⟩
  · intro h
    obtain ⟨c, hhead, hc⟩ := h
    obtain ⟨rest, rfl⟩ := List.head?_eq_some_iff.mp hhead
    exact ⟨c, rest, rfl, hc, accepts_rest⟩

/-- `*[…]*`: the text has such a character. -/
theorem accepts_somewhere :
    accepts [.star, .one set, .star] text = true ↔ ∃ c ∈ text, set.contains c = true := by
  rw [accepts_star]
  constructor
  · intro h
    obtain ⟨before, after, rfl, hafter⟩ := h
    obtain ⟨c, rest, rfl, hc, -⟩ := accepts_one.mp hafter
    exact ⟨c, by simp, hc⟩
  · intro h
    obtain ⟨c, hmem, hc⟩ := h
    obtain ⟨before, rest, rfl⟩ := List.append_of_mem hmem
    exact ⟨before, c :: rest, rfl, accepts_one.mpr ⟨c, rest, rfl, hc, accepts_rest⟩⟩

/-- `*d*`: the text has the character. -/
theorem accepts_char_somewhere : accepts [.star, .char d, .star] text = true ↔ d ∈ text := by
  rw [accepts_star]
  constructor
  · intro h
    obtain ⟨before, after, rfl, hafter⟩ := h
    obtain ⟨rest, rfl, -⟩ := accepts_char.mp hafter
    simp
  · intro hmem
    obtain ⟨before, rest, rfl⟩ := List.append_of_mem hmem
    exact ⟨before, d :: rest, rfl, accepts_char.mpr ⟨rest, rfl, accepts_rest⟩⟩

/-- `*d`: the text ends with the character. -/
theorem accepts_char_last :
    accepts [.star, .char d] text = true ↔ ∃ before, text = before ++ [d] := by
  rw [accepts_star]
  constructor
  · intro h
    obtain ⟨before, after, rfl, hafter⟩ := h
    obtain ⟨rest, rfl, hrest⟩ := accepts_char.mp hafter
    rw [accepts_nil.mp hrest]
    exact ⟨before, rfl⟩
  · intro h
    obtain ⟨before, rfl⟩ := h
    exact ⟨before, [d], rfl, accepts_char.mpr ⟨[], rfl, rfl⟩⟩

/-- `*d[…]*`: somewhere such a character follows `d`. -/
theorem accepts_pair_somewhere : accepts [.star, .char d, .one set, .star] text = true ↔
    ∃ before c after, text = before ++ d :: c :: after ∧ set.contains c = true := by
  rw [accepts_star]
  constructor
  · intro h
    obtain ⟨before, after, rfl, hafter⟩ := h
    obtain ⟨rest, rfl, hrest⟩ := accepts_char.mp hafter
    obtain ⟨c, after, rfl, hc, -⟩ := accepts_one.mp hrest
    exact ⟨before, c, after, rfl, hc⟩
  · intro h
    obtain ⟨before, c, after, rfl, hc⟩ := h
    exact ⟨before, _, rfl, accepts_char.mpr
      ⟨_, rfl, accepts_one.mpr ⟨c, after, rfl, hc, accepts_rest⟩⟩⟩

end Glob

end Sql
