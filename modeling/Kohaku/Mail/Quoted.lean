import Kohaku.Mail.Message

/-!
# User text in mail

`single_line` makes breaks into spaces and leaves out bidirectional controls in one pass with a
flag. The specification does the steps one after the other: each maximal run of breaks becomes a
space, then the controls go, then the text is cut, then it is quoted. Both give the same text
(`user_text_transform`).
-/

namespace Kohaku

/-- A bidirectional control. -/
def isBidi (c : Char) : Bool :=
  let n := c.toNat
  n = 0x061C || n = 0x200E || n = 0x200F || (0x202A ≤ n && n ≤ 0x202E) || (0x2066 ≤ n && n ≤ 0x2069)

/-- The loop of `single_line`: what is written so far, and whether the last character was a
break. -/
structure LineState where
  out : Str
  inBreak : Bool

/-- One character: a run of breaks becomes a space, and direction marks are left out. -/
def lineStep (s : LineState) (c : Char) : LineState :=
  if isLineBreakOrControl c then ⟨if s.inBreak then s.out else s.out ++ [' '], true⟩
  else ⟨if isBidi c then s.out else s.out ++ [c], false⟩

/-- Breaks become one space, bidirectional controls go, then the cap. -/
def singleLine (text : Str) : Str := cap (text.foldl lineStep ⟨[], false⟩).out

/-- A text in double quotes, with inner ones as single quotes. -/
def quoteForSubject (text : Str) : Str :=
  '"' :: (singleLine text).map (fun c => if c = '"' then '\'' else c) ++ ['"']

/-- A text behind `> `. -/
def quoteForBody (text : Str) : Str := '>' :: ' ' :: singleLine text

/-! ## The steps of the specification -/

/-- Each maximal run of characters with `p` as one `sep`. -/
def collapseRuns (p : Char → Bool) (sep : Char) : Str → Str
  | [] => []
  | c :: rest =>
    if p c then sep :: collapseRuns p sep (rest.dropWhile p) else c :: collapseRuns p sep rest
termination_by text => text.length
decreasing_by
  · exact Nat.lt_succ_of_le (List.length_dropWhile_le p rest)
  · exact Nat.lt_succ_self _

/-- The first three steps. -/
def userText (text : Str) : Str :=
  let spaced := collapseRuns isLineBreakOrControl ' ' text
  let plain := spaced.filter fun c => !isBidi c
  if 200 < plain.length then plain.take 199 ++ ['…'] else plain

variable {p : Char → Bool} {sep c : Char} {text : Str}

theorem collapseRuns_pos (h : p c = true) (rest : Str) :
    collapseRuns p sep (c :: rest) = sep :: collapseRuns p sep (rest.dropWhile p) := by
  rw [collapseRuns, if_pos h]

theorem collapseRuns_neg (h : p c = false) (rest : Str) :
    collapseRuns p sep (c :: rest) = c :: collapseRuns p sep rest := by
  rw [collapseRuns, if_neg (by simp [h])]

theorem mem_of_mem_collapseRuns (h : c ∈ collapseRuns p sep text) : c = sep ∨ p c = false := by
  fun_induction collapseRuns p sep text with
  | case1 => cases h
  | case2 d rest hd ih =>
    obtain rfl | h := List.mem_cons.mp h
    · exact .inl rfl
    · exact ih h
  | case3 d rest hd ih =>
    obtain rfl | h := List.mem_cons.mp h
    · exact .inr (Bool.eq_false_iff.mpr hd)
    · exact ih h

/-! ## The loop -/

/-- What the loop adds to a state is the specified text of what it reads. After a break the rest of
the run adds nothing; a bidirectional control ends a run, as in the first step. -/
theorem foldl_lineStep (text : Str) (s : LineState) : (text.foldl lineStep s).out =
    s.out ++ (collapseRuns isLineBreakOrControl ' '
      (if s.inBreak then text.dropWhile isLineBreakOrControl else text)).filter fun c =>
        !isBidi c := by
  induction text generalizing s with
  | nil => cases s.inBreak <;> simp [collapseRuns]
  | cons c text ih =>
    rw [List.foldl_cons, ih, lineStep]
    cases hc : isLineBreakOrControl c with
    | true =>
      cases hs : s.inBreak with
      | true => simp [hc]
      | false =>
        have hspace : isBidi ' ' = false := by decide
        simp [collapseRuns_pos hc, hspace]
    | false =>
      have hrest : (if s.inBreak then (c :: text).dropWhile isLineBreakOrControl else c :: text) =
          c :: text := by
        rw [List.dropWhile_cons_of_neg (by simp [hc]), ite_self]
      rw [hrest, collapseRuns_neg hc]
      cases hb : isBidi c <;> simp [hb]

theorem singleLine_eq (text : Str) : singleLine text = userText text := by
  have hloop := foldl_lineStep text ⟨[], false⟩
  rw [List.nil_append, if_neg (by simp)] at hloop
  rw [singleLine, hloop, cap, userText]
  split
  · rename_i h
    exact (if_neg (Nat.not_lt_of_le h)).symm
  · rename_i h
    exact (if_pos (Nat.lt_of_not_le h)).symm

/-! ## What the text can hold -/

/-- Neither a control character, nor a line or paragraph separator, nor a bidirectional control. -/
def isPlain (c : Char) : Bool := !isLineBreakOrControl c && !isBidi c

theorem isPlain_of_mem_userText (h : c ∈ userText text) : isPlain c = true := by
  have hplain : ∀ d ∈ (collapseRuns isLineBreakOrControl ' ' text).filter fun c => !isBidi c,
      isPlain d = true := by
    intro d hd
    obtain ⟨hmem, hbidi⟩ := List.mem_filter.mp hd
    obtain rfl | hbreak := mem_of_mem_collapseRuns hmem
    · decide
    · rw [isPlain, hbreak, hbidi]
      rfl
  unfold userText at h
  dsimp only at h
  split at h
  · obtain h | h := List.mem_append.mp h
    · exact hplain c (List.mem_of_mem_take h)
    · rw [List.mem_singleton.mp h]
      decide
  · exact hplain c h

/-- User text in a subject and in a body is exactly the specified transform; the subject form has
two double quotes, at its ends, and neither form has a control character, a separator or a
bidirectional control. -/
theorem user_text_transform (text : Str) :
    quoteForSubject text = '"' :: (userText text).map (fun c => if c = '"' then '\'' else c) ++
      ['"'] ∧ quoteForBody text = "> ".toList ++ userText text ∧
      (∃ inner, quoteForSubject text = '"' :: inner ++ ['"'] ∧ '"' ∉ inner) ∧
      (∀ c ∈ quoteForSubject text, isPlain c = true) ∧
      ∀ c ∈ quoteForBody text, isPlain c = true := by
  have hsubject : quoteForSubject text =
      '"' :: (userText text).map (fun c => if c = '"' then '\'' else c) ++ ['"'] := by
    rw [quoteForSubject, singleLine_eq]
  have hbody : quoteForBody text = "> ".toList ++ userText text := by
    rw [quoteForBody, singleLine_eq]
    rfl
  refine ⟨hsubject, hbody, ⟨_, hsubject, ?_⟩, ?_, ?_⟩
  · intro hmem
    obtain ⟨c, -, hc⟩ := List.mem_map.mp hmem
    split at hc
    · exact absurd hc (by decide)
    · exact absurd hc ‹_›
  · intro c hc
    rw [hsubject, List.cons_append, List.mem_cons, List.mem_append, List.mem_singleton] at hc
    obtain rfl | hc | rfl := hc
    · decide
    · obtain ⟨d, hd, rfl⟩ := List.mem_map.mp hc
      split
      · decide
      · exact isPlain_of_mem_userText hd
    · decide
  · intro c hc
    rw [hbody, List.mem_append] at hc
    obtain hc | hc := hc
    · have hmark : "> ".toList.all isPlain = true := by decide
      exact List.all_eq_true.mp hmark c hc
    · exact isPlain_of_mem_userText hc

end Kohaku
