import Kohaku.Server
import Kohaku.Text

/-!
# Recovery codes, shown and typed

A code is shown once in four groups and typed by hand. `Typed` says what typing may change; what it
leaves alone are the letters (`Typed.letters_eq`), and those are all that `normalize` looks at. So
every spelling of a code is looked up as that code, and an accepted text spells one code only.
-/

namespace Kohaku

/-- `&text[start..stop]` of a range that is not empty; `none` is the panic when it is out of bounds
or splits a character. -/
def slice (text : Str) (start stop : Nat) : Option Str :=
  if stop ≤ (asBytes text).length then fromUtf8 (((asBytes text).take stop).drop start) else none

/-- ASCII text is cut between its characters. -/
theorem slice_of_ascii {text : Str} (h : ∀ c ∈ text, c.toNat < 0x80) {start stop : Nat}
    (hstop : stop ≤ text.length) : slice text start stop = some ((text.take stop).drop start) := by
  have hcut : ((asBytes text).take stop).drop start = asBytes ((text.take stop).drop start) := by
    rw [asBytes_of_ascii h, asBytes_of_ascii fun c hc =>
      h c (List.mem_of_mem_take (List.mem_of_mem_drop hc)), List.map_drop, List.map_take]
  rw [slice, if_pos (by rwa [asBytes_of_ascii h, List.length_map]), hcut, fromUtf8_asBytes]

/-- What stands around a text and is trimmed off makes no difference. -/
theorem trimMatches_surround {p : Char → Bool} {left right : Str} (hleft : left.all p = true)
    (hright : right.all p = true) (text : Str) :
    trimMatches p (left ++ text ++ right) = trimMatches p text := by
  rw [trimMatches, List.append_assoc, dropWhile_append_of_all hleft, List.dropWhile_append]
  split
  next hnil =>
    rw [List.isEmpty_iff] at hnil
    rw [trimMatches, hnil, List.dropWhile_eq_nil_iff.mpr (List.all_eq_true.mp hright)]
  next =>
    rw [List.reverse_append, dropWhile_append_of_all (by rwa [List.all_reverse]), trimMatches]

theorem length_le_length_asBytes (text : Str) : text.length ≤ (asBytes text).length := by
  induction text with
  | nil => exact Nat.le_refl 0
  | cons c text ih =>
    have hpos := List.length_pos_iff.mpr (String.utf8EncodeChar_ne_nil (c := c))
    rw [asBytes, List.flatMap_cons, List.length_append, List.length_cons, ← asBytes]
    omega

namespace Recovery

/-- A code as shown once: `XXXX-XXXX-XXXX-XXXX`. -/
def display (code : Str) : Option Str := do
  let groups ← (List.range (length / 4)).mapM fun i => slice code (i * 4) (i * 4 + 4)
  return ['-'].intercalate groups

example : display "ABCDEFGHIJKLMN23".toList = some "ABCD-EFGH-IJKL-MN23".toList := by decide

/-! ## Typing -/

/-- The same character up to the case of a letter. -/
def SameLetter (c d : Char) : Prop := d = c ∨ d = toAsciiLowercase c ∨ d = toAsciiUppercase c

/-- What is typed for a text shown: letters in any case, hyphens left out, spaces and hyphens
added. -/
inductive Typed : Str → Str → Prop
  | nil : Typed [] []
  | keep {c d : Char} {shown typed : Str} (h : SameLetter c d) : Typed shown typed →
      Typed (c :: shown) (d :: typed)
  | leaveOut {shown typed : Str} : Typed shown typed → Typed ('-' :: shown) typed
  | add {c : Char} {shown typed : Str} (h : c = ' ' ∨ c = '-') : Typed shown typed →
      Typed shown (c :: typed)

/-- The input spells the code: it is typed for the code as shown, with ASCII whitespace around
it. -/
def Spells (input code : Str) : Prop :=
  ∃ shown left typed right, display code = some shown ∧ Typed shown typed ∧
    left.all isAsciiWhitespace = true ∧ right.all isAsciiWhitespace = true ∧
    input = left ++ typed ++ right

/-! ## Letters -/

/-- What `normalize` makes of an input before it checks it. -/
def letters (input : Str) : Str := (input.filter fun c => c ≠ '-' && c ≠ ' ').map toAsciiUppercase

theorem normalize_eq_some {input code : Str} :
    normalize input = some code ↔ letters input = code ∧ IsRecoveryCode code := by
  have hcheck : ((letters input).length = length && (letters input).all isBase32) = true ↔
      IsRecoveryCode (letters input) := by
    rw [Bool.and_eq_true, decide_eq_true_eq, List.all_eq_true, IsRecoveryCode]
  rw [normalize, ← letters]
  split
  next h =>
    rw [Option.some.injEq]
    exact ⟨fun heq => ⟨heq, heq ▸ hcheck.mp h⟩, And.left⟩
  next h =>
    refine ⟨fun heq => absurd heq (Option.some_ne_none _).symm, ?_⟩
    rintro ⟨rfl, hcode⟩
    exact absurd (hcheck.mpr hcode) h

theorem letters_append (a b : Str) : letters (a ++ b) = letters a ++ letters b := by
  rw [letters, List.filter_append, List.map_append, letters, letters]

theorem letters_cons_of_skip {c : Char} (h : c = ' ' ∨ c = '-') (text : Str) :
    letters (c :: text) = letters text := by
  rcases h with rfl | rfl <;> rfl

theorem letters_cons_of_keep {c : Char} (h : ¬(c = ' ' ∨ c = '-')) (text : Str) :
    letters (c :: text) = toAsciiUppercase c :: letters text := by
  rw [not_or] at h
  rw [letters, List.filter_cons_of_pos (by simp [h.1, h.2]), List.map_cons, letters]

theorem length_letters_le (text : Str) : (letters text).length ≤ text.length := by
  rw [letters, List.length_map]
  exact List.length_filter_le _ _

/-! ## Case -/

/-- Characters outside ASCII have no other ASCII case. -/
theorem toAscii_eq_self {c : Char} (h : 0x80 ≤ c.toNat) :
    toAsciiLowercase c = c ∧ toAsciiUppercase c = c := by
  have hz : ∀ z : Char, z.toNat < 0x80 → ¬c ≤ z := fun z hz hle =>
    absurd (UInt32.le_iff_toNat_le.mp hle) (Nat.not_le_of_lt (hz.trans_le h))
  rw [toAsciiLowercase, toAsciiUppercase, decide_eq_false (hz 'Z' (by decide)),
    decide_eq_false (hz 'z' (by decide)), Bool.and_false, Bool.and_false]
  exact ⟨rfl, rfl⟩

/-- A change of case is not seen by `normalize`. -/
theorem SameLetter.spec {c d : Char} (h : SameLetter c d) :
    toAsciiUppercase d = toAsciiUppercase c ∧ ((d = ' ' ∨ d = '-') ↔ (c = ' ' ∨ c = '-')) := by
  by_cases hlt : c.toNat < 0x80
  · have hall := of_ascii (fun c => toAsciiUppercase (toAsciiLowercase c) = toAsciiUppercase c ∧
      toAsciiUppercase (toAsciiUppercase c) = toAsciiUppercase c ∧
      ((toAsciiLowercase c = ' ' ∨ toAsciiLowercase c = '-') ↔ (c = ' ' ∨ c = '-')) ∧
      ((toAsciiUppercase c = ' ' ∨ toAsciiUppercase c = '-') ↔ (c = ' ' ∨ c = '-'))) (by decide) hlt
    rcases h with rfl | rfl | rfl
    · exact ⟨rfl, Iff.rfl⟩
    · exact ⟨hall.1, hall.2.2.1⟩
    · exact ⟨hall.2.1, hall.2.2.2⟩
  · have hself := toAscii_eq_self (Nat.le_of_not_lt hlt)
    have hd : d = c := by
      rcases h with rfl | rfl | rfl
      · rfl
      · exact hself.1
      · exact hself.2
    rw [hd]
    exact ⟨rfl, Iff.rfl⟩

theorem sameLetter_toAsciiUppercase (c : Char) : SameLetter (toAsciiUppercase c) c := by
  by_cases hlt : c.toNat < 0x80
  · exact of_ascii (fun c => c = toAsciiUppercase c ∨ c = toAsciiLowercase (toAsciiUppercase c) ∨
      c = toAsciiUppercase (toAsciiUppercase c)) (by decide) hlt
  · exact .inl (toAscii_eq_self (Nat.le_of_not_lt hlt)).2.symm

/-- A base32 digit is an ASCII character that `normalize` keeps, and uppercase. -/
theorem isBase32_spec {c : Char} (h : isBase32 c = true) :
    c.toNat < 0x80 ∧ ¬(c = ' ' ∨ c = '-') ∧ toAsciiUppercase c = c := by
  have hlt := toNat_lt_of_isBase32 h
  exact ⟨hlt, of_ascii (fun c => isBase32 c = true → ¬(c = ' ' ∨ c = '-') ∧ toAsciiUppercase c = c)
    (by decide) hlt h⟩

theorem not_isBase32_of_isAsciiWhitespace {c : Char} (h : isAsciiWhitespace c = true) :
    isBase32 (toAsciiUppercase c) = false := by
  have hlt : c.toNat < 0x80 := by
    by_contra hge
    have hne : ∀ z : Char, z.toNat < 0x80 → c ≠ z := fun z hz heq => hge (heq ▸ hz)
    simp only [isAsciiWhitespace, Bool.or_eq_true, decide_eq_true_eq] at h
    rcases h with (((h | h) | h) | h) | h
    · exact hne _ (by decide) h
    · exact hne _ (by decide) h
    · exact hne _ (by decide) h
    · exact hge (h ▸ (by decide))
    · exact hne _ (by decide) h
  exact of_ascii (fun c => isAsciiWhitespace c = true → isBase32 (toAsciiUppercase c) = false)
    (by decide) hlt h

/-! ## What typing keeps -/

theorem Typed.letters_eq {shown typed : Str} (h : Typed shown typed) :
    letters typed = letters shown := by
  induction h with
  | nil => rfl
  | @keep c d shown typed hcase _ ih =>
    obtain ⟨hupper, hskip⟩ := hcase.spec
    by_cases hc : c = ' ' ∨ c = '-'
    · rw [letters_cons_of_skip hc, letters_cons_of_skip (hskip.mpr hc), ih]
    · rw [letters_cons_of_keep hc, letters_cons_of_keep (mt hskip.mp hc), hupper, ih]
  | leaveOut _ ih => rw [ih, letters_cons_of_skip (.inr rfl)]
  | add hc _ ih => rw [letters_cons_of_skip hc, ih]

theorem Typed.leaveOut_all {hyphens shown typed : Str} (hall : ∀ c ∈ hyphens, c = '-')
    (h : Typed shown typed) : Typed (hyphens ++ shown) typed := by
  induction hyphens with
  | nil => exact h
  | cons c hyphens ih =>
    rw [List.forall_mem_cons] at hall
    rw [List.cons_append, hall.1]
    exact .leaveOut (ih hall.2)

/-- Any text with the letters shown can be typed. -/
theorem typed_of_letters {shown typed : Str} (h : shown.filter (· ≠ '-') = letters typed) :
    Typed shown typed := by
  induction typed generalizing shown with
  | nil =>
    have hall : ∀ c ∈ shown, c = '-' := by
      intro c hc
      have hfilter := List.filter_eq_nil_iff.mp h c hc
      simpa using hfilter
    rw [← List.append_nil shown]
    exact Typed.nil.leaveOut_all hall
  | cons d typed ih =>
    by_cases hd : d = ' ' ∨ d = '-'
    · rw [letters_cons_of_skip hd] at h
      exact .add hd (ih h)
    · rw [letters_cons_of_keep hd, List.filter_eq_cons_iff] at h
      obtain ⟨hyphens, rest, rfl, hall, -, hrest⟩ := h
      refine Typed.leaveOut_all (fun c hc => ?_) (.keep (sameLetter_toAsciiUppercase d) (ih hrest))
      simpa using hall c hc

/-! ## The code as shown -/

/-- The groups of four, put together. -/
theorem flatten_groups (code : Str) (n : Nat) :
    ((List.range n).map fun i => (code.take (i * 4 + 4)).drop (i * 4)).flatten =
      code.take (n * 4) := by
  induction n with
  | zero => rw [List.range_zero, List.map_nil, List.flatten_nil, Nat.zero_mul, List.take_zero]
  | succ n ih =>
    have htake : code.take (n * 4) = (code.take (n * 4 + 4)).take (n * 4) := by
      rw [List.take_take, Nat.min_eq_left (Nat.le_add_right _ _)]
    rw [List.range_succ, List.map_append, List.flatten_append, ih, List.map_singleton,
      List.flatten_singleton, htake, List.take_append_drop, Nat.succ_mul]

theorem filter_intercalate (groups : List Str) :
    (['-'].intercalate groups).filter (· ≠ '-') = groups.flatten.filter (· ≠ '-') := by
  induction groups with
  | nil => rfl
  | cons group groups ih =>
    cases groups with
    | nil => rw [List.intercalate_singleton, List.flatten_singleton]
    | cons next groups =>
      rw [List.intercalate_cons_cons, List.filter_append, List.filter_append, ih, List.flatten_cons,
        List.filter_append]
      simp

/-- A code can be shown, and without the hyphens what is shown is the code. -/
theorem exists_display {code : Str} (h : IsRecoveryCode code) :
    ∃ shown, display code = some shown ∧ shown.filter (· ≠ '-') = code := by
  obtain ⟨hlength, hall⟩ := h
  have hslice : ∀ i ∈ List.range (length / 4),
      slice code (i * 4) (i * 4 + 4) = some ((code.take (i * 4 + 4)).drop (i * 4)) := by
    intro i hi
    have hlt : i < 4 := List.mem_range.mp hi
    refine slice_of_ascii (fun c hc => (isBase32_spec (hall c hc)).1) ?_
    rw [hlength, length]
    omega
  have hgroups : (List.range (length / 4)).mapM (fun i => slice code (i * 4) (i * 4 + 4)) =
      some ((List.range (length / 4)).map fun i => (code.take (i * 4 + 4)).drop (i * 4)) :=
    mapM_eq_some_map hslice
  refine ⟨_, by rw [display, hgroups]; rfl, ?_⟩
  rw [filter_intercalate, flatten_groups, List.take_of_length_le (by rw [hlength]; decide),
    List.filter_eq_self]
  intro c hc
  have hskip := (isBase32_spec (hall c hc)).2.1
  rw [decide_eq_true_eq]
  exact fun heq => hskip (.inr heq)

/-! ## Spellings -/

variable {code input text : Str}

/-- In a text of base32 letters the only ASCII whitespace is the space. -/
theorem eq_space_of_isAsciiWhitespace (h : ∀ c ∈ letters text, isBase32 c = true) :
    ∀ c ∈ text, isAsciiWhitespace c = true → c = ' ' := by
  intro c hc hspace
  by_contra hne
  have hkeep : (c ≠ '-' && c ≠ ' ') = true := by
    have hhyphen : c ≠ '-' := by
      rintro rfl
      exact absurd hspace (by decide)
    simp [hne, hhyphen]
  have hletter := h _ (List.mem_map_of_mem (List.mem_filter.mpr ⟨hc, hkeep⟩))
  rw [not_isBase32_of_isAsciiWhitespace hspace] at hletter
  exact Bool.noConfusion hletter

/-- Trimming takes no letter off. -/
theorem letters_trimMatches (h : ∀ c ∈ letters text, isBase32 c = true) :
    letters (trimMatches isAsciiWhitespace text) = letters text := by
  have hspace := eq_space_of_isAsciiWhitespace h
  obtain ⟨left, right, htext, hleft, hright⟩ := exists_eq_trimMatches isAsciiWhitespace text
  have hnone : ∀ part : Str, part ⊆ text → part.all isAsciiWhitespace = true →
      letters part = [] := by
    intro part hsub hall
    rw [letters, List.map_eq_nil_iff, List.filter_eq_nil_iff]
    intro c hc
    rw [hspace c (hsub hc) (List.all_eq_true.mp hall c hc)]
    decide
  have hl : left ⊆ text := by
    rw [htext, List.append_assoc]
    exact List.subset_append_left _ _
  have hr : right ⊆ text := by
    rw [htext]
    exact List.subset_append_right _ _
  conv_rhs => rw [htext, letters_append, letters_append, hnone left hl hleft, hnone right hr hright]
  rw [List.nil_append, List.append_nil]

theorem letters_isRecoveryCode (h : IsRecoveryCode code) : letters code = code := by
  rw [letters, List.filter_eq_self.mpr, List.map_congr_left (g := id), List.map_id]
  · intro c hc
    exact (isBase32_spec (h.2 c hc)).2.2
  · intro c hc
    have hskip := (isBase32_spec (h.2 c hc)).2.1
    rw [not_or] at hskip
    simp [hskip.1, hskip.2]

/-- The letters of a text are those without its hyphens. -/
theorem letters_filter (text : Str) : letters (text.filter (· ≠ '-')) = letters text := by
  rw [letters, List.filter_filter, letters]
  congr 2
  funext c
  by_cases hc : c = '-' <;> simp [hc]

/-- What is spelled is what is looked up. -/
theorem Spells.normalize_trimMatches (hcode : IsRecoveryCode code) (h : Spells input code) :
    normalize (trimMatches isAsciiWhitespace input) = some code := by
  obtain ⟨shown, left, typed, right, hshown, htyped, hleft, hright, rfl⟩ := h
  obtain ⟨shown', hshown', hfilter⟩ := exists_display hcode
  rw [hshown, Option.some.injEq] at hshown'
  subst hshown'
  have hletters : letters typed = code := by
    rw [htyped.letters_eq, ← letters_filter, hfilter, letters_isRecoveryCode hcode]
  rw [trimMatches_surround hleft hright, normalize_eq_some]
  exact ⟨by rw [letters_trimMatches (hletters ▸ hcode.2), hletters], hcode⟩

/-- An accepted text spells the code it is read as. -/
theorem spells_of_normalize (h : normalize input = some code) : Spells input code := by
  obtain ⟨hletters, hcode⟩ := normalize_eq_some.mp h
  obtain ⟨shown, hshown, hfilter⟩ := exists_display hcode
  exact ⟨shown, [], input, [], hshown, typed_of_letters (hfilter.trans hletters.symm), rfl, rfl,
    (List.append_nil input).symm⟩

theorem normalize_trimMatches (h : normalize input = some code) :
    normalize (trimMatches isAsciiWhitespace input) = some code := by
  obtain ⟨hletters, hcode⟩ := normalize_eq_some.mp h
  rw [normalize_eq_some]
  exact ⟨by rw [letters_trimMatches (hletters ▸ hcode.2), hletters], hcode⟩

/-- No text with the letters of a recovery code has the shape of a TOTP code. -/
theorem not_isCode_of_normalize (h : normalize text = some code) : isCode text = false := by
  obtain ⟨rfl, hlength, -⟩ := normalize_eq_some.mp h
  have hletters := length_letters_le text
  have hbytes := length_le_length_asBytes text
  rw [isCode, Bool.and_eq_false_iff]
  left
  rw [decide_eq_false_iff_not]
  intro heq
  rw [heq] at hbytes
  exact absurd (hlength ▸ hletters.trans hbytes) (by decide)

/-- A spelled code is looked up as a recovery code. -/
theorem Spells.codeAccepted_eq (A : App) (db : Db) (userId : Nat) (seed : Bytes) (now : Time)
    (hcode : IsRecoveryCode code) (h : Spells input code) :
    Credentials.codeAccepted A db userId seed input now = consume A db userId code := by
  have hnormalize := h.normalize_trimMatches hcode
  simp only [Credentials.codeAccepted, not_isCode_of_normalize hnormalize, hnormalize,
    Bool.false_eq_true, if_false]

end Recovery

/-- Recovery codes can be typed back, in inputs of any length. The code of ten bytes can be shown,
and every input that spells it is looked up as it, not as a TOTP code. A code that `replace` returns
is such a code, and every input that spells it is accepted after `replace` and uses up its row. An
input that `normalize` accepts spells exactly one code. -/
theorem recovery_code_typed_back (A : App) :
    (∀ bytes : Vector UInt8 10, (Recovery.display (base32 bytes.toList)).isSome = true ∧
      ∀ input, Recovery.Spells input (base32 bytes.toList) →
        isCode (trimMatches isAsciiWhitespace input) = false ∧
          ∀ db userId seed now, Credentials.codeAccepted A db userId seed input now =
            Recovery.consume A db userId (base32 bytes.toList)) ∧
      (∀ db userId draws codes db', Recovery.replace A db userId draws = some (codes, db') →
        ∀ code ∈ codes, (∃ bytes ∈ draws, code = base32 bytes.toList) ∧
          ∀ input, Recovery.Spells input code → ∀ seed now,
            Recovery.row A userId code ∈ db'.recoveryCodes ∧
              Credentials.codeAccepted A db' userId seed input now =
                (true, { db' with recoveryCodes :=
                  db'.recoveryCodes.delete fun r => r = Recovery.row A userId code })) ∧
      ∀ input, (Recovery.normalize input).isSome = true →
        ∃! code, Recovery.IsRecoveryCode code ∧ Recovery.Spells input code := by
  refine ⟨fun bytes => ?_, fun db userId draws codes db' h code hcode => ?_, fun input h => ?_⟩
  · have hbytes := Recovery.base32_isRecoveryCode bytes
    obtain ⟨shown, hshown, -⟩ := Recovery.exists_display hbytes
    refine ⟨by rw [hshown]; rfl, fun input hspells => ?_⟩
    have hshape := Recovery.not_isCode_of_normalize (hspells.normalize_trimMatches hbytes)
    exact ⟨hshape, fun db userId seed now => hspells.codeAccepted_eq A db userId seed now hbytes⟩
  · obtain ⟨-, hdraws, -, hrows⟩ := Recovery.replace_draws h
    obtain ⟨bytes, hdraw, rfl⟩ := hdraws code hcode
    have hmem : Recovery.row A userId (base32 bytes.toList) ∈ db'.recoveryCodes.rows := by
      rw [hrows]
      exact List.mem_append_right _ (List.mem_map_of_mem hcode)
    refine ⟨⟨bytes, hdraw, rfl⟩, fun input hspells seed now => ⟨hmem, ?_⟩⟩
    rw [hspells.codeAccepted_eq A db' userId seed now (Recovery.base32_isRecoveryCode bytes),
      Recovery.consume_of_mem hmem]
  · obtain ⟨code, hnormalize⟩ := Option.isSome_iff_exists.mp h
    refine ⟨code, ⟨Recovery.normalize_isRecoveryCode hnormalize,
      Recovery.spells_of_normalize hnormalize⟩, ?_⟩
    rintro code' ⟨hcode', hspells⟩
    have hsame := (hspells.normalize_trimMatches hcode').symm.trans
      (Recovery.normalize_trimMatches hnormalize)
    exact Option.some.inj hsame

/-- The code of ten bytes, typed in two cases with its own spaces and hyphens. -/
theorem recovery_code_typed_back_spaced :
    isCode (trimMatches isAsciiWhitespace "\t aaaq EAYE-auda--ocaJ ".toList) = false ∧
      Recovery.normalize (trimMatches isAsciiWhitespace "\t aaaq EAYE-auda--ocaJ ".toList) =
        some (base32 [0, 1, 2, 3, 4, 5, 6, 7, 8, 9]) := by
  have hspells : Recovery.Spells "\t aaaq EAYE-auda--ocaJ ".toList
      (base32 #v[0, 1, 2, 3, 4, 5, 6, 7, 8, 9].toList) :=
    ⟨"AAAQ-EAYE-AUDA-OCAJ".toList, ['\t', ' '], "aaaq EAYE-auda--ocaJ".toList,
      [' '], by decide, Recovery.typed_of_letters (by decide), rfl, rfl, by decide⟩
  exact ⟨(((recovery_code_typed_back App.sample).1 _).2 _ hspells).1, by decide⟩

end Kohaku
