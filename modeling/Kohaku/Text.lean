import Kohaku.Basic

/-!
# Character rules for short user-entered text

The rules of `text.rs`, and what the host rules need to know about ASCII text: a text whose bytes
are all ASCII is its own list of bytes, lowercasing keeps what is lowercase already, and trimming
keeps what has no whitespace.
-/

namespace Kohaku

/-- `c` may hide or reorder text. -/
def isHiding (c : Char) : Bool :=
  let n := c.toNat
  isControl c || n = 0x2028 || n = 0x2029 || n = 0x00AD || n = 0x061C || n = 0x180E ||
    (0x200B ≤ n && n ≤ 0x200F) || (0x202A ≤ n && n ≤ 0x202E) || (0x2060 ≤ n && n ≤ 0x2064) ||
    (0x2066 ≤ n && n ≤ 0x206F) || n = 0xFEFF || (0xFFF9 ≤ n && n ≤ 0xFFFB) ||
    (0xE0000 ≤ n && n ≤ 0xE007F)

/-- `is_single_line`. -/
def isSingleLine (text : Str) : Bool := !text.any isHiding

/-- Like `isSingleLine`, but line feeds are allowed. -/
def isMultiLine (text : Str) : Bool := !text.any fun c => c ≠ '\n' && isHiding c

/-- `text.replace("\r\n", "\n")`. -/
def replaceCrLf : Str → Str
  | '\r' :: '\n' :: rest => '\n' :: replaceCrLf rest
  | c :: rest => c :: replaceCrLf rest
  | [] => []

/-- CR LF and lone CR as LF. -/
def normalizeLineEndings (text : Str) : Str :=
  (replaceCrLf text).map fun c => if c = '\r' then '\n' else c

example : normalizeLineEndings "a\r\nb\rc\nd".toList = "a\nb\nc\nd".toList := by decide

/-! ## UTF-8 -/

/-- `str::from_utf8`. -/
def fromUtf8 (bytes : Bytes) : Option Str :=
  (String.fromUTF8? bytes.toByteArray).map String.toList

theorem fromUtf8_asBytes (text : Str) : fromUtf8 (asBytes text) = some text := by
  have hbytes : (asBytes text).toByteArray = (String.ofList text).toByteArray :=
    String.toByteArray_ofList.symm
  rw [fromUtf8, hbytes, String.fromUTF8?, dif_pos (String.ofList text).isValidUTF8, Option.map_some]
  exact congrArg some String.toList_ofList

theorem asBytes_of_fromUtf8 {bytes : Bytes} {text : Str} (h : fromUtf8 bytes = some text) :
    bytes = asBytes text := by
  rw [fromUtf8, Option.map_eq_some_iff] at h
  obtain ⟨t, ht, rfl⟩ := h
  have hbytes : t.toByteArray = bytes.toByteArray := by
    rw [String.fromUTF8?] at ht
    split at ht
    · cases ht
      rfl
    · cases ht
  have hlist : (asBytes t.toList).toByteArray = t.toByteArray := by
    conv_rhs => rw [← String.ofList_toList (s := t)]
    exact String.toByteArray_ofList.symm
  have heq := congrArg ByteArray.data (hlist.trans hbytes)
  simpa using heq.symm

/-! ## Splitting and decimals -/

/-- `str::split_once` at a character. -/
def splitOnce (sep : Char) : Str → Option (Str × Str)
  | [] => none
  | c :: rest =>
    if c = sep then some ([], rest) else (splitOnce sep rest).map fun p => (c :: p.1, p.2)

theorem splitOnce_eq_some {sep : Char} {text before after : Str} :
    splitOnce sep text = some (before, after) ↔ text = before ++ sep :: after ∧ sep ∉ before := by
  induction text generalizing before with
  | nil => simp [splitOnce]
  | cons c rest ih =>
    by_cases hc : c = sep
    · subst hc
      cases before with
      | nil => simp [splitOnce, eq_comm]
      | cons d before => grind [splitOnce]
    · cases before with
      | nil => simp [splitOnce, hc]
      | cons d before =>
        simp only [splitOnce, if_neg hc, Option.map_eq_some_iff, Prod.mk.injEq, List.cons.injEq,
          Prod.exists, List.cons_append, List.mem_cons, not_or]
        constructor
        · rintro ⟨x, y, hxy, ⟨rfl, rfl⟩, rfl⟩
          obtain ⟨hrest, hnot⟩ := ih.mp hxy
          exact ⟨⟨rfl, hrest⟩, Ne.symm hc, hnot⟩
        · rintro ⟨⟨rfl, hrest⟩, -, hnot⟩
          exact ⟨before, after, ih.mpr ⟨hrest, hnot⟩, ⟨rfl, rfl⟩, rfl⟩

theorem splitOnce_eq_none {sep : Char} {text : Str} : splitOnce sep text = none ↔ sep ∉ text := by
  induction text with
  | nil => simp [splitOnce]
  | cons c rest ih =>
    by_cases hc : c = sep
    · simp [splitOnce, hc]
    · simp [splitOnce, hc, ih, Ne.symm hc]

/-- The text is one or more ASCII digits. -/
def isDigits (text : Str) : Bool := !text.isEmpty && (asBytes text).all isAsciiDigit

/-- `from_str` of an unsigned integer of `w` bits, on a text of ASCII digits. -/
def parseDigits (w : Nat) (text : Str) : Option Nat :=
  let n := Nat.ofDigitChars 10 text 0
  if n < 2 ^ w then some n else none

/-! ## ASCII -/

/-- `u8::is_ascii_lowercase`. -/
def isAsciiLowercase (b : UInt8) : Bool := 0x61 ≤ b && b ≤ 0x7A

/-- `str::to_ascii_lowercase`. -/
def strToAsciiLowercase (text : Str) : Str := text.map toAsciiLowercase

variable {c : Char} {text : Str}

/-- A statement about an ASCII character can be checked one by one. -/
theorem of_ascii (P : Char → Prop) (h : ∀ n < 0x80, P (Char.ofNat n)) (hc : c.toNat < 0x80) :
    P c := by
  rw [← Char.ofNat_toNat c]
  exact h _ hc

theorem utf8EncodeChar_of_lt (h : c.toNat < 0x80) :
    String.utf8EncodeChar c = [UInt8.ofNat c.toNat] := by
  have hle : c.val.toNat ≤ 127 := Nat.le_of_lt_succ h
  rw [String.utf8EncodeChar, if_pos hle]
  rfl

/-- The bytes of a character that is not ASCII are none of ASCII. -/
theorem le_of_mem_utf8EncodeChar (h : 0x80 ≤ c.toNat) :
    ∀ b ∈ String.utf8EncodeChar c, 0x80 ≤ b := by
  have hv : ¬c.val.toNat ≤ 127 := Nat.not_le_of_lt h
  have hbyte : ∀ n : Nat, 128 ≤ n → n < 256 → 0x80 ≤ UInt8.ofNat n := by
    intro n hle hlt
    rw [UInt8.le_iff_toNat_le, UInt8.toNat_ofNat', Nat.mod_eq_of_lt hlt]
    exact hle
  rw [String.utf8EncodeChar, if_neg hv]
  split
  · simp only [List.forall_mem_cons]
    exact ⟨hbyte _ (by omega) (by omega), hbyte _ (by omega) (by omega), by simp⟩
  · split
    · simp only [List.forall_mem_cons]
      exact ⟨hbyte _ (by omega) (by omega), hbyte _ (by omega) (by omega),
        hbyte _ (by omega) (by omega), by simp⟩
    · simp only [List.forall_mem_cons]
      exact ⟨hbyte _ (by omega) (by omega), hbyte _ (by omega) (by omega),
        hbyte _ (by omega) (by omega), hbyte _ (by omega) (by omega), by simp⟩

/-- A character whose bytes are ASCII is ASCII. -/
theorem lt_of_utf8EncodeChar (h : ∀ b ∈ String.utf8EncodeChar c, b < 0x80) : c.toNat < 0x80 := by
  by_contra hge
  obtain ⟨b, hb⟩ := List.exists_mem_of_ne_nil _ (String.utf8EncodeChar_ne_nil (c := c))
  exact absurd (h b hb) (UInt8.not_lt.mpr (le_of_mem_utf8EncodeChar (Nat.le_of_not_lt hge) b hb))

/-- ASCII bytes are the characters. -/
theorem asBytes_of_ascii (h : ∀ c ∈ text, c.toNat < 0x80) :
    asBytes text = text.map fun c => UInt8.ofNat c.toNat := by
  induction text with
  | nil => rfl
  | cons c text ih =>
    rw [asBytes, List.flatMap_cons, List.map_cons, utf8EncodeChar_of_lt (h c (by simp)),
      ← ih fun c hc => h c (by simp [hc])]
    rfl

/-- ASCII bytes as characters, and back. -/
theorem asBytes_map_ofNat {bytes : Bytes} (h : ∀ b ∈ bytes, b < 0x80) :
    asBytes (bytes.map fun b => Char.ofNat b.toNat) = bytes := by
  have hvalue : ∀ n < 0x80, (Char.ofNat n).toNat = n := by decide
  have hchar : ∀ b ∈ bytes, (Char.ofNat b.toNat).toNat = b.toNat := fun b hb =>
    hvalue _ (UInt8.lt_iff_toNat_lt.mp (h b hb))
  rw [asBytes_of_ascii, List.map_map]
  · have hmap : bytes.map ((fun c => UInt8.ofNat c.toNat) ∘ fun b => Char.ofNat b.toNat) =
        bytes.map id := by
      apply List.map_congr_left
      intro b hb
      rw [Function.comp, hchar b hb, UInt8.ofNat_toNat]
      rfl
    rw [hmap, List.map_id]
  · intro c hc
    obtain ⟨b, hb, rfl⟩ := List.mem_map.mp hc
    rw [hchar b hb]
    exact UInt8.lt_iff_toNat_lt.mp (h b hb)

/-- A property of the bytes of a text, when it implies that they are ASCII, is one of its
characters. -/
theorem of_all_asBytes {p : UInt8 → Bool} (hp : ∀ b, p b = true → b < 0x80)
    (h : (asBytes text).all p = true) :
    ∀ c ∈ text, c.toNat < 0x80 ∧ p (UInt8.ofNat c.toNat) = true := by
  intro c hc
  have hbytes : ∀ b ∈ String.utf8EncodeChar c, p b = true := fun b hb =>
    List.all_eq_true.mp h b (List.mem_flatMap.mpr ⟨c, hc, hb⟩)
  have hlt := lt_of_utf8EncodeChar fun b hb => hp b (hbytes b hb)
  rw [utf8EncodeChar_of_lt hlt] at hbytes
  exact ⟨hlt, hbytes _ (by simp)⟩

theorem isAsciiDigit_ofNat (h : c.toNat < 0x80) : isAsciiDigit (UInt8.ofNat c.toNat) = c.isDigit :=
  of_ascii (fun c => isAsciiDigit (UInt8.ofNat c.toNat) = c.isDigit) (by decide) h

theorem toNat_lt_of_isDigit (h : c.isDigit = true) : c.toNat < 0x80 := by
  have hle : c.val ≤ '9'.val := of_decide_eq_true (Bool.and_eq_true_iff.mp h).2
  exact lt_of_le_of_lt (UInt32.le_iff_toNat_le.mp hle) (by decide)

theorem isDigits_iff : isDigits text = true ↔ text ≠ [] ∧ ∀ c ∈ text, c.isDigit = true := by
  rw [isDigits, Bool.and_eq_true, Bool.not_eq_true', List.isEmpty_eq_false_iff]
  refine and_congr_right fun _ => ⟨fun h c hc => ?_, fun h => ?_⟩
  · have hp : ∀ b, isAsciiDigit b = true → b < 0x80 := by
      intro b hb
      have hle := of_decide_eq_true (Bool.and_eq_true_iff.mp hb).2
      exact UInt8.lt_of_le_of_lt hle (by decide)
    obtain ⟨hlt, hdigit⟩ := of_all_asBytes hp h c hc
    rwa [isAsciiDigit_ofNat hlt] at hdigit
  · have hlt : ∀ c ∈ text, c.toNat < 0x80 := fun c hc => toNat_lt_of_isDigit (h c hc)
    rw [asBytes_of_ascii hlt, List.all_map, List.all_eq_true]
    intro c hc
    rw [Function.comp, isAsciiDigit_ofNat (hlt c hc), h c hc]

theorem isDigits_toDigits (n : Nat) : isDigits (Nat.toDigits 10 n) = true :=
  isDigits_iff.mpr ⟨Nat.toDigits_ne_nil, fun _ hc => Nat.isDigit_of_mem_toDigits (by decide)
    (by decide) hc⟩

theorem parseDigits_toDigits {w n : Nat} (h : n < 2 ^ w) :
    parseDigits w (Nat.toDigits 10 n) = some n := by
  rw [parseDigits, Nat.ofDigitChars_ten_toDigits]
  exact if_pos h

/-- Decimal text has no leading zero. -/
theorem head?_toDigits {n : Nat} (h : 0 < n) : (Nat.toDigits 10 n).head? ≠ some '0' := by
  induction n using Nat.strongRecOn with
  | ind n ih =>
    by_cases hlt : n < 10
    · rw [Nat.toDigits_of_lt_base hlt]
      have hdigit : ∀ d < 10, 0 < d → [Nat.digitChar d].head? ≠ some '0' := by decide
      exact hdigit n hlt h
    · have hle := Nat.le_of_not_lt hlt
      rw [Nat.toDigits_of_base_le (by decide) hle,
        List.head?_append_of_ne_nil _ Nat.toDigits_ne_nil]
      exact ih (n / 10) (Nat.div_lt_self h (by decide)) (Nat.div_pos hle (by decide))

theorem toDigits_digit (h : c.isDigit = true) :
    c.toNat - '0'.toNat < 10 ∧ Nat.toDigits 10 (c.toNat - '0'.toNat) = [c] :=
  of_ascii (fun c => c.isDigit = true → c.toNat - '0'.toNat < 10 ∧
    Nat.toDigits 10 (c.toNat - '0'.toNat) = [c]) (by decide) (toNat_lt_of_isDigit h) h

/-- Digits without leading zeros are the decimal text of their value. -/
theorem toDigits_ofDigitChars (hne : text ≠ []) (hdigits : ∀ c ∈ text, c.isDigit = true)
    (hlead : text.length = 1 ∨ text.head? ≠ some '0') :
    Nat.toDigits 10 (Nat.ofDigitChars 10 text 0) = text := by
  induction text using List.reverseRecOn with
  | nil => exact absurd rfl hne
  | append_singleton t c ih =>
    obtain ⟨hlt, hc⟩ := toDigits_digit (hdigits c (by simp))
    have hvalue : Nat.ofDigitChars 10 (t ++ [c]) 0 =
        10 * Nat.ofDigitChars 10 t 0 + (c.toNat - '0'.toNat) := by
      rw [Nat.ofDigitChars_append, Nat.ofDigitChars_cons, Nat.ofDigitChars_nil]
    rw [hvalue]
    cases t with
    | nil => rw [Nat.ofDigitChars_nil, Nat.mul_zero, Nat.zero_add, hc, List.nil_append]
    | cons d t =>
      have hzero : (d :: t).head? ≠ some '0' := by simpa using hlead
      have ht := ih (List.cons_ne_nil d t) (fun c hc => hdigits c (List.mem_append_left _ hc))
        (.inr hzero)
      have hpos : 0 < Nat.ofDigitChars 10 (d :: t) 0 := by
        rw [Nat.pos_iff_ne_zero]
        intro h
        rw [h, Nat.toDigits_zero] at ht
        exact hzero (by rw [← ht]; rfl)
      rw [← Nat.toDigits_append_toDigits (by decide) hpos hlt, ht, hc]

theorem strToAsciiLowercase_eq_self (h : ∀ c ∈ text, isAsciiUppercase c = false) :
    strToAsciiLowercase text = text := by
  induction text with
  | nil => rfl
  | cons c text ih =>
    have hc : toAsciiLowercase c = c := by
      have := h c (by simp)
      rw [isAsciiUppercase] at this
      rw [toAsciiLowercase, this]
      rfl
    rw [strToAsciiLowercase, List.map_cons, hc]
    exact congrArg (c :: ·) (ih fun c hc => h c (by simp [hc]))

theorem dropWhile_eq_self {p : Char → Bool} (h : ∀ c ∈ text, p c = false) :
    text.dropWhile p = text := by
  cases text with
  | nil => rfl
  | cons c text => rw [List.dropWhile_cons_of_neg (by simp [h c])]

theorem trim_eq_self (h : ∀ c ∈ text, isWhitespace c = false) : trim text = text := by
  rw [trim, trimMatches, dropWhile_eq_self h, dropWhile_eq_self (by simpa using h),
    List.reverse_reverse]

theorem dropWhile_append_of_all {p : Char → Bool} {left text : Str} (hleft : left.all p = true) :
    (left ++ text).dropWhile p = text.dropWhile p := by
  rw [List.dropWhile_append, List.dropWhile_eq_nil_iff.mpr (List.all_eq_true.mp hleft)]
  rfl

/-- Trimming takes off what stands around a text without trimmed characters. -/
theorem trimMatches_append {p : Char → Bool} {left text right : Str} (hleft : left.all p = true)
    (hright : right.all p = true) (hne : text ≠ []) (htext : ∀ c ∈ text, p c = false) :
    trimMatches p (left ++ text ++ right) = text := by
  have hfront : (left ++ text ++ right).dropWhile p = text ++ right := by
    rw [List.append_assoc, dropWhile_append_of_all hleft, List.dropWhile_append,
      dropWhile_eq_self htext, if_neg (by simpa using hne)]
  have hback : (text ++ right).reverse.dropWhile p = text.reverse := by
    rw [List.reverse_append, dropWhile_append_of_all (by simpa using hright),
      dropWhile_eq_self (by simpa using htext)]
  rw [trimMatches, hfront, hback, List.reverse_reverse]

/-- What trimming takes off. -/
theorem exists_eq_trimMatches (p : Char → Bool) (text : Str) :
    ∃ left right, text = left ++ trimMatches p text ++ right ∧ left.all p = true ∧
      right.all p = true := by
  refine ⟨text.takeWhile p, (((text.dropWhile p).reverse).takeWhile p).reverse, ?_,
    List.all_takeWhile, ?_⟩
  · rw [trimMatches, List.append_assoc, ← List.reverse_append, List.takeWhile_append_dropWhile,
      List.reverse_reverse, List.takeWhile_append_dropWhile]
  · rw [List.all_reverse]
    exact List.all_takeWhile

/-! ## Commas -/

/-- Every character of a text that is split is a separator or stands in one of the pieces. -/
theorem mem_splitOn_or (sep : Char) (hc : c ∈ text) :
    c = sep ∨ ∃ part ∈ text.splitOn sep, c ∈ part := by
  have hjoin : ∀ parts : List Str, c ∈ [sep].intercalate parts → c = sep ∨
      ∃ part ∈ parts, c ∈ part := by
    intro parts
    induction parts with
    | nil => simp
    | cons part parts ih =>
      intro hc
      cases parts with
      | nil =>
        right
        simpa using hc
      | cons next parts =>
        rw [List.intercalate_cons_cons, List.mem_append, List.mem_append, List.mem_singleton] at hc
        rcases hc with (hc | rfl) | hc
        · exact .inr ⟨part, by simp, hc⟩
        · exact .inl rfl
        · rcases ih hc with rfl | ⟨part', hp, hc⟩
          · exact .inl rfl
          · exact .inr ⟨part', by simp [hp], hc⟩
  apply hjoin
  rwa [List.intercalate_splitOn]

/-- A separator splits what comes behind a list that does not hold it, and that list joins the first
piece. -/
theorem splitOn_append_of_notMem {α : Type} [DecidableEq α] {sep : α} {xs : List α} (h : sep ∉ xs)
    (ys : List α) : (xs ++ ys).splitOn sep = (ys.splitOn sep).modifyHead (xs ++ ·) := by
  induction xs with
  | nil =>
    rw [List.nil_append]
    cases ys.splitOn sep <;> rfl
  | cons x xs ih =>
    rw [List.mem_cons, not_or] at h
    rw [List.cons_append, List.splitOn_cons_eq_if_modifyHead, if_neg (by simpa using Ne.symm h.1),
      ih h.2]
    cases ys.splitOn sep <;> rfl

theorem utf8EncodeChar_comma : String.utf8EncodeChar ',' = [0x2C] := by decide

/-- In UTF-8 the comma byte is part of no other character. -/
theorem comma_notMem_utf8EncodeChar {c : Char} (h : c ≠ ',') : 0x2C ∉ String.utf8EncodeChar c := by
  intro hmem
  by_cases hlt : c.toNat < 0x80
  · rw [utf8EncodeChar_of_lt hlt, List.mem_singleton] at hmem
    exact h (of_ascii (fun c => 0x2C = UInt8.ofNat c.toNat → c = ',') (by decide) hlt hmem)
  · exact absurd (le_of_mem_utf8EncodeChar (Nat.le_of_not_lt hlt) _ hmem) (by decide)

theorem splitOn_asBytes (text : Str) :
    (asBytes text).splitOn 0x2C = (text.splitOn ',').map asBytes := by
  induction text with
  | nil => rfl
  | cons c text ih =>
    have hcons : asBytes (c :: text) = String.utf8EncodeChar c ++ asBytes text := List.flatMap_cons
    rw [hcons, List.splitOn_cons_eq_if_modifyHead]
    by_cases hc : c = ','
    · subst hc
      rw [utf8EncodeChar_comma, List.singleton_append, List.splitOn_cons_eq_if_modifyHead, ih]
      rfl
    · rw [splitOn_append_of_notMem (comma_notMem_utf8EncodeChar hc), ih, if_neg (by simpa using hc)]
      cases text.splitOn ',' with
      | nil => rfl
      | cons part parts => simp [asBytes]

/-- Pieces of text between comma bytes are a text. -/
theorem asBytes_intercalate (parts : List Str) :
    asBytes ([','].intercalate parts) = [0x2C].intercalate (parts.map asBytes) := by
  induction parts with
  | nil => rfl
  | cons part parts ih =>
    cases parts with
    | nil => simp [asBytes]
    | cons next parts =>
      rw [List.intercalate_cons_cons, List.map_cons, List.map_cons, List.intercalate_cons_cons,
        ← List.map_cons, ← ih]
      simp [asBytes, utf8EncodeChar_comma]

end Kohaku
