import Kohaku.Keys
import Kohaku.Routing.Hosts

/-!
# Cookies of a request

`cookie_token` of `session.rs` against the pairs that the lines of the `Cookie` header have as
bytes. A line with a byte that is neither visible ASCII nor a tab is skipped as a whole, so a second
pair of the same name can stand in it unseen (`cookie_token_hidden`). The result is exact unless
such a pair stands beside the one token that is read, or is itself the one token of the name
(`cookie_token_exact`).
-/

namespace Kohaku

open Routing

/-! ## The loops -/

/-- One pair of a line; `none` ends the search. -/
def cookiePair (name : Str) (found : Option Str) (pair : Str) : Option (Option Str) :=
  match splitOnce '=' (trimMatches (· = ' ') pair) with
  | none => some found
  | some (key, value) =>
    if key = name then if found.isSome then none else some (some value)
    else some found

/-- One line of the header. -/
def cookieLine (name : Str) (found : Option Str) (line : Bytes) : Option (Option Str) :=
  match toStr line with
  | none => some found
  | some text => (text.splitOn ';').foldlM (cookiePair name) found

/-- The one value of the cookie, if it has the shape of a token. -/
def cookieToken (base64 : Base64.Engine) (headers : HeaderMap) (name : Str) : Option Str := do
  let found ← (headers.getAll "cookie".toList).foldlM (cookieLine name) none
  found.filter (isTokenText base64)

/-! ## At most one value -/

section AtMostOne
variable {α β : Type}

/-- The step adds the values of its input to the one kept so far, and stops at a second one. -/
def Keeps (step : Option β → α → Option (Option β)) (values : α → List β) : Prop :=
  ∀ found a r, step found a = some r ↔ found.toList ++ values a = r.toList

/-- A loop of such steps is one over the whole list. -/
theorem Keeps.foldlM {step : Option β → α → Option (Option β)} {values : α → List β}
    (h : Keeps step values) : ∀ (found : Option β) (xs : List α) (r : Option β),
      xs.foldlM step found = some r ↔ found.toList ++ xs.flatMap values = r.toList := by
  intro found xs r
  induction xs generalizing found with
  | nil => cases found <;> cases r <;> simp
  | cons a xs ih =>
    simp only [List.foldlM_cons, Option.bind_eq_bind, Option.bind_eq_some_iff,
      List.flatMap_cons, ih]
    constructor
    · intro hr
      obtain ⟨next, hnext, hr⟩ := hr
      rw [← List.append_assoc, (h found a next).mp hnext, hr]
    · intro hr
      -- a part of a list of at most one value is one itself
      obtain ⟨next, hnext⟩ : ∃ next : Option β, found.toList ++ values a = next.toList := by
        rw [← List.append_assoc] at hr
        cases hfirst : found.toList ++ values a with
        | nil => exact ⟨none, rfl⟩
        | cons b rest =>
          rw [hfirst] at hr
          cases r with
          | none => cases hr
          | some c =>
            have hnil := (List.cons.inj hr).2
            rw [List.append_eq_nil_iff.mp hnil |>.1]
            exact ⟨some b, rfl⟩
      refine ⟨next, (h found a next).mpr hnext, ?_⟩
      rw [← hnext, List.append_assoc, hr]

end AtMostOne

/-- The pair that a piece of a line is, if it has a `=`. -/
def textPair (piece : Str) : Option (Str × Str) := splitOnce '=' (trimMatches (· = ' ') piece)

/-- The values of the pairs with the name. -/
def valuesOf {α : Type} [DecidableEq α] (name : α) (pairs : List (α × α)) : List α :=
  (pairs.filter fun pair => pair.1 = name).map Prod.snd

theorem keeps_cookiePair (name : Str) :
    Keeps (cookiePair name) fun piece => valuesOf name (textPair piece).toList := by
  intro found piece r
  unfold cookiePair
  dsimp only
  cases hsplit : textPair piece with
  | none =>
    rw [show splitOnce '=' (trimMatches (· = ' ') piece) = none from hsplit]
    cases found <;> cases r <;> simp [valuesOf]
  | some parts =>
    obtain ⟨key, value⟩ := parts
    rw [show splitOnce '=' (trimMatches (· = ' ') piece) = some (key, value) from hsplit]
    by_cases hkey : key = name
    · cases found <;> cases r <;> simp [valuesOf, hkey]
    · cases found <;> cases r <;> simp [valuesOf, hkey]

theorem valuesOf_flatMap {α β : Type} [DecidableEq α] (name : α) (xs : List β)
    (pairs : β → List (α × α)) :
    valuesOf name (xs.flatMap pairs) = xs.flatMap fun x => valuesOf name (pairs x) := by
  rw [valuesOf, List.filter_flatMap, List.map_flatMap]
  rfl

/-- The pairs of a line that is read. -/
def linePairs (line : Bytes) : List (Str × Str) :=
  (toStr line).elim [] fun text => (text.splitOn ';').filterMap textPair

theorem keeps_cookieLine (name : Str) :
    Keeps (cookieLine name) fun line => valuesOf name (linePairs line) := by
  intro found line r
  unfold cookieLine linePairs
  dsimp only
  cases toStr line with
  | none => cases found <;> cases r <;> simp [valuesOf]
  | some text =>
    have hloop := (keeps_cookiePair name).foldlM found (text.splitOn ';') r
    rw [← valuesOf_flatMap, ← List.filterMap_eq_flatMap_toList] at hloop
    exact hloop

/-- The token is the one value of the name in the lines that are read. -/
theorem cookieToken_eq_some {base64 : Base64.Engine} {headers : HeaderMap} {name v : Str} :
    cookieToken base64 headers name = some v ↔
    valuesOf name ((headers.getAll "cookie".toList).flatMap linePairs) = [v] ∧
    isTokenText base64 v = true := by
  have hloop := (keeps_cookieLine name).foldlM none (headers.getAll "cookie".toList) (some v)
  rw [Option.toList_none, List.nil_append, ← valuesOf_flatMap, Option.toList_some] at hloop
  rw [← hloop, cookieToken, Option.bind_eq_bind, Option.bind_eq_some_iff]
  simp only [Option.filter_eq_some_iff]
  constructor
  · intro h
    obtain ⟨found, hfound, rfl, htoken⟩ := h
    exact ⟨hfound, htoken⟩
  · intro h
    exact ⟨some v, h.1, rfl, h.2⟩

/-! ## Pairs as bytes -/

/-- `str::split_once` and `str::trim_matches` on bytes. -/
def bytesOnce (sep : UInt8) : Bytes → Option (Bytes × Bytes)
  | [] => none
  | b :: rest =>
    if b = sep then some ([], rest) else (bytesOnce sep rest).map fun p => (b :: p.1, p.2)

/-- `trim_matches(' ')` on the bytes of a piece. -/
def trimSpaces (bytes : Bytes) : Bytes :=
  ((bytes.dropWhile (· = 0x20)).reverse.dropWhile (· = 0x20)).reverse

/-- The pairs of a line: its pieces between `;`, without the spaces around them, split at their
first `=`. -/
def bytePairs (line : Bytes) : List (Bytes × Bytes) :=
  (line.splitOn 0x3B).filterMap fun piece => bytesOnce 0x3D (trimSpaces piece)

/-- The character of a byte, as `to_str` reads it. -/
def byteChar (b : UInt8) : Char := Char.ofNat b.toNat

theorem byteChar_injective : Function.Injective byteChar := by
  intro a b h
  have hvalue : ∀ n < 256, (Char.ofNat n).toNat = n := by decide +kernel
  have htoNat := congrArg Char.toNat h
  rw [byteChar, byteChar, hvalue _ a.toNat_lt, hvalue _ b.toNat_lt] at htoNat
  exact UInt8.toNat_inj.mp htoNat

theorem splitOn_byteChar (sep : UInt8) (bytes : Bytes) :
    (bytes.map byteChar).splitOn (byteChar sep) = (bytes.splitOn sep).map (List.map byteChar) := by
  induction bytes with
  | nil => simp
  | cons b bytes ih =>
    rw [List.map_cons, List.splitOn_cons_eq_if_modifyHead, List.splitOn_cons_eq_if_modifyHead, ih]
    by_cases hb : b = sep
    · simp [hb]
    · have hne : byteChar b ≠ byteChar sep := fun h => hb (byteChar_injective h)
      rw [if_neg (by simpa using hne), if_neg (by simpa using hb)]
      cases bytes.splitOn sep <;> simp

theorem dropWhile_byteChar (sep : UInt8) (bytes : Bytes) :
    (bytes.map byteChar).dropWhile (· = byteChar sep) =
    (bytes.dropWhile (· = sep)).map byteChar := by
  rw [List.dropWhile_map]
  congr 2
  funext b
  exact decide_eq_decide.mpr byteChar_injective.eq_iff

theorem trimMatches_byteChar (bytes : Bytes) :
    trimMatches (· = ' ') (bytes.map byteChar) = (trimSpaces bytes).map byteChar := by
  have hspace : ' ' = byteChar 0x20 := by decide
  rw [trimMatches, trimSpaces, hspace, dropWhile_byteChar, ← List.map_reverse, dropWhile_byteChar,
    List.map_reverse]

theorem splitOnce_byteChar (sep : UInt8) (bytes : Bytes) :
    splitOnce (byteChar sep) (bytes.map byteChar) =
    (bytesOnce sep bytes).map fun p => (p.1.map byteChar, p.2.map byteChar) := by
  induction bytes with
  | nil => rfl
  | cons b bytes ih =>
    rw [List.map_cons, splitOnce, bytesOnce, ih]
    by_cases hb : b = sep
    · simp [hb]
    · have hne : byteChar b ≠ byteChar sep := fun h => hb (byteChar_injective h)
      rw [if_neg hne, if_neg hb, Option.map_map, Option.map_map]
      rfl

theorem linePairs_of_toStr {line : Bytes} {text : Str} (h : toStr line = some text) :
    linePairs line = (bytePairs line).map fun p => (p.1.map byteChar, p.2.map byteChar) := by
  have htext : line.map byteChar = text := Option.some.inj (Option.ite_none_right_eq_some.mp h).2
  have hsemicolon : ';' = byteChar 0x3B := by decide
  have hequals : '=' = byteChar 0x3D := by decide
  rw [linePairs, h, Option.elim_some, ← htext, hsemicolon, splitOn_byteChar, List.filterMap_map,
    bytePairs, List.map_filterMap]
  congr 1
  funext piece
  rw [Function.comp, textPair, trimMatches_byteChar, hequals, splitOnce_byteChar]

/-! ## Bytes of a pair -/

theorem mem_of_mem_splitOn {sep b : UInt8} {line piece : Bytes} (h : piece ∈ line.splitOn sep)
    (hb : b ∈ piece) : b ∈ line := by
  induction line generalizing piece with
  | nil =>
    rw [List.splitOn_nil, List.mem_singleton] at h
    rwa [h] at hb
  | cons c line ih =>
    rw [List.splitOn_cons_eq_if_modifyHead] at h
    split at h
    · obtain rfl | h := List.mem_cons.mp h
      · cases hb
      · exact List.mem_cons_of_mem _ (ih h hb)
    · cases hsplit : line.splitOn sep with
      | nil => exact absurd hsplit (List.splitOn_ne_nil _ _)
      | cons first pieces =>
        rw [hsplit] at h ih
        obtain rfl | h := List.mem_cons.mp h
        · obtain rfl | hb := List.mem_cons.mp hb
          · exact List.mem_cons_self ..
          · exact List.mem_cons_of_mem _ (ih (List.mem_cons_self ..) hb)
        · exact List.mem_cons_of_mem _ (ih (List.mem_cons_of_mem _ h) hb)

theorem mem_of_mem_trimSpaces {b : UInt8} {bytes : Bytes} (h : b ∈ trimSpaces bytes) :
    b ∈ bytes := by
  rw [trimSpaces, List.mem_reverse] at h
  exact (List.dropWhile_sublist _).subset
    (List.mem_reverse.mp ((List.dropWhile_sublist _).subset h))

theorem eq_of_bytesOnce {sep : UInt8} {bytes key value : Bytes}
    (h : bytesOnce sep bytes = some (key, value)) : bytes = key ++ sep :: value := by
  induction bytes generalizing key with
  | nil => cases h
  | cons b bytes ih =>
    rw [bytesOnce] at h
    split at h
    · rename_i hb
      cases h
      rw [hb]
      rfl
    · obtain ⟨⟨key', value'⟩, hrest, heq⟩ := Option.map_eq_some_iff.mp h
      cases heq
      rw [ih hrest]
      rfl

/-- The bytes of a pair are those of its line. -/
theorem mem_of_mem_bytePairs {line key value : Bytes} (h : (key, value) ∈ bytePairs line) :
    ∀ b ∈ key ++ value, b ∈ line := by
  intro b hb
  obtain ⟨piece, hpiece, hsplit⟩ := List.mem_filterMap.mp h
  have hmem : b ∈ trimSpaces piece := by
    rw [eq_of_bytesOnce hsplit]
    simp only [List.mem_append, List.mem_cons] at hb ⊢
    obtain hb | hb := hb
    · exact .inl hb
    · exact .inr (.inr hb)
  exact mem_of_mem_splitOn hpiece (mem_of_mem_trimSpaces hmem)

theorem lt_of_toStr {line : Bytes} {text : Str} (h : toStr line = some text) :
    ∀ b ∈ line, b < 0x80 := by
  have hall := (Option.ite_none_right_eq_some.mp h).1
  rw [List.all_eq_true] at hall
  intro b hb
  have hvisible := hall b hb
  simp only [isVisibleAscii, Bool.or_eq_true, Bool.and_eq_true, decide_eq_true_eq] at hvisible
  obtain ⟨-, hlt⟩ | rfl := hvisible
  · exact UInt8.lt_trans hlt (by decide)
  · decide

/-- In a line that is read the values are those of the bytes. -/
theorem valuesOf_linePairs {line : Bytes} {text : Str} (h : toStr line = some text) (name : Str) :
    (valuesOf name (linePairs line)).map asBytes = valuesOf (asBytes name) (bytePairs line) := by
  have hpair : ∀ p ∈ bytePairs line, asBytes (p.1.map byteChar) = p.1 ∧
      asBytes (p.2.map byteChar) = p.2 := by
    intro p hp
    have hlt : ∀ b ∈ p.1 ++ p.2, b < 0x80 :=
      fun b hb => lt_of_toStr h b (mem_of_mem_bytePairs hp b hb)
    exact ⟨asBytes_map_ofNat fun b hb => hlt b (List.mem_append_left _ hb),
      asBytes_map_ofNat fun b hb => hlt b (List.mem_append_right _ hb)⟩
  rw [linePairs_of_toStr h, valuesOf, valuesOf, List.filter_map, List.map_map, List.map_map]
  have hfilter : (bytePairs line).filter ((fun pair : Str × Str => decide (pair.1 = name)) ∘
      fun p => (p.1.map byteChar, p.2.map byteChar)) = (bytePairs line).filter fun p =>
        p.1 = asBytes name := by
    apply List.filter_congr
    intro p hp
    refine decide_eq_decide.mpr ⟨?_, ?_⟩
    · intro hname
      rw [← hname]
      exact (hpair p hp).1.symm
    · intro hname
      exact asBytes_injective ((hpair p hp).1.trans hname)
  rw [hfilter]
  apply List.map_congr_left
  intro p hp
  exact (hpair p (List.mem_of_mem_filter hp)).2

/-! ## The result -/

/-- The bytes of the header's lines as pairs. -/
def cookiePairs (headers : HeaderMap) : List (Bytes × Bytes) :=
  (headers.getAll "cookie".toList).flatMap bytePairs

/-- The pairs in the lines that are read. -/
def readPairs (headers : HeaderMap) : List (Bytes × Bytes) :=
  ((headers.getAll "cookie".toList).filter fun line => (toStr line).isSome).flatMap bytePairs

/-- The pairs in the lines that are skipped. -/
def hiddenPairs (headers : HeaderMap) : List (Bytes × Bytes) :=
  ((headers.getAll "cookie".toList).filter fun line => !(toStr line).isSome).flatMap bytePairs

/-- A hidden pair with the name changes the result: it stands beside the one pair that is read, a
token, or it is itself the one pair, and a token. -/
def Deceives (base64 : Base64.Engine) (headers : HeaderMap) (name : Str) : Prop :=
  ∃ v, isTokenText base64 v = true ∧
    (valuesOf (asBytes name) (readPairs headers) = [asBytes v] ∧
        valuesOf (asBytes name) (hiddenPairs headers) ≠ [] ∨
      valuesOf (asBytes name) (readPairs headers) = [] ∧
        valuesOf (asBytes name) (hiddenPairs headers) = [asBytes v])

theorem flatMap_linePairs (lines : List Bytes) :
    lines.flatMap linePairs = (lines.filter fun line => (toStr line).isSome).flatMap linePairs := by
  induction lines with
  | nil => rfl
  | cons line lines ih =>
    cases hstr : toStr line with
    | none =>
      have hnone : linePairs line = [] := by
        rw [linePairs, hstr]
        rfl
      rw [List.flatMap_cons, hnone, List.nil_append, ih, List.filter_cons_of_neg (by simp [hstr])]
    | some text =>
      rw [List.flatMap_cons, ih, List.filter_cons_of_pos (by simp [hstr]), List.flatMap_cons]

theorem valuesOf_lines (headers : HeaderMap) (name : Str) :
    (valuesOf name ((headers.getAll "cookie".toList).flatMap linePairs)).map asBytes =
      valuesOf (asBytes name) (readPairs headers) := by
  rw [flatMap_linePairs, readPairs, valuesOf_flatMap, valuesOf_flatMap, List.map_flatMap]
  apply List.flatMap_congr
  intro line hline
  obtain ⟨text, htext⟩ := Option.isSome_iff_exists.mp (List.mem_filter.mp hline).2
  exact valuesOf_linePairs htext name

/-- The code gives the one value that is read. -/
theorem cookieToken_eq_some_iff {base64 : Base64.Engine} {headers : HeaderMap} {name v : Str} :
    cookieToken base64 headers name = some v ↔
    valuesOf (asBytes name) (readPairs headers) = [asBytes v] ∧ isTokenText base64 v = true := by
  rw [cookieToken_eq_some, ← valuesOf_lines, ← List.map_singleton]
  exact and_congr_left fun _ =>
    (List.map_injective_iff.mpr fun _ _ => asBytes_injective).eq_iff.symm

/-- The pairs of the header are those that are read and those that are hidden. -/
theorem valuesOf_cookiePairs (headers : HeaderMap) (name : Bytes) :
    (valuesOf name (readPairs headers) ++ valuesOf name (hiddenPairs headers)).Perm
      (valuesOf name (cookiePairs headers)) := by
  have hpairs : (readPairs headers ++ hiddenPairs headers).Perm (cookiePairs headers) := by
    rw [readPairs, hiddenPairs, ← List.flatMap_append]
    exact (List.filter_append_perm _ _).flatMap_right _
  simp only [valuesOf, ← List.map_append, ← List.filter_append]
  exact (hpairs.filter _).map _

theorem valuesOf_eq_singleton {headers : HeaderMap} {name value : Bytes} :
    valuesOf name (cookiePairs headers) = [value] ↔
      valuesOf name (readPairs headers) = [] ∧ valuesOf name (hiddenPairs headers) = [value] ∨
        valuesOf name (readPairs headers) = [value] ∧ valuesOf name (hiddenPairs headers) = [] := by
  rw [← List.append_eq_singleton_iff]
  have hperm := valuesOf_cookiePairs headers name
  constructor
  · intro h
    rwa [h, List.perm_singleton] at hperm
  · intro h
    rwa [h, List.singleton_perm, eq_comm] at hperm

/-- The result is the value of the one pair with the name, if it has the shape of a token, and two
pairs give nothing; exactly on the headers in which no hidden pair deceives the code. -/
theorem cookie_token_exact (base64 : Base64.Engine) (headers : HeaderMap) (name : Str) :
    ((∀ v, cookieToken base64 headers name = some v ↔
        valuesOf (asBytes name) (cookiePairs headers) = [asBytes v] ∧ isTokenText base64 v = true) ∧
      (2 ≤ (valuesOf (asBytes name) (cookiePairs headers)).length →
        cookieToken base64 headers name = none)) ↔
      ¬Deceives base64 headers name := by
  constructor
  · rintro ⟨hiff, -⟩ ⟨v, htoken, ⟨hread, hhidden⟩ | ⟨hread, hhidden⟩⟩
    · have hone := ((hiff v).mp (cookieToken_eq_some_iff.mpr ⟨hread, htoken⟩)).1
      obtain ⟨hnil, -⟩ | ⟨-, hnil⟩ := valuesOf_eq_singleton.mp hone
      · rw [hread] at hnil
        cases hnil
      · exact hhidden hnil
    · have hone := valuesOf_eq_singleton.mpr (.inl ⟨hread, hhidden⟩)
      have hvalue := (cookieToken_eq_some_iff.mp ((hiff v).mpr ⟨hone, htoken⟩)).1
      rw [hread] at hvalue
      cases hvalue
  · intro hdeceives
    have hiff : ∀ v, cookieToken base64 headers name = some v ↔
        valuesOf (asBytes name) (cookiePairs headers) = [asBytes v] ∧
        isTokenText base64 v = true := by
      intro v
      rw [cookieToken_eq_some_iff, valuesOf_eq_singleton]
      constructor
      · rintro ⟨hread, htoken⟩
        refine ⟨.inr ⟨hread, ?_⟩, htoken⟩
        by_contra hhidden
        exact hdeceives ⟨v, htoken, .inl ⟨hread, hhidden⟩⟩
      · rintro ⟨hnone | ⟨hread, -⟩, htoken⟩
        · exact absurd ⟨v, htoken, .inr hnone⟩ hdeceives
        · exact ⟨hread, htoken⟩
    refine ⟨hiff, ?_⟩
    intro htwo
    cases htoken : cookieToken base64 headers name with
    | none => rfl
    | some v =>
      rw [((hiff v).mp htoken).1, List.length_singleton] at htwo
      exact absurd htwo (by decide)

namespace RepeatedCookie

/-- `SESSION_COOKIE`. -/
def sessionCookie : Str := "__Host-kohaku_session".toList

/-- A text that has the shape of a token. -/
def token : Str := List.replicate 43 'A'

/-- A `Cookie` line with that token. -/
def line : Bytes := asBytes (sessionCookie ++ '=' :: token)

/-- A second session cookie, next to a pair with the byte `0xE9`. -/
def skippedLine : Bytes := asBytes (sessionCookie ++ "=forged; y=".toList) ++ [0xE9]

end RepeatedCookie

open RepeatedCookie in
theorem cookie_token_exact_one : valuesOf (asBytes sessionCookie)
    (cookiePairs [("cookie".toList, asBytes "x=1".toList), ("cookie".toList, line)]) =
    [asBytes token] := by
  have htoken : cookieToken Base64.urlSafeNoPad
      [("cookie".toList, asBytes "x=1".toList), ("cookie".toList, line)] sessionCookie =
      some token := by decide
  have hhidden : hiddenPairs [("cookie".toList, asBytes "x=1".toList), ("cookie".toList, line)] =
      [] := by
    decide
  refine ((((cookie_token_exact Base64.urlSafeNoPad _ _).mpr ?_).1 token).mp htoken).1
  rintro ⟨v, -, ⟨-, hne⟩ | ⟨-, heq⟩⟩
  · rw [hhidden] at hne
    exact hne rfl
  · rw [hhidden] at heq
    cases heq

open RepeatedCookie in
/-- A second pair with the name in a line that is skipped does not count. -/
theorem cookie_token_hidden :
    cookieToken Base64.urlSafeNoPad [("cookie".toList, line), ("cookie".toList, skippedLine)]
      sessionCookie = some token ∧
      valuesOf (asBytes sessionCookie)
        (cookiePairs [("cookie".toList, line), ("cookie".toList, skippedLine)]) =
        [asBytes token, asBytes "forged".toList] := by
  constructor
  · decide
  · decide

end Kohaku
