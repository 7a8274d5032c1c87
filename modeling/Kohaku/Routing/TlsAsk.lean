import Kohaku.Routing.Agree
import Kohaku.Routing.HostMatch

/-!
# The query of the TLS ask

`single_domain` against the grammar of a query: one `domain` pair, escapes of two hexadecimal
digits, UTF-8, not empty. The number parser behind the escapes takes `%+5` too, as the byte 5
(`single_domain_signed`). The decoding is exact on all queries but those whose one `domain` value is
taken with such an escape in it (`single_domain_exact`).
-/

namespace Kohaku.Routing

/-! ## Pairs -/

/-- The pair has the name `domain`. -/
def isDomainPair (pair : Str) : Bool := (splitPair pair).1 = "domain".toList

/-- Name and value of a pair are split at its first `=`; without one the value is empty. -/
theorem splitPair_eq_iff {pair name value : Str} : splitPair pair = (name, value) ↔
    '=' ∉ name ∧ (pair = name ++ '=' :: value ∨ pair = name ∧ value = []) := by
  have htake : ∀ {name rest : Str}, '=' ∉ name → (name ++ '=' :: rest).takeWhile (· ≠ '=') = name ∧
      (name ++ '=' :: rest).dropWhile (· ≠ '=') = '=' :: rest := by
    intro name rest hname
    have hne : ∀ c ∈ name, (decide (c ≠ '=')) = true :=
      fun c hc => decide_eq_true fun heq => hname (heq ▸ hc)
    rw [List.takeWhile_append_of_pos hne, List.dropWhile_append_of_pos hne]
    simp
  have hself : ∀ {pair : Str}, '=' ∉ pair → pair.takeWhile (· ≠ '=') = pair ∧
      pair.dropWhile (· ≠ '=') = [] := by
    intro pair hpair
    have hne : ∀ c ∈ pair, (decide (c ≠ '=')) = true :=
      fun c hc => decide_eq_true fun heq => hpair (heq ▸ hc)
    exact ⟨List.takeWhile_eq_self_iff.mpr hne, List.dropWhile_eq_nil_iff.mpr hne⟩
  rw [splitPair, Prod.mk.injEq]
  constructor
  · intro h
    obtain ⟨rfl, rfl⟩ := h
    by_cases hmem : '=' ∈ pair
    · obtain ⟨name, rest, rfl, hname⟩ := List.eq_append_cons_of_mem hmem
      rw [(htake hname).1, (htake hname).2]
      exact ⟨hname, .inl rfl⟩
    · rw [(hself hmem).1, (hself hmem).2]
      exact ⟨hmem, .inr ⟨rfl, rfl⟩⟩
  · intro h
    obtain ⟨hname, rfl | ⟨rfl, rfl⟩⟩ := h
    · rw [(htake hname).1, (htake hname).2]
      exact ⟨rfl, rfl⟩
    · rw [(hself hname).1, (hself hname).2]
      exact ⟨rfl, rfl⟩

theorem findDomain_cons (found : Option Str) (pair : Str) (pairs : List Str) :
    findDomain found (pair :: pairs) =
      if isDomainPair pair then if found.isSome then none
      else findDomain (some (splitPair pair).2) pairs
      else findDomain found pairs := by
  change (if (splitPair pair).1 ≠ "domain".toList then _ else _) = _
  rw [ite_not]
  exact ite_congr (decide_eq_true_eq (p := (splitPair pair).1 = _)).symm (fun _ => rfl) fun _ => rfl

/-- The loop keeps the values of the `domain` pairs, as long as there is at most one. -/
theorem findDomain_eq_some {found : Option Str} {pairs : List Str} {r : Option Str} :
    findDomain found pairs = some r ↔
      found.toList ++ (pairs.filter isDomainPair).map (fun pair => (splitPair pair).2) =
        r.toList := by
  induction pairs generalizing found with
  | nil =>
    rw [findDomain, Option.some.injEq, List.filter_nil, List.map_nil, List.append_nil]
    cases found <;> cases r <;> simp
  | cons pair pairs ih =>
    rw [findDomain_cons]
    cases hpair : isDomainPair pair with
    | false => rw [if_neg Bool.false_ne_true, ih, List.filter_cons_of_neg (by simp [hpair])]
    | true =>
      rw [if_pos rfl, List.filter_cons_of_pos hpair, List.map_cons]
      cases found with
      | none => exact ih
      | some first => cases r <;> simp

/-! ## Escapes -/

/-- `0`–`9`, `a`–`f` and `A`–`F`. -/
def isHexDigit (b : UInt8) : Bool :=
  (0x30 ≤ b && b ≤ 0x39) || (0x61 ≤ b && b ≤ 0x66) || (0x41 ≤ b && b ≤ 0x46)

/-- The byte of two hexadecimal digits. -/
def hexByte (x y : UInt8) : UInt8 := 16 * (hexDigit x).getD 0 + (hexDigit y).getD 0

/-- Each `%` is followed by a byte that `first` takes and a hexadecimal digit. -/
def Escapes (first : UInt8 → Bool) (value : Bytes) : Prop :=
  ∀ before after, value = before ++ 0x25 :: after →
    ∃ x y rest, after = x :: y :: rest ∧ first x = true ∧ isHexDigit y = true

/-- Each `%` is followed by two hexadecimal digits. -/
def EscapesOk (value : Bytes) : Prop := Escapes isHexDigit value

/-- What `u8::from_str_radix` takes as the first of two characters: a digit or the sign. -/
def isFirst (b : UInt8) : Bool := isHexDigit b || b = 0x2B

/-- Each `%` is followed by two characters that `u8::from_str_radix` takes. -/
def EscapesTaken (value : Bytes) : Prop := Escapes isFirst value

/-- Each `%XY` as its byte, and the other bytes as they are. -/
def unescape : Bytes → Bytes
  | [] => []
  | b :: rest =>
    if b = 0x25 then
      match rest with
      | x :: y :: rest => hexByte x y :: unescape rest
      | rest => b :: rest
    else b :: unescape rest

theorem unescape_percent (x y : UInt8) (rest : Bytes) :
    unescape (0x25 :: x :: y :: rest) = hexByte x y :: unescape rest := by
  rw [unescape, if_pos rfl]

theorem unescape_cons {b : UInt8} (hb : b ≠ 0x25) (value : Bytes) :
    unescape (b :: value) = b :: unescape value := by
  rw [unescape.eq_def]
  exact if_neg hb

/-- Some `%` is followed by `+` and a hexadecimal digit. -/
def Signed (value : Bytes) : Prop :=
  ∃ before y after, value = before ++ 0x25 :: 0x2B :: y :: after ∧ isHexDigit y = true

theorem hexDigit_isSome (b : UInt8) : (hexDigit b).isSome = isHexDigit b := by
  unfold hexDigit isHexDigit
  split
  · simp [*]
  · split
    · simp [*]
    · split <;> simp [*]

theorem hexDigit_eq_some {b v : UInt8} :
    hexDigit b = some v ↔ isHexDigit b = true ∧ v = (hexDigit b).getD 0 := by
  rw [← hexDigit_isSome]
  cases hexDigit b with
  | none => simp
  | some w => simpa using eq_comm

theorem lt_of_isHexDigit {b : UInt8} (h : isHexDigit b = true) : b < 0x80 := by
  simp only [isHexDigit, Bool.or_eq_true, Bool.and_eq_true, decide_eq_true_eq] at h
  obtain (⟨-, h⟩ | ⟨-, h⟩) | ⟨-, h⟩ := h
  · exact UInt8.lt_of_le_of_lt h (by decide)
  · exact UInt8.lt_of_le_of_lt h (by decide)
  · exact UInt8.lt_of_le_of_lt h (by decide)

/-- Two ASCII bytes are a text. -/
theorem fromUtf8_pair {x y : UInt8} (hx : x < 0x80) (hy : y < 0x80) :
    (fromUtf8 [x, y]).isSome = true := by
  have hbytes : asBytes ([x, y].map fun b => Char.ofNat b.toNat) = [x, y] :=
    asBytes_map_ofNat (by simpa using ⟨hx, hy⟩)
  rw [← hbytes, fromUtf8_asBytes]
  rfl

theorem lt_of_isFirst {b : UInt8} (h : isFirst b = true) : b < 0x80 := by
  rw [isFirst, Bool.or_eq_true, decide_eq_true_eq] at h
  obtain h | rfl := h
  · exact lt_of_isHexDigit h
  · decide

theorem fromStrRadix_eq_some {x y v : UInt8} :
    fromStrRadix x y = some v ↔ isFirst x = true ∧ isHexDigit y = true ∧ v = hexByte x y := by
  by_cases hplus : x = 0x2B
  · -- the sign is no digit, so it adds nothing to the byte
    have hbyte : hexByte 0x2B y = (hexDigit y).getD 0 := by
      have hnone : hexDigit 0x2B = none := by decide
      rw [hexByte, hnone, Option.getD_none, UInt8.mul_zero, UInt8.zero_add]
    have hfirst : isFirst 0x2B = true := by decide
    rw [hplus, fromStrRadix, if_pos rfl, hbyte, hexDigit_eq_some]
    exact (and_iff_right hfirst).symm
  · have hfirst : isFirst x = isHexDigit x := by simp [isFirst, hplus]
    rw [fromStrRadix, if_neg hplus, hfirst]
    simp only [Option.bind_eq_bind, Option.bind_eq_some_iff, Option.pure_def, Option.some.injEq]
    constructor
    · rintro ⟨hi, hhi, lo, hlo, rfl⟩
      obtain ⟨hx, rfl⟩ := hexDigit_eq_some.mp hhi
      obtain ⟨hy, rfl⟩ := hexDigit_eq_some.mp hlo
      exact ⟨hx, hy, rfl⟩
    · rintro ⟨hx, hy, rfl⟩
      exact ⟨_, hexDigit_eq_some.mpr ⟨hx, rfl⟩, _, hexDigit_eq_some.mpr ⟨hy, rfl⟩, rfl⟩

theorem ne_percent_of_isFirst {b : UInt8} (h : isFirst b = true) : b ≠ 0x25 := by
  intro heq
  rw [heq] at h
  exact absurd h (by decide)

theorem isFirst_of_isHexDigit {b : UInt8} (h : isHexDigit b = true) : isFirst b = true := by
  rw [isFirst, h, Bool.true_or]

theorem escapes_nil {first : UInt8 → Bool} : Escapes first [] :=
  fun before after h => by cases before <;> cases h

theorem escapes_cons {first : UInt8 → Bool} {b : UInt8} {value : Bytes} (hb : b ≠ 0x25) :
    Escapes first (b :: value) ↔ Escapes first value := by
  constructor
  · intro h before after hvalue
    exact h (b :: before) after (congrArg (b :: ·) hvalue)
  · intro h before after hvalue
    cases before with
    | nil => exact absurd (List.cons.inj hvalue).1 hb
    | cons c before => exact h before after (List.cons.inj hvalue).2

theorem escapesTaken_percent {value : Bytes} : EscapesTaken (0x25 :: value) ↔
    ∃ x y rest, value = x :: y :: rest ∧ isFirst x = true ∧ isHexDigit y = true ∧
    EscapesTaken rest := by
  constructor
  · intro h
    obtain ⟨x, y, rest, rfl, hx, hy⟩ := h [] value rfl
    refine ⟨x, y, rest, rfl, hx, hy, ?_⟩
    intro before after hrest
    exact h (0x25 :: x :: y :: before) after (by rw [hrest]; rfl)
  · intro h
    obtain ⟨x, y, rest, rfl, hx, hy, hrest⟩ := h
    intro before after hvalue
    cases before with
    | nil => exact ⟨x, y, rest, (List.cons.inj hvalue).2.symm, hx, hy⟩
    | cons c before =>
      -- the two characters are no `%`, so the escape stands in the rest
      have hxy : EscapesTaken (x :: y :: rest) := (escapes_cons (ne_percent_of_isFirst hx)).mpr
        ((escapes_cons (ne_percent_of_isFirst (isFirst_of_isHexDigit hy))).mpr hrest)
      exact hxy before after (List.cons.inj hvalue).2

/-- The grammar's escapes are those that are taken and have no sign. -/
theorem escapesOk_iff {value : Bytes} : EscapesOk value ↔ EscapesTaken value ∧ ¬Signed value := by
  constructor
  · intro h
    refine ⟨?_, ?_⟩
    · intro before after hvalue
      obtain ⟨x, y, rest, hafter, hx, hy⟩ := h before after hvalue
      exact ⟨x, y, rest, hafter, isFirst_of_isHexDigit hx, hy⟩
    · rintro ⟨before, y, after, hvalue, -⟩
      obtain ⟨x, z, rest, heq, hx, -⟩ := h _ _ hvalue
      cases heq
      exact absurd hx (by decide)
  · rintro ⟨htaken, hsigned⟩ before after hvalue
    obtain ⟨x, y, rest, rfl, hx, hy⟩ := htaken before after hvalue
    rw [isFirst, Bool.or_eq_true, decide_eq_true_eq] at hx
    obtain hx | rfl := hx
    · exact ⟨x, y, rest, rfl, hx, hy⟩
    · exact absurd ⟨before, y, rest, hvalue, hy⟩ hsigned

/-- The loop takes the escapes that the number parser takes, and computes the bytes of the
grammar. -/
theorem percentDecodeBytes_eq_some {value out : Bytes} :
    percentDecodeBytes value = some out ↔ EscapesTaken value ∧ out = unescape value := by
  fun_induction percentDecodeBytes value generalizing out with
  | case1 =>
    rw [Option.some.injEq, unescape, eq_comm]
    exact (and_iff_right escapes_nil).symm
  | case2 x y rest ih =>
    simp only [Option.bind_eq_bind, Option.bind_eq_some_iff, Option.pure_def, Option.some.injEq, ih,
      fromStrRadix_eq_some]
    constructor
    · intro hout
      obtain ⟨text, htext, v, ⟨hx, hy, rfl⟩, tail, ⟨hok, rfl⟩, rfl⟩ := hout
      exact ⟨escapesTaken_percent.mpr ⟨x, y, rest, rfl, hx, hy, hok⟩,
        (unescape_percent x y rest).symm⟩
    · intro hout
      obtain ⟨hok, rfl⟩ := hout
      obtain ⟨_, _, _, heq, hx, hy, hok⟩ := escapesTaken_percent.mp hok
      cases heq
      obtain ⟨text, htext⟩ :=
        Option.isSome_iff_exists.mp (fromUtf8_pair (lt_of_isFirst hx) (lt_of_isHexDigit hy))
      exact ⟨text, htext, hexByte x y, ⟨hx, hy, rfl⟩, _, ⟨hok, rfl⟩,
        (unescape_percent x y rest).symm⟩
  | case3 rest hrest =>
    constructor
    · intro hout
      cases hout
    · intro hout
      obtain ⟨x, y, tail, rfl, -⟩ := escapesTaken_percent.mp hout.1
      exact absurd rfl (hrest x y tail)
  | case4 b rest hb ih =>
    simp only [Option.bind_eq_bind, Option.bind_eq_some_iff, Option.pure_def, Option.some.injEq, ih,
      unescape_cons hb]
    rw [EscapesTaken, EscapesTaken, escapes_cons hb]
    constructor
    · intro hout
      obtain ⟨tail, ⟨hok, rfl⟩, rfl⟩ := hout
      exact ⟨hok, rfl⟩
    · intro hout
      exact ⟨_, ⟨hout.1, rfl⟩, hout.2.symm⟩

theorem unescape_ne_nil {b : UInt8} {value : Bytes} : unescape (b :: value) ≠ [] := by
  rw [unescape.eq_def]
  dsimp only
  split
  · split
    · exact List.cons_ne_nil _ _
    · exact List.cons_ne_nil _ _
  · exact List.cons_ne_nil _ _

/-! ## The query -/

theorem percentDecode_eq_some {value d : Str} : percentDecode value = some d ↔
    EscapesTaken (asBytes value) ∧ asBytes d = unescape (asBytes value) := by
  rw [percentDecode, Option.bind_eq_bind, Option.bind_eq_some_iff]
  constructor
  · intro hd
    obtain ⟨out, hout, hd⟩ := hd
    obtain ⟨hok, rfl⟩ := percentDecodeBytes_eq_some.mp hout
    exact ⟨hok, (asBytes_of_fromUtf8 hd).symm⟩
  · intro hd
    refine ⟨_, percentDecodeBytes_eq_some.mpr ⟨hd.1, rfl⟩, ?_⟩
    rw [← hd.2, fromUtf8_asBytes]

/-- The query asks for the domain: one pair has the name, in its value each `%` starts an escape of
two hexadecimal digits, and with the escapes replaced it is the UTF-8 of the domain, which is not
empty. -/
def Asks (query domain : Str) : Prop :=
  ∃ pair, (query.splitOn '&').filter isDomainPair = [pair] ∧
    EscapesOk (asBytes (splitPair pair).2) ∧
    asBytes domain = unescape (asBytes (splitPair pair).2) ∧ domain ≠ []

theorem singleDomain_eq_some {query d : Str} : singleDomain query = some d ↔
    ∃ pair, (query.splitOn '&').filter isDomainPair = [pair] ∧
    percentDecode (splitPair pair).2 = some d ∧ d ≠ [] := by
  simp only [singleDomain, Option.bind_eq_bind, Option.bind_eq_some_iff]
  constructor
  · intro h
    obtain ⟨found, hfound, value, rfl, decoded, hdecoded, hd⟩ := h
    rw [findDomain_eq_some, Option.toList_none, List.nil_append, Option.toList_some,
      List.map_eq_singleton_iff] at hfound
    obtain ⟨pair, hpair, rfl⟩ := hfound
    split at hd
    · cases hd
    · rename_i hne
      cases hd
      exact ⟨pair, hpair, hdecoded, fun hnil => hne (List.isEmpty_iff.mpr hnil)⟩
  · intro h
    obtain ⟨pair, hpair, hdecoded, hne⟩ := h
    refine ⟨some (splitPair pair).2, ?_, _, rfl, d, hdecoded, ?_⟩
    · rw [findDomain_eq_some, Option.toList_none, List.nil_append, hpair]
      rfl
    · rw [if_neg fun hnil => hne (List.isEmpty_iff.mp hnil)]

/-- The query has one `domain` pair, its escapes are all taken, one of them has a sign, and the
bytes are UTF-8. -/
def Misread (query : Str) : Prop :=
  ∃ pair, (query.splitOn '&').filter isDomainPair = [pair] ∧
    EscapesTaken (asBytes (splitPair pair).2) ∧
    Signed (asBytes (splitPair pair).2) ∧ ∃ d, asBytes d = unescape (asBytes (splitPair pair).2)

/-- Such a query gives a domain that it does not ask for. -/
theorem Misread.singleDomain_eq_some {query : Str} (h : Misread query) :
    ∃ d, singleDomain query = some d ∧ ¬Asks query d := by
  obtain ⟨pair, hpair, htaken, hsigned, d, hd⟩ := h
  have hne : d ≠ [] := by
    rintro rfl
    obtain ⟨before, y, after, hvalue, -⟩ := hsigned
    rw [hvalue] at hd
    cases before with
    | nil => exact unescape_ne_nil hd.symm
    | cons b before => exact unescape_ne_nil hd.symm
  refine ⟨d, Routing.singleDomain_eq_some.mpr
    ⟨pair, hpair, percentDecode_eq_some.mpr ⟨htaken, hd⟩, hne⟩, ?_⟩
  rintro ⟨pair', hpair', hok, -⟩
  obtain rfl := List.singleton_inj.mp (hpair.symm.trans hpair')
  exact (escapesOk_iff.mp hok).2 hsigned

/-- The result is exactly the domain that the query asks for, on all queries but those that are
misread. -/
theorem single_domain_exact (query : Str) :
    ((∀ d, singleDomain query = some d ↔ Asks query d) ∧
      ((∀ d, ¬Asks query d) → singleDomain query = none)) ↔ ¬Misread query := by
  constructor
  · rintro ⟨hiff, -⟩ hmisread
    obtain ⟨d, hd, hnot⟩ := hmisread.singleDomain_eq_some
    exact hnot ((hiff d).mp hd)
  · intro hmisread
    have hiff : ∀ d, singleDomain query = some d ↔ Asks query d := by
      intro d
      rw [singleDomain_eq_some]
      apply exists_congr
      intro pair
      apply and_congr_right
      intro hpair
      rw [percentDecode_eq_some, escapesOk_iff, and_assoc]
      constructor
      · rintro ⟨htaken, hd, hne⟩
        exact ⟨⟨htaken, fun hsigned => hmisread ⟨pair, hpair, htaken, hsigned, d, hd⟩⟩, hd, hne⟩
      · rintro ⟨⟨htaken, -⟩, hd, hne⟩
        exact ⟨htaken, hd, hne⟩
    refine ⟨hiff, ?_⟩
    intro hnone
    cases hq : singleDomain query with
    | none => rfl
    | some d => exact absurd ((hiff d).mp hq) (hnone d)

theorem single_domain_exact_escaped : Asks "x=1&domain=a%2Eb".toList "a.b".toList := by
  have hfilter : ("x=1&domain=a%2Eb".toList.splitOn '&').filter isDomainPair =
      ["domain=a%2Eb".toList] := by decide
  have hvalue : asBytes (splitPair "domain=a%2Eb".toList).2 = [0x61, 0x25, 0x32, 0x45, 0x62] := by
    decide
  have htaken : EscapesTaken [0x61, 0x25, 0x32, 0x45, 0x62] :=
    (escapes_cons (by decide)).mpr <| escapesTaken_percent.mpr
      ⟨0x32, 0x45, [0x62], rfl, by decide, by decide, (escapes_cons (by decide)).mpr escapes_nil⟩
  have hdecoded : singleDomain "x=1&domain=a%2Eb".toList = some "a.b".toList := by
    refine singleDomain_eq_some.mpr ⟨_, hfilter, percentDecode_eq_some.mpr ?_, by decide⟩
    rw [hvalue]
    exact ⟨htaken, by decide⟩
  refine (((single_domain_exact _).mpr ?_).1 _).mp hdecoded
  rintro ⟨pair, hpair, -, ⟨before, y, after, hsigned, -⟩, -⟩
  rw [hfilter, List.singleton_inj] at hpair
  rw [← hpair, hvalue] at hsigned
  have hplus : (0x2B : UInt8) ∉ ([0x61, 0x25, 0x32, 0x45, 0x62] : Bytes) := by decide
  exact hplus (by rw [hsigned]; simp)

/-- `%+5` is read as the byte 5. -/
theorem single_domain_signed : singleDomain "domain=%+5".toList = some ['\x05'] ∧
    ∀ d, ¬Asks "domain=%+5".toList d := by
  have hfilter : ("domain=%+5".toList.splitOn '&').filter isDomainPair =
      ["domain=%+5".toList] := by decide
  have hvalue : asBytes (splitPair "domain=%+5".toList).2 = [0x25, 0x2B, 0x35] := by decide
  constructor
  · refine singleDomain_eq_some.mpr ⟨_, hfilter, percentDecode_eq_some.mpr ?_, by decide⟩
    rw [hvalue]
    exact ⟨escapesTaken_percent.mpr ⟨0x2B, 0x35, [], rfl, by decide, by decide, escapes_nil⟩,
      by decide⟩
  · rintro d ⟨pair, hpair, hok, -⟩
    rw [hfilter, List.singleton_inj] at hpair
    rw [← hpair, hvalue] at hok
    obtain ⟨x, y, rest, heq, hx, -⟩ := hok [] [0x2B, 0x35] rfl
    cases heq
    exact absurd hx (by decide)

/-! ## The answer -/

theorem singleDomain_of_asks {query d : Str} (h : Asks query d) : singleDomain query = some d := by
  obtain ⟨pair, hpair, hok, hd, hne⟩ := h
  exact singleDomain_eq_some.mpr
    ⟨pair, hpair, percentDecode_eq_some.mpr ⟨(escapesOk_iff.mp hok).1, hd⟩, hne⟩

theorem hexDigit_lt {b v : UInt8} (h : hexDigit b = some v) : v < 16 := by
  unfold hexDigit at h
  split at h
  · grind
  split at h
  · grind
  split at h
  · grind
  · cases h

theorem signed_cons {b : UInt8} {value : Bytes} (h : Signed (b :: value)) :
    Signed value ∨ b = 0x25 ∧ ∃ y after, value = 0x2B :: y :: after := by
  obtain ⟨before, y, after, heq, hy⟩ := h
  cases before with
  | nil =>
    obtain ⟨rfl, rfl⟩ := List.cons.inj heq
    exact .inr ⟨rfl, y, after, rfl⟩
  | cons c before => exact .inl ⟨before, y, after, (List.cons.inj heq).2, hy⟩

/-- The digits of an escape start none. -/
theorem ne_percent_of_fromStrRadix {x y v : UInt8} (h : fromStrRadix x y = some v) :
    x ≠ 0x25 ∧ y ≠ 0x25 := by
  obtain ⟨hx, hy, -⟩ := fromStrRadix_eq_some.mp h
  exact ⟨ne_percent_of_isFirst hx, ne_percent_of_isFirst (isFirst_of_isHexDigit hy)⟩

/-- An escape with a sign leaves a byte below 16. -/
theorem exists_lt_of_signed {value out : Bytes} (h : Signed value)
    (hout : percentDecodeBytes value = some out) : ∃ b ∈ out, b < 16 := by
  fun_induction percentDecodeBytes value generalizing out with
  | case1 =>
    obtain ⟨before, y, after, heq, -⟩ := h
    cases before <;> cases heq
  | case2 x y rest ih =>
    simp only [Option.bind_eq_bind, Option.bind_eq_some_iff, Option.pure_def, Option.some.injEq]
      at hout
    obtain ⟨-, -, v, hv, tail, htail, rfl⟩ := hout
    obtain ⟨hx, hy⟩ := ne_percent_of_fromStrRadix hv
    obtain h | ⟨-, z, after, heq⟩ := signed_cons h
    · obtain h | h := signed_cons h
      · obtain h | h := signed_cons h
        · obtain ⟨b, hb, hlt⟩ := ih h htail
          exact ⟨b, List.mem_cons_of_mem _ hb, hlt⟩
        · exact absurd h.1 hy
      · exact absurd h.1 hx
    · cases heq
      rw [fromStrRadix, if_pos rfl] at hv
      exact ⟨v, List.mem_cons_self .., hexDigit_lt hv⟩
  | case3 => cases hout
  | case4 b rest hb ih =>
    simp only [Option.bind_eq_bind, Option.bind_eq_some_iff, Option.pure_def, Option.some.injEq]
      at hout
    obtain ⟨tail, htail, rfl⟩ := hout
    obtain h | h := signed_cons h
    · obtain ⟨c, hc, hlt⟩ := ih h htail
      exact ⟨c, List.mem_cons_of_mem _ hc, hlt⟩
    · exact absurd h.1 hb

/-- A host has no byte below 16, so a domain that names one was asked for without a sign. -/
theorem asks_of_normalize (name : DnsName) {query d : Str} (h : singleDomain query = some d)
    (hname : normalize d = name.text) : Asks query d := by
  obtain ⟨pair, hpair, hdecoded, hne⟩ := singleDomain_eq_some.mp h
  have hsigned : ¬Signed (asBytes (splitPair pair).2) := by
    intro hsigned
    obtain ⟨out, hout, hd⟩ := Option.bind_eq_some_iff.mp hdecoded
    obtain ⟨b, hb, hlt⟩ := exists_lt_of_signed hsigned hout
    have hchars : ∀ c ∈ d, c.toNat < 0x80 ∧
        (DnsName.isNameChar c || isAsciiUppercase c || c = ':') = true :=
      fun c hc => ((normalize_eq_iff name).mp hname).char name hc
    rw [asBytes_of_fromUtf8 hd, asBytes_of_ascii fun c hc => (hchars c hc).1] at hb
    obtain ⟨c, hc, rfl⟩ := List.mem_map.mp hb
    have hge := of_ascii (fun c => (DnsName.isNameChar c || isAsciiUppercase c || c = ':') = true →
      ¬UInt8.ofNat c.toNat < 16) (by decide) (hchars c hc).1 (hchars c hc).2
    exact hge hlt
  obtain ⟨htaken, hd⟩ := percentDecode_eq_some.mp hdecoded
  exact ⟨pair, hpair, escapesOk_iff.mpr ⟨htaken, hsigned⟩, hd, hne⟩

/-- The sign changes no answer: 200 is for the queries that ask for the domain of a project. -/
theorem tlsAsk_iff_asks {store : Projects.Store} {base : BaseUrl} (W : Configured store base)
    (query : Str) : tlsAsk (load store.projects.rows base) (some query) = true ↔
      ∃ d, Asks query d ∧ ∃ p ∈ store.projects, p.host = some (normalize d) := by
  constructor
  · intro h
    cases hq : singleDomain query with
    | none =>
      rw [tlsAsk, Option.bind_some, hq] at h
      cases h
    | some d =>
      obtain ⟨id, hget⟩ := (tlsAsk_eq_true hq).mp h
      obtain ⟨p, hp, hhost, -⟩ | ⟨-, hnone⟩ := get_load store.projects.rows base (normalize d)
      · exact ⟨d, asks_of_normalize ⟨_, (W.valid hp hhost).1⟩ hq rfl, p, hp, hhost⟩
      · rw [hnone] at hget
        split at hget
        · cases hget
        · cases hget
  · intro h
    obtain ⟨d, hasks, p, hp, hhost⟩ := h
    exact (tlsAsk_eq_true (singleDomain_of_asks hasks)).mpr ⟨p.id, (W.get_eq_project hp).mpr hhost⟩

end Kohaku.Routing
