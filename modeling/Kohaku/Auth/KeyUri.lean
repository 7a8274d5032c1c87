import Kohaku.Auth.Base32
import Kohaku.Routing.TlsAsk

/-!
# The key URI of an enrollment

`key_uri` writes the `otpauth://totp/` address that authenticator apps scan. `KeyUri.write` is what
such an address is, a label and parameters whose texts are all percent-encoded, and `KeyUri.read`
takes one apart. Percent-encoded text has none of the separators in it, so what is written is read
back, whatever the texts are (`KeyUri.read_write`).
-/

namespace Kohaku

/-- `u8::is_ascii_alphanumeric`. -/
def isAsciiAlphanumeric (b : UInt8) : Bool :=
  (0x30 ≤ b && b ≤ 0x39) || (0x41 ≤ b && b ≤ 0x5A) || (0x61 ≤ b && b ≤ 0x7A)

/-- The RFC 3986 unreserved bytes: letters, digits, `-`, `.`, `_` and `~`. -/
def isUnreserved (b : UInt8) : Bool :=
  isAsciiAlphanumeric b || b = 0x2D || b = 0x2E || b = 0x5F || b = 0x7E

/-- A digit of `{:X}`. -/
def upperHexDigit (n : Nat) : Char := "0123456789ABCDEF".toList.getD n '0'

/-- The body of the loop of `percent_encode`: the byte itself or `%{byte:02X}`. -/
def percentEncodeByte (byte : UInt8) : Str :=
  if isUnreserved byte then [Char.ofNat byte.toNat]
  else ['%', upperHexDigit (byte.toNat / 16), upperHexDigit (byte.toNat % 16)]

/-- Percent-encodes everything but unreserved characters. -/
def percentEncode (text : Str) : Str := (asBytes text).flatMap percentEncodeByte

example : percentEncode "a+b@é".toList = "a%2Bb%40%C3%A9".toList := by decide

/-- The key URI: issuer `Kohaku (<main host>)`, label `<issuer>:<email>`. -/
def keyUri (mainHost email : Str) (seed : Bytes) : Str :=
  let issuer := percentEncode ("Kohaku (".toList ++ mainHost ++ ")".toList)
  "otpauth://totp/".toList ++ issuer ++ "%3A".toList ++ percentEncode email ++ "?secret=".toList ++
    base32 seed ++ "&issuer=".toList ++ issuer ++ "&algorithm=SHA1&digits=6&period=30".toList

/-! ## Percent-encoding -/

/-- A statement about a byte can be checked one by one. -/
theorem of_byte (P : UInt8 → Prop) (h : ∀ n < 256, P (UInt8.ofNat n)) (byte : UInt8) : P byte := by
  rw [← UInt8.ofNat_toNat (x := byte)]
  exact h _ byte.toNat_lt

theorem isUnreserved_spec : ∀ byte : UInt8, isUnreserved byte = true →
    (Char.ofNat byte.toNat).toNat < 0x80 ∧ UInt8.ofNat (Char.ofNat byte.toNat).toNat = byte ∧
    byte ≠ 0x25 :=
  of_byte _ (by decide +kernel)

/-- The two digits of a byte are ASCII and parsed as the byte. -/
theorem upperHexDigit_spec : ∀ byte : UInt8,
    (upperHexDigit (byte.toNat / 16)).toNat < 0x80 ∧
    (upperHexDigit (byte.toNat % 16)).toNat < 0x80 ∧
      Routing.fromStrRadix (UInt8.ofNat (upperHexDigit (byte.toNat / 16)).toNat)
        (UInt8.ofNat (upperHexDigit (byte.toNat % 16)).toNat) = some byte :=
  of_byte _ (by decide +kernel)

/-- No separator is pushed. -/
theorem all_percentEncodeByte : ∀ byte : UInt8,
    (percentEncodeByte byte).all (fun c => c ≠ '?' ∧ c ≠ '&' ∧ c ≠ '=') = true :=
  of_byte _ (by decide +kernel)

/-- `percent_decode` takes what is pushed for a byte as the byte. -/
theorem percentDecodeBytes_append (byte : UInt8) (rest : Bytes) :
    Routing.percentDecodeBytes (asBytes (percentEncodeByte byte) ++ rest) =
      (Routing.percentDecodeBytes rest).map (byte :: ·) := by
  rw [percentEncodeByte]
  split
  next h =>
    obtain ⟨hlt, hbyte, hne⟩ := isUnreserved_spec byte h
    rw [asBytes_of_ascii (List.forall_mem_singleton.mpr hlt), List.map_singleton, hbyte,
      List.singleton_append, Routing.percentDecodeBytes.eq_def]
    simp only [if_neg hne]
    cases Routing.percentDecodeBytes rest <;> rfl
  next =>
    obtain ⟨hhi, hlo, hradix⟩ := upperHexDigit_spec byte
    have hbytes : asBytes ['%', upperHexDigit (byte.toNat / 16), upperHexDigit (byte.toNat % 16)] =
        [0x25, UInt8.ofNat (upperHexDigit (byte.toNat / 16)).toNat,
          UInt8.ofNat (upperHexDigit (byte.toNat % 16)).toNat] :=
      asBytes_of_ascii (by simp [hhi, hlo])
    have hlt : ∀ {n : Nat}, n < 0x80 → UInt8.ofNat n < 0x80 := by
      intro n hn
      rw [UInt8.lt_iff_toNat_lt, UInt8.toNat_ofNat', Nat.mod_eq_of_lt (by omega)]
      exact hn
    obtain ⟨text, htext⟩ := Option.isSome_iff_exists.mp (Routing.fromUtf8_pair (hlt hhi) (hlt hlo))
    rw [hbytes, List.cons_append, List.cons_append, List.singleton_append,
      Routing.percentDecodeBytes, if_pos rfl]
    simp only [htext, hradix]
    cases Routing.percentDecodeBytes rest <;> rfl

theorem percentEncode_append (a b : Str) :
    percentEncode (a ++ b) = percentEncode a ++ percentEncode b := by
  rw [percentEncode, asBytes, List.flatMap_append, List.flatMap_append, ← asBytes, ← asBytes,
    percentEncode, percentEncode]

theorem notMem_percentEncode (text : Str) :
    '?' ∉ percentEncode text ∧ '&' ∉ percentEncode text ∧ '=' ∉ percentEncode text := by
  have hall : ∀ c ∈ percentEncode text, c ≠ '?' ∧ c ≠ '&' ∧ c ≠ '=' := by
    intro c hc
    obtain ⟨byte, -, hc⟩ := List.mem_flatMap.mp hc
    exact of_decide_eq_true (List.all_eq_true.mp (all_percentEncodeByte byte) c hc)
  exact ⟨fun h => (hall _ h).1 rfl, fun h => (hall _ h).2.1 rfl, fun h => (hall _ h).2.2 rfl⟩

theorem percentDecodeBytes_flatMap (bytes : Bytes) :
    Routing.percentDecodeBytes (asBytes (bytes.flatMap percentEncodeByte)) = some bytes := by
  induction bytes with
  | nil => rfl
  | cons byte bytes ih =>
    rw [List.flatMap_cons, asBytes, List.flatMap_append, ← asBytes, ← asBytes,
      percentDecodeBytes_append, ih, Option.map_some]

/-- `percent_decode` inverts `percent_encode`. -/
theorem percentDecode_percentEncode (text : Str) :
    Routing.percentDecode (percentEncode text) = some text := by
  rw [Routing.percentDecode, percentEncode, percentDecodeBytes_flatMap]
  exact fromUtf8_asBytes text

/-- Unreserved text is written as it is. -/
theorem percentEncode_eq_self {text : Str}
    (h : ∀ c ∈ text, c.toNat < 0x80 ∧ isUnreserved (UInt8.ofNat c.toNat) = true) :
    percentEncode text = text := by
  have hself : ∀ c ∈ text, percentEncodeByte (UInt8.ofNat c.toNat) = [c] := by
    intro c hc
    obtain ⟨hlt, hunreserved⟩ := h c hc
    rw [percentEncodeByte, if_pos hunreserved, UInt8.toNat_ofNat', Nat.mod_eq_of_lt (by omega),
      Char.ofNat_toNat]
  rw [percentEncode, asBytes_of_ascii fun c hc => (h c hc).1, List.flatMap_map,
    List.flatMap_congr hself]
  exact List.flatMap_singleton' text

/-- A base32 digit is unreserved. -/
theorem percentEncode_base32 (bytes : Bytes) : percentEncode (base32 bytes) = base32 bytes := by
  apply percentEncode_eq_self
  intro c hc
  have hdigit := (base32_shape bytes).2 c hc
  have hlt := toNat_lt_of_isBase32 hdigit
  exact ⟨hlt, of_ascii (fun c => isBase32 c = true → isUnreserved (UInt8.ofNat c.toNat) = true)
    (by decide) hlt hdigit⟩

/-! ## Key URIs -/

/-- What an `otpauth` address for TOTP says. -/
structure KeyUri where
  label : Str
  params : List (Str × Str)
  deriving DecidableEq

namespace KeyUri

/-- The start of every key URI. -/
def scheme : Str := "otpauth://totp/".toList

/-- A parameter as it is written. -/
def writePair (pair : Str × Str) : Str := percentEncode pair.1 ++ '=' :: percentEncode pair.2

/-- The address of a label and parameters. -/
def write (uri : KeyUri) : Str :=
  scheme ++ (percentEncode uri.label ++ '?' :: ['&'].intercalate (uri.params.map writePair))

/-- The two parts around the only `sep` of a text. -/
def splitOnly (sep : Char) (text : Str) : Option (Str × Str) :=
  match text.splitOn sep with
  | [before, after] => some (before, after)
  | _ => none

/-- A parameter taken apart at its only `=`. -/
def readPair (pair : Str) : Option (Str × Str) := do
  let (name, value) ← splitOnly '=' pair
  return (← Routing.percentDecode name, ← Routing.percentDecode value)

/-- Takes an address apart: at its only `?`, at each `&` and at the only `=` of each pair, and
decodes the parts. -/
def read (text : Str) : Option KeyUri := do
  guard (text.take scheme.length = scheme)
  let (label, query) ← splitOnly '?' (text.drop scheme.length)
  let params ← (query.splitOn '&').mapM readPair
  return ⟨← Routing.percentDecode label, params⟩

theorem splitOnly_append {sep : Char} {before after : Str} (hbefore : sep ∉ before)
    (hafter : sep ∉ after) : splitOnly sep (before ++ sep :: after) = some (before, after) := by
  have hsplit : (before ++ sep :: after).splitOn sep = [before, after] := by
    have hjoin : before ++ sep :: after = [sep].intercalate [before, after] := by simp
    rw [hjoin, List.splitOn_intercalate sep (by simp [hbefore, hafter]) (List.cons_ne_nil _ _)]
  rw [splitOnly, hsplit]

theorem readPair_writePair (pair : Str × Str) : readPair (writePair pair) = some pair := by
  rw [readPair, writePair, splitOnly_append (notMem_percentEncode _).2.2
    (notMem_percentEncode _).2.2]
  simp [percentDecode_percentEncode]

/-- A pair as written has no separator of pairs in it. -/
theorem notMem_writePair (pair : Str × Str) : '?' ∉ writePair pair ∧ '&' ∉ writePair pair := by
  have hname := notMem_percentEncode pair.1
  have hvalue := notMem_percentEncode pair.2
  simp [writePair, hname.1, hname.2.1, hvalue.1, hvalue.2.1]

theorem writePair_eq {name value n v : Str} (hname : percentEncode name = n)
    (hvalue : percentEncode value = v) : writePair (name, value) = n ++ ['='] ++ v := by
  subst hname hvalue
  simp [writePair]

/-- An address with five parameters, in one text. -/
theorem write_five {label : Str} {a b c d e : Str × Str} {l ta tb tc td te : Str}
    (hlabel : percentEncode label = l)
    (ha : writePair a = ta) (hb : writePair b = tb) (hc : writePair c = tc) (hd : writePair d = td)
    (he : writePair e = te) :
    write ⟨label, [a, b, c, d, e]⟩ =
      scheme ++ l ++ ['?'] ++ ta ++ ['&'] ++ tb ++ ['&'] ++ tc ++ ['&'] ++ td ++ ['&'] ++ te := by
  subst hlabel ha hb hc hd he
  simp [write]

/-- The same text, with the separators as part of the texts around them. -/
theorem append_query {start issuer colon email query first secret pair second rest tc td te : Str}
    (hquery : query = ['?'] ++ first ++ ['=']) (hpair : pair = ['&'] ++ second ++ ['='])
    (hrest : rest = ['&'] ++ tc ++ ['&'] ++ td ++ ['&'] ++ te) :
    start ++ issuer ++ colon ++ email ++ query ++ secret ++ pair ++ issuer ++ rest =
      start ++ (issuer ++ colon ++ email) ++ ['?'] ++ (first ++ ['='] ++ secret) ++ ['&'] ++
        (second ++ ['='] ++ issuer) ++ ['&'] ++ tc ++ ['&'] ++ td ++ ['&'] ++ te := by
  subst hquery hpair hrest
  simp

/-- What is written is read back. -/
theorem read_write {uri : KeyUri} (h : uri.params ≠ []) : read (write uri) = some uri := by
  have hpairs : (['&'].intercalate (uri.params.map writePair)).splitOn '&' =
      uri.params.map writePair := by
    refine List.splitOn_intercalate '&' (fun text htext => ?_) (mt List.map_eq_nil_iff.mp h)
    obtain ⟨pair, -, rfl⟩ := List.mem_map.mp htext
    exact (notMem_writePair pair).2
  have hquery : '?' ∉ ['&'].intercalate (uri.params.map writePair) := by
    intro hmem
    rcases mem_splitOn_or '&' hmem with heq | ⟨text, htext, hmem⟩
    · exact absurd heq (by decide)
    · rw [hpairs] at htext
      obtain ⟨pair, -, rfl⟩ := List.mem_map.mp htext
      exact (notMem_writePair pair).1 hmem
  have hparams : (uri.params.map writePair).mapM readPair = some uri.params := by
    have hmapM : uri.params.mapM (readPair ∘ writePair) = some (uri.params.map id) :=
      mapM_eq_some_map fun pair _ => readPair_writePair pair
    rw [List.mapM_map, hmapM, List.map_id]
  rw [read, write, List.take_left, List.drop_left,
    splitOnly_append (notMem_percentEncode _).1 hquery]
  simp [hpairs, hparams, percentDecode_percentEncode, guard]

end KeyUri

/-- The address that `key_uri` writes. -/
theorem keyUri_eq_write (mainHost email : Str) (seed : Bytes) :
    keyUri mainHost email seed = KeyUri.write
    { label := "Kohaku (".toList ++ mainHost ++ "):".toList ++ email
      params := [("secret".toList, base32 seed),
        ("issuer".toList, "Kohaku (".toList ++ mainHost ++ ")".toList),
        ("algorithm".toList, "SHA1".toList), ("digits".toList, "6".toList),
        ("period".toList, "30".toList)] } := by
  have hlabel : percentEncode ("Kohaku (".toList ++ mainHost ++ "):".toList ++ email) =
      percentEncode ("Kohaku (".toList ++ mainHost ++ ")".toList) ++ "%3A".toList ++
        percentEncode email := by
    have hcolon : percentEncode ":".toList = "%3A".toList := by decide
    have hsplit : "):".toList = ")".toList ++ ":".toList := by decide
    rw [hsplit, ← List.append_assoc, percentEncode_append, percentEncode_append, hcolon]
  have hsecret : KeyUri.writePair ("secret".toList, base32 seed) = "secret".toList ++ ['='] ++
      base32 seed :=
    KeyUri.writePair_eq (by decide) (percentEncode_base32 seed)
  have hissuer : KeyUri.writePair ("issuer".toList, "Kohaku (".toList ++ mainHost ++ ")".toList) =
      "issuer".toList ++ ['='] ++ percentEncode ("Kohaku (".toList ++ mainHost ++ ")".toList) :=
    KeyUri.writePair_eq (by decide) rfl
  have hfixed : KeyUri.writePair ("algorithm".toList, "SHA1".toList) = "algorithm=SHA1".toList ∧
      KeyUri.writePair ("digits".toList, "6".toList) = "digits=6".toList ∧
      KeyUri.writePair ("period".toList, "30".toList) = "period=30".toList := by decide
  refine Eq.trans ?_ (KeyUri.write_five hlabel hsecret hissuer hfixed.1 hfixed.2.1 hfixed.2.2).symm
  exact KeyUri.append_query (by decide) (by decide) (by decide)

/-- The key URI is unambiguous, for every main host, email and seed: taken apart, its label is
`Kohaku (host):email` and it has the five parameters once each. The email has no part in the
parameters. What `percent_encode` writes, `percent_decode` reads. -/
theorem key_uri_unambiguous :
    (∀ (mainHost email : Str) (seed : Bytes), KeyUri.read (keyUri mainHost email seed) = some
      { label := "Kohaku (".toList ++ mainHost ++ "):".toList ++ email
        params := [("secret".toList, base32 seed),
          ("issuer".toList, "Kohaku (".toList ++ mainHost ++ ")".toList),
          ("algorithm".toList, "SHA1".toList), ("digits".toList, "6".toList),
          ("period".toList, "30".toList)] }) ∧
      (∀ (mainHost email email' : Str) (seed : Bytes),
        (KeyUri.read (keyUri mainHost email seed)).map KeyUri.params =
          (KeyUri.read (keyUri mainHost email' seed)).map KeyUri.params) ∧
      ∀ text : Str, Routing.percentDecode (percentEncode text) = some text := by
  have hread : ∀ (mainHost email : Str) (seed : Bytes), KeyUri.read (keyUri mainHost email seed) =
      _ :=
    fun mainHost email seed =>
      (congrArg KeyUri.read (keyUri_eq_write mainHost email seed)).trans
        (KeyUri.read_write (List.cons_ne_nil _ _))
  exact ⟨hread, fun mainHost email email' seed => by rw [hread, hread]; rfl,
    percentDecode_percentEncode⟩

end Kohaku
