import Kohaku.Network.Proxies

/-!
# The client address

`limits::client_ip`: the client behind trusted proxies, from the TCP peer and the lines of
`X-Forwarded-For`. The code reads each line as text and splits it at commas. The entries are then
those between the comma bytes of the line, whatever else it holds, so the entries that trusted
proxies appended stand apart from the bytes in front of them.
-/

namespace Kohaku.Limits

/-- Something about the request worth one warning per server start. -/
inductive Warning
  | xffFromUntrustedPeer
  | trustedPeerSentNoXff
  | privateClient
  deriving DecidableEq, Repr

/-- The resolved address and what to warn about. -/
structure Resolution where
  client : IpAddr
  warnings : List Warning
  deriving DecidableEq, Repr

/-- `::ffff:a.b.c.d` as IPv4 `a.b.c.d`; every other address unchanged. -/
def canonical : IpAddr → IpAddr
  | .v4 bits => .v4 bits
  | .v6 bits =>
    match toIpv4Mapped bits with
    | some v4 => .v4 v4
    | none => .v6 bits

/-- Loopback, RFC 1918, ULA or link-local. -/
def isPrivate : IpAddr → Bool
  | .v4 bits =>
    bits >>> 24 = 127 || bits >>> 24 = 10 || bits >>> 20 = 0xAC1 || bits >>> 16 = 0xC0A8 ||
      bits >>> 16 = 0xA9FE
  | .v6 bits =>
    let first := bits >>> 112
    bits = 1 || first &&& 0xfe00 = 0xfc00 || first &&& 0xffc0 = 0xfe80

/-- `u8::is_ascii_graphic`. -/
def isAsciiGraphic (b : UInt8) : Bool := 0x21 ≤ b && b ≤ 0x7E

/-- The blanks trimmed around an entry. -/
def isBlank (c : Char) : Bool := c = ' ' || c = '\t'

section
variable (ip : IpText)

/-- One entry of a line, canonicalized. -/
def parseEntry (entry : Str) : Option IpAddr :=
  let entry := trimMatches isBlank entry
  if entry.isEmpty || !(asBytes entry).all isAsciiGraphic then none
  else (ip.parse entry).map canonical

/-- The addresses of a line, if all its entries are addresses. -/
def parseLine (line : Bytes) : Option (List IpAddr) := do
  let text ← fromUtf8 line
  (text.splitOn ',').mapM (parseEntry ip)

/-- Every entry of every line; `none` when any entry is malformed. -/
def parseEntries (lines : List Bytes) : Option (List IpAddr) :=
  (lines.mapM (parseLine ip)).map List.flatten

/-- Resolves the client address from the peer and every `X-Forwarded-For` line, in received
order. -/
def resolve (peer : IpAddr) (lines : List Bytes) (trusted : TrustedProxies) : Resolution :=
  let peer := canonical peer
  let (client, warnings) :=
    if !trusted.contains peer then (peer, if lines.isEmpty then [] else [.xffFromUntrustedPeer])
    else if lines.isEmpty then (peer, [.trustedPeerSentNoXff])
    else
      match parseEntries ip lines with
      | some entries =>
        -- without an untrusted entry, the first one; there is one, since a line has at least one
        -- entry
        ((entries.reverse.find? fun entry => !trusted.contains entry).getD (entries.headD peer), [])
      | none => (peer, [])
  { client, warnings := warnings ++ if isPrivate client then [.privateClient] else [] }

/-! ## Entries of bytes -/

/-- The entry writes the address, with blanks around it. -/
def EntryFor (entry : Bytes) (a : IpAddr) : Prop :=
  ∃ left address right n, entry = asBytes (left ++ address ++ right) ∧
    left.all isBlank = true ∧ right.all isBlank = true ∧ ip.parse address = some n ∧ a = canonical n

/-- The entry as the code reads it, once it is text. -/
def readEntry (entry : Bytes) : Option IpAddr := (fromUtf8 entry).bind (parseEntry ip)

end

section
variable {ip : IpText}

theorem IpText.isBlank_eq_false {address : Str} {n : IpAddr} (h : ip.parse address = some n) :
    ∀ c ∈ address, isBlank c = false := by
  intro c hc
  have hchars : ("0123456789abcdefABCDEF:.".toList.all fun c => !isBlank c) =
      true := by decide
  exact Bool.not_eq_true' _ ▸ List.all_eq_true.mp hchars c (ip.chars h c hc)

theorem IpText.all_isAsciiGraphic {address : Str} {n : IpAddr} (h : ip.parse address = some n) :
    (asBytes address).all isAsciiGraphic = true := by
  have hchars : ("0123456789abcdefABCDEF:.".toList.all fun c =>
      (String.utf8EncodeChar c).all isAsciiGraphic) = true := by decide
  rw [asBytes, List.all_flatMap, List.all_eq_true]
  exact fun c hc => List.all_eq_true.mp hchars c (ip.chars h c hc)

/-- The code's reading of an entry is that it writes an address, with blanks around it. -/
theorem readEntry_eq_some {entry : Bytes} {a : IpAddr} :
    readEntry ip entry = some a ↔ EntryFor ip entry a := by
  constructor
  · intro h
    obtain ⟨text, htext, hparse⟩ := Option.bind_eq_some_iff.mp h
    rw [parseEntry, Option.ite_none_left_eq_some, Option.map_eq_some_iff] at hparse
    obtain ⟨-, n, hn, rfl⟩ := hparse
    obtain ⟨left, right, hsplit, hleft, hright⟩ := exists_eq_trimMatches isBlank text
    refine ⟨left, trimMatches isBlank text, right, n, ?_, hleft, hright, hn, rfl⟩
    rw [← hsplit]
    exact asBytes_of_fromUtf8 htext
  · rintro ⟨left, address, right, n, rfl, hleft, hright, hn, rfl⟩
    have htrim : trimMatches isBlank (left ++ address ++ right) = address :=
      trimMatches_append hleft hright (ip.ne_nil hn) (ip.isBlank_eq_false hn)
    rw [readEntry, fromUtf8_asBytes, Option.bind_some, parseEntry, htrim, ip.all_isAsciiGraphic hn,
      hn, if_neg (by simpa using ip.ne_nil hn), Option.map_some]

/-- Reading the line as text first changes nothing: where it is no text, some entry is none. -/
theorem parseLine_eq (line : Bytes) :
    parseLine ip line = (line.splitOn 0x2C).mapM (readEntry ip) := by
  have hread : readEntry ip ∘ asBytes = parseEntry ip := by
    funext text
    rw [Function.comp, readEntry, fromUtf8_asBytes, Option.bind_some]
  cases hline : fromUtf8 line with
  | some text =>
    rw [parseLine, hline, asBytes_of_fromUtf8 hline, splitOn_asBytes, List.mapM_map, hread]
    rfl
  | none =>
    rw [parseLine, hline]
    symm
    rw [Option.bind_eq_bind, Option.bind_none, Option.eq_none_iff_forall_ne_some]
    intro entries hentries
    -- the entries are texts, so the line is their join
    have hrange : line.splitOn 0x2C ∈ Set.range (List.map asBytes) := by
      rw [Set.range_list_map]
      intro entry hentry
      obtain ⟨a, ha⟩ := exists_mapM_eq_some.mp ⟨entries, hentries⟩ entry hentry
      obtain ⟨text, htext, -⟩ := Option.bind_eq_some_iff.mp ha
      exact ⟨text, (asBytes_of_fromUtf8 htext).symm⟩
    obtain ⟨parts, hparts⟩ := hrange
    have hjoin : [0x2C].intercalate (line.splitOn 0x2C) = line := List.intercalate_splitOn 0x2C
    rw [← hparts, ← asBytes_intercalate] at hjoin
    rw [← hjoin, fromUtf8_asBytes] at hline
    cases hline

/-- The entries of the header are those between the comma bytes of its lines. -/
def entriesOf (lines : List Bytes) : List Bytes := lines.flatMap (·.splitOn 0x2C)

theorem parseEntries_eq (lines : List Bytes) :
    parseEntries ip lines = (entriesOf lines).mapM (readEntry ip) := by
  induction lines with
  | nil => rfl
  | cons line lines ih =>
    rw [parseEntries, entriesOf] at ih
    rw [parseEntries, entriesOf, List.flatMap_cons, List.mapM_append, List.mapM_cons,
      ← parseLine_eq, ← ih]
    cases parseLine ip line with
    | none => rfl
    | some entries =>
      cases lines.mapM (parseLine ip) <;> rfl

/-- The bytes of an entry hold no comma. -/
theorem EntryFor.comma_notMem {entry : Bytes} {a : IpAddr} (h : EntryFor ip entry a) :
    0x2C ∉ entry := by
  obtain ⟨left, address, right, n, rfl, hleft, hright, hn, -⟩ := h
  intro hmem
  obtain ⟨c, hc, hbyte⟩ := List.mem_flatMap.mp hmem
  have hcomma : c = ',' := by
    by_contra hne
    exact comma_notMem_utf8EncodeChar hne hbyte
  subst hcomma
  rw [List.mem_append, List.mem_append] at hc
  rcases hc with (hc | hc) | hc
  · exact absurd (List.all_eq_true.mp hleft _ hc) (by decide)
  · exact absurd (ip.chars hn _ hc) (by decide)
  · exact absurd (List.all_eq_true.mp hright _ hc) (by decide)

/-- Behind a comma, or from the start of the line, the appended entries are the last ones. -/
theorem entriesOf_appended (earlier : List Bytes) {before entry : Bytes} {rest : List Bytes}
    (hbefore : before = [] ∨ ∃ bytes, before = bytes ++ [0x2C]) (hentry : 0x2C ∉ entry)
    (hrest : ∀ t ∈ rest, 0x2C ∉ t) :
    ∃ front, entriesOf (earlier ++ [before ++ entry ++ rest.flatMap (0x2C :: ·)]) = front ++
      entry :: rest := by
  have hsplit : (entry ++ rest.flatMap (0x2C :: ·)).splitOn 0x2C = entry :: rest := by
    have hjoin : ∀ (entry : Bytes) (rest : List Bytes),
        entry ++ rest.flatMap (0x2C :: ·) = [0x2C].intercalate (entry :: rest) := by
      intro entry rest
      induction rest generalizing entry with
      | nil => simp
      | cons next rest ih => rw [List.intercalate_cons_cons, ← ih]; simp
    rw [hjoin, List.splitOn_intercalate _ (List.forall_mem_cons.mpr ⟨hentry, hrest⟩)
      (List.cons_ne_nil _ _)]
  have hlast : ∀ line, entriesOf (earlier ++ [line]) = entriesOf earlier ++ line.splitOn 0x2C := by
    intro line
    rw [entriesOf, List.flatMap_append, List.flatMap_singleton, entriesOf]
  rw [hlast, List.append_assoc]
  rcases hbefore with rfl | ⟨bytes, rfl⟩
  · exact ⟨entriesOf earlier, by rw [List.nil_append, hsplit]⟩
  · refine ⟨entriesOf earlier ++ bytes.splitOn 0x2C, ?_⟩
    rw [List.append_assoc bytes, List.singleton_append, List.splitOn_append_cons_self, hsplit,
      List.append_assoc]

/-! ## The resolved client -/

theorem resolve_untrusted {peer : IpAddr} {trusted : TrustedProxies} (lines : List Bytes)
    (h : trusted.contains (canonical peer) = false) :
    (resolve ip peer lines trusted).client = canonical peer := by
  rw [resolve, h]
  rfl

theorem resolve_malformed (peer : IpAddr) (trusted : TrustedProxies) {lines : List Bytes}
    (h : parseEntries ip lines = none) :
    (resolve ip peer lines trusted).client = canonical peer := by
  simp only [resolve, h]
  split
  · rfl
  · split <;> rfl

/-- The client is the last untrusted entry. -/
theorem resolve_last {peer : IpAddr} {trusted : TrustedProxies} {lines : List Bytes}
    (hpeer : trusted.contains (canonical peer) = true) (hlines : lines ≠ [])
    {front rest : List IpAddr} {a : IpAddr}
    (h : parseEntries ip lines = some (front ++ a :: rest)) (ha : trusted.contains a = false)
    (hrest : ∀ b ∈ rest, trusted.contains b = true) :
    (resolve ip peer lines trusted).client = a := by
  have hfind : ((front ++ a :: rest).reverse.find? fun entry => !trusted.contains entry) =
      some a := by
    rw [List.find?_eq_some_iff_append]
    refine ⟨by rw [ha]; rfl, rest.reverse, front.reverse, by simp, ?_⟩
    intro b hb
    rw [hrest b (List.mem_reverse.mp hb)]
    rfl
  have hempty : lines.isEmpty = false := by simpa using hlines
  simp only [resolve, hpeer, hempty, h, hfind]
  rfl

/-- The addresses read from appended entries: the untrusted one, then trusted ones. -/
theorem read_appended {trusted : TrustedProxies} {front rest : List Bytes} {entry : Bytes}
    {a : IpAddr} {entries : List IpAddr} (hentry : EntryFor ip entry a)
    (hrest : ∀ t ∈ rest, ∃ b, EntryFor ip t b ∧ trusted.contains b = true)
    (h : (front ++ entry :: rest).mapM (readEntry ip) = some entries) :
    ∃ xs bs, entries = xs ++ a :: bs ∧ ∀ b ∈ bs, trusted.contains b = true := by
  have hmap := (map_of_mapM_eq_some h).symm
  rw [List.map_append, List.map_cons, readEntry_eq_some.mpr hentry, List.map_eq_append_iff] at hmap
  obtain ⟨xs, ys, rfl, -, hys⟩ := hmap
  obtain ⟨a', bs, rfl, ha, hbs⟩ := List.map_eq_cons_iff.mp hys
  cases ha
  refine ⟨xs, bs, rfl, ?_⟩
  intro b hb
  have hmem : some b ∈ rest.map (readEntry ip) := by
    rw [← hbs]
    exact List.mem_map_of_mem hb
  obtain ⟨t, ht, hread⟩ := List.mem_map.mp hmem
  obtain ⟨b', hb', htrusted⟩ := hrest t ht
  rw [readEntry_eq_some.mpr hb', Option.some.injEq] at hread
  exact hread ▸ htrusted

theorem wellFormed_iff (lines : List Bytes) :
    (∀ line ∈ lines, ∀ e ∈ line.splitOn 0x2C, ∃ b, EntryFor ip e b) ↔
      ∃ entries, parseEntries ip lines = some entries := by
  simp only [parseEntries_eq, exists_mapM_eq_some, readEntry_eq_some, entriesOf, List.mem_flatMap]
  exact ⟨fun h e ⟨line, hline, he⟩ => h line hline e he, fun h line hline e he =>
    h e ⟨line, hline, he⟩⟩

variable (ip) in
/-- `X-Forwarded-For` cannot be spoofed: an untrusted peer is the client itself, and behind a
trusted one the bytes in front of the entry that the outermost trusted proxy appended decide at most
whether the header is read at all. -/
theorem forwarded_for_not_spoofed (trusted : TrustedProxies) (peer : IpAddr) :
    (trusted.contains (canonical peer) = false →
      ∀ lines, (resolve ip peer lines trusted).client = canonical peer) ∧
    (trusted.contains (canonical peer) = true →
      ∀ (earlier : List Bytes) (before entry : Bytes) (rest : List Bytes) (a : IpAddr),
        (before = [] ∨ ∃ bytes, before = bytes ++ [0x2C]) → EntryFor ip entry a →
        trusted.contains a = false →
        (∀ t ∈ rest, ∃ b, EntryFor ip t b ∧ trusted.contains b = true) →
        ∀ lines, lines = earlier ++ [before ++ entry ++ rest.flatMap (0x2C :: ·)] →
          ((resolve ip peer lines trusted).client = a ∨ (resolve ip peer lines trusted).client =
            canonical peer) ∧
          ((resolve ip peer lines trusted).client = a ↔
            ∀ line ∈ lines, ∀ e ∈ line.splitOn 0x2C, ∃ b, EntryFor ip e b)) := by
  refine ⟨fun h lines => resolve_untrusted lines h, ?_⟩
  intro hpeer earlier before entry rest a hbefore hentry ha hrest lines hlines
  obtain ⟨front, hfront⟩ := entriesOf_appended earlier hbefore hentry.comma_notMem
    fun t ht => (hrest t ht).elim fun b hb => hb.1.comma_notMem
  rw [← hlines] at hfront
  have hne : a ≠ canonical peer := by
    rintro rfl
    rw [ha] at hpeer
    cases hpeer
  rw [wellFormed_iff]
  cases hparse : parseEntries ip lines with
  | none =>
    rw [resolve_malformed peer trusted hparse]
    refine ⟨.inr rfl, fun h => absurd h.symm hne, ?_⟩
    rintro ⟨entries, hentries⟩
    cases hentries
  | some entries =>
    have hread := hparse
    rw [parseEntries_eq, hfront] at hread
    obtain ⟨xs, bs, rfl, hbs⟩ := read_appended hentry hrest hread
    have hclient := resolve_last hpeer (by rw [hlines]; simp) hparse ha hbs
    exact ⟨.inl hclient, fun _ => ⟨_, rfl⟩, fun _ => hclient⟩

end

/-! ## A client behind two proxies -/

/-- The proxies of the example block. -/
def twoProxies : TrustedProxies :=
  (parseTrustedProxies dotted "10.231.7.0/29".toList).toOption.getD .none

/-- Lines of a client that sends addresses of its own. -/
def spoofedLines : List Bytes :=
  [asBytes "192.0.2.1".toList, asBytes "10.231.7.1,198.51.100.7, 203.0.113.5 ,10.231.7.2".toList]

theorem forwarded_for_not_spoofed_behind_two :
    (resolve dotted (.v4 0x0AE70701) spoofedLines twoProxies).client = .v4 0xCB007105 := by
  have hentry : EntryFor dotted (asBytes " 203.0.113.5 ".toList) (.v4 0xCB007105) :=
    readEntry_eq_some.mp (by decide)
  have hrest : ∀ t ∈ [asBytes "10.231.7.2".toList],
      ∃ b, EntryFor dotted t b ∧ twoProxies.contains b = true := by
    rw [List.forall_mem_singleton]
    exact ⟨.v4 0x0AE70702, readEntry_eq_some.mp (by decide), by decide⟩
  have hresolved := (forwarded_for_not_spoofed dotted twoProxies (.v4 0x0AE70701)).2
    (by decide)
    [asBytes "192.0.2.1".toList] (asBytes "10.231.7.1,198.51.100.7,".toList) _ _ _
    (.inr ⟨asBytes "10.231.7.1,198.51.100.7".toList, by decide⟩) hentry
      (by decide) hrest spoofedLines
    (by decide)
  apply hresolved.2.mpr
  rw [wellFormed_iff]
  exact ⟨[.v4 0xC0000201, .v4 0x0AE70701, .v4 0xC6336407, .v4 0xCB007105,
    .v4 0x0AE70702], by decide⟩

end Kohaku.Limits
