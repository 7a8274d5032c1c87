import Kohaku.Bits.Block
import Kohaku.Limits.Rate
import Kohaku.Text

/-!
# The list of trusted proxies

`parse_trusted_proxies` of `config.rs` and what the list it builds contains. The address text form
is that of the standard library and enters as a parameter. A network is stored with what the parser
checked: its prefix length fits the family, no bit is set past it, and it is not a block of
IPv4-mapped addresses. So membership, which the code computes with a mask, is membership in an
interval, and the accepted texts are the lists of written networks of that kind.
-/

namespace Kohaku.Limits

/-! ## Addresses -/

/-- Number of bits of an address. -/
def IpAddr.width : IpAddr → Nat
  | .v4 _ => 32
  | .v6 _ => 128

/-- The address as a number. -/
def IpAddr.value : IpAddr → Nat
  | .v4 bits => bits.toNat
  | .v6 bits => bits.toNat

/-- `IpAddr::is_ipv4`. -/
def IpAddr.isIpv4 : IpAddr → Bool
  | .v4 _ => true
  | .v6 _ => false

/-- The text form of addresses, as `IpAddr::from_str` reads it. It refuses zone indices, brackets
and ports: what it accepts is written with hexadecimal digits, colons and dots. -/
structure IpText where
  parse : Str → Option IpAddr
  ne_nil : ∀ {text address}, parse text = some address → text ≠ []
  chars : ∀ {text address}, parse text = some address →
    ∀ c ∈ text, c ∈ "0123456789abcdefABCDEF:.".toList

/-- `Ipv6Addr::to_ipv4_mapped`. -/
def toIpv4Mapped (bits : BitVec 128) : Option (BitVec 32) :=
  if bits >>> 32 = 0xffff then some (bits.setWidth 32) else none

/-! ## Networks -/

/-- `uN::MAX.checked_shl(w - len).unwrap_or(0)`. -/
def netMask (w len : Nat) : BitVec w :=
  if w - len < w then BitVec.allOnes w <<< (w - len) else 0

/-- No bit is set past the prefix. -/
def hostBitsClear : IpAddr → Nat → Bool
  | .v4 bits, len => bits &&& ~~~netMask 32 len == 0
  | .v6 bits, len => bits &&& ~~~netMask 128 len == 0

/-- The block is one of IPv4-mapped addresses. -/
def mapped : IpAddr → Nat → Bool
  | .v4 _, _ => false
  | .v6 bits, len => (toIpv4Mapped bits).isSome && 96 ≤ len

/-- A prefix length of an address of `max` bits; never zero. -/
abbrev PrefixLen (max : Nat) := { len : Nat // 1 ≤ len ∧ len ≤ max }

/-- An exact address (full-length prefix) or a CIDR block. -/
structure IpNet where
  address : IpAddr
  prefixLen : PrefixLen address.width
  clear : hostBitsClear address prefixLen = true
  unmapped : mapped address prefixLen = false
  deriving DecidableEq

/-- `IpNet::contains`. -/
def IpNet.contains (net : IpNet) (address : IpAddr) : Bool :=
  match net.address, address with
  | .v4 n, .v4 a => n &&& netMask 32 net.prefixLen == a &&& netMask 32 net.prefixLen
  | .v6 n, .v6 a => n &&& netMask 128 net.prefixLen == a &&& netMask 128 net.prefixLen
  | _, _ => false

/-- `KOHAKU_TRUSTED_PROXIES`: the peers whose `X-Forwarded-For` Kohaku believes. -/
inductive TrustedProxies
  | none
  | list (nets : List IpNet)
  deriving DecidableEq

/-- Whether `peer`, already canonicalized, is a trusted proxy. -/
def TrustedProxies.contains : TrustedProxies → IpAddr → Bool
  | .none, _ => false
  | .list nets, peer => nets.any (·.contains peer)

/-! ## The parser -/

/-- A decimal without sign, spaces or leading zeros. -/
def parseDecimal (text : Str) : Option Nat :=
  let canonical := isDigits text && ((asBytes text).length = 1 || text.head? ≠ some '0')
  if canonical then parseDigits 32 text else none

/-- `u8::try_from`. -/
def u8TryFrom (n : Nat) : Option Nat := if n < 2 ^ 8 then some n else none

/-- A prefix length from 1 to the width of the address. -/
def parsePrefixLen (max : Nat) (text : Str) : Option (PrefixLen max) := do
  let n ← (parseDecimal text).bind u8TryFrom
  if h : 1 ≤ n ∧ n ≤ max then some ⟨n, h⟩ else none

theorem IpAddr.one_le_width (address : IpAddr) : 1 ≤ address.width := by
  cases address <;> exact Nat.le_add_left 1 _

/-- The full length, for an exact address. -/
def PrefixLen.full (address : IpAddr) : PrefixLen address.width :=
  ⟨address.width, address.one_le_width, Nat.le_refl _⟩

/-- The checks on a network once it is read. -/
def IpNet.check (address : IpAddr) (len : PrefixLen address.width) : Option IpNet :=
  if h : hostBitsClear address len = true ∧ mapped address len = false then
    some ⟨address, len, h.1, h.2⟩
  else none

variable (ip : IpText)

/-- `parse_ip_net`: an address, or an address and a prefix length. -/
def parseIpNet (entry : Str) : Option IpNet :=
  match splitOnce '/' entry with
  | some (address, len) => do
    let address ← ip.parse address
    IpNet.check address (← parsePrefixLen address.width len)
  | none => do
    let address ← ip.parse entry
    IpNet.check address (.full address)

/-- The text for a list that is refused. -/
def trustedProxiesRule : Str :=
  ("must be `none` or a comma-separated list, without spaces or empty entries, of exact IP " ++
    "addresses (normally) or CIDR blocks such as 10.231.7.0/29 (last resort); no IPv4-mapped " ++
    "IPv6, no zone index, no /0, no bits set past the prefix").toList

/-- `parse_trusted_proxies`. -/
def parseTrustedProxies (text : Str) : Except Str TrustedProxies :=
  if text = "none".toList then .ok .none
  else
    match (text.splitOn ',').mapM (parseIpNet ip) with
    | some nets => .ok (.list nets)
    | none => .error trustedProxiesRule

/-! ## Masks as intervals -/

theorem netMask_eq_upper (w len : Nat) : netMask w len = BitVec.upper w (w - len) := by
  by_cases h : w - len < w
  · rw [netMask, if_pos h, BitVec.upper]
  · rw [netMask, if_neg h, BitVec.upper, BitVec.shiftLeft_eq_zero (Nat.le_of_not_lt h)]
    rfl

theorem hostBitsClear_iff (n : IpAddr) (len : Nat) :
    hostBitsClear n len = true ↔ n.value % 2 ^ (n.width - len) = 0 := by
  cases n with
  | v4 bits | v6 bits =>
    rw [hostBitsClear, beq_iff_eq, netMask_eq_upper, BitVec.and_not_upper_eq_zero_iff]
    rfl

theorem and_netMask_beq_iff {w len : Nat} {n a : BitVec w} (hclear : n.toNat % 2 ^ (w - len) = 0) :
    (n &&& netMask w len == a &&& netMask w len) = true ↔
      n.toNat ≤ a.toNat ∧ a.toNat ≤ n.toNat + 2 ^ (w - len) - 1 := by
  rw [beq_iff_eq, netMask_eq_upper, BitVec.and_upper_eq_iff_mem hclear]

theorem IpNet.contains_iff (net : IpNet) (x : IpAddr) : net.contains x = true ↔
    net.address.isIpv4 = x.isIpv4 ∧ net.address.value ≤ x.value ∧
      x.value ≤ net.address.value + 2 ^ (net.address.width - net.prefixLen) - 1 := by
  obtain ⟨n, len, hclear, -⟩ := net
  rw [hostBitsClear_iff] at hclear
  cases n with
  | v4 n =>
    cases x with
    | v4 a => exact (and_netMask_beq_iff hclear).trans (and_iff_right rfl).symm
    | v6 a => simp [contains, IpAddr.isIpv4]
  | v6 n =>
    cases x with
    | v4 a => simp [contains, IpAddr.isIpv4]
    | v6 a => exact (and_netMask_beq_iff hclear).trans (and_iff_right rfl).symm

/-- The address lies in `::ffff:0:0/96` iff it is the mapping of an IPv4 address. -/
theorem toIpv4Mapped_isSome (bits : BitVec 128) : (toIpv4Mapped bits).isSome = true ↔
    0xffff00000000 ≤ bits.toNat ∧ bits.toNat ≤ 0xffffffffffff := by
  have hshift : bits >>> 32 = 0xffff ↔ bits.toNat / 2 ^ 32 = 0xffff := by
    rw [← BitVec.toNat_inj, BitVec.toNat_ushiftRight, Nat.shiftRight_eq_div_pow]
    rfl
  rw [toIpv4Mapped, Option.isSome_ite, hshift]
  omega

/-- A block below the mapped addresses is short, so only the length has to be asked once its first
address is known to be mapped. -/
theorem mapped_iff {n : IpAddr} {len : Nat} (hle : len ≤ n.width)
    (hclear : n.value % 2 ^ (n.width - len) = 0) : mapped n len = true ↔
      n.isIpv4 = false ∧ 0xffff00000000 ≤ n.value ∧
        n.value + 2 ^ (n.width - len) - 1 ≤ 0xffffffffffff := by
  cases n with
  | v4 bits => simp [mapped, IpAddr.isIpv4]
  | v6 bits =>
    simp only [IpAddr.width, IpAddr.value] at hle hclear ⊢
    rw [mapped, Bool.and_eq_true, toIpv4Mapped_isSome, decide_eq_true_eq]
    simp only [IpAddr.isIpv4, true_and]
    have hpos := Nat.two_pow_pos (128 - len)
    constructor
    · rintro ⟨⟨hlow, hhigh⟩, hlen⟩
      refine ⟨hlow, ?_⟩
      -- the block does not reach past the next multiple of its size
      have hdvd : 2 ^ (128 - len) ∣ 0x1000000000000 :=
        Nat.pow_dvd_pow 2 (show 128 - len ≤ 48 by omega)
      obtain ⟨q, hq⟩ := Nat.dvd_of_mod_eq_zero hclear
      obtain ⟨r, hr⟩ := hdvd
      have hlt : q < r := by
        apply Nat.lt_of_mul_lt_mul_left (a := 2 ^ (128 - len))
        omega
      have hstep := Nat.mul_le_mul_left (2 ^ (128 - len)) hlt
      rw [Nat.mul_succ] at hstep
      omega
    · rintro ⟨hlow, hhigh⟩
      refine ⟨⟨hlow, by omega⟩, ?_⟩
      by_contra hlen
      have hbig : 2 ^ 33 ≤ 2 ^ (128 - len) := Nat.pow_le_pow_right (by decide) (by omega)
      omega

/-! ## Decimals and lengths -/

theorem parseDecimal_eq_some {text : Str} {n : Nat} :
    parseDecimal text = some n ↔ text = Nat.toDigits 10 n ∧ n < 2 ^ 32 := by
  constructor
  · intro h
    rw [parseDecimal, Option.ite_none_right_eq_some, Bool.and_eq_true, isDigits_iff,
      Bool.or_eq_true, decide_eq_true_eq, decide_eq_true_eq] at h
    obtain ⟨⟨⟨hne, hdigits⟩, hlead⟩, hparse⟩ := h
    rw [parseDigits, Option.ite_none_right_eq_some, Option.some.injEq] at hparse
    obtain ⟨hlt, rfl⟩ := hparse
    rw [asBytes_of_ascii fun c hc => toNat_lt_of_isDigit (hdigits c hc), List.length_map] at hlead
    exact ⟨(toDigits_ofDigitChars hne hdigits hlead).symm, hlt⟩
  · rintro ⟨rfl, hlt⟩
    have hlead : ((asBytes (Nat.toDigits 10 n)).length = 1 || (Nat.toDigits 10 n).head? ≠
        some '0') = true := by
      rcases Nat.eq_zero_or_pos n with rfl | hpos
      · rfl
      · simp [head?_toDigits hpos]
    rw [parseDecimal, isDigits_toDigits, hlead, Bool.and_self, if_pos rfl, parseDigits_toDigits hlt]

theorem parsePrefixLen_eq_some {max : Nat} (hmax : max < 2 ^ 8) {text : Str} {len : PrefixLen max} :
    parsePrefixLen max text = some len ↔ text = Nat.toDigits 10 len := by
  obtain ⟨len, hpos, hle⟩ := len
  constructor
  · intro h
    rw [parsePrefixLen, Option.bind_eq_bind, Option.bind_eq_some_iff] at h
    obtain ⟨n, hn, hlen⟩ := h
    obtain ⟨m, hm, hu8⟩ := Option.bind_eq_some_iff.mp hn
    rw [u8TryFrom, Option.ite_none_right_eq_some, Option.some.injEq] at hu8
    obtain ⟨-, rfl⟩ := hu8
    split at hlen
    · cases hlen
      exact (parseDecimal_eq_some.mp hm).1
    · cases hlen
  · rintro rfl
    have hdecimal : parseDecimal (Nat.toDigits 10 len) = some len :=
      parseDecimal_eq_some.mpr ⟨rfl, hle.trans_lt (hmax.trans (by decide))⟩
    have hu8 : u8TryFrom len = some len := if_pos (hle.trans_lt hmax)
    rw [parsePrefixLen, hdecimal, Option.bind_some, hu8, Option.bind_eq_bind, Option.bind_some,
      dif_pos ⟨hpos, hle⟩]

/-! ## What is accepted -/

/-- The entry writes the network of address `n` and length `l`: the address alone, for the full
length, or with the length behind a slash. -/
def Writes (entry : Str) (n : IpAddr) (l : Nat) : Prop :=
  ip.parse entry = some n ∧ l = n.width ∨
    ∃ address, entry = address ++ '/' :: Nat.toDigits 10 l ∧ ip.parse address = some n

/-- A network the list may hold. -/
structure Allowed (n : IpAddr) (l : Nat) : Prop where
  pos : 1 ≤ l
  le_width : l ≤ n.width
  /-- No bit is set past the length. -/
  clear : ∀ i < n.width - l, n.value.testBit i = false
  /-- The block does not lie inside `::ffff:0:0/96`. -/
  unmapped : ¬(n.isIpv4 = false ∧ 0xffff00000000 ≤ n.value ∧ n.value + 2 ^ (n.width - l) - 1 ≤
    0xffffffffffff)

theorem testBit_clear_iff (v k : Nat) : (∀ i < k, v.testBit i = false) ↔ v % 2 ^ k = 0 := by
  constructor
  · intro h
    apply Nat.eq_of_testBit_eq
    intro i
    rw [Nat.testBit_mod_two_pow, Nat.zero_testBit]
    by_cases hi : i < k
    · rw [h i hi, Bool.and_false]
    · rw [decide_eq_false hi, Bool.false_and]
  · intro h i hi
    have hbit := Nat.testBit_mod_two_pow v k i
    rw [h, Nat.zero_testBit, decide_eq_true hi, Bool.true_and] at hbit
    exact hbit.symm

theorem IpNet.allowed (net : IpNet) : Allowed net.address net.prefixLen := by
  have hclear := (hostBitsClear_iff _ _).mp net.clear
  refine ⟨net.prefixLen.2.1, net.prefixLen.2.2, (testBit_clear_iff _ _).mpr hclear, ?_⟩
  rw [← mapped_iff net.prefixLen.2.2 hclear, net.unmapped]
  exact Bool.false_ne_true

theorem Allowed.check_eq_some {n : IpAddr} {l : PrefixLen n.width} (h : Allowed n l) :
    ∃ net, IpNet.check n l = some net := by
  have hclear := (testBit_clear_iff _ _).mp h.clear
  have hmapped : mapped n l = false := by
    rw [← Bool.not_eq_true, mapped_iff l.2.2 hclear]
    exact h.unmapped
  have hhost := (hostBitsClear_iff _ _).mpr hclear
  exact ⟨⟨n, l, hhost, hmapped⟩, dif_pos ⟨hhost, hmapped⟩⟩

theorem IpNet.of_check {n : IpAddr} {l : PrefixLen n.width} {net : IpNet}
    (h : IpNet.check n l = some net) : net.address = n ∧ (net.prefixLen : Nat) = l := by
  rw [IpNet.check] at h
  split at h
  · cases h
    exact ⟨rfl, rfl⟩
  · cases h

theorem IpText.slash_notMem {text : Str} {n : IpAddr} (h : ip.parse text = some n) : '/' ∉ text :=
  fun hmem => absurd (ip.chars h '/' hmem) (by decide)

/-- Which of the two forms an entry has shows at its first slash. -/
theorem writes_iff {entry : Str} {n : IpAddr} {l : Nat} : Writes ip entry n l ↔
    splitOnce '/' entry = none ∧ ip.parse entry = some n ∧ l = n.width ∨
      ∃ address, splitOnce '/' entry = some (address, Nat.toDigits 10 l) ∧ ip.parse address =
        some n := by
  constructor
  · rintro (⟨hparse, hl⟩ | ⟨address, hentry, hparse⟩)
    · exact .inl ⟨splitOnce_eq_none.mpr (ip.slash_notMem hparse), hparse, hl⟩
    · exact .inr ⟨address, splitOnce_eq_some.mpr ⟨hentry, ip.slash_notMem hparse⟩, hparse⟩
  · rintro (⟨-, hparse, hl⟩ | ⟨address, hsplit, hparse⟩)
    · exact .inl ⟨hparse, hl⟩
    · exact .inr ⟨address, (splitOnce_eq_some.mp hsplit).1, hparse⟩

variable {ip} in
/-- An entry writes one network only. -/
theorem Writes.unique {entry : Str} {n n' : IpAddr} {l l' : Nat} (h : Writes ip entry n l)
    (h' : Writes ip entry n' l') : n = n' ∧ l = l' := by
  rw [writes_iff] at h h'
  rcases h with ⟨hnone, hn, rfl⟩ | ⟨address, hsome, hn⟩
  · rcases h' with ⟨-, hn', rfl⟩ | ⟨address, hsome, -⟩
    · rw [hn] at hn'
      cases hn'
      exact ⟨rfl, rfl⟩
    · rw [hnone] at hsome
      cases hsome
  · rcases h' with ⟨hnone, -, -⟩ | ⟨address', hsome', hn'⟩
    · rw [hnone] at hsome
      cases hsome
    · rw [hsome, Option.some.injEq, Prod.mk.injEq] at hsome'
      obtain ⟨rfl, hdigits⟩ := hsome'
      rw [hn] at hn'
      cases hn'
      have hl := congrArg (Nat.ofDigitChars 10 · 0) hdigits
      simp only [Nat.ofDigitChars_ten_toDigits] at hl
      exact ⟨rfl, hl⟩

theorem IpAddr.width_lt (n : IpAddr) : n.width < 2 ^ 8 := by
  cases n <;> exact of_decide_eq_true rfl

theorem writes_of_parseIpNet {entry : Str} {net : IpNet} (h : parseIpNet ip entry = some net) :
    Writes ip entry net.address net.prefixLen := by
  rw [writes_iff]
  rw [parseIpNet] at h
  split at h
  next address len hsplit =>
    obtain ⟨n, hn, hrest⟩ := Option.bind_eq_some_iff.mp h
    obtain ⟨l, hl, hcheck⟩ := Option.bind_eq_some_iff.mp hrest
    obtain ⟨rfl, hlen⟩ := IpNet.of_check hcheck
    rw [parsePrefixLen_eq_some net.address.width_lt] at hl
    exact .inr ⟨address, by rw [hsplit, hl, hlen], hn⟩
  next hsplit =>
    obtain ⟨n, hn, hcheck⟩ := Option.bind_eq_some_iff.mp h
    obtain ⟨rfl, hlen⟩ := IpNet.of_check hcheck
    exact .inl ⟨hsplit, hn, hlen⟩

variable {ip} in
theorem Writes.parseIpNet_eq_some {entry : Str} {n : IpAddr} {l : Nat} (h : Writes ip entry n l)
    (ha : Allowed n l) : ∃ net, parseIpNet ip entry = some net := by
  rw [writes_iff] at h
  rcases h with ⟨hsplit, hn, rfl⟩ | ⟨address, hsplit, hn⟩
  · obtain ⟨net, hnet⟩ := Allowed.check_eq_some (l := .full n) ha
    refine ⟨net, ?_⟩
    simp only [parseIpNet, hsplit, hn]
    exact hnet
  · obtain ⟨net, hnet⟩ := Allowed.check_eq_some (l := ⟨l, ha.pos, ha.le_width⟩) ha
    refine ⟨net, ?_⟩
    have hlen : parsePrefixLen n.width (Nat.toDigits 10 l) = some ⟨l, ha.pos, ha.le_width⟩ :=
      (parsePrefixLen_eq_some n.width_lt).mpr rfl
    simp only [parseIpNet, hsplit, hn, hlen, Option.bind_eq_bind, Option.bind_some]
    exact hnet

theorem isSome_parseIpNet_iff {entry : Str} :
    (∃ net, parseIpNet ip entry = some net) ↔ ∃ n l, Writes ip entry n l ∧ Allowed n l := by
  constructor
  · rintro ⟨net, h⟩
    exact ⟨net.address, net.prefixLen, writes_of_parseIpNet ip h, net.allowed⟩
  · rintro ⟨n, l, hw, ha⟩
    exact hw.parseIpNet_eq_some ha

/-- A fallible map succeeds iff it succeeds on every element. -/
theorem exists_mapM_eq_some {α β : Type} {f : α → Option β} {xs : List α} :
    (∃ ys, xs.mapM f = some ys) ↔ ∀ x ∈ xs, ∃ y, f x = some y := by
  induction xs with
  | nil => simp
  | cons x xs ih =>
    rw [List.forall_mem_cons, ← ih]
    cases hx : f x with
    | none => simp [List.mapM_cons, hx]
    | some y => simp [List.mapM_cons, hx, Option.bind_eq_some_iff]

/-- Its results are those of the elements. -/
theorem map_of_mapM_eq_some {α β : Type} {f : α → Option β} {xs : List α} {ys : List β}
    (h : xs.mapM f = some ys) : xs.map f = ys.map some := by
  induction xs generalizing ys with
  | nil =>
    cases h
    rfl
  | cons x xs ih =>
    rw [List.mapM_cons] at h
    obtain ⟨y, hy, hrest⟩ := Option.bind_eq_some_iff.mp h
    obtain ⟨ys', hys, hpure⟩ := Option.bind_eq_some_iff.mp hrest
    cases hpure
    rw [List.map_cons, List.map_cons, hy, ih hys]

theorem mem_of_mapM_eq_some {α β : Type} {f : α → Option β} {xs : List α} {ys : List β}
    (h : xs.mapM f = some ys) {y : β} : y ∈ ys ↔ ∃ x ∈ xs, f x = some y := by
  have hmap := map_of_mapM_eq_some h
  rw [← List.mem_map, hmap, List.mem_map]
  simp

theorem parseTrustedProxies_eq_ok {s : Str} (hs : s ≠ "none".toList) {list : TrustedProxies} :
    parseTrustedProxies ip s = .ok list ↔
      ∃ nets, (s.splitOn ',').mapM (parseIpNet ip) = some nets ∧ list = .list nets := by
  rw [parseTrustedProxies, if_neg hs]
  cases h : (s.splitOn ',').mapM (parseIpNet ip) with
  | none => simp
  | some nets => simp [eq_comm]

/-- The word for no proxy is no entry. -/
theorem not_writes_none {entry : Str} (hentry : entry ∈ "none".toList.splitOn ',')
    (n : IpAddr) (l : Nat) : ¬Writes ip entry n l := by
  rw [show "none".toList.splitOn ',' = ["none".toList] from rfl, List.mem_singleton] at hentry
  subst hentry
  rintro (⟨hparse, -⟩ | ⟨address, hslash, -⟩)
  · exact absurd (ip.chars hparse 'n' (by decide)) (by decide)
  · have hmem : '/' ∈ "none".toList := by
      rw [hslash]
      exact List.mem_append_right _ List.mem_cons_self
    exact absurd hmem (by decide)

/-- Trusted-proxy lists mean exactly what is written. -/
theorem trusted_proxies_as_written (s : Str) :
    ((∃ list, parseTrustedProxies ip s = .ok list) ↔
      s = "none".toList ∨ ∀ entry ∈ s.splitOn ',', ∃ n l, Writes ip entry n l ∧ Allowed n l) ∧
    ∀ list, parseTrustedProxies ip s = .ok list → ∀ x : IpAddr,
      (list.contains x = true ↔ ∃ entry ∈ s.splitOn ',', ∃ n l, Writes ip entry n l ∧
        n.isIpv4 = x.isIpv4 ∧ n.value ≤ x.value ∧ x.value ≤ n.value + 2 ^ (n.width - l) - 1) := by
  by_cases hs : s = "none".toList
  · subst hs
    refine ⟨⟨fun _ => .inl rfl, fun _ => ⟨.none, rfl⟩⟩, ?_⟩
    intro list hlist x
    cases hlist
    constructor
    · intro h
      cases h
    · rintro ⟨entry, hentry, n, l, hw, -⟩
      exact absurd hw (not_writes_none ip hentry n l)
  · simp only [parseTrustedProxies_eq_ok ip hs, hs, false_or]
    constructor
    · simp only [← isSome_parseIpNet_iff, ← exists_mapM_eq_some]
      exact ⟨fun ⟨_, nets, h, _⟩ => ⟨nets, h⟩, fun ⟨nets, h⟩ => ⟨.list nets, nets, h, rfl⟩⟩
    · rintro list ⟨nets, hnets, rfl⟩ x
      simp only [TrustedProxies.contains, List.any_eq_true, IpNet.contains_iff]
      constructor
      · rintro ⟨net, hmem, hblock⟩
        obtain ⟨entry, hentry, hnet⟩ := (mem_of_mapM_eq_some hnets).mp hmem
        exact ⟨entry, hentry, _, _, writes_of_parseIpNet ip hnet, hblock⟩
      · rintro ⟨entry, hentry, n, l, hw, hblock⟩
        obtain ⟨net, hnet⟩ := exists_mapM_eq_some.mp ⟨nets, hnets⟩ entry hentry
        obtain ⟨rfl, rfl⟩ := hw.unique (writes_of_parseIpNet ip hnet)
        exact ⟨net, (mem_of_mapM_eq_some hnets).mpr ⟨entry, hentry, hnet⟩, hblock⟩

/-! ## A list with a block and an address -/

/-- One number of a dotted address. -/
def parseOctet (text : Str) : Option Nat := (parseDecimal text).bind u8TryFrom

/-- Four octets, most significant first. -/
def ofOctets : List Nat → Option IpAddr
  | [a, b, c, d] => some (.v4 (BitVec.ofNat 32 (((a * 256 + b) * 256 + c) * 256 + d)))
  | _ => none

/-- The IPv4 part of the text form. -/
def parseDotted (text : Str) : Option IpAddr := ((text.splitOn '.').mapM parseOctet).bind ofOctets

theorem chars_of_parseOctet {text : Str} {n : Nat} (h : parseOctet text = some n) :
    text ≠ [] ∧ ∀ c ∈ text, c.isDigit = true := by
  obtain ⟨m, hm, -⟩ := Option.bind_eq_some_iff.mp h
  rw [(parseDecimal_eq_some.mp hm).1, ← isDigits_iff]
  exact isDigits_toDigits m

theorem octets_of_parseDotted {text : Str} {n : IpAddr} (h : parseDotted text = some n) :
    ∀ part ∈ text.splitOn '.', part ≠ [] ∧ ∀ c ∈ part, c.isDigit = true := by
  obtain ⟨octets, hoctets, -⟩ := Option.bind_eq_some_iff.mp h
  intro part hpart
  obtain ⟨m, hm⟩ := exists_mapM_eq_some.mp ⟨octets, hoctets⟩ part hpart
  exact chars_of_parseOctet hm

/-- Addresses of four decimal numbers. -/
def dotted : IpText where
  parse := parseDotted
  ne_nil := by
    rintro text n h rfl
    exact (octets_of_parseDotted h [] (by simp)).1 rfl
  chars := by
    intro text n h c hc
    rcases mem_splitOn_or '.' hc with rfl | ⟨part, hpart, hc⟩
    · decide
    · have hdigit := (octets_of_parseDotted h part hpart).2 c hc
      exact of_ascii (fun c => c.isDigit = true → c ∈ "0123456789abcdefABCDEF:.".toList) (by decide)
        (toNat_lt_of_isDigit hdigit) hdigit

theorem trusted_proxies_as_written_block :
    ∃ list, parseTrustedProxies dotted "192.0.2.1,10.231.7.0/29".toList = .ok list ∧
      list.contains (.v4 0x0AE70707) = true := by
  have haccepted : (parseTrustedProxies dotted "192.0.2.1,10.231.7.0/29".toList).toOption.isSome =
      true := by
    decide
  cases hlist : parseTrustedProxies dotted "192.0.2.1,10.231.7.0/29".toList with
  | error e =>
    rw [hlist] at haccepted
    cases haccepted
  | ok list =>
    refine ⟨list, rfl, ?_⟩
    rw [(trusted_proxies_as_written dotted _).2 list hlist]
    exact ⟨"10.231.7.0/29".toList, by decide, .v4 0x0AE70700, 29,
      .inr ⟨"10.231.7.0".toList, by decide, by decide⟩, rfl, by decide, by decide⟩

end Kohaku.Limits
