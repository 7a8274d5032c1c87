import Kohaku.Routing.Hosts

/-!
# Which `Host` values name a configured host

The values that `normalize` takes to a DNS name are its spellings: each letter in either case,
perhaps with a port (`normalize_eq_iff`). So a value names at most one host, and nothing that only
looks like one names it (`host_match_exact`).
-/

namespace Kohaku.Routing

variable {host text port : Str} {c d : Char}

/-! ## Splitting at the last separator -/

theorem rsplitOnce_append {sep : Char} {before after : Str} (h : sep ∉ after) :
    rsplitOnce sep (before ++ sep :: after) = some (before, after) := by
  have hne : ∀ c ∈ after.reverse, (decide (c ≠ sep)) = true := by
    intro c hc
    exact decide_eq_true fun heq => h (heq ▸ List.mem_reverse.mp hc)
  have hreverse : (before ++ sep :: after).reverse = after.reverse ++ sep ::
      before.reverse := by simp
  unfold rsplitOnce
  rw [hreverse, List.dropWhile_append_of_pos hne, List.takeWhile_append_of_pos hne]
  simp

theorem eq_of_rsplitOnce {sep : Char} {before after : Str}
    (h : rsplitOnce sep text = some (before, after)) : text = before ++ sep :: after := by
  by_cases hmem : sep ∈ text
  · obtain ⟨after', before', hreverse, hnot⟩ :=
      List.eq_append_cons_of_mem (List.mem_reverse.mpr hmem)
    have htext : text = before'.reverse ++ sep :: after'.reverse := by
      rw [← List.reverse_reverse text, hreverse]
      simp
    rw [htext, rsplitOnce_append (by simpa using hnot)] at h
    cases h
    exact htext
  · rw [rsplitOnce_of_notMem hmem] at h
    cases h

/-! ## Spellings -/

/-- The letter in either case, or the character itself. -/
def IsCaseOf (c d : Char) : Prop := c = d ∨ c = toAsciiUppercase d

/-- Nothing, or a colon and one or more digits. -/
def IsPort (port : Str) : Prop :=
  port = [] ∨ ∃ digits, isDigits digits = true ∧ port = ':' :: digits

/-- The name with its letters in either case, and perhaps a port. -/
def IsSpelling (host text : Str) : Prop :=
  ∃ name port, host = name ++ port ∧ List.Forall₂ IsCaseOf name text ∧ IsPort port

theorem toAsciiLowercase_eq_iff (hd : d.toNat < 0x80) (hname : DnsName.isNameChar d = true) :
    toAsciiLowercase c = d ↔ IsCaseOf c d := by
  constructor
  · intro h
    cases hc : isAsciiUppercase c with
    | true =>
      have hle : c ≤ 'Z' := of_decide_eq_true (Bool.and_eq_true_iff.mp hc).2
      have hlt : c.toNat < 0x80 := lt_of_le_of_lt (UInt32.le_iff_toNat_le.mp hle) (by decide)
      rw [← h]
      exact .inr
        (of_ascii (fun c => isAsciiUppercase c = true → c = toAsciiUppercase (toAsciiLowercase c))
        (by decide) hlt hc)
    | false =>
      rw [toAsciiLowercase, show ('A' ≤ c && c ≤ 'Z') = false from hc] at h
      exact .inl h
  · intro h
    have hboth := of_ascii (fun d => DnsName.isNameChar d = true →
      toAsciiLowercase d = d ∧ toAsciiLowercase (toAsciiUppercase d) = d) (by decide) hd hname
    obtain rfl | rfl := h
    · exact hboth.1
    · exact hboth.2

theorem strToAsciiLowercase_eq_iff (name : DnsName) :
    strToAsciiLowercase text = name.text ↔ List.Forall₂ IsCaseOf text name.text := by
  have hmap : ∀ {text host : Str}, (∀ d ∈ host, d.toNat < 0x80 ∧ DnsName.isNameChar d = true) →
      (text.map toAsciiLowercase = host ↔ List.Forall₂ IsCaseOf text host) := by
    intro text host hchars
    induction host generalizing text with
    | nil => simp
    | cons d host ih =>
      obtain ⟨hlt, hd⟩ := hchars d (List.mem_cons_self ..)
      cases text with
      | nil => simp
      | cons c text =>
        rw [List.map_cons, List.cons.injEq, List.forall₂_cons, toAsciiLowercase_eq_iff hlt hd,
          ih fun d hd => hchars d (List.mem_cons_of_mem _ hd)]
  exact hmap fun d hd => name.isNameChar_of_mem hd

/-- A character of a spelling before its port. -/
theorem char_of_forall₂ (name : DnsName) (h : List.Forall₂ IsCaseOf text name.text)
    (hc : c ∈ text) : c.toNat < 0x80 ∧ (DnsName.isNameChar c || isAsciiUppercase c) = true := by
  obtain ⟨d, hd, hcase⟩ : ∃ d ∈ name.text, IsCaseOf c d := by
    obtain ⟨i, hi, rfl⟩ := List.getElem_of_mem hc
    exact ⟨_, List.getElem_mem (h.length_eq ▸ hi), h.get hi (h.length_eq ▸ hi)⟩
  obtain ⟨hlt, hname⟩ := name.isNameChar_of_mem hd
  obtain rfl | rfl := hcase
  · exact ⟨hlt, by rw [hname]; rfl⟩
  · exact of_ascii (fun d => DnsName.isNameChar d = true → (toAsciiUppercase d).toNat < 0x80 ∧
      (DnsName.isNameChar (toAsciiUppercase d) || isAsciiUppercase (toAsciiUppercase d)) = true)
      (by decide) hlt hname

theorem colon_notMem_of_forall₂ (name : DnsName) (h : List.Forall₂ IsCaseOf text name.text) :
    ':' ∉ text :=
  fun hmem => absurd (char_of_forall₂ name h hmem).2 (by decide)

theorem colon_notMem_of_isDigits (h : isDigits text = true) : ':' ∉ text := fun hmem =>
  absurd ((isDigits_iff.mp h).2 _ hmem) (by decide)

/-- The values that name a host are its spellings. -/
theorem normalize_eq_iff (name : DnsName) :
    normalize host = name.text ↔ IsSpelling host name.text := by
  constructor
  · intro h
    unfold normalize at h
    dsimp only at h
    split at h
    · rename_i before after hsplit
      split at h
      · rename_i hdigits
        exact ⟨before, ':' :: after, eq_of_rsplitOnce hsplit,
          (strToAsciiLowercase_eq_iff name).mp h,
          .inr ⟨after, hdigits, rfl⟩⟩
      · exact ⟨host, [], (List.append_nil _).symm, (strToAsciiLowercase_eq_iff name).mp h, .inl rfl⟩
    · exact ⟨host, [], (List.append_nil _).symm, (strToAsciiLowercase_eq_iff name).mp h, .inl rfl⟩
  · intro h
    obtain ⟨text, port, rfl, htext, hport⟩ := h
    have hlower := (strToAsciiLowercase_eq_iff name).mpr htext
    unfold normalize
    obtain rfl | ⟨digits, hdigits, rfl⟩ := hport
    · rw [List.append_nil, rsplitOnce_of_notMem (colon_notMem_of_forall₂ name htext)]
      exact hlower
    · have hcond : (!digits.isEmpty && (asBytes digits).all isAsciiDigit) = true := hdigits
      rw [rsplitOnce_append (colon_notMem_of_isDigits hdigits)]
      simp only [hcond, if_true]
      exact hlower

/-! ## Values that look like a host -/

/-- The characters of a value that names a host. -/
theorem IsSpelling.char (name : DnsName) (h : IsSpelling host name.text) (hc : c ∈ host) :
    c.toNat < 0x80 ∧ (DnsName.isNameChar c || isAsciiUppercase c || c = ':') = true := by
  obtain ⟨text, port, rfl, htext, hport⟩ := h
  obtain hc | hc := List.mem_append.mp hc
  · obtain ⟨hlt, hchar⟩ := char_of_forall₂ name htext hc
    exact ⟨hlt, by rw [hchar]; rfl⟩
  · obtain rfl | ⟨digits, hdigits, rfl⟩ := hport
    · cases hc
    · obtain rfl | hc := List.mem_cons.mp hc
      · decide
      · have hdigit := (isDigits_iff.mp hdigits).2 c hc
        have hlt := toNat_lt_of_isDigit hdigit
        refine ⟨hlt, ?_⟩
        exact of_ascii (fun c => c.isDigit = true →
          (DnsName.isNameChar c || isAsciiUppercase c || c = ':') = true) (by decide) hlt hdigit

/-- At most one port. -/
theorem IsSpelling.count_colon (name : DnsName) (h : IsSpelling host name.text) :
    host.count ':' ≤ 1 := by
  obtain ⟨text, port, rfl, htext, hport⟩ := h
  rw [List.count_append, List.count_eq_zero_of_not_mem (colon_notMem_of_forall₂ name htext),
    Nat.zero_add]
  obtain rfl | ⟨digits, hdigits, rfl⟩ := hport
  · exact Nat.zero_le 1
  · rw [List.count_cons_self, List.count_eq_zero_of_not_mem (colon_notMem_of_isDigits hdigits)]

/-- A dot at the end leaves an empty last piece. -/
theorem nil_mem_tail_splitOn (before : Str) : [] ∈ ((before ++ ['.']).splitOn '.').tail := by
  induction before with
  | nil => decide
  | cons c before ih =>
    rw [List.cons_append, List.splitOn_cons_eq_if_modifyHead]
    split
    · exact List.mem_of_mem_tail ih
    · cases hsplit : (before ++ ['.']).splitOn '.' with
      | nil => exact absurd hsplit (List.splitOn_ne_nil _ _)
      | cons label labels =>
        rw [hsplit] at ih
        exact ih

theorem ne_append_dot (name : DnsName) (before : Str) : name.text ≠ before ++ ['.'] := by
  intro heq
  have hvalid := name.valid
  rw [heq, isDnsName, Bool.and_eq_true, Bool.and_eq_true, List.all_eq_true] at hvalid
  exact absurd (hvalid.1.2 [] (List.mem_of_mem_tail (nil_mem_tail_splitOn before))) (by decide)

/-- The dot before the port stays. -/
theorem normalize_append_dot (before : Str) (hport : IsPort port) :
    normalize (before ++ '.' :: port) = strToAsciiLowercase before ++ ['.'] := by
  have hlower : strToAsciiLowercase (before ++ ['.']) = strToAsciiLowercase before ++ ['.'] := by
    rw [strToAsciiLowercase, List.map_append]
    rfl
  unfold normalize
  dsimp only
  obtain rfl | ⟨digits, hdigits, rfl⟩ := hport
  · split
    · rename_i name port hsplit
      -- the text ends in a dot, so what follows a colon is not digits only
      have hend := eq_of_rsplitOnce hsplit
      rw [if_neg, hlower]
      intro hdigits
      obtain ⟨hne, hall⟩ := isDigits_iff.mp hdigits
      obtain ⟨init, c, rfl⟩ := (List.eq_nil_or_concat' port).resolve_left hne
      rw [← List.cons_append, ← List.append_assoc] at hend
      have hc : c = '.' := (List.append_singleton_inj.mp hend).2.symm
      exact absurd (hall c (by simp)) (by rw [hc]; decide)
    · exact hlower
  · have hcond : (!digits.isEmpty && (asBytes digits).all isAsciiDigit) = true := hdigits
    rw [show before ++ '.' :: ':' :: digits = (before ++ ['.']) ++ ':' :: digits by simp,
      rsplitOnce_append (colon_notMem_of_isDigits hdigits)]
    simp only [hcond, if_true]
    exact hlower

/-- A request names the host when it has one `Host` header and its value is a spelling. -/
theorem requestHost_eq_iff (name : DnsName) (headers : HeaderMap) :
    requestHost headers = some name.text ↔
    ∃ value text, headers.getAll "host".toList = [value] ∧ toStr value = some text ∧
      IsSpelling text name.text := by
  unfold requestHost
  constructor
  · intro h
    split at h
    · rename_i value hvalue
      obtain ⟨text, htext, h⟩ := Option.bind_eq_some_iff.mp h
      split at h
      · cases h
      · exact ⟨value, text, hvalue, htext, (normalize_eq_iff name).mp (Option.some.inj h)⟩
    · cases h
  · intro h
    obtain ⟨value, text, hvalue, htext, hspelling⟩ := h
    have hnormal := (normalize_eq_iff name).mpr hspelling
    have hne : text.isEmpty = false := by
      rw [List.isEmpty_eq_false_iff]
      intro hnil
      rw [hnil] at hnormal
      exact name.ne_nil hnormal.symm
    simp only [hvalue, htext, Option.bind_eq_bind, Option.bind_some, hne, hnormal]
    rfl

/-- A value matches a host exactly when it is a spelling of it. So it matches no two hosts, and a
match has only ASCII characters, no user part, bracket or space, at most one port and no dot at the
end of the name. -/
theorem host_match_exact (name : DnsName) (host : Str) :
    (normalize host = name.text ↔ IsSpelling host name.text) ∧
      (∀ other : DnsName, other ≠ name →
        ¬(normalize host = name.text ∧ normalize host = other.text)) ∧
      (normalize host = name.text →
        (∀ c ∈ host, c.toNat < 0x80 ∧ c ∉ ['@', '[', ']', ' ']) ∧ host.count ':' ≤ 1 ∧
          ∀ before port, IsPort port → host ≠ before ++ '.' :: port) := by
  refine ⟨normalize_eq_iff name, ?_, ?_⟩
  · intro other hne h
    exact hne (DnsName.ext (h.2.symm.trans h.1))
  · intro h
    have hspelling := (normalize_eq_iff name).mp h
    refine ⟨?_, hspelling.count_colon name, ?_⟩
    · intro c hc
      obtain ⟨hlt, hchar⟩ := hspelling.char name hc
      refine ⟨hlt, ?_⟩
      exact of_ascii (fun c => (DnsName.isNameChar c || isAsciiUppercase c || c = ':') = true →
        c ∉ ['@', '[', ']', ' ']) (by decide) hlt hchar
    · intro before port hport hhost
      rw [hhost, normalize_append_dot before hport] at h
      exact ne_append_dot name _ h.symm

theorem host_match_exact_upper : ∃ name : DnsName, name.text = "bugs.example.net".toList ∧
    IsSpelling "Bugs.Example.NET:8080".toList name.text ∧
    "Bugs.Example.NET:8080".toList.count ':' ≤ 1 := by
  have hvalid : isDnsName "bugs.example.net".toList = true := by decide
  have hnormal : normalize "Bugs.Example.NET:8080".toList =
      "bugs.example.net".toList := by decide
  obtain ⟨hiff, -, hmatch⟩ := host_match_exact ⟨_, hvalid⟩ "Bugs.Example.NET:8080".toList
  exact ⟨⟨_, hvalid⟩, rfl, hiff.mp hnormal, (hmatch hnormal).2.1⟩

end Kohaku.Routing
