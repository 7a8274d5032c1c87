import Kohaku.Projects.Store

/-!
# Hosts and the host map

How a `Host` value is normalized, what a host maps to, and how the map is built from the `projects`
table. `get_load` and `domain_load` say what a loaded map answers; for hosts and slugs that are
unique the order of the rows does not matter.
-/

namespace Kohaku.Routing

open Projects

/-- `str::rsplit_once`. -/
def rsplitOnce (sep : Char) (text : Str) : Option (Str × Str) :=
  let after := text.reverse.takeWhile (· ≠ sep)
  match text.reverse.dropWhile (· ≠ sep) with
  | [] => none
  | _ :: before => some (before.reverse, after.reverse)

/-- A host name normalized the way `Host` is: one trailing `:` plus digits removed, ASCII letters
lowercased, nothing else. -/
def normalize (host : Str) : Str :=
  let withoutPort :=
    match rsplitOnce ':' host with
    | some (name, port) =>
      if !port.isEmpty && (asBytes port).all isAsciiDigit then name else host
    | none => host
  strToAsciiLowercase withoutPort

example : normalize "Kohaku.Example.ORG:8080".toList =
    "kohaku.example.org".toList := by decide

/-- Headers in the order they came; names are lowercase. -/
abbrev HeaderMap := List (Str × Bytes)

/-- `HeaderMap::get_all`. -/
def HeaderMap.getAll (headers : HeaderMap) (name : Str) : List Bytes :=
  (headers.filter fun h => h.1 = name).map Prod.snd

/-- The bytes that `HeaderValue::to_str` takes. -/
def isVisibleAscii (b : UInt8) : Bool := (0x20 ≤ b && b < 0x7F) || b = 0x09

/-- `HeaderValue::to_str`. -/
def toStr (value : Bytes) : Option Str :=
  if value.all isVisibleAscii then some (value.map fun b => Char.ofNat b.toNat) else none

/-- The normalized request host from exactly one non-empty `Host` header. -/
def requestHost (headers : HeaderMap) : Option Str :=
  match headers.getAll "host".toList with
  | [value] => do
    let text ← toStr value
    if text.isEmpty then none else some (normalize text)
  | _ => none

/-- What a host maps to. -/
inductive HostEntry
  | main
  | project (id : Nat)
  deriving DecidableEq, Repr

/-- Normalized host to entry, and slug to custom domain. -/
structure HostMap where
  entries : AList fun _ : Str => HostEntry
  domains : AList fun _ : Str => Str

namespace HostMap

/-- The main host alone. -/
def new (base : BaseUrl) : HostMap where
  entries := (∅ : AList fun _ : Str => HostEntry).insert base.host.text .main
  domains := ∅

/-- Adds a project host. -/
def withProject (map : HostMap) (host : Str) (project : Nat) : HostMap :=
  { map with entries := map.entries.insert host (.project project) }

/-- Adds the custom domain of the project with the slug. -/
def withDomain (map : HostMap) (slug host : Str) : HostMap :=
  { map with domains := map.domains.insert slug host }

/-- `HostMap::get`. -/
def get (map : HostMap) (host : Str) : Option HostEntry := map.entries.lookup host

/-- The custom domain of the project with the slug, if it has one. -/
def domain (map : HostMap) (slug : Str) : Option Str := map.domains.lookup slug

end HostMap

/-- One row of the query in `load`. -/
def addRow (map : HostMap) (p : ProjectRow) : HostMap :=
  match p.host with
  | none => map
  | some host => (map.withProject host p.id).withDomain p.slug host

/-- The map of the main host and every project with a custom domain. -/
def load (rows : List ProjectRow) (base : BaseUrl) : HostMap := rows.foldl addRow (.new base)

/-! ## What a loaded map answers -/

variable {rows : List ProjectRow} {base : BaseUrl} {host slug : Str} {map : HostMap}
  {p : ProjectRow}

theorem get_new : (HostMap.new base).get host = if host = base.host.text then some .main
    else none := by
  unfold HostMap.get HostMap.new
  split
  case isTrue h => rw [h, AList.lookup_insert]
  case isFalse h => rw [AList.lookup_insert_ne h, AList.lookup_empty]

theorem get_addRow : (addRow map p).get host =
    if p.host = some host then some (.project p.id) else map.get host := by
  unfold addRow
  cases hp : p.host with
  | none => simp
  | some h =>
    by_cases hh : host = h
    · subst hh
      simp [HostMap.get, HostMap.withProject, HostMap.withDomain]
    · simp [HostMap.get, HostMap.withProject, HostMap.withDomain,
        AList.lookup_insert_ne hh, Ne.symm hh]

theorem domain_addRow : (addRow map p).domain slug =
    if p.host.isSome ∧ p.slug = slug then p.host else map.domain slug := by
  unfold addRow
  cases hp : p.host with
  | none => simp
  | some h =>
    by_cases hh : slug = p.slug
    · subst hh
      simp [HostMap.domain, HostMap.withProject, HostMap.withDomain]
    · simp [HostMap.domain, HostMap.withProject, HostMap.withDomain,
        AList.lookup_insert_ne hh, Ne.symm hh]

/-- A host is mapped to a project that has it, else to the main router if it is the main host. -/
theorem get_load (rows : List ProjectRow) (base : BaseUrl) (host : Str) :
    (∃ p ∈ rows, p.host = some host ∧ (load rows base).get host = some (.project p.id)) ∨
    (∀ p ∈ rows, p.host ≠ some host) ∧
      (load rows base).get host = if host = base.host.text then some .main else none := by
  induction rows using List.reverseRecOn with
  | nil =>
    refine .inr ⟨by simp, ?_⟩
    exact get_new
  | append_singleton rows p ih =>
    rw [load, List.foldl_append, List.foldl_cons, List.foldl_nil, get_addRow]
    by_cases hp : p.host = some host
    · exact .inl ⟨p, by simp, hp, if_pos hp⟩
    · rw [if_neg hp]
      rcases ih with ⟨q, hq, hhost, hget⟩ | ⟨hnone, hget⟩
      · exact .inl ⟨q, by simp [hq], hhost, hget⟩
      · refine .inr ⟨fun q hq => ?_, hget⟩
        rcases List.mem_append.mp hq with hq | hq
        · exact hnone q hq
        · rw [List.mem_singleton.mp hq]
          exact hp

/-- A slug is mapped to the domain of a project that has both. -/
theorem domain_load (rows : List ProjectRow) (base : BaseUrl) (slug : Str) :
    (∃ p ∈ rows, p.slug = slug ∧ p.host.isSome = true ∧
      (load rows base).domain slug = p.host) ∨
    (∀ p ∈ rows, p.slug = slug → p.host = none) ∧ (load rows base).domain slug = none := by
  induction rows using List.reverseRecOn with
  | nil =>
    refine .inr ⟨by simp, ?_⟩
    exact AList.lookup_empty _
  | append_singleton rows p ih =>
    rw [load, List.foldl_append, List.foldl_cons, List.foldl_nil, domain_addRow]
    by_cases hp : p.host.isSome = true ∧ p.slug = slug
    · exact .inl ⟨p, by simp, hp.2, hp.1, if_pos hp⟩
    · rw [if_neg hp]
      rcases ih with ⟨q, hq, hslug, hhost, hget⟩ | ⟨hnone, hget⟩
      · exact .inl ⟨q, by simp [hq], hslug, hhost, hget⟩
      · refine .inr ⟨fun q hq hslug => ?_, hget⟩
        rcases List.mem_append.mp hq with hq | hq
        · exact hnone q hq hslug
        · rw [List.mem_singleton.mp hq] at hslug ⊢
          rw [← Option.not_isSome_iff_eq_none]
          exact fun hsome => hp ⟨hsome, hslug⟩

/-! ## Normalization -/

theorem rsplitOnce_of_notMem {sep : Char} {text : Str} (h : sep ∉ text) :
    rsplitOnce sep text = none := by
  have hnil : text.reverse.dropWhile (· ≠ sep) = [] := by
    rw [List.dropWhile_eq_nil_iff]
    intro c hc
    rw [List.mem_reverse] at hc
    exact decide_eq_true fun heq => h (heq ▸ hc)
  unfold rsplitOnce
  rw [hnil]

/-- A DNS name is its own normal form. -/
theorem normalize_dnsName (name : DnsName) : normalize name.text = name.text := by
  have hchar : ∀ c ∈ name.text, c ≠ ':' ∧ isAsciiUppercase c = false := by
    intro c hc
    obtain ⟨hlt, hname⟩ := name.isNameChar_of_mem hc
    exact of_ascii (fun c => DnsName.isNameChar c = true → c ≠ ':' ∧ isAsciiUppercase c = false)
      (by decide) hlt hname
  have hcolon : ':' ∉ name.text := fun h => (hchar _ h).1 rfl
  unfold normalize
  rw [rsplitOnce_of_notMem hcolon]
  exact strToAsciiLowercase_eq_self fun c hc => (hchar c hc).2

end Kohaku.Routing
