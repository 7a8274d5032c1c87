import Mathlib

/-!
# Texts, bytes and clock values

Rust's `str` is a sequence of Unicode scalar values, here a `List Char`; byte strings are lists
of bytes and `asBytes` is `str::as_bytes`. Times are unix seconds. The functions of this file
are the parts of the Rust standard library that the program uses on them.
-/

namespace Kohaku

/-- `str` and `String`, by characters. -/
abbrev Str := List Char

/-- `[u8]` and `Vec<u8>`. -/
abbrev Bytes := List UInt8

/-- Unix seconds. -/
abbrev Time := Int

/-- `str::as_bytes`: the UTF-8 encoding. -/
def asBytes (text : Str) : Bytes := text.flatMap String.utf8EncodeChar

theorem asBytes_injective {a b : Str} (h : asBytes a = asBytes b) : a = b := by
  apply String.ofList_injective
  rw [← String.toByteArray_inj, String.toByteArray_ofList, String.toByteArray_ofList]
  exact congrArg List.toByteArray h

/-- What `?` lets through. -/
theorem bind_eq_ok {ε α β : Type} {x : Except ε α} {f : α → Except ε β} {b : β} :
    x >>= f = .ok b ↔ ∃ a, x = .ok a ∧ f a = .ok b := by
  cases x with
  | error e =>
    constructor
    · intro h
      cases h
    · intro h
      obtain ⟨a, ha, -⟩ := h
      cases ha
  | ok a =>
    constructor
    · intro h
      exact ⟨a, rfl, h⟩
    · intro h
      obtain ⟨a', ha, h⟩ := h
      cases ha
      exact h

/-- A fallible map that does not fail is a map. -/
theorem mapM_eq_some_map {α β : Type} {f : α → Option β} {g : α → β} {xs : List α}
    (h : ∀ x ∈ xs, f x = some (g x)) : xs.mapM f = some (xs.map g) := by
  induction xs with
  | nil => rfl
  | cons x xs ih =>
    rw [List.forall_mem_cons] at h
    rw [List.mapM_cons, h.1, ih h.2, List.map_cons]
    rfl

/-- `char::is_ascii_whitespace`: space, tab, line feed, form feed, carriage return. -/
def isAsciiWhitespace (c : Char) : Bool :=
  c = ' ' || c = '\t' || c = '\n' || c.toNat = 0x0C || c = '\r'

/-- `char::is_whitespace`: the Unicode `White_Space` characters. -/
def isWhitespace (c : Char) : Bool :=
  let n := c.toNat
  (0x09 ≤ n && n ≤ 0x0D) || n = 0x20 || n = 0x85 || n = 0xA0 || n = 0x1680 ||
    (0x2000 ≤ n && n ≤ 0x200A) || n = 0x2028 || n = 0x2029 || n = 0x202F || n = 0x205F ||
    n = 0x3000

/-- `char::is_control`: general category `Cc`. -/
def isControl (c : Char) : Bool :=
  c.toNat < 0x20 || (0x7F ≤ c.toNat && c.toNat < 0xA0)

/-- `u8::is_ascii_digit`. -/
def isAsciiDigit (b : UInt8) : Bool := 0x30 ≤ b && b ≤ 0x39

/-- `char::is_ascii_uppercase`. -/
def isAsciiUppercase (c : Char) : Bool := 'A' ≤ c && c ≤ 'Z'

/-- `char::to_ascii_uppercase`. -/
def toAsciiUppercase (c : Char) : Char :=
  if 'a' ≤ c && c ≤ 'z' then Char.ofNat (c.toNat - 32) else c

/-- `char::to_ascii_lowercase`. -/
def toAsciiLowercase (c : Char) : Char :=
  if 'A' ≤ c && c ≤ 'Z' then Char.ofNat (c.toNat + 32) else c

/-- `str::trim_matches` with a character predicate. -/
def trimMatches (p : Char → Bool) (text : Str) : Str :=
  ((text.dropWhile p).reverse.dropWhile p).reverse

/-- `str::trim`. -/
def trim (text : Str) : Str := trimMatches isWhitespace text

/-- `{n:0w}`: decimal digits of an integer, filled with zeros after the sign to width `w`. -/
def padded (w : Nat) (n : Int) : Str :=
  if n < 0 then '-' :: (Nat.toDigits 10 n.natAbs).leftpad (w - 1) '0'
  else (Nat.toDigits 10 n.toNat).leftpad w '0'

/-- The low `w` bytes of `n`, most significant first. -/
def beBytes (w n : Nat) : Bytes :=
  (List.range w).reverse.map fun i => UInt8.ofNat (n / 256 ^ i)

/-- `i64::to_be_bytes`: eight bytes of the two's complement. -/
def i64BeBytes (n : Int) : Bytes := beBytes 8 (n % 2 ^ 64).toNat

/-! ## Dates -/

/-- A date and time of day, as `format_utc_minute` computes them. -/
structure UtcMinute where
  year : Int
  month : Int
  day : Int
  hour : Int
  minute : Int
  deriving DecidableEq, Repr

/-- The numbers of `format_utc_minute`: the days-to-civil computation over 400-year eras. The
source's `/` and `%` truncate, its `div_euclid` and `rem_euclid` are Lean's `/` and `%`. -/
def utcMinute (unix : Time) : UtcMinute :=
  let days := unix / 86400
  let seconds := unix % 86400
  let z := days + 719468
  let era := z / 146097
  let doe := z % 146097
  let yoe := (doe - doe.tdiv 1460 + doe.tdiv 36524 - doe.tdiv 146096).tdiv 365
  let doy := doe - (365 * yoe + yoe.tdiv 4 - yoe.tdiv 100)
  let mp := (5 * doy + 2).tdiv 153
  let day := doy - (153 * mp + 2).tdiv 5 + 1
  let month := if mp < 10 then mp + 3 else mp - 9
  let year := yoe + era * 400 + if month ≤ 2 then 1 else 0
  ⟨year, month, day, seconds.tdiv 3600, (seconds.tmod 3600).tdiv 60⟩

/-- `unix` as `YYYY-MM-DD HH:MM UTC`, the time format of mail bodies. -/
def formatUtcMinute (unix : Time) : Str :=
  let t := utcMinute unix
  padded 4 t.year ++ '-' :: padded 2 t.month ++ '-' :: padded 2 t.day ++
    ' ' :: padded 2 t.hour ++ ':' :: padded 2 t.minute ++ " UTC".toList

example : formatUtcMinute 1800000000 = "2027-01-15 08:00 UTC".toList := by decide

end Kohaku
