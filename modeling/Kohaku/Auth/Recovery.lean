import Kohaku.Db
import Kohaku.Keys
import Kohaku.Auth.Base32

/-!
# Recovery codes

Ten per enrollment or regeneration, stored as SHA-256 only. The random bytes are drawn by the
caller; `replace` fails when they run out before ten different codes were stored, as the source
does when the random source fails.
-/

namespace Kohaku

open Sql

namespace Recovery

/-- Codes per enrollment or regeneration. -/
def count : Nat := 10

/-- Base32 characters of a code. -/
def length : Nat := 16

/-- Typed input as a code: uppercased, `-` and spaces removed, then exactly 16 base32
characters. -/
def normalize (input : Str) : Option Str :=
  let code := (input.filter fun c => c ≠ '-' && c ≠ ' ').map toAsciiUppercase
  if code.length = length && code.all isBase32 then some code else none

/-- The stored row of a code. -/
def row (A : App) (userId : Nat) (code : Str) : RecoveryRow := ⟨userId, A.sha256 (asBytes code)⟩

/-- The loop of `replace`: draws until ten codes are stored, a repeated one is drawn again. -/
def replaceLoop (A : App) (userId : Nat) : List (Vector UInt8 10) →
    Table RecoveryRow RecoveryRow.key → List Str →
    Option (List Str × Table RecoveryRow RecoveryRow.key)
  | [], t, codes => if codes.length < count then none else some (codes, t)
  | bytes :: draws, t, codes =>
    if codes.length < count then
      let code := base32 bytes.toList
      match t.insertOrIgnore (row A userId code) with
      | (t, true) => replaceLoop A userId draws t (codes ++ [code])
      | (t, false) => replaceLoop A userId draws t codes
    else some (codes, t)

/-- Replaces every code of `userId` with ten new ones. -/
def replace (A : App) (db : Db) (userId : Nat) (draws : List (Vector UInt8 10)) :
    Option (List Str × Db) := do
  let (codes, t) ←
    replaceLoop A userId draws (db.recoveryCodes.delete fun r => r.userId = userId) []
  return (codes, { db with recoveryCodes := t })

/-- Consumes `code` (normalized) of `userId` by one conditional delete. -/
def consume (A : App) (db : Db) (userId : Nat) (code : Str) : Bool × Db :=
  let p := fun r : RecoveryRow => r.userId = userId && r.codeHash = A.sha256 (asBytes code)
  (db.recoveryCodes.any p, { db with recoveryCodes := db.recoveryCodes.delete p })

/-- The texts that are recovery codes. -/
def IsRecoveryCode (code : Str) : Prop := code.length = length ∧ ∀ c ∈ code, isBase32 c = true

theorem normalize_isRecoveryCode {input c : Str} (h : normalize input = some c) :
    IsRecoveryCode c := by
  simp only [normalize] at h
  split at h
  · rename_i hc
    cases h
    rw [Bool.and_eq_true, decide_eq_true_eq, List.all_eq_true] at hc
    exact hc
  · cases h

theorem base32_isRecoveryCode (bytes : Vector UInt8 10) : IsRecoveryCode (base32 bytes.toList) := by
  obtain ⟨hlen, hall⟩ := base32_shape bytes.toList
  refine ⟨?_, hall⟩
  rw [hlen, Vector.length_toList]
  rfl

/-! ## What `replace` stores -/

variable {A : App} {userId : Nat}

/-- The loop adds exactly the rows of the codes it returns beyond those it started with, and makes
those from its draws. -/
theorem replaceLoop_spec {draws : List (Vector UInt8 10)} {t t' : Table RecoveryRow RecoveryRow.key}
    {codes codes' : List Str} (h : replaceLoop A userId draws t codes = some (codes', t'))
    (hlen : codes.length ≤ count) :
    codes'.length = count ∧ ∃ new, codes' = codes ++ new ∧
      (∀ c ∈ new, ∃ bytes ∈ draws, c = base32 bytes.toList) ∧
      t'.rows = t.rows ++ new.map (row A userId) := by
  induction draws generalizing t codes with
  | nil =>
    simp only [replaceLoop] at h
    split at h
    · cases h
    · cases h
      exact ⟨by omega, [], by simp⟩
  | cons bytes draws ih =>
    have hlater : ∀ {c}, (∃ b ∈ draws, c = base32 b.toList) → ∃ b ∈ bytes :: draws, c =
        base32 b.toList :=
      fun ⟨b, hb, hc⟩ => ⟨b, List.mem_cons_of_mem _ hb, hc⟩
    simp only [replaceLoop] at h
    split at h
    · rename_i hlt
      rcases t.insertOrIgnore_cases (row A userId (base32 bytes.toList)) with ⟨hf, he⟩ | ⟨he, _⟩
      · rw [he] at h
        obtain ⟨hl, new, rfl, hall, hrows⟩ := ih h (by rw [List.length_append]; exact hlt)
        refine ⟨hl, base32 bytes.toList :: new, by simp, ?_, ?_⟩
        · intro c hc
          rcases List.mem_cons.mp hc with rfl | hc
          · exact ⟨bytes, List.mem_cons_self, rfl⟩
          · exact hlater (hall c hc)
        · rw [hrows]
          simp [Table.insert]
      · rw [he] at h
        obtain ⟨hl, new, hnew, hall, hrows⟩ := ih h hlen
        exact ⟨hl, new, hnew, fun c hc => hlater (hall c hc), hrows⟩
    · cases h
      exact ⟨by omega, [], by simp⟩

/-- After `replace` the account's rows are those of the ten codes returned, which are made from the
draws, and no other account's rows changed. -/
theorem replace_draws {db db' : Db} {draws : List (Vector UInt8 10)} {codes : List Str}
    (h : replace A db userId draws = some (codes, db')) :
    codes.length = count ∧ (∀ c ∈ codes, ∃ bytes ∈ draws, c = base32 bytes.toList) ∧
      db' = { db with recoveryCodes := db'.recoveryCodes } ∧
      db'.recoveryCodes.rows =
        (db.recoveryCodes.delete fun r => r.userId = userId).rows ++ codes.map (row A userId) := by
  simp only [replace, Option.bind_eq_bind, Option.bind_eq_some_iff, Option.pure_def,
    Option.some.injEq, Prod.mk.injEq] at h
  obtain ⟨⟨codes', t⟩, hloop, rfl, rfl⟩ := h
  obtain ⟨hlen, new, hnew, hall, hrows⟩ := replaceLoop_spec hloop (by simp)
  rw [List.nil_append] at hnew
  subst hnew
  exact ⟨hlen, hall, rfl, hrows⟩

theorem replace_spec {db db' : Db} {draws : List (Vector UInt8 10)} {codes : List Str}
    (h : replace A db userId draws = some (codes, db')) :
    codes.length = count ∧ (∀ c ∈ codes, IsRecoveryCode c) ∧
      db' = { db with recoveryCodes := db'.recoveryCodes } ∧
      db'.recoveryCodes.rows =
        (db.recoveryCodes.delete fun r => r.userId = userId).rows ++ codes.map (row A userId) := by
  obtain ⟨hlen, hall, hdb, hrows⟩ := replace_draws h
  refine ⟨hlen, fun c hc => ?_, hdb, hrows⟩
  obtain ⟨bytes, -, rfl⟩ := hall c hc
  exact base32_isRecoveryCode bytes

/-! ## What `consume` does -/

theorem consume_false {db db' : Db} {code : Str} (h : consume A db userId code = (false, db')) :
    db' = db := by
  obtain ⟨hany, rfl⟩ := Prod.mk.inj h
  rw [Table.delete_eq_self (Table.any_eq_false.mp hany)]

/-- The conditional delete is that of the code's row. -/
theorem consume_eq (A : App) (db : Db) (userId : Nat) (code : Str) : consume A db userId code =
    (db.recoveryCodes.any fun r => r = row A userId code,
      { db with recoveryCodes := db.recoveryCodes.delete fun r => r = row A userId code }) := by
  have hsame : (fun r : RecoveryRow => decide (r.userId = userId) &&
      decide (r.codeHash = A.sha256 (asBytes code))) = fun r => decide (r = row A userId code) := by
    funext r
    cases r
    simp [row]
  simp only [consume, hsame]

/-- A consumed code was stored, and only its row is deleted. -/
theorem consume_true {db db' : Db} {code : Str} (h : consume A db userId code = (true, db')) :
    row A userId code ∈ db.recoveryCodes ∧
      db' = { db with
        recoveryCodes := db.recoveryCodes.delete fun r => r = row A userId code } := by
  rw [consume_eq, Prod.mk.injEq] at h
  obtain ⟨hany, rfl⟩ := h
  obtain ⟨r, hr, hp⟩ := Table.any_eq_true.mp hany
  rw [decide_eq_true_eq] at hp
  exact ⟨hp ▸ hr, rfl⟩

/-- A stored code is consumed. -/
theorem consume_of_mem {db : Db} {code : Str} (h : row A userId code ∈ db.recoveryCodes) :
    consume A db userId code =
      (true, { db with
        recoveryCodes := db.recoveryCodes.delete fun r => r = row A userId code }) := by
  rw [consume_eq, Table.any_eq_true.mpr ⟨_, h, decide_eq_true rfl⟩]

end Recovery

end Kohaku
