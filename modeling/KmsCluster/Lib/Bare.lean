import Mathlib.Algebra.Group.Nat.Even

/-!
# BARE messages

The parts of the BARE message encoding that records of integers and byte strings are made of: fixed
integers, least significant byte first; `uint`, seven bits a byte with a mark on every byte but the
last; and data behind its length. A reader returns the value at the front of a message and the
bytes after it.

## Main results

- `Reads`: a reader gives back what was written, and leaves what follows.
- `reads_fixed`, `reads_uint`, `reads_data`: the three kinds of field.
- `readGroups_eq_some`, `length_groups_le`: how long a code is that is read or written.
- `readGroups_isSome_iff`: what is read at all.
-/

namespace Bare

/-- Whatever follows, the reader finds the value that was written. -/
def Reads {α : Type*} (P : α → Prop) (write : α → List UInt8)
    (read : List UInt8 → Option (α × List UInt8)) : Prop :=
  ∀ a, P a → ∀ rest, read (write a ++ rest) = some (a, rest)

/-- `n` on `w` bytes. -/
def fixed : ℕ → ℕ → List UInt8
  | 0, _ => []
  | w + 1, n => UInt8.ofNat n :: fixed w (n / 256)

def readFixed : ℕ → List UInt8 → Option (ℕ × List UInt8)
  | 0, bytes => some (0, bytes)
  | _ + 1, [] => none
  | w + 1, b :: bytes => do
    let (n, rest) ← readFixed w bytes
    return (b.toNat + 256 * n, rest)

theorem reads_fixed (w : ℕ) : Reads (· < 256 ^ w) (fixed w) (readFixed w) := by
  induction w with
  | zero =>
    intro n hn rest
    obtain rfl : n = 0 := by simpa using hn
    rfl
  | succ w ih =>
    intro n hn rest
    have hdiv : n / 256 < 256 ^ w := by
      rw [Nat.div_lt_iff_lt_mul (by decide), ← Nat.pow_succ]
      exact hn
    have hbyte : (UInt8.ofNat n).toNat + 256 * (n / 256) = n := by
      rw [UInt8.toNat_ofNat']
      omega
    simp only [fixed, List.cons_append, readFixed, ih _ hdiv rest, Option.bind_eq_bind,
      Option.bind_some, hbyte]
    rfl

/-- `n` in groups of seven bits, on at most `k + 1` bytes. -/
def groups : ℕ → ℕ → List UInt8
  | 0, n => [UInt8.ofNat n]
  | k + 1, n =>
    if n < 128 then [UInt8.ofNat n] else UInt8.ofNat (n % 128 + 128) :: groups k (n / 128)

def readGroups : ℕ → List UInt8 → Option (ℕ × List UInt8)
  | 0, _ => none
  | _ + 1, [] => none
  | k + 1, b :: bytes =>
    if b.toNat < 128 then some (b.toNat, bytes)
    else do
      let (n, rest) ← readGroups k bytes
      return (b.toNat - 128 + 128 * n, rest)

theorem readGroups_small {n : ℕ} (h : n < 128) (k : ℕ) (rest : List UInt8) :
    readGroups (k + 1) (UInt8.ofNat n :: rest) = some (n, rest) := by
  have hbyte : (UInt8.ofNat n).toNat = n := by
    rw [UInt8.toNat_ofNat']
    omega
  simp only [readGroups, hbyte, if_pos h]

theorem reads_groups (k : ℕ) : Reads (· < 128 ^ (k + 1)) (groups k) (readGroups (k + 1)) := by
  induction k with
  | zero =>
    intro n hn rest
    exact readGroups_small (by simpa using hn) 0 rest
  | succ k ih =>
    intro n hn rest
    by_cases hsmall : n < 128
    · simp only [groups, if_pos hsmall]
      exact readGroups_small hsmall (k + 1) rest
    · have hdiv : n / 128 < 128 ^ (k + 1) := by
        rw [Nat.div_lt_iff_lt_mul (by decide), ← Nat.pow_succ]
        exact hn
      have hbyte : (UInt8.ofNat (n % 128 + 128)).toNat = n % 128 + 128 := by
        rw [UInt8.toNat_ofNat']
        omega
      have hsum : n % 128 + 128 - 128 + 128 * (n / 128) = n := by omega
      simp only [groups, if_neg hsmall, List.cons_append, readGroups, hbyte, ih _ hdiv rest,
        Option.bind_eq_bind, Option.bind_some, hsum]
      rw [if_neg (by omega)]
      rfl

theorem length_groups_pos (k n : ℕ) : 0 < (groups k n).length := by
  cases k with
  | zero => exact Nat.one_pos
  | succ k =>
    unfold groups
    split
    · exact Nat.one_pos
    · exact Nat.succ_pos _

/-- A number takes no more bytes than it has groups. -/
theorem length_groups_le (k : ℕ) {m : ℕ} : ∀ {n : ℕ}, n < 128 ^ (m + 1) →
    (groups k n).length ≤ m + 1 := by
  induction k generalizing m with
  | zero =>
    intro n _
    exact Nat.succ_le_succ (Nat.zero_le m)
  | succ k ih =>
    intro n hn
    unfold groups
    split
    · exact Nat.succ_le_succ (Nat.zero_le m)
    · next hlarge =>
      cases m with
      | zero => exact absurd (by simpa using hn) hlarge
      | succ m =>
        have hdiv : n / 128 < 128 ^ (m + 1) := by
          rw [Nat.div_lt_iff_lt_mul (by decide), ← Nat.pow_succ]
          exact hn
        exact Nat.succ_le_succ (ih hdiv)

/-- What is read stands at the front, and is no larger than its bytes allow. -/
theorem readGroups_eq_some {k : ℕ} {bytes : List UInt8} : ∀ {n : ℕ} {rest : List UInt8},
    readGroups k bytes = some (n, rest) → ∃ code, bytes = code ++ rest ∧ 0 < code.length ∧
      code.length ≤ k ∧ n < 128 ^ code.length := by
  induction k generalizing bytes with
  | zero =>
    intro n rest h
    cases h
  | succ k ih =>
    intro n rest h
    cases bytes with
    | nil => cases h
    | cons b bytes =>
      unfold readGroups at h
      split at h
      · next hlast =>
        cases h
        exact ⟨[b], rfl, Nat.one_pos, Nat.succ_le_succ (Nat.zero_le k), by simpa using hlast⟩
      · cases hread : readGroups k bytes with
        | none =>
          rw [hread] at h
          cases h
        | some result =>
          obtain ⟨m, rest'⟩ := result
          rw [hread] at h
          cases h
          obtain ⟨code, rfl, -, hle, hm⟩ := ih hread
          have hb : b.toNat < 256 := b.toNat_lt
          refine ⟨b :: code, rfl, Nat.succ_pos _, Nat.succ_le_succ hle, ?_⟩
          rw [List.length_cons, Nat.pow_succ]
          omega

/-- What follows the bytes of a number does not matter. -/
theorem readGroups_append {k : ℕ} {bytes : List UInt8} : ∀ {n : ℕ} {rest : List UInt8},
    readGroups k bytes = some (n, rest) → ∀ more, readGroups k (bytes ++ more) =
      some (n, rest ++ more) := by
  induction k generalizing bytes with
  | zero =>
    intro n rest h
    cases h
  | succ k ih =>
    intro n rest h more
    cases bytes with
    | nil => cases h
    | cons b bytes =>
      unfold readGroups at h
      split at h
      · next hlast =>
        cases h
        simp only [List.cons_append, readGroups, if_pos hlast]
      · next hmore =>
        cases hread : readGroups k bytes with
        | none =>
          rw [hread] at h
          cases h
        | some result =>
          rw [hread] at h
          cases h
          simp only [List.cons_append, readGroups, if_neg hmore, ih hread more]
          rfl

/-- Something is read exactly when one of the bytes is without a mark. -/
theorem readGroups_isSome_iff {k : ℕ} {bytes : List UInt8} : (readGroups k bytes).isSome ↔
    ∃ i < k, ∃ b, bytes[i]? = some b ∧ b.toNat < 128 := by
  induction k generalizing bytes with
  | zero => simp [readGroups]
  | succ k ih =>
    cases bytes with
    | nil => simp [readGroups]
    | cons b bytes =>
      by_cases hlast : b.toNat < 128
      · simp only [readGroups, if_pos hlast, Option.isSome_some, true_iff]
        exact ⟨0, Nat.succ_pos k, b, rfl, hlast⟩
      · have hrest : (readGroups (k + 1) (b :: bytes)).isSome ↔ (readGroups k bytes).isSome := by
          simp only [readGroups, if_neg hlast]
          cases readGroups k bytes with
          | none => rfl
          | some result => rfl
        rw [hrest, ih]
        constructor
        · rintro ⟨i, hi, c, hc, hsmall⟩
          exact ⟨i + 1, Nat.succ_lt_succ hi, c, hc, hsmall⟩
        · rintro ⟨i, hi, c, hc, hsmall⟩
          cases i with
          | zero =>
            cases hc
            exact absurd hsmall hlast
          | succ i => exact ⟨i, Nat.lt_of_succ_lt_succ hi, c, hc, hsmall⟩

/-- The type `uint`, of 64 bits. -/
def uint (n : ℕ) : List UInt8 := groups 9 n

def readUint (bytes : List UInt8) : Option (ℕ × List UInt8) :=
  (readGroups 10 bytes).filter fun p => decide (p.1 < 2 ^ 64)

theorem reads_uint : Reads (· < 2 ^ 64) uint readUint := by
  intro n hn rest
  have hgroups : n < 128 ^ (9 + 1) := Nat.lt_of_lt_of_le hn (by decide)
  rw [readUint, uint, reads_groups 9 n hgroups rest]
  simpa using hn

/-- The type `data`. -/
def data (bytes : List UInt8) : List UInt8 := uint bytes.length ++ bytes

def readData (bytes : List UInt8) : Option (List UInt8 × List UInt8) := do
  let (n, rest) ← readUint bytes
  if n ≤ rest.length then some (rest.take n, rest.drop n) else none

theorem reads_data : Reads (fun bytes => bytes.length < 2 ^ 64) data readData := by
  intro bytes hbytes rest
  rw [readData, data, List.append_assoc, reads_uint _ hbytes]
  simp

end Bare
