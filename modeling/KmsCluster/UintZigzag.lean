import KmsCluster.Lib.Bare
import KmsCluster.Lib.Fallible
import Mathlib.Tactic.Ring

/-!
# The vendored varint

Model of `Uint` (`vendor/uint-zigzag/src/lib.rs`), the variable-length integers of the DKG library:
128 bits in groups of seven, as `Bare.groups` writes them and `Bare.readGroups` reads them. A panic
is `none`. A reader is the bytes that are left of it; its other errors, and the operators and
conversions of `Uint`, are left out.

## Main results

- `writeLoop_eq`, `tryFromLoop_eq`: the two loops and the groups of seven bits.
- `uint_accepts`: what `try_from` accepts, and how long it is.
- `fromReader_written`: `from_reader` takes one byte more than was written, and needs it.
-/

namespace KmsCluster.UintZigzag

open Bare

/-- `Uint(u128)`. -/
abbrev Uint := BitVec 128

/-- `Uint::MAX_BYTES`. -/
def maxBytes : ℕ := 19

def invalid : String := "invalid byte sequence"

-- ════════════════════════════════════════════════════════════════════════
-- The code
-- ════════════════════════════════════════════════════════════════════════

/-- The loop of `to_bytes_with_length`, on the buffer from `i` on. -/
def writeLoop (x : Uint) : List UInt8 → Option (List UInt8 × ℕ)
  | [] => none
  | _ :: buffer =>
    if 0x80 ≤ x then
      (writeLoop (x >>> 7) buffer).map fun (bytes, i) =>
        ((UInt8.ofNat x.toNat ||| 0x80) :: bytes, i + 1)
    else some (UInt8.ofNat x.toNat :: buffer, 1)

/-- The buffer and how many of its bytes were used. -/
def toBytesWithLength (x : Uint) (buffer : List UInt8) : Option (List UInt8 × ℕ) :=
  writeLoop x buffer

def toVec (x : Uint) : Option (List UInt8) :=
  (toBytesWithLength x (List.replicate maxBytes 0)).map fun (output, i) => output.take i

/-- The loop of `try_from`, with `n` bytes to go before `MAX_BYTES`. -/
def tryFromLoop : ℕ → Uint → ℕ → List UInt8 → Except String Uint
  | 0, _, _, _ => .error invalid
  | _ + 1, _, _, [] => .error invalid
  | n + 1, x, s, b :: value =>
    if b < 0x80 then .ok (x ||| (BitVec.ofNat 128 b.toNat <<< s))
    else tryFromLoop n (x ||| (BitVec.ofNat 128 (b &&& 0x7f).toNat <<< s)) (s + 7) value

def tryFrom (value : List UInt8) : Except String Uint := tryFromLoop maxBytes 0 0 value

/-- The loop of `peek`, at `i` and with `n` bytes to go. -/
def peekLoop : ℕ → ℕ → List UInt8 → Option ℕ
  | 0, _, _ => none
  | _ + 1, _, [] => none
  | n + 1, i, b :: value => if b < 0x80 then some (i + 1) else peekLoop n (i + 1) value

/-- The number of bytes that would be read. -/
def peek (value : List UInt8) : Option ℕ := peekLoop maxBytes 0 value

/-- The loop of `from_reader`, with `n` bytes to go; `output` is what it has read so far. -/
def fromReaderLoop : ℕ → List UInt8 → List UInt8 → Except String Uint × List UInt8
  | 0, _, reader => (.error invalid, reader)
  | _ + 1, _, [] => (.error "failed to fill whole buffer", [])
  | n + 1, output, b :: reader =>
    -- the byte just read is not among those looked at
    if (peek output).isSome then (tryFrom output, reader)
    else fromReaderLoop n (output ++ [b]) reader

/-- The value, and what is left of the reader. -/
def fromReader (reader : List UInt8) : Except String Uint × List UInt8 :=
  fromReaderLoop maxBytes [] reader

-- ════════════════════════════════════════════════════════════════════════
-- Bytes of the code
-- ════════════════════════════════════════════════════════════════════════

theorem or_mark (n : ℕ) : UInt8.ofNat n ||| 0x80 = UInt8.ofNat (n % 128 + 128) := by
  have hsmall : ∀ m < 256, UInt8.ofNat m ||| 0x80 = UInt8.ofNat (m % 128 + 128) := by
    decide +kernel
  have hmod : UInt8.ofNat n = UInt8.ofNat (n % 256) := by
    apply UInt8.toNat_inj.mp
    rw [UInt8.toNat_ofNat', UInt8.toNat_ofNat', Nat.mod_mod]
  rw [hmod, hsmall _ (Nat.mod_lt _ (by decide))]
  congr 2
  omega

theorem and_low (b : UInt8) : (b &&& 0x7f).toNat = b.toNat % 128 := by
  have hsmall : ∀ m < 256, (UInt8.ofNat m &&& 0x7f).toNat = m % 128 := by
    decide +kernel
  have hb := hsmall b.toNat b.toNat_lt
  rwa [UInt8.ofNat_toNat] at hb

theorem lt_mark_iff (b : UInt8) : b < 0x80 ↔ b.toNat < 128 := UInt8.lt_iff_toNat_lt

theorem mark_le_iff (x : Uint) : 0x80 ≤ x ↔ 128 ≤ x.toNat := BitVec.le_def

/-- The bits of a byte go above those that are there. -/
theorem or_shiftLeft {x : Uint} {s : ℕ} (hx : x.toNat < 2 ^ s) (n : ℕ) :
    x ||| (BitVec.ofNat 128 n <<< s) = BitVec.ofNat 128 (x.toNat + n * 2 ^ s) := by
  have hand : x &&& (BitVec.ofNat 128 n <<< s) = 0 := by
    apply BitVec.eq_of_getLsbD_eq
    intro i hi
    by_cases hs : i < s
    · simp [hs]
    · have hbit : x.getLsbD i = false :=
        Nat.testBit_lt_two_pow (lt_of_lt_of_le hx (Nat.pow_le_pow_right (by decide) (not_lt.mp hs)))
      simp [hbit]
  rw [← BitVec.add_eq_or_of_and_eq_zero _ _ hand]
  apply BitVec.eq_of_toNat_eq
  simp [Nat.shiftLeft_eq]

-- ════════════════════════════════════════════════════════════════════════
-- The loops
-- ════════════════════════════════════════════════════════════════════════

/-- On a buffer that is long enough, the loop writes the groups of seven bits. -/
theorem writeLoop_eq {k : ℕ} {x : Uint} (hx : x.toNat < 128 ^ (k + 1)) {buffer : List UInt8}
    (hlength : (groups k x.toNat).length ≤ buffer.length) :
    writeLoop x buffer = some (groups k x.toNat ++ buffer.drop (groups k x.toNat).length,
      (groups k x.toNat).length) := by
  induction k generalizing x buffer with
  | zero =>
    cases buffer with
    | nil => simp [groups] at hlength
    | cons b buffer =>
      have hsmall : ¬ (0x80 : Uint) ≤ x := by
        rw [mark_le_iff]
        omega
      rw [writeLoop, if_neg hsmall]
      rfl
  | succ k ih =>
    cases buffer with
    | nil =>
      simp only [groups] at hlength
      split at hlength <;> simp at hlength
    | cons b buffer =>
      by_cases hsmall : x.toNat < 128
      · rw [writeLoop, if_neg (by rw [mark_le_iff]; omega)]
        simp only [groups, if_pos hsmall]
        rfl
      · have hshift : (x >>> 7).toNat = x.toNat / 128 := by
          simp [Nat.shiftRight_eq_div_pow]
        have hrest : (x >>> 7).toNat < 128 ^ (k + 1) := by
          rw [hshift, Nat.div_lt_iff_lt_mul (by decide), ← Nat.pow_succ]
          exact hx
        simp only [groups, if_neg hsmall, List.length_cons] at hlength ⊢
        rw [← hshift] at hlength ⊢
        rw [writeLoop, if_pos (by rw [mark_le_iff]; omega), ih hrest (by omega), or_mark]
        rfl

/-- `try_from` reads the groups of seven bits above the bits that it has. -/
theorem tryFromLoop_eq (n : ℕ) (value : List UInt8) : ∀ {x : Uint} {s : ℕ}, x.toNat < 2 ^ s →
    tryFromLoop n x s value = match readGroups n value with
      | some (v, _) => .ok (BitVec.ofNat 128 (x.toNat + v * 2 ^ s))
      | none => .error invalid := by
  induction n generalizing value with
  | zero =>
    intro x s _
    rfl
  | succ n ih =>
    intro x s hx
    cases value with
    | nil => rfl
    | cons b value =>
      by_cases hlast : b.toNat < 128
      · rw [tryFromLoop, if_pos ((lt_mark_iff b).mpr hlast), or_shiftLeft hx]
        simp only [readGroups, if_pos hlast]
      · have hnext := or_shiftLeft hx (b &&& 0x7f).toNat
        rw [tryFromLoop, if_neg (mt (lt_mark_iff b).mp hlast), hnext, ih, and_low]
        · simp only [readGroups, if_neg hlast]
          cases readGroups n value with
          | none => rfl
          | some result =>
            have hb : b.toNat < 256 := b.toNat_lt
            have hlow : b.toNat % 128 = b.toNat - 128 := by omega
            refine congrArg Except.ok (BitVec.eq_of_toNat_eq ?_)
            rw [BitVec.toNat_ofNat, BitVec.toNat_ofNat, BitVec.toNat_ofNat, Nat.mod_add_mod, hlow,
              pow_add]
            congr 1
            ring
        · have hlow : b.toNat % 128 ≤ 127 := by omega
          rw [and_low]
          calc (BitVec.ofNat 128 (x.toNat + b.toNat % 128 * 2 ^ s)).toNat
            _ ≤ x.toNat + b.toNat % 128 * 2 ^ s := by
              rw [BitVec.toNat_ofNat]
              exact Nat.mod_le _ _
            _ < 2 ^ s + 127 * 2 ^ s := Nat.add_lt_add_of_lt_of_le hx (Nat.mul_le_mul_right _ hlow)
            _ = 2 ^ (s + 7) := by ring

theorem peekLoop_eq (n i : ℕ) (value : List UInt8) : peekLoop n i value =
    (readGroups n value).map fun p => i + (value.length - p.2.length) := by
  induction n generalizing i value with
  | zero => rfl
  | succ n ih =>
    cases value with
    | nil => rfl
    | cons b value =>
      by_cases hlast : b.toNat < 128
      · rw [peekLoop, if_pos ((lt_mark_iff b).mpr hlast)]
        simp [readGroups, hlast]
      · rw [peekLoop, if_neg (mt (lt_mark_iff b).mp hlast), ih]
        simp only [readGroups, if_neg hlast]
        cases hread : readGroups n value with
        | none => rfl
        | some result =>
          obtain ⟨code, hvalue, -⟩ := readGroups_eq_some hread
          have hlength := congrArg List.length hvalue
          rw [List.length_append] at hlength
          simp only [Option.map_some, Option.bind_eq_bind, Option.bind_some, pure, List.length_cons,
            Option.some.injEq]
          omega

-- ════════════════════════════════════════════════════════════════════════
-- Written and read
-- ════════════════════════════════════════════════════════════════════════

theorem toNat_lt (x : Uint) : x.toNat < 128 ^ 19 := lt_trans x.isLt (by decide)

theorem length_code_le (x : Uint) : (groups 18 x.toNat).length ≤ 19 :=
  length_groups_le 18 (toNat_lt x)

theorem toVec_eq (x : Uint) : toVec x = some (groups 18 x.toNat) := by
  have hlength : (groups 18 x.toNat).length ≤ (List.replicate maxBytes (0 : UInt8)).length := by
    rw [List.length_replicate]
    exact length_code_le x
  rw [toVec, toBytesWithLength, writeLoop_eq (toNat_lt x) hlength, Option.map_some]
  exact congrArg some List.take_left

theorem tryFrom_eq (value : List UInt8) : tryFrom value =
    match readGroups 19 value with
    | some (v, _) => .ok (BitVec.ofNat 128 v)
    | none => .error invalid := by
  have hloop := tryFromLoop_eq 19 value (x := 0) (s := 0) (by decide)
  simpa [tryFrom, maxBytes] using hloop

theorem peek_eq (value : List UInt8) : peek value =
    (readGroups 19 value).map fun p => value.length - p.2.length := by
  simpa [peek, maxBytes] using peekLoop_eq 19 0 value

theorem readGroups_code (x : Uint) (rest : List UInt8) :
    readGroups 19 (groups 18 x.toNat ++ rest) = some (x.toNat, rest) :=
  reads_groups 18 x.toNat (toNat_lt x) rest

/-- What is written is read back, whatever follows. -/
theorem tryFrom_code (x : Uint) (rest : List UInt8) :
    tryFrom (groups 18 x.toNat ++ rest) = .ok x ∧
      peek (groups 18 x.toNat ++ rest) = some (groups 18 x.toNat).length := by
  rw [tryFrom_eq, peek_eq, readGroups_code]
  have hself : BitVec.ofNat 128 x.toNat = x := by simp
  exact ⟨congrArg Except.ok hself, by simp⟩

/-- For every value: it is written in 1 to 19 bytes, and read back from them, whatever follows. A
    text is accepted exactly when one of its first 19 bytes is below 0x80; then the value is never
    written in more bytes than it was read from, though the text need not be what is written. -/
theorem uint_round_trip :
    (∀ x : Uint, ∃ code, toVec x = some code ∧ 0 < code.length ∧ code.length ≤ maxBytes ∧
      ∀ rest, tryFrom (code ++ rest) = .ok x ∧ peek (code ++ rest) = some code.length) ∧
    (∀ value, (∃ x, tryFrom value = .ok x) ↔ ∃ i < maxBytes, ∃ b, value[i]? = some b ∧ b < 0x80) ∧
    ∀ value x, tryFrom value = .ok x → ∃ n code, peek value = some n ∧ toVec x = some code ∧
      code.length ≤ n := by
  refine ⟨fun x => ?_, fun value => ?_, fun value x h => ?_⟩
  · exact ⟨_, toVec_eq x, length_groups_pos 18 _, length_code_le x, tryFrom_code x⟩
  · have hsome := @readGroups_isSome_iff 19 value
    simp only [lt_mark_iff]
    refine Iff.trans ?_ hsome
    rw [tryFrom_eq]
    cases readGroups 19 value with
    | none => simp
    | some result => simp
  · rw [tryFrom_eq] at h
    cases hread : readGroups 19 value with
    | none =>
      rw [hread] at h
      cases h
    | some result =>
      rw [hread] at h
      obtain rfl := Except.ok.inj h
      obtain ⟨code, rfl, hpos, -, hvalue⟩ := readGroups_eq_some hread
      refine ⟨code.length, _, ?_, toVec_eq _, ?_⟩
      · rw [peek_eq, hread]
        simp
      · obtain ⟨m, hm⟩ := Nat.exists_eq_add_one_of_ne_zero (Nat.pos_iff_ne_zero.mp hpos)
        rw [hm] at hvalue ⊢
        refine length_groups_le 18 (lt_of_le_of_lt ?_ hvalue)
        rw [BitVec.toNat_ofNat]
        exact Nat.mod_le _ _

/-- The first bytes of a code are not enough. -/
theorem peek_take {x : Uint} {i : ℕ} (hi : i < (groups 18 x.toNat).length) :
    peek ((groups 18 x.toNat).take i) = none := by
  rw [peek_eq, Option.map_eq_none_iff]
  cases hread : readGroups 19 ((groups 18 x.toNat).take i) with
  | none => rfl
  | some result =>
    obtain ⟨n, rest⟩ := result
    have hwhole := readGroups_append hread ((groups 18 x.toNat).drop i)
    have hcode := readGroups_code x []
    rw [List.append_nil] at hcode
    rw [List.take_append_drop, hcode, Option.some.injEq, Prod.mk.injEq] at hwhole
    have hdrop := congrArg List.length (List.append_eq_nil_iff.mp hwhole.2.symm).2
    rw [List.length_drop, List.length_nil] at hdrop
    omega

/-- The loop comes to the end of the code with nothing decided. -/
theorem fromReaderLoop_code (x : Uint) (rest : List UInt8) (k : ℕ) : ∀ i,
    i + k = (groups 18 x.toNat).length →
    fromReaderLoop (19 - i) ((groups 18 x.toNat).take i) ((groups 18 x.toNat).drop i ++ rest) =
      fromReaderLoop (19 - (groups 18 x.toNat).length) (groups 18 x.toNat) rest := by
  induction k with
  | zero =>
    intro i hi
    obtain rfl : i = (groups 18 x.toNat).length := by omega
    rw [List.take_length, List.drop_length, List.nil_append]
  | succ k ih =>
    intro i hi
    have hlt : i < (groups 18 x.toNat).length := by omega
    have hle := length_code_le x
    have hfuel : 19 - i = 19 - (i + 1) + 1 := by omega
    rw [← ih (i + 1) (by omega), hfuel, List.drop_eq_getElem_cons hlt, List.cons_append,
      fromReaderLoop, peek_take hlt, List.take_succ_eq_append_getElem hlt]
    rfl

/-- What `from_reader` makes of a written value and of what follows it: it never reads back 19
    bytes, and otherwise it takes one byte more, without which it fails. -/
theorem fromReader_written (x : Uint) : ∃ code, toVec x = some code ∧ ∀ rest,
    fromReader (code ++ rest) =
      if code.length = maxBytes then (.error invalid, rest)
      else match rest with
        | [] => (.error "failed to fill whole buffer", [])
        | _ :: rest => (.ok x, rest) := by
  refine ⟨_, toVec_eq x, fun rest => ?_⟩
  have hloop := fromReaderLoop_code x rest _ 0 (Nat.zero_add _)
  rw [List.take_zero, List.drop_zero] at hloop
  rw [fromReader, maxBytes, hloop]
  split
  · next hlength => rw [hlength, Nat.sub_self, fromReaderLoop]
  · next hlength =>
    have hle := length_code_le x
    obtain ⟨m, hm⟩ : ∃ m, 19 - (groups 18 x.toNat).length = m + 1 :=
      Nat.exists_eq_add_one_of_ne_zero (by omega)
    rw [hm]
    cases rest with
    | nil => rfl
    | cons b rest =>
      obtain ⟨htry, hpeek⟩ := tryFrom_code x []
      rw [List.append_nil] at htry hpeek
      rw [fromReaderLoop, hpeek, htry]
      rfl

end KmsCluster.UintZigzag
