import Mathlib.Data.Nat.Basic
import Mathlib.Tactic.Ring

/-!
# Fixed-width big-endian integers

`beBytes w n` writes `n` on `w` bytes, most significant first, and wraps as the conversion of a
wider integer does. `ofBeBytes` reads a byte string back.
-/

namespace BigEndian

/-- The `w` low bytes of `n`, most significant first. -/
def beBytes : ℕ → ℕ → List UInt8
  | 0, _ => []
  | w + 1, n => beBytes w (n / 256) ++ [UInt8.ofNat n]

/-- The number a byte string spells in base 256. -/
def ofBeBytes (bs : List UInt8) : ℕ := bs.foldl (fun acc b => acc * 256 + b.toNat) 0

@[simp] theorem length_beBytes (w n : ℕ) : (beBytes w n).length = w := by
  induction w generalizing n with
  | zero => rfl
  | succ w ih => simp [beBytes, ih]

theorem ofBeBytes_concat (bs : List UInt8) (b : UInt8) :
    ofBeBytes (bs ++ [b]) = ofBeBytes bs * 256 + b.toNat := by
  simp [ofBeBytes]

theorem ofBeBytes_beBytes (w n : ℕ) : ofBeBytes (beBytes w n) = n % 256 ^ w := by
  induction w generalizing n with
  | zero => simp [beBytes, ofBeBytes, Nat.mod_one]
  | succ w ih =>
    have hbyte : (UInt8.ofNat n).toNat = n % 256 := by simp
    rw [beBytes, ofBeBytes_concat, ih, hbyte, pow_succ, mul_comm (256 ^ w) 256, Nat.mod_mul]
    ring

theorem ofBeBytes_beBytes_of_lt {w n : ℕ} (h : n < 256 ^ w) : ofBeBytes (beBytes w n) = n := by
  rw [ofBeBytes_beBytes, Nat.mod_eq_of_lt h]

end BigEndian
