import KmsCluster.Crypto

/-!
# A curve interface that runs

`Blsful` over the prime field of order `2 ^ 61 - 1`, with the field itself as both groups. It
satisfies `Blsful.Lawful`, so results stated for every lawful interface can be evaluated.
-/

namespace KmsCluster

open BigEndian Fallible Interpolation

abbrev Scalar := ZMod (2 ^ 61 - 1)

instance scalarPrime : Fact (Nat.Prime (2 ^ 61 - 1)) := by
  refine ⟨?_⟩
  have h := lucas_lehmer_sufficiency 61 (by norm_num) (by norm_num)
  simpa [mersenne] using h

/-- A pair of scalars on 16 bytes. -/
def pairToBytes (a b : Scalar) : Bytes := beBytes 8 a.val ++ beBytes 8 b.val

def pairFromBytes (bytes : Bytes) : Except String (Scalar × Scalar) :=
  if bytes.length = 16 then .ok (ofBeBytes (bytes.take 8), ofBeBytes (bytes.drop 8))
  else .error "wrong length"

theorem ofBeBytes_beBytes_val (a : Scalar) : (ofBeBytes (beBytes 8 a.val) : Scalar) = a := by
  have hlt : a.val < 256 ^ 8 := lt_trans (ZMod.val_lt a) (by norm_num)
  rw [ofBeBytes_beBytes_of_lt hlt]
  exact ZMod.natCast_zmod_val a

theorem pairFromBytes_toBytes (a b : Scalar) : pairFromBytes (pairToBytes a b) = .ok (a, b) := by
  simp [pairFromBytes, pairToBytes, ofBeBytes_beBytes_val]

def scalarBlsful : Blsful Scalar Scalar Scalar where
  generator := 1
  hashToCurve msg := ofBeBytes msg
  shareInto s := pairToBytes s.identifier s.value
  shareTryFrom bytes := (pairFromBytes bytes).map fun p => ⟨p.1, p.2⟩
  partialInto s := pairToBytes s.identifier s.value
  partialTryFrom bytes := (pairFromBytes bytes).map fun p => ⟨p.1, p.2⟩
  pubkeyToBytes pk := beBytes 8 pk.val
  pubkeyTryFrom bytes :=
    if bytes.length = 8 then .ok (ofBeBytes bytes) else .error "wrong length"
  sign s msg := .ok ⟨s.identifier, s.value * ofBeBytes msg⟩
  fromShares ps :=
    if 2 ≤ ps.length ∧ (ps.map (·.identifier)).Nodup then
      .ok (atZero (ps.map fun p => (p.identifier, p.value)))
    else .error "not enough distinct shares"
  verify sigma pk msg := ensure (sigma = pk * ofBeBytes msg) "invalid signature"
  sigmaInto sigma := beBytes 8 sigma.val
  hkdf ikm info := ikm ++ info

theorem scalarBlsful_lawful : scalarBlsful.Lawful where
  shareTryFrom_into s := by simp [scalarBlsful, pairFromBytes_toBytes, Except.map]
  partialTryFrom_into s := by simp [scalarBlsful, pairFromBytes_toBytes, Except.map]
  pubkeyTryFrom_toBytes pk := by simp [scalarBlsful, ofBeBytes_beBytes_val]
  sign_eq s msg := rfl
  fromShares_eq ps hlen hnodup := if_pos ⟨hlen, hnodup⟩
  verify_iff s sigma msg := by
    have hone : s • scalarBlsful.generator = s := mul_one s
    rw [hone]
    exact ensure_eq_ok
  cast_inj i j hi hj h := by
    have hval := congrArg ZMod.val h
    rwa [ZMod.val_natCast_of_lt (lt_trans hi (by norm_num)),
      ZMod.val_natCast_of_lt (lt_trans hj (by norm_num))] at hval

end KmsCluster
