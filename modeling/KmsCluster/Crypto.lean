import KmsCluster.Lib.BigEndian
import KmsCluster.Lib.Fallible
import KmsCluster.Lib.Interpolation
import Mathlib.NumberTheory.LucasLehmer
import Mathlib.FieldTheory.Finite.Basic

/-!
# Threshold-BLS derivation

Model of `src/crypto.rs`. The curve operations come from `blsful` and the KDF from `hkdf`;
they are the parameter `Blsful`, and `Blsful.Lawful` names what the node relies on.

## Main definitions

- `dprfMessage`, `dprfPartial`, `dprfSigma`, `dprfVerify`, `sigmaToAppKey`: the derivation.
- `gennaroShareToBlsful`, `blsfulShareScalar`: the bridge between the two share formats.
-/

namespace KmsCluster

open BigEndian Fallible Interpolation

abbrev Bytes := List UInt8

/-- `str::as_bytes`. -/
def utf8 (s : String) : Bytes := s.toUTF8.data.toList

/-- A share of the master: `DefaultShare { identifier, value }` over the scalar field. -/
structure SecretKeyShare (F : Type) where
  identifier : F
  value : F
  deriving DecidableEq

/-- A share's signature on a message. -/
structure SignatureShare (F G₂ : Type) where
  identifier : F
  value : G₂
  deriving DecidableEq

/-- What the node calls of `blsful` (over the scalar field `F`, with public keys in `G₁` and
    signatures in `G₂`) and of `hkdf`. -/
structure Blsful (F G₁ G₂ : Type) where
  generator : G₁
  hashToCurve : Bytes → G₂
  shareInto : SecretKeyShare F → Bytes
  shareTryFrom : Bytes → Except String (SecretKeyShare F)
  partialInto : SignatureShare F G₂ → Bytes
  partialTryFrom : Bytes → Except String (SignatureShare F G₂)
  pubkeyToBytes : G₁ → Bytes
  pubkeyTryFrom : Bytes → Except String G₁
  sign : SecretKeyShare F → Bytes → Except String (SignatureShare F G₂)
  fromShares : List (SignatureShare F G₂) → Except String G₂
  verify : G₂ → G₁ → Bytes → Except String Unit
  sigmaInto : G₂ → Bytes
  hkdf : Bytes → Bytes → Bytes

-- ════════════════════════════════════════════════════════════════════════
-- Derivation
-- ════════════════════════════════════════════════════════════════════════

/-- Domain separation tag of the derivation message. -/
def dprfDst : Bytes := utf8 "0g-kms:dprf:v1"

/-- HKDF `info` of the 32-byte app key. -/
def kdfDst : Bytes := utf8 "0g-kms:dprf-kdf:v2"

/-- Canonical derivation message of an app id and its material, both length-prefixed. -/
def dprfMessage (appId : String) (material : Bytes) : Bytes :=
  dprfDst ++ beBytes 8 (utf8 appId).length ++ utf8 appId ++
    beBytes 8 material.length ++ material

section Functions

variable {F G₁ G₂ : Type} (B : Blsful F G₁ G₂)

/-- One node's evaluation `f(i) • H(msg)`. -/
def dprfPartial (share : SecretKeyShare F) (msg : Bytes) : Except String (SignatureShare F G₂) :=
  (B.sign share msg).mapError ("partial sign failed: " ++ ·)

/-- In-group interpolation of the partials. -/
def dprfSigma (partials : List (SignatureShare F G₂)) : Except String G₂ :=
  (B.fromShares partials).mapError ("partial combine failed: " ++ ·)

/-- Check a combined `σ` against the stored group public key. -/
def dprfVerify (sigma : G₂) (groupPubkey msg : Bytes) : Except String Unit := do
  let pk ← (B.pubkeyTryFrom groupPubkey).mapError ("invalid group public key: " ++ ·)
  (B.verify sigma pk msg).mapError ("combined signature failed verification: " ++ ·)

def sigmaToAppKey (sigma : G₂) : Bytes := B.hkdf (B.sigmaInto sigma) kdfDst

def shareToBytes (share : SecretKeyShare F) : Bytes := B.shareInto share

def shareFromBytes (bytes : Bytes) : Except String (SecretKeyShare F) :=
  (B.shareTryFrom bytes).mapError ("invalid secret-key share bytes: " ++ ·)

def partialToBytes (sig : SignatureShare F G₂) : Bytes := B.partialInto sig

def partialFromBytes (bytes : Bytes) : Except String (SignatureShare F G₂) :=
  (B.partialTryFrom bytes).mapError ("invalid partial signature bytes: " ++ ·)

/-- Bridge a gennaro participant's `(id, secret_share)` into a blsful share. -/
def gennaroShareToBlsful [NatCast F] (id : ℕ) (scalar : F) : SecretKeyShare F := ⟨id, scalar⟩

/-- The raw scalar of a share, fed back into gennaro as a dealer's secret. -/
def blsfulShareScalar (share : SecretKeyShare F) : F := share.value

end Functions

section Laws

variable {F G₁ G₂ : Type} [Field F] [DecidableEq F] [AddCommGroup G₁] [Module F G₁]
  [AddCommGroup G₂] [Module F G₂]

/-- The behaviour of `blsful` and the scalar field that the derivation rests on. -/
structure Blsful.Lawful (B : Blsful F G₁ G₂) : Prop where
  shareTryFrom_into : ∀ s, B.shareTryFrom (B.shareInto s) = .ok s
  partialTryFrom_into : ∀ p, B.partialTryFrom (B.partialInto p) = .ok p
  pubkeyTryFrom_toBytes : ∀ pk, B.pubkeyTryFrom (B.pubkeyToBytes pk) = .ok pk
  sign_eq : ∀ s msg, B.sign s msg = .ok ⟨s.identifier, s.value • B.hashToCurve msg⟩
  /-- Lagrange interpolation at zero, for at least two distinct identifiers. -/
  fromShares_eq : ∀ ps : List (SignatureShare F G₂), 2 ≤ ps.length →
    (ps.map (·.identifier)).Nodup →
    B.fromShares ps = .ok (atZero (ps.map fun p => (p.identifier, p.value)))
  verify_iff : ∀ (s : F) (sigma : G₂) (msg : Bytes),
    B.verify sigma (s • B.generator) msg = .ok () ↔ sigma = s • B.hashToCurve msg
  /-- `Scalar::from` is injective on `u32` identifiers. -/
  cast_inj : ∀ i j : ℕ, i < 2 ^ 32 → j < 2 ^ 32 → (i : F) = j → i = j

variable {B : Blsful F G₁ G₂}

theorem Blsful.Lawful.shareFromBytes_toBytes (hB : B.Lawful) (s : SecretKeyShare F) :
    shareFromBytes B (shareToBytes B s) = .ok s := by
  simp [shareFromBytes, shareToBytes, hB.shareTryFrom_into]

theorem Blsful.Lawful.partialFromBytes_toBytes (hB : B.Lawful) (p : SignatureShare F G₂) :
    partialFromBytes B (partialToBytes B p) = .ok p := by
  simp [partialFromBytes, partialToBytes, hB.partialTryFrom_into]

theorem Blsful.Lawful.dprfPartial_eq (hB : B.Lawful) (s : SecretKeyShare F) (msg : Bytes) :
    dprfPartial B s msg = .ok ⟨s.identifier, s.value • B.hashToCurve msg⟩ := by
  simp [dprfPartial, hB.sign_eq]

/-- A signature passes the check against `s • G` exactly when it is `s • H(msg)`. -/
theorem Blsful.Lawful.dprfVerify_iff (hB : B.Lawful) (s : F) (sigma : G₂) (msg : Bytes) :
    dprfVerify B sigma (B.pubkeyToBytes (s • B.generator)) msg = .ok () ↔
      sigma = s • B.hashToCurve msg := by
  rw [← hB.verify_iff]
  simp [dprfVerify, hB.pubkeyTryFrom_toBytes]

/-- Partials `f(i) • H(msg)` of enough distinct nodes combine to `f(0) • H(msg)`. -/
theorem Blsful.Lawful.dprfSigma_eval (hB : B.Lawful) (f : Polynomial F) (ids : List ℕ)
    (msg : Bytes) (hnodup : ids.Nodup) (hu32 : ∀ i ∈ ids, i < 2 ^ 32) (htwo : 2 ≤ ids.length)
    (hdeg : f.degree < ids.length) :
    dprfSigma B (ids.map fun i : ℕ => ⟨(i : F), f.eval (i : F) • B.hashToCurve msg⟩) =
      .ok (f.eval 0 • B.hashToCurve msg) := by
  have hcast : (ids.map fun i : ℕ => (i : F)).Nodup :=
    List.Nodup.map_on (fun i hi j hj => hB.cast_inj i j (hu32 i hi) (hu32 j hj)) hnodup
  have hpoint := atZero_eval hcast f (by simpa using hdeg) (B.hashToCurve msg)
  rw [dprfSigma, hB.fromShares_eq _ (by simpa using htwo)
    (by simpa [Function.comp_def] using hcast)]
  simp only [mapError_ok, List.map_map, Function.comp_def] at hpoint ⊢
  rw [hpoint]

end Laws

end KmsCluster
