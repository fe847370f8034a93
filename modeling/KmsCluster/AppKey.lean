import KmsCluster.Auth
import KmsCluster.Derive

/-!
# The `/app-key` endpoint

Model of `app_key_inner` and `recover_eip191_address` (`src/server.rs`): who is given the key of
an app, and encrypted to which public key. What the awaited calls returned is the `Env` of a
request: the signer list, the attestation verdict and the derived key.

A run of the endpoint is the list of what happens, in order: holders of keys sign statements, and
requests arrive, from anybody and with any fields. `Unforgeable` says that a signature of an
honest signer on a message only comes from that signer.

## Main results

- `appKeyInner_eq_ok`: exactly when a key is issued, and what the caller gets.
- `app_key_signed`: what the authorised signer has signed when a key is issued.
- `signed_statement_fixes_nothing`: that statement says nothing of the app, the material or the
  public key.
-/

namespace KmsCluster.AppKey

open BigEndian Fallible

/-- The body of a request. -/
structure AppKeyRequest where
  appId : String
  timestamp : ℤ
  pubkey : String
  signature : String
  material : String

/-- What the calls a request awaits return. -/
structure Env where
  /-- `get_signer_addresses_for` of an app and a signer. -/
  signerAddresses : String → Address → Except KmsError (List Address)
  requireVerified : String → Address → Except String Unit
  collectAndDprf : String → Bytes → Except KmsError (Bytes × DeriveTrace)
  /-- What `ecies::encrypt` draws. -/
  randomness : Bytes

/-- `sig_bytes[64]`, normalised or Ethereum-style, as a recovery id. -/
def eip191RecoveryId (v : UInt8) : Except KmsError UInt8 := do
  let rid ← if v = 0 ∨ v = 1 then .ok v
    else if v = 27 ∨ v = 28 then .ok (v - 27)
    else .error (.invalidSignature ("invalid v byte: " ++ toString v.toNat))
  okOr (recoveryId rid) (.invalidSignature "invalid recovery id")

/-- The statement that authorises a request. -/
def statement (timestamp : ℤ) : String := "GetSecretResource:" ++ toString timestamp

/-- The bytes that EIP-191 hashes for a message. -/
def eip191Prefixed (message : String) : Bytes :=
  utf8 ("\x19Ethereum Signed Message:\n" ++ toString message.utf8ByteSize ++ message)

section Endpoint

variable {Sig : Type} (S : Secp Sig)

/-- Recover the signer of an EIP-191 `personal_sign` signature over `message`. -/
def recoverEip191Address (message signatureHex : String) : Except KmsError Address := do
  let hash := S.keccak256 (eip191Prefixed message)
  let sigBytes ← okOr (hexDecode signatureHex) (.invalidSignature "invalid signature hex")
  ensure (sigBytes.length = 65) (KmsError.invalidSignature
    ("signature must be 65 bytes (r||s||v), got " ++ toString sigBytes.length))
  let sig ← (S.fromSlice (sigBytes.take 64)).mapError fun _ =>
    .invalidSignature "cannot parse r||s"
  let rid ← eip191RecoveryId (sigBytes.getD 64 0)
  let pubkey ← (S.recoverFromPrehash hash sig rid).mapError fun _ =>
    .invalidSignature "cannot recover signer"
  return ethAddressFromPubkey S pubkey

/-- What a handler says of a timestamp outside the window. -/
def staleTimestamp (timestamp now : ℤ) : KmsError :=
  .invalidTimestamp ("timestamp " ++ toString timestamp ++ " is too far from now (" ++
    toString now ++ ")")

/-- `app_key_inner` from the signature on. -/
def appKeySigned (env : Env) (req : AppKeyRequest) : Except KmsError (String × DeriveTrace) := do
  let recovered ← recoverEip191Address S (statement req.timestamp) req.signature
  let signers ← env.signerAddresses req.appId recovered
  ensure (signers ≠ []) (KmsError.appNotFound req.appId)
  ensure (recovered ∈ signers) (KmsError.invalidSignature ("recovered address " ++
    Address.debug recovered ++ " not in on-chain signer list for app " ++ req.appId))
  let _ ← (env.requireVerified req.appId recovered).mapError .notAttested
  let material ← okOr (hexDecode req.material) (.badRequest "invalid material hex")
  let (appKey, trace) ← env.collectAndDprf req.appId material
  let pubkey ← okOr (hexDecode req.pubkey) (.badRequest "invalid pubkey hex")
  let ciphertext ← (S.encrypt env.randomness pubkey appKey).mapError fun e =>
    .badRequest ("cannot encrypt to caller pubkey: " ++ KmsError.display
      (.cryptoError ("ECIES encrypt failed: " ++ e)))
  return (hexEncode ciphertext, trace)

/-- `app_key_inner`: the encrypted key in hex, with the trace of who served it. -/
def appKeyInner (config : ServerConfig) (env : Env) (now : ℤ) (req : AppKeyRequest) :
    Except KmsError (String × DeriveTrace) := do
  ensure (!tooFarFromNow now req.timestamp config.timestampToleranceSecs)
    (staleTimestamp req.timestamp now)
  appKeySigned S env req

/-- A request is entitled to the key of `(appId, material)` under the signer `addr`. -/
structure Entitled (config : ServerConfig) (env : Env) (now : ℤ) (req : AppKeyRequest)
    (addr : Address) : Prop where
  timestamp : tooFarFromNow now req.timestamp config.timestampToleranceSecs = false
  recovered : recoverEip191Address S (statement req.timestamp) req.signature = .ok addr
  listed : ∃ signers, env.signerAddresses req.appId addr = .ok signers ∧ addr ∈ signers
  verified : env.requireVerified req.appId addr = .ok ()

/-- `out` is the key of `(appId, material)`, encrypted to the request's public key. -/
def Issues (env : Env) (req : AppKeyRequest) (out : String × DeriveTrace) : Prop :=
  ∃ material pubkey key ciphertext, hexDecode req.material = some material ∧
    hexDecode req.pubkey = some pubkey ∧
    env.collectAndDprf req.appId material = .ok (key, out.2) ∧
    S.encrypt env.randomness pubkey key = .ok ciphertext ∧ out.1 = hexEncode ciphertext

theorem appKeyInner_eq_ok {config : ServerConfig} {env : Env} {now : ℤ} {req : AppKeyRequest}
    {out : String × DeriveTrace} : appKeyInner S config env now req = .ok out ↔
      (∃ addr, Entitled S config env now req addr) ∧ Issues S env req out := by
  constructor
  · intro h
    obtain ⟨_, htimestamp, h⟩ := bind_eq_ok.mp h
    obtain ⟨addr, hrecovered, h⟩ := bind_eq_ok.mp h
    obtain ⟨signers, hsigners, h⟩ := bind_eq_ok.mp h
    obtain ⟨_, -, h⟩ := bind_eq_ok.mp h
    obtain ⟨_, hlisted, h⟩ := bind_eq_ok.mp h
    obtain ⟨_, hverified, h⟩ := bind_eq_ok.mp h
    obtain ⟨material, hmaterial, h⟩ := bind_eq_ok.mp h
    obtain ⟨⟨key, trace⟩, hkey, h⟩ := bind_eq_ok.mp h
    obtain ⟨pubkey, hpubkey, h⟩ := bind_eq_ok.mp h
    obtain ⟨ciphertext, hciphertext, h⟩ := bind_eq_ok.mp h
    cases h
    refine ⟨⟨addr, ?_, hrecovered, ⟨signers, hsigners, ensure_eq_ok.mp hlisted⟩,
      mapError_eq_ok.mp hverified⟩, material, pubkey, key, ciphertext, okOr_eq_ok.mp hmaterial,
      okOr_eq_ok.mp hpubkey, hkey, mapError_eq_ok.mp hciphertext, rfl⟩
    simpa using ensure_eq_ok.mp htimestamp
  · rintro ⟨⟨addr, htimestamp, hrecovered, ⟨signers, hsigners, hlisted⟩, hverified⟩, material,
      pubkey, key, ciphertext, hmaterial, hpubkey, hkey, hciphertext, hout⟩
    have hne : signers ≠ [] := List.ne_nil_of_mem hlisted
    simp only [appKeyInner, appKeySigned, htimestamp, hrecovered, hsigners, hverified, hmaterial,
      hkey, hpubkey, hciphertext, ensure_of hne, ensure_of hlisted, okOr_some, mapError_ok, ok_bind]
    obtain ⟨out₁, out₂⟩ := out
    cases hout
    rfl

-- ════════════════════════════════════════════════════════════════════════
-- Runs with replays
-- ════════════════════════════════════════════════════════════════════════

/-- What happens around the endpoint. -/
inductive Event where
  /-- The holder of the key of `addr` signs `message`. -/
  | signed (addr : Address) (message : String)
  /-- Somebody sends `req`, and it is handled at the clock reading `now`. -/
  | request (env : Env) (now : ℤ) (req : AppKeyRequest)

/-- No request carries a signature of an honest signer on its statement that this signer did not
    make before. -/
def Unforgeable (honest : Address → Prop) (run : List Event) : Prop :=
  ∀ earlier env now req later, run = earlier ++ .request env now req :: later →
    ∀ addr, honest addr →
      recoverEip191Address S (statement req.timestamp) req.signature = .ok addr →
        .signed addr (statement req.timestamp) ∈ earlier

/-- Whenever a key is issued in a run, the recovered signer is listed and attested for the app
    and, if honest, has signed the request's timestamp, which has passed the check. The same
    signature authorises every request with that timestamp while the check passes, whatever app it
    names that the signer is listed and attested for, whatever its material and its public key. -/
theorem app_key_signed (config : ServerConfig) (honest : Address → Prop) (run : List Event)
    (hunforgeable : Unforgeable S honest run) (earlier later : List Event) (env : Env) (now : ℤ)
    (req : AppKeyRequest) (hrun : run = earlier ++ .request env now req :: later)
    (out : String × DeriveTrace) (hout : appKeyInner S config env now req = .ok out) :
    ∃ addr, Entitled S config env now req addr ∧ Issues S env req out ∧
      (honest addr → .signed addr (statement req.timestamp) ∈ earlier) ∧
      ∀ env' now' req', req'.timestamp = req.timestamp → req'.signature = req.signature →
        (Entitled S config env' now' req' addr ↔
          tooFarFromNow now' req.timestamp config.timestampToleranceSecs = false ∧
          (∃ signers, env'.signerAddresses req'.appId addr = .ok signers ∧ addr ∈ signers) ∧
          env'.requireVerified req'.appId addr = .ok ()) := by
  obtain ⟨⟨addr, hentitled⟩, hissues⟩ := (appKeyInner_eq_ok S).mp hout
  refine ⟨addr, hentitled, hissues, ?_, ?_⟩
  · intro hhonest
    exact hunforgeable earlier env now req later hrun addr hhonest hentitled.recovered
  · intro env' now' req' htimestamp hsignature
    constructor
    · intro h
      exact ⟨htimestamp ▸ h.timestamp, h.listed, h.verified⟩
    · rintro ⟨hwindow, hlisted, hverified⟩
      refine ⟨by rw [htimestamp]; exact hwindow, ?_, hlisted, hverified⟩
      rw [htimestamp, hsignature]
      exact hentitled.recovered

end Endpoint

-- ════════════════════════════════════════════════════════════════════════
-- A replay
-- ════════════════════════════════════════════════════════════════════════

/-- A hash that keeps the last 32 bytes. -/
def tailHash (bytes : Bytes) : Bytes := (List.replicate 32 0 ++ bytes).drop bytes.length

/-- The uncompressed point `04 || b ... b`. -/
def point (b : UInt8) : Bytes := 4 :: List.replicate 64 b

/-- Curve operations that know one signer, who signed one statement. -/
def oneSigner : Secp Bytes where
  keccak256 := tailHash
  fromSlice := .ok
  recoverFromPrehash hash _ _ :=
    if hash = tailHash (eip191Prefixed (statement 100)) then .ok (point 7)
    else .error "signature error"
  encrypt randomness pubkey plaintext :=
    if pubkey.length = 65 then .ok (pubkey ++ randomness ++ plaintext)
    else .error "invalid public key"

def signer : Address := ethAddressFromPubkey oneSigner (point 7)

def env : Env where
  signerAddresses _ _ := .ok [signer]
  requireVerified _ _ := .ok ()
  collectAndDprf _ _ := .ok ([1, 2, 3], ⟨1, 1, [1, 2]⟩)
  randomness := []

/-- The signer's request, with the public key `04 || b ... b`. -/
def request (b : UInt8) : AppKeyRequest :=
  ⟨"app", 100, hexEncode (point b), hexEncode (List.replicate 65 0), "00"⟩

theorem recover_request (b : UInt8) :
    recoverEip191Address oneSigner (statement 100) (request b).signature = .ok signer := by
  have hsig : hexDecode (request b).signature = some (List.replicate 65 0) :=
    hexDecode_hexEncode _
  have hlength : (List.replicate 65 (0 : UInt8)).length = 65 := by simp
  simp only [recoverEip191Address, hsig, okOr_some, ok_bind, ensure_of hlength]
  rfl

theorem entitled_request (b : UInt8) : Entitled oneSigner ⟨300⟩ env 100 (request b) signer := by
  refine ⟨?_, recover_request b, ⟨[signer], rfl, by simp⟩, rfl⟩
  show tooFarFromNow 100 100 300 = false
  decide

theorem issued_request (b : UInt8) :
    ∃ out, appKeyInner oneSigner ⟨300⟩ env 100 (request b) = .ok out := by
  refine ⟨(hexEncode (point b ++ [1, 2, 3]), ⟨1, 1, [1, 2]⟩), (appKeyInner_eq_ok _).mpr
    ⟨⟨signer, entitled_request b⟩, [0], point b, [1, 2, 3], point b ++ [1, 2, 3], ?_,
      hexDecode_hexEncode _, rfl, ?_, rfl⟩⟩
  · show hexDecode "00" = some [0]
    decide
  · simp [oneSigner, env, point]

/-- The signer signs its timestamp and asks; somebody repeats the request with a public key of
    their own. -/
def replayRun : List Event :=
  [.signed signer (statement 100), .request env 100 (request 7), .request env 100 (request 9)]

theorem replayRun_unforgeable : Unforgeable oneSigner (· = signer) replayRun := by
  intro earlier env' now req later hrun addr hhonest _
  subst hhonest
  rcases earlier with _ | ⟨first, _ | ⟨second, _ | ⟨third, rest⟩⟩⟩
  · simp [replayRun] at hrun
  · simp only [replayRun, List.cons_append, List.nil_append, List.cons.injEq,
      Event.request.injEq] at hrun
    obtain ⟨rfl, ⟨-, -, rfl⟩, -⟩ := hrun
    exact List.mem_cons_self
  · simp only [replayRun, List.cons_append, List.nil_append, List.cons.injEq,
      Event.request.injEq] at hrun
    obtain ⟨rfl, rfl, ⟨-, -, rfl⟩, -⟩ := hrun
    exact List.mem_cons_self
  · simp [replayRun] at hrun

theorem app_key_signed_replay : ∃ addr, Entitled oneSigner ⟨300⟩ env 100 (request 9) addr ∧
    (addr = signer → Event.signed addr (statement 100) ∈
      [Event.signed signer (statement 100), .request env 100 (request 7)]) := by
  obtain ⟨out, hout⟩ := issued_request 9
  obtain ⟨addr, hentitled, -, hsigned, -⟩ := app_key_signed oneSigner ⟨300⟩ (· = signer) replayRun
    replayRun_unforgeable [.signed signer (statement 100), .request env 100 (request 7)] [] env 100
    (request 9) rfl out hout
  exact ⟨addr, hentitled, hsigned⟩

/-- No reading of what the signer signs gives the app, the material and the public key that a key
    is issued for. -/
theorem signed_statement_fixes_nothing : ¬ ∃ fixed : String → String × Bytes × Bytes,
    ∀ run, Unforgeable oneSigner (· = signer) run →
      ∀ earlier env now req later out, run = earlier ++ .request env now req :: later →
        appKeyInner oneSigner ⟨300⟩ env now req = .ok out →
        Entitled oneSigner ⟨300⟩ env now req signer →
        ∀ material pubkey, hexDecode req.material = some material →
          hexDecode req.pubkey = some pubkey →
            ∃ message, .signed signer message ∈ earlier ∧
              fixed message = (req.appId, material, pubkey) := by
  rintro ⟨fixed, hfixed⟩
  have hmaterial : ∀ b, hexDecode (request b).material = some [0] := by
    intro b
    show hexDecode "00" = some [0]
    decide
  have hread : ∀ b earlier later,
      replayRun = earlier ++ .request env 100 (request b) :: later →
      (∀ message, .signed signer message ∈ earlier → message = statement 100) →
      fixed (statement 100) = ("app", [0], point b) := by
    intro b earlier later hrun honly
    obtain ⟨out, hout⟩ := issued_request b
    obtain ⟨message, hmessage, heq⟩ := hfixed replayRun replayRun_unforgeable earlier env 100
      (request b) later out hrun hout (entitled_request b) [0] (point b) (hmaterial b)
      (hexDecode_hexEncode _)
    rw [← honly message hmessage]
    exact heq
  have hown := hread 7 [.signed signer (statement 100)] _ rfl (by simp)
  have hreplayed := hread 9 [.signed signer (statement 100), .request env 100 (request 7)] _
    rfl (by simp)
  have hpoint : point 7 = point 9 := by
    rw [hown] at hreplayed
    exact (Prod.mk.inj (Prod.mk.inj hreplayed).2).2
  exact absurd hpoint (by decide)

end KmsCluster.AppKey
