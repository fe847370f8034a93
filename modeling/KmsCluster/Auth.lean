import KmsCluster.Server

/-!
# Request authentication

Model of `src/auth.rs`: how a node turns the metadata of a gRPC request into the address of its
caller. Hashing, signature recovery and ECIES come from `sha3`, `k256` and `ecies`; they are the
parameter `Secp`. What the awaited lookups returned (the nodeList, the attestation verdict) is
given to the functions as arguments.

Timestamps are `i64` values held in `ℤ`; their arithmetic wraps as the release profile does.

## Main results

- `authenticate_eq_ok`: an accepted caller's address is the one of its recovered key.
-/

namespace KmsCluster

open BigEndian Fallible

-- ════════════════════════════════════════════════════════════════════════
-- Text and time
-- ════════════════════════════════════════════════════════════════════════

def hexDigit (c : Char) : Option UInt8 :=
  if '0' ≤ c ∧ c ≤ '9' then some (c.val - 48).toUInt8
  else if 'a' ≤ c ∧ c ≤ 'f' then some (c.val - 87).toUInt8
  else if 'A' ≤ c ∧ c ≤ 'F' then some (c.val - 55).toUInt8
  else none

def hexDecodeChars : List Char → Option Bytes
  | [] => some []
  | [_] => none
  | high :: low :: rest => do
    let h ← hexDigit high
    let l ← hexDigit low
    let bytes ← hexDecodeChars rest
    return (h * 16 + l) :: bytes

/-- `trim_start_matches("0x")`: every leading occurrence goes. -/
def trimStart0x : List Char → List Char
  | '0' :: 'x' :: rest => trimStart0x rest
  | chars => chars

/-- `hex::decode(s.trim_start_matches("0x"))`. -/
def hexDecode (s : String) : Option Bytes := hexDecodeChars (trimStart0x s.toList)

def hexChar (n : ℕ) : Char := Char.ofNat (if n < 10 then 48 + n else 87 + n)

/-- `hex::encode`. -/
def hexEncode (bytes : Bytes) : String :=
  String.ofList (bytes.flatMap fun b => [hexChar (b.toNat / 16), hexChar (b.toNat % 16)])

/-- `{:?}` of an address. -/
def Address.debug (addr : Address) : String := "0x" ++ hexEncode (beBytes 20 addr.toNat)

theorem hexDigit_hexChar {n : ℕ} (h : n < 16) : hexDigit (hexChar n) = some (UInt8.ofNat n) := by
  revert n
  decide

theorem hexChar_ne_x {n : ℕ} (h : n < 16) : hexChar n ≠ 'x' := by
  revert n
  decide

/-- The digits of a byte give the byte. -/
theorem ofNat_digits (b : UInt8) :
    UInt8.ofNat (b.toNat / 16) * 16 + UInt8.ofNat (b.toNat % 16) = b := by
  have hb : b.toNat < 256 := b.toNat_lt
  apply UInt8.toNat_inj.mp
  simp only [UInt8.toNat_add, UInt8.toNat_mul, UInt8.toNat_ofNat', UInt8.toNat_ofNat]
  omega

theorem hexDecodeChars_digits (bytes : Bytes) :
    hexDecodeChars (bytes.flatMap fun b => [hexChar (b.toNat / 16), hexChar (b.toNat % 16)]) =
      some bytes := by
  induction bytes with
  | nil => rfl
  | cons b bytes ih =>
    have hb : b.toNat < 256 := b.toNat_lt
    have hhigh := hexDigit_hexChar (n := b.toNat / 16) (by omega)
    have hlow := hexDigit_hexChar (n := b.toNat % 16) (by omega)
    simp only [List.flatMap_cons, List.cons_append, List.nil_append, hexDecodeChars, hhigh, hlow,
      ih, Option.bind_eq_bind, Option.bind_some, Option.pure_def, ofNat_digits]

theorem trimStart0x_digits (bytes : Bytes) :
    trimStart0x (bytes.flatMap fun b => [hexChar (b.toNat / 16), hexChar (b.toNat % 16)]) =
      bytes.flatMap fun b => [hexChar (b.toNat / 16), hexChar (b.toNat % 16)] := by
  cases bytes with
  | nil => rfl
  | cons b bytes =>
    have hlow : hexChar (b.toNat % 16) ≠ 'x' := hexChar_ne_x (Nat.mod_lt _ (by decide))
    rw [List.flatMap_cons, List.cons_append, List.cons_append, trimStart0x]
    intro rest hprefix
    exact absurd (List.cons.inj (List.cons.inj hprefix).2).1 hlow

/-- No byte is lost in hexadecimal. -/
theorem hexDecode_hexEncode (bytes : Bytes) : hexDecode (hexEncode bytes) = some bytes := by
  rw [hexDecode, hexEncode, String.toList_ofList, trimStart0x_digits, hexDecodeChars_digits]

/-- `str::parse::<i64>`. -/
def parseI64 (s : String) : Option ℤ :=
  let (negative, digits) := match s.toList with
    | '-' :: rest => (true, rest)
    | '+' :: rest => (false, rest)
    | chars => (false, chars)
  if digits.isEmpty ∨ digits.any (!·.isDigit) then none
  else
    let n : ℤ := digits.foldl (fun acc c => acc * 10 + (c.toNat - 48)) 0
    let value := if negative then -n else n
    if -2 ^ 63 ≤ value ∧ value < 2 ^ 63 then some value else none

/-- The `i64` that an integer wraps to. -/
def wrapI64 (x : ℤ) : ℤ := Int.bmod x (2 ^ 64)

/-- `(now - timestamp).abs() > tolerance` in `i64`. -/
def tooFarFromNow (now timestamp tolerance : ℤ) : Bool :=
  decide (tolerance < wrapI64 |wrapI64 (now - timestamp)|)

-- ════════════════════════════════════════════════════════════════════════
-- Signatures
-- ════════════════════════════════════════════════════════════════════════

/-- What the node calls of `sha3`, `k256` and `ecies`. `Sig` is a parsed `r || s`. -/
structure Secp (Sig : Type) where
  keccak256 : Bytes → Bytes
  fromSlice : Bytes → Except String Sig
  /-- `recover_from_prehash`, as the uncompressed point. -/
  recoverFromPrehash : Bytes → Sig → UInt8 → Except String Bytes
  /-- `ecies::encrypt` of a plaintext to a public key, with the randomness it draws. -/
  encrypt : Bytes → Bytes → Bytes → Except String Bytes

/-- `RecoveryId::try_from`. -/
def recoveryId (v : UInt8) : Option UInt8 := if v < 4 then some v else none

section Recovery

variable {Sig : Type} (S : Secp Sig)

/-- Recover the uncompressed public key behind a signature `r || s || v` over `message`. -/
def recoverPubkey (message sig : Bytes) : Except String Bytes := do
  let v := sig.getD 64 0
  let rid ← okOr (recoveryId (v % 2)) ("invalid recovery id " ++ toString v.toNat)
  let parsed ← (S.fromSlice (sig.take 64)).mapError ("cannot parse signature: " ++ ·)
  (S.recoverFromPrehash (S.keccak256 message) parsed rid).mapError ("key recovery failed: " ++ ·)

/-- The Ethereum address of an uncompressed public key. -/
def ethAddressFromPubkey (pubkey : Bytes) : Address :=
  BitVec.ofNat 160 (ofBeBytes ((S.keccak256 (pubkey.drop 1)).drop 12))

end Recovery

-- ════════════════════════════════════════════════════════════════════════
-- gRPC callers
-- ════════════════════════════════════════════════════════════════════════

/-- The `Status` codes an unauthenticated request gets. -/
inductive Status where
  | unauthenticated (message : String)
  | permissionDenied (message : String)
  deriving DecidableEq

/-- The metadata of a request. An entry is `none` when absent and `some none` when it is not
    text. -/
structure Metadata where
  signature : Option (Option String)
  timestamp : Option (Option String)

/-- `config.server`. -/
structure ServerConfig where
  timestampToleranceSecs : ℤ

structure AuthContext where
  callerPubkey : Bytes
  callerEthAddr : Address

/-- The text of a `KmsError`. -/
def KmsError.display : KmsError → String
  | .invalidTimestamp m => "invalid timestamp: " ++ m
  | .invalidSignature m => "invalid signature: " ++ m
  | .appNotFound m => "app not found on-chain: " ++ m
  | .notAttested m => "attestation required: " ++ m
  | .badRequest m => "bad request: " ++ m
  | .chainError m => "chain error: " ++ m
  | .cryptoError m => "crypto error: " ++ m
  | .configError m => "config error: " ++ m

def parseMetadata (metadata : Metadata) : Except Status (Bytes × ℤ) := do
  let sig ← okOr metadata.signature (.unauthenticated "missing 'signature' metadata")
  let sigHex ← okOr sig (.unauthenticated "'signature' is not valid UTF-8")
  let ts ← okOr metadata.timestamp (.unauthenticated "missing 'timestamp' metadata")
  let tsStr ← okOr ts (.unauthenticated "'timestamp' is not valid UTF-8")
  let sigBytes ← okOr (hexDecode sigHex) (.unauthenticated "'signature' is not valid hex")
  ensure (sigBytes.length = 65) (Status.unauthenticated "signature must be 65 bytes")
  let timestamp ← okOr (parseI64 tsStr) (.unauthenticated "'timestamp' is not a valid integer")
  return (sigBytes, timestamp)

/-- `verify_on_chain`, on the list that `get_signer_addresses_for` returned. -/
def verifyOnChain (appId : String) (nodeList : Except KmsError (List Address)) (addr : Address) :
    Except String Unit := do
  let signers ← nodeList.mapError fun e => "getNodeList failed: " ++ e.display
  ensure (signers ≠ []) ("app '" ++ appId ++ "' not found on-chain")
  ensure (addr ∈ signers) ("caller " ++ Address.debug addr ++ " is not a registered node")

section Authenticate

variable {Sig : Type} (S : Secp Sig)

/-- What `authenticate` says of a timestamp outside the window. -/
def staleCall (timestamp now : ℤ) : Status :=
  .unauthenticated
    ("timestamp " ++ toString timestamp ++ " too far from now (" ++ toString now ++ ")")

/-- `authenticate` from the signature on. -/
def authenticateSigned (appId : String) (nodeList : Address → Except KmsError (List Address))
    (requireVerified : Address → Except String Unit) (sigBytes : Bytes) (timestamp : ℤ)
    (method : String) : Except Status AuthContext := do
  let message := "kms:" ++ method ++ ":" ++ toString timestamp
  let callerPubkey ← (recoverPubkey S (utf8 message) sigBytes).mapError fun e =>
    .unauthenticated ("invalid signature: " ++ e)
  let callerEthAddr := ethAddressFromPubkey S callerPubkey
  let _ ← (verifyOnChain appId (nodeList callerEthAddr) callerEthAddr).mapError fun e =>
    .unauthenticated ("on-chain verification failed: " ++ e)
  let _ ← (requireVerified callerEthAddr).mapError fun reason =>
    .permissionDenied ("attestation gate: " ++ reason)
  return ⟨callerPubkey, callerEthAddr⟩

/-- Authenticate an inbound request of `method`, at the clock reading `now`. -/
def authenticate (config : ServerConfig) (appId : String) (now : ℤ)
    (nodeList : Address → Except KmsError (List Address))
    (requireVerified : Address → Except String Unit) (metadata : Metadata) (method : String) :
    Except Status AuthContext := do
  let (sigBytes, timestamp) ← parseMetadata metadata
  ensure (!tooFarFromNow now timestamp config.timestampToleranceSecs) (staleCall timestamp now)
  authenticateSigned S appId nodeList requireVerified sigBytes timestamp method

/-- An accepted caller's address is the one of its recovered key, it is registered on chain and
    attested. -/
theorem authenticate_eq_ok {config : ServerConfig} {appId : String} {now : ℤ}
    {nodeList : Address → Except KmsError (List Address)}
    {requireVerified : Address → Except String Unit} {metadata : Metadata} {method : String}
    {ctx : AuthContext}
    (h : authenticate S config appId now nodeList requireVerified metadata method = .ok ctx) :
    ctx.callerEthAddr = ethAddressFromPubkey S ctx.callerPubkey ∧
      (∃ signers, nodeList ctx.callerEthAddr = .ok signers ∧ ctx.callerEthAddr ∈ signers) ∧
      requireVerified ctx.callerEthAddr = .ok () := by
  obtain ⟨⟨sigBytes, timestamp⟩, -, h⟩ := bind_eq_ok.mp h
  obtain ⟨_, -, h⟩ := bind_eq_ok.mp h
  obtain ⟨pubkey, -, h⟩ := bind_eq_ok.mp h
  obtain ⟨_, honchain, h⟩ := bind_eq_ok.mp h
  obtain ⟨_, hverified, h⟩ := bind_eq_ok.mp h
  cases h
  refine ⟨rfl, ?_, mapError_eq_ok.mp hverified⟩
  obtain ⟨signers, hsigners, honchain⟩ := bind_eq_ok.mp (mapError_eq_ok.mp honchain)
  obtain ⟨_, -, honchain⟩ := bind_eq_ok.mp honchain
  exact ⟨signers, mapError_eq_ok.mp hsigners, ensure_eq_ok.mp honchain⟩

end Authenticate

end KmsCluster
