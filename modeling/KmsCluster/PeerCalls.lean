import KmsCluster.Freshness
import KmsCluster.Messages
import KmsCluster.Process

/-!
# Encrypted calls between nodes

The three calls of `src/grpc.rs` whose answers are encrypted to the caller and signed by the node
that answers, each with its handler, and the two clients: `get_dprf_partial` (`src/grpc.rs`) and
`join_cluster` with `request_shard_from_peer` (`src/init.rs`). What the awaited lookups returned is
given to the functions as arguments; the metadata that a client writes is text, so writing it does
not fail. Log lines are left out.

## Main results

- `acceptPartial_handler`: on a network that delivers, a client reads what `getDprfPartial` says.
- `requestShardHandler_unavailable_iff`: a node with a share does not pass for an empty one.
- `joinCluster_noSeedReachable_iff`: when a join finds no cluster.
-/

namespace KmsCluster.PeerCalls

open Fallible Freshness Process

-- ════════════════════════════════════════════════════════════════════════
-- Statuses
-- ════════════════════════════════════════════════════════════════════════

/-- `tonic::Code`. -/
inductive Code where
  | ok
  | cancelled
  | unknown
  | invalidArgument
  | deadlineExceeded
  | notFound
  | alreadyExists
  | permissionDenied
  | resourceExhausted
  | failedPrecondition
  | aborted
  | outOfRange
  | unimplemented
  | internal
  | unavailable
  | dataLoss
  | unauthenticated
  deriving DecidableEq

structure RpcStatus where
  code : Code
  message : String
  deriving DecidableEq

def RpcStatus.ofStatus : Status → RpcStatus
  | .unauthenticated message => ⟨.unauthenticated, message⟩
  | .permissionDenied message => ⟨.permissionDenied, message⟩

theorem RpcStatus.ofStatus_code (s : Status) : (ofStatus s).code ≠ .unavailable := by
  cases s with
  | unauthenticated message => exact (by decide : Code.unauthenticated ≠ .unavailable)
  | permissionDenied message => exact (by decide : Code.permissionDenied ≠ .unavailable)

-- ════════════════════════════════════════════════════════════════════════
-- Keys
-- ════════════════════════════════════════════════════════════════════════

/-- What the calls need of `k256` and `ecies` besides `Secp`. -/
structure PeerCrypto (Sig : Type) extends Secp Sig where
  /-- `SigningKey::from_bytes`. -/
  signingKey : Bytes → Except String Unit
  /-- `sign_prehash` with a private key: `r || s` and the recovery id. -/
  signPrehash : Bytes → Bytes → Except String (Bytes × UInt8)
  /-- `ecies::decrypt` with a private key. -/
  decrypt : Bytes → Bytes → Except String Bytes

/-- `signing_key` of a node. -/
structure NodeKey where
  privateKey : Bytes
  ethAddress : Address

section Keys

variable {Sig : Type} (S : PeerCrypto Sig)

def eciesEncrypt (randomness pubkey plaintext : Bytes) : Except KmsError Bytes :=
  (S.encrypt randomness pubkey plaintext).mapError fun e =>
    .cryptoError ("ECIES encrypt failed: " ++ e)

def eciesDecrypt (privateKey ciphertext : Bytes) : Except KmsError Bytes :=
  (S.decrypt privateKey ciphertext).mapError fun e => .cryptoError ("ECIES decrypt failed: " ++ e)

def signBytes (privateKey message : Bytes) : Except String Bytes := do
  let _ ← (S.signingKey privateKey).mapError ("invalid signing key: " ++ ·)
  let (rs, v) ← (S.signPrehash privateKey (S.keccak256 message)).mapError ("signing failed: " ++ ·)
  return rs ++ [v]

def signRequest (privateKey : Bytes) (method : String) (timestamp : ℤ) : Except String Bytes :=
  signBytes S privateKey (signRequestMsg method timestamp)

/-- The address behind a recoverable signature. -/
def recoverSignerAddress (message sig : Bytes) : Except String Address := do
  ensure (sig.length = 65) ("signature must be 65 bytes, got " ++ toString sig.length)
  let pubkey ← recoverPubkey S.toSecp message sig
  return ethAddressFromPubkey S.toSecp pubkey

/-- The private key is a signing key, `pubkey` is its public key and the address is that key's. A
    recovery id above one, for an `r` that was reduced, does not happen. -/
structure KeyPair (key : NodeKey) (pubkey : Bytes) : Prop where
  address : ethAddressFromPubkey S.toSecp pubkey = key.ethAddress
  signingKey : S.signingKey key.privateKey = .ok ()
  sign : ∀ hash, ∃ rs v sig, S.signPrehash key.privateKey hash = .ok (rs, v) ∧ rs.length = 64 ∧
    v < 2 ∧ S.fromSlice rs = .ok sig ∧ S.recoverFromPrehash hash sig v = .ok pubkey
  encrypt : ∀ randomness plaintext, ∃ ciphertext,
    S.encrypt randomness pubkey plaintext = .ok ciphertext
  decrypt : ∀ randomness plaintext ciphertext,
    S.encrypt randomness pubkey plaintext = .ok ciphertext →
      S.decrypt key.privateKey ciphertext = .ok plaintext

variable {S} {key : NodeKey} {pubkey : Bytes}

/-- A node signs every message, and its key is recovered from the signature. -/
theorem KeyPair.exists_sign (h : KeyPair S key pubkey) (message : Bytes) :
    ∃ sig, signBytes S key.privateKey message = .ok sig ∧ sig.length = 65 ∧
      recoverPubkey S.toSecp message sig = .ok pubkey := by
  obtain ⟨rs, v, parsed, hsign, hlength, hv, hparsed, hrecover⟩ := h.sign (S.keccak256 message)
  refine ⟨rs ++ [v], ?_, by simp [hlength], ?_⟩
  · simp [signBytes, h.signingKey, hsign, pure, Except.pure]
  · have hlast : (rs ++ [v]).getD 64 0 = v := by
      rw [List.getD_eq_getElem?_getD, List.getElem?_append_right hlength.le, hlength]
      rfl
    have hparity : v % 2 = v := by
      apply UInt8.toNat_inj.mp
      rw [UInt8.toNat_mod]
      exact Nat.mod_eq_of_lt hv
    have hfour : v < 4 := UInt8.lt_iff_toNat_lt.mpr (lt_trans (UInt8.lt_iff_toNat_lt.mp hv)
      (by decide))
    have hrid : recoveryId v = some v := if_pos hfour
    have htake : (rs ++ [v]).take 64 = rs := by
      rw [← hlength, List.take_left]
    simp only [recoverPubkey, hlast, hparity, hrid, htake, hparsed, hrecover, okOr_some,
      mapError_ok, ok_bind]

theorem KeyPair.recoverSignerAddress_eq (h : KeyPair S key pubkey) {message sig : Bytes}
    (hsign : signBytes S key.privateKey message = .ok sig) :
    recoverSignerAddress S message sig = .ok key.ethAddress := by
  obtain ⟨sig', hsig, hlength, hrecover⟩ := h.exists_sign message
  obtain rfl := Except.ok.inj (hsig.symm.trans hsign)
  simp [recoverSignerAddress, ensure_of hlength, hrecover, h.address, pure, Except.pure]

end Keys

-- ════════════════════════════════════════════════════════════════════════
-- Handlers
-- ════════════════════════════════════════════════════════════════════════

/-- The part of a node's state that its handlers answer from. -/
structure Server where
  key : NodeKey
  appId : String
  config : ServerConfig
  shard : Option ShardState
  pendingShards : Option (List (ℕ × Bytes))

/-- What a call finds when it looks up signers and their attestation. -/
structure Lookups where
  nodeListFor : Address → Except KmsError (List Address)
  requireVerified : Address → Except String Unit

/-- What a handler is given by its surroundings. -/
structure CallEnv extends Lookups where
  now : ℤ
  /-- `get_signer_addresses`. -/
  nodeList : Except KmsError (List Address)
  /-- What `ecies::encrypt` draws. -/
  randomness : Bytes

structure EncryptedPartial where
  ciphertext : Bytes
  shardIndex : UInt32
  epoch : UInt64
  signature : Bytes

structure EncryptedShard where
  ciphertext : Bytes
  shardIndex : UInt32
  signature : Bytes

section Handlers

variable {F G₁ G₂ Sig : Type} (B : Blsful F G₁ G₂) (S : PeerCrypto Sig)

/-- `authenticate`, as a handler calls it. -/
def Server.authenticate (node : Server) (env : CallEnv) (metadata : Metadata) (method : String) :
    Except RpcStatus AuthContext :=
  (KmsCluster.authenticate S.toSecp node.config node.appId env.now env.nodeListFor
    env.requireVerified metadata method).mapError .ofStatus

/-- Encrypt an answer to the caller and sign the ciphertext. -/
def Server.respond (node : Server) (env : CallEnv) (callerPubkey plaintext : Bytes)
    (signingMsg : Bytes → Bytes) : Except RpcStatus (Bytes × Bytes) := do
  let ciphertext ← (eciesEncrypt S env.randomness callerPubkey plaintext).mapError fun _ =>
    ⟨.internal, "encryption failed"⟩
  let signature ← (signBytes S node.key.privateKey (signingMsg ciphertext)).mapError fun _ =>
    ⟨.internal, "response signing failed"⟩
  return (ciphertext, signature)

/-- The `GetDprfPartial` handler. -/
def getDprfPartialHandler (node : Server) (env : CallEnv) (metadata : Metadata) (appId : String)
    (material : Bytes) : Except RpcStatus EncryptedPartial := do
  let ctx ← node.authenticate S env metadata "GetDprfPartial"
  let shard ← okOr node.shard ⟨.unavailable, "node not initialized"⟩
  let share ← (shareFromBytes B shard.shardBytes).mapError fun _ =>
    ⟨.internal, "local shard unavailable"⟩
  let sig ← (dprfPartial B share (dprfMessage appId material)).mapError fun _ =>
    ⟨.internal, "partial signing failed"⟩
  let shardIndex := UInt32.ofNat shard.shardIndex
  let epoch := UInt64.ofNat shard.epoch
  let (ciphertext, signature) ← node.respond S env ctx.callerPubkey (partialToBytes B sig)
    (dprfPartialSigningMsg ctx.callerEthAddr shardIndex epoch)
  return ⟨ciphertext, shardIndex, epoch, signature⟩

/-- The `GetShardContribution` handler. -/
def getShardContributionHandler (node : Server) (env : CallEnv) (metadata : Metadata) :
    Except RpcStatus EncryptedShard := do
  let ctx ← node.authenticate S env metadata "GetShardContribution"
  let shard ← okOr node.shard ⟨.unavailable, "node not initialized"⟩
  let shardIndex := UInt32.ofNat shard.shardIndex
  let (ciphertext, signature) ← node.respond S env ctx.callerPubkey shard.shardBytes
    (shardSigningMsg "GetShardContribution" ctx.callerEthAddr shardIndex)
  return ⟨ciphertext, shardIndex, signature⟩

/-- The dealt share at the caller's position in the nodeList. -/
def assignedShard (shards : List (ℕ × Bytes)) (nodeList : Except KmsError (List Address))
    (callerAddr : Address) : Except RpcStatus (ℕ × Bytes) := do
  let nodes ← nodeList.mapError fun _ => ⟨.internal, "membership lookup failed"⟩
  let position ← okOr (nodes.findIdx? (· == callerAddr))
    ⟨.permissionDenied, "caller not in on-chain nodeList"⟩
  okOr shards[position]? ⟨.internal, "no shard available"⟩

/-- `try_assign_init_shard`. -/
def tryAssignInitShard (node : Server) (env : CallEnv) (callerPubkey : Bytes) :
    Except RpcStatus (Option EncryptedShard) :=
  match node.pendingShards with
  | none => return none
  | some shards => do
    let callerAddr := ethAddressFromPubkey S.toSecp callerPubkey
    let (index, bytes) ← assignedShard shards env.nodeList callerAddr
    let shardIndex := UInt32.ofNat index
    let (ciphertext, signature) ← node.respond S env callerPubkey bytes
      (shardSigningMsg "RequestShard" callerAddr shardIndex)
    return some ⟨ciphertext, shardIndex, signature⟩

/-- The `RequestShard` handler. -/
def requestShardHandler (node : Server) (env : CallEnv) (metadata : Metadata) :
    Except RpcStatus EncryptedShard := do
  let ctx ← node.authenticate S env metadata "RequestShard"
  match ← tryAssignInitShard S node env ctx.callerPubkey with
  | some shard => return shard
  | none =>
    if node.shard.isSome then
      .error ⟨.failedPrecondition,
        "cluster is active but shard recovery is not yet available (deferred to reshare)"⟩
    else .error ⟨.unavailable, "node not initialized"⟩

end Handlers

-- ════════════════════════════════════════════════════════════════════════
-- Clients
-- ════════════════════════════════════════════════════════════════════════

/-- How a call ends for the client. -/
inductive Answer (α : Type) where
  | badUrl (error : String)
  | unconnected (error : String)
  | status (status : RpcStatus)
  | response (value : α)

/-- What a call gets that the handler answers. -/
def Answer.ofHandler {α : Type} : Except RpcStatus α → Answer α
  | .ok value => .response value
  | .error s => .status s

inductive SeedError where
  | unreachable (message : String)
  | declined (message : String)

/-- `JoinResult`, with the shard that is stored. -/
inductive Joining where
  | joined (shard : ShardState)
  | noSeedReachable
  | seedReachableDeclined

section Clients

variable {Sig : Type} (S : PeerCrypto Sig)

/-- The signer of an answer is a registered and attested node. -/
def verifyClusterResponse (env : Lookups) (message sig : Bytes) : Except String Unit := do
  let signer ← recoverSignerAddress S message sig
  let nodes ← (env.nodeListFor signer).mapError fun e => "nodeList lookup failed: " ++ e.display
  ensure (signer ∈ nodes) ("response signer " ++ Address.debug signer ++
    " is not a registered node")
  (env.requireVerified signer).mapError ("response signer failed attestation gate: " ++ ·)

/-- What `get_dprf_partial` makes of how its call ended. -/
def acceptPartial (own : NodeKey) (env : Lookups) : Answer EncryptedPartial → PartialReply
  | .badUrl e => .error e
  | .unconnected e => .error e
  | .status s => .error s.message
  | .response resp => do
    let signingMsg :=
      dprfPartialSigningMsg own.ethAddress resp.shardIndex resp.epoch resp.ciphertext
    let _ ← (verifyClusterResponse S env signingMsg resp.signature).mapError
      ("partial response verification failed: " ++ ·)
    let bytes ← (eciesDecrypt S own.privateKey resp.ciphertext).mapError fun e =>
      "ECIES decrypt failed: " ++ e.display
    return (resp.shardIndex.toNat, bytes, resp.epoch.toNat)

/-- What `request_shard_from_peer` makes of how its call ended. -/
def requestShardFromPeer (own : NodeKey) (env : Lookups) (peerUrl : String) :
    Answer EncryptedShard → Except SeedError ShardState
  | .badUrl e => .error (.unreachable ("bad seed url " ++ peerUrl ++ ": " ++ e))
  | .unconnected e => .error (.unreachable ("cannot connect to " ++ peerUrl ++ ": " ++ e))
  | .status s =>
    let msg := "RequestShard on " ++ peerUrl ++ ": " ++ s.message
    match s.code with
    | .unavailable => .error (.unreachable msg)
    | .failedPrecondition => .error (.declined msg)
    | _ => .error (.declined msg)
  | .response resp => do
    let signingMsg := shardSigningMsg "RequestShard" own.ethAddress resp.shardIndex resp.ciphertext
    let _ ← (verifyClusterResponse S env signingMsg resp.signature).mapError fun e =>
      .declined ("shard response verification failed: " ++ e)
    let shardBytes ← (eciesDecrypt S own.privateKey resp.ciphertext).mapError fun e =>
      .declined ("ECIES decrypt failed: " ++ e.display)
    return ⟨resp.shardIndex.toNat, shardBytes, genesisEpoch⟩

/-- The loop of `join_cluster` over its seeds, each with how the call to it ends. -/
def joinLoop (own : NodeKey) (env : Lookups) : Bool → List (String × Answer EncryptedShard) →
    Joining
  | anyReachable, [] => if anyReachable then .seedReachableDeclined else .noSeedReachable
  | anyReachable, (seedUrl, answer) :: calls =>
    match requestShardFromPeer S own env seedUrl answer with
    | .ok shard => .joined shard
    | .error (.unreachable _) => joinLoop own env anyReachable calls
    | .error (.declined _) => joinLoop own env true calls

/-- `join_cluster`. -/
def joinCluster (own : NodeKey) (env : Lookups) (timestamp : ℤ)
    (calls : List (String × Answer EncryptedShard)) : Except String Joining :=
  if calls.isEmpty then return .noSeedReachable
  else do
    let _ ← signRequest S own.privateKey "RequestShard" timestamp
    return joinLoop S own env false calls

end Clients

section Successes

variable {F G₁ G₂ Sig : Type} {B : Blsful F G₁ G₂} {S : PeerCrypto Sig} {node : Server}
  {env : CallEnv} {metadata : Metadata}

theorem Server.authenticate_eq_ok {method : String} {ctx : AuthContext}
    (h : node.authenticate S env metadata method = .ok ctx) : ∃ sig timestamp,
      parseMetadata metadata = .ok (sig, timestamp) ∧
      tooFarFromNow env.now timestamp node.config.timestampToleranceSecs = false ∧
      recoverPubkey S.toSecp (signRequestMsg method timestamp) sig = .ok ctx.callerPubkey ∧
      ctx.callerEthAddr = ethAddressFromPubkey S.toSecp ctx.callerPubkey := by
  have hauth := mapError_eq_ok.mp h
  obtain ⟨⟨sig, timestamp⟩, hparse, h⟩ := bind_eq_ok.mp hauth
  obtain ⟨_, hfresh, h⟩ := bind_eq_ok.mp h
  obtain ⟨pubkey, hrecover, h⟩ := bind_eq_ok.mp h
  obtain ⟨_, -, h⟩ := bind_eq_ok.mp h
  obtain ⟨_, -, h⟩ := bind_eq_ok.mp h
  cases h
  refine ⟨sig, timestamp, hparse, ?_, mapError_eq_ok.mp hrecover, rfl⟩
  simpa using ensure_eq_ok.mp hfresh

theorem Server.respond_eq_ok {callerPubkey plaintext ciphertext signature : Bytes}
    {signingMsg : Bytes → Bytes}
    (h : node.respond S env callerPubkey plaintext signingMsg = .ok (ciphertext, signature)) :
    S.encrypt env.randomness callerPubkey plaintext = .ok ciphertext := by
  obtain ⟨ciphertext', hencrypt, h⟩ := bind_eq_ok.mp h
  obtain ⟨signature', -, h⟩ := bind_eq_ok.mp h
  cases h
  exact mapError_eq_ok.mp (mapError_eq_ok.mp hencrypt)

theorem getDprfPartialHandler_eq_ok {appId : String} {material : Bytes} {resp : EncryptedPartial}
    (h : getDprfPartialHandler B S node env metadata appId material = .ok resp) :
    ∃ ctx index bytes epoch, node.authenticate S env metadata "GetDprfPartial" = .ok ctx ∧
      getDprfPartial B node.shard appId material = .ok (index, bytes, epoch) ∧
      resp.shardIndex = UInt32.ofNat index ∧ resp.epoch = UInt64.ofNat epoch ∧
      S.encrypt env.randomness ctx.callerPubkey bytes = .ok resp.ciphertext := by
  obtain ⟨ctx, hauth, h⟩ := bind_eq_ok.mp h
  obtain ⟨shard, hshard, h⟩ := bind_eq_ok.mp h
  obtain ⟨share, hshare, h⟩ := bind_eq_ok.mp h
  obtain ⟨sig, hsig, h⟩ := bind_eq_ok.mp h
  obtain ⟨⟨ciphertext, signature⟩, hrespond, h⟩ := bind_eq_ok.mp h
  cases h
  refine ⟨ctx, shard.shardIndex, partialToBytes B sig, shard.epoch, hauth, ?_, rfl, rfl,
    Server.respond_eq_ok hrespond⟩
  simp only [getDprfPartial, okOr_eq_ok.mp hshard, mapError_eq_ok.mp hshare,
    mapError_eq_ok.mp hsig, okOr_some, mapError_ok, ok_bind]
  rfl

theorem requestShardHandler_eq_ok {resp : EncryptedShard}
    (h : requestShardHandler S node env metadata = .ok resp) : ∃ ctx shards index bytes,
      node.authenticate S env metadata "RequestShard" = .ok ctx ∧
      node.pendingShards = some shards ∧
      assignedShard shards env.nodeList ctx.callerEthAddr = .ok (index, bytes) ∧
      resp.shardIndex = UInt32.ofNat index ∧
      S.encrypt env.randomness ctx.callerPubkey bytes = .ok resp.ciphertext := by
  obtain ⟨ctx, hauth, h⟩ := bind_eq_ok.mp h
  obtain ⟨-, -, -, -, -, haddr⟩ := Server.authenticate_eq_ok hauth
  obtain ⟨assigned, hassign, h⟩ := bind_eq_ok.mp h
  cases assigned with
  | none =>
    dsimp only at h
    split at h
    · cases h
    · cases h
  | some shard =>
    cases h
    cases hpending : node.pendingShards with
    | none =>
      rw [tryAssignInitShard, hpending] at hassign
      cases hassign
    | some shards =>
      simp only [tryAssignInitShard, hpending, ← haddr] at hassign
      obtain ⟨⟨index, bytes⟩, hindex, hassign⟩ := bind_eq_ok.mp hassign
      obtain ⟨⟨ciphertext, signature⟩, hrespond, hassign⟩ := bind_eq_ok.mp hassign
      cases hassign
      exact ⟨ctx, shards, index, bytes, hauth, rfl, hindex, rfl, Server.respond_eq_ok hrespond⟩

variable {own : NodeKey} {lookups : Lookups}

/-- An answer that checks out is signed by a node that is registered and attested. -/
theorem verifyClusterResponse_eq_ok {message sig : Bytes}
    (h : verifyClusterResponse S lookups message sig = .ok ()) : ∃ pubkey nodes,
      recoverPubkey S.toSecp message sig = .ok pubkey ∧
      lookups.nodeListFor (ethAddressFromPubkey S.toSecp pubkey) = .ok nodes ∧
      ethAddressFromPubkey S.toSecp pubkey ∈ nodes ∧
      lookups.requireVerified (ethAddressFromPubkey S.toSecp pubkey) = .ok () := by
  obtain ⟨signer, hsigner, h⟩ := bind_eq_ok.mp h
  obtain ⟨nodes, hnodes, h⟩ := bind_eq_ok.mp h
  obtain ⟨_, hmem, h⟩ := bind_eq_ok.mp h
  obtain ⟨_, -, hsigner⟩ := bind_eq_ok.mp hsigner
  obtain ⟨pubkey, hrecover, hsigner⟩ := bind_eq_ok.mp hsigner
  cases hsigner
  exact ⟨pubkey, nodes, hrecover, mapError_eq_ok.mp hnodes, ensure_eq_ok.mp hmem,
    mapError_eq_ok.mp h⟩

theorem acceptPartial_eq_ok {answer : Answer EncryptedPartial} {index epoch : ℕ} {bytes : Bytes}
    (h : acceptPartial S own lookups answer = .ok (index, bytes, epoch)) : ∃ resp,
      answer = .response resp ∧ verifyClusterResponse S lookups
        (dprfPartialSigningMsg own.ethAddress resp.shardIndex resp.epoch resp.ciphertext)
          resp.signature = .ok () ∧
      S.decrypt own.privateKey resp.ciphertext = .ok bytes ∧ index = resp.shardIndex.toNat ∧
      epoch = resp.epoch.toNat := by
  cases answer with
  | badUrl e => cases h
  | unconnected e => cases h
  | status s => cases h
  | response resp =>
    obtain ⟨_, hverify, h⟩ := bind_eq_ok.mp h
    obtain ⟨bytes', hdecrypt, h⟩ := bind_eq_ok.mp h
    cases h
    exact ⟨resp, rfl, mapError_eq_ok.mp hverify,
      mapError_eq_ok.mp (mapError_eq_ok.mp hdecrypt), rfl, rfl⟩

theorem requestShardFromPeer_eq_ok {peerUrl : String} {answer : Answer EncryptedShard}
    {shard : ShardState} (h : requestShardFromPeer S own lookups peerUrl answer = .ok shard) :
    ∃ resp, answer = .response resp ∧ verifyClusterResponse S lookups
        (shardSigningMsg "RequestShard" own.ethAddress resp.shardIndex resp.ciphertext)
          resp.signature = .ok () ∧
      S.decrypt own.privateKey resp.ciphertext = .ok shard.shardBytes ∧
      shard.shardIndex = resp.shardIndex.toNat ∧ shard.epoch = genesisEpoch := by
  cases answer with
  | badUrl e => cases h
  | unconnected e => cases h
  | status s =>
    simp only [requestShardFromPeer] at h
    split at h <;> cases h
  | response resp =>
    obtain ⟨_, hverify, h⟩ := bind_eq_ok.mp h
    obtain ⟨bytes', hdecrypt, h⟩ := bind_eq_ok.mp h
    cases h
    exact ⟨resp, rfl, mapError_eq_ok.mp hverify,
      mapError_eq_ok.mp (mapError_eq_ok.mp hdecrypt), rfl, rfl⟩

/-- A join that gets a shard got it from one of its seeds. -/
theorem joinLoop_eq_joined {shard : ShardState} {anyReachable : Bool}
    {calls : List (String × Answer EncryptedShard)}
    (h : joinLoop S own lookups anyReachable calls = .joined shard) :
    ∃ call ∈ calls, requestShardFromPeer S own lookups call.1 call.2 = .ok shard := by
  induction calls generalizing anyReachable with
  | nil => cases anyReachable <;> cases h
  | cons call calls ih =>
    obtain ⟨seedUrl, answer⟩ := call
    rw [joinLoop] at h
    cases hcall : requestShardFromPeer S own lookups seedUrl answer with
    | ok shard' =>
      rw [hcall] at h
      cases h
      exact ⟨_, List.mem_cons_self, hcall⟩
    | error e =>
      rw [hcall] at h
      cases e with
      | unreachable e =>
        obtain ⟨call, hmem, hok⟩ := ih h
        exact ⟨call, List.mem_cons_of_mem _ hmem, hok⟩
      | declined e =>
        obtain ⟨call, hmem, hok⟩ := ih h
        exact ⟨call, List.mem_cons_of_mem _ hmem, hok⟩

theorem joinCluster_eq_joined {shard : ShardState} {timestamp : ℤ}
    {calls : List (String × Answer EncryptedShard)}
    (h : joinCluster S own lookups timestamp calls = .ok (.joined shard)) :
    ∃ call ∈ calls, requestShardFromPeer S own lookups call.1 call.2 = .ok shard := by
  unfold joinCluster at h
  split at h
  · cases h
  · obtain ⟨_, -, h⟩ := bind_eq_ok.mp h
    exact joinLoop_eq_joined (Except.ok.inj h)

end Successes

-- ════════════════════════════════════════════════════════════════════════
-- A call that is delivered
-- ════════════════════════════════════════════════════════════════════════

/-- The metadata that a client sends. -/
def requestMetadata (sig : Bytes) (timestamp : ℤ) : Metadata :=
  ⟨some (some (hexEncode sig)), some (some (toString timestamp))⟩

section Delivered

variable {F G₁ G₂ Sig : Type} {B : Blsful F G₁ G₂} {S : PeerCrypto Sig}

/-- `own` calls `node`, and each finds the other registered and attested and the clocks close. -/
structure Peers (S : PeerCrypto Sig) (own : NodeKey) (ownPubkey : Bytes) (lookups : Lookups)
    (node : Server) (env : CallEnv) (timestamp : ℤ) : Prop where
  ownKeys : KeyPair S own ownPubkey
  nodeKeys : ∃ pubkey, KeyPair S node.key pubkey
  inRange : InI64 timestamp
  fresh : tooFarFromNow env.now timestamp node.config.timestampToleranceSecs = false
  ownListed : ∃ nodes, env.nodeListFor own.ethAddress = .ok nodes ∧ own.ethAddress ∈ nodes
  ownVerified : env.requireVerified own.ethAddress = .ok ()
  nodeListed : ∃ nodes, lookups.nodeListFor node.key.ethAddress = .ok nodes ∧
    node.key.ethAddress ∈ nodes
  nodeVerified : lookups.requireVerified node.key.ethAddress = .ok ()

variable {own : NodeKey} {ownPubkey : Bytes} {lookups : Lookups} {node : Server} {env : CallEnv}
  {timestamp : ℤ}

theorem parseMetadata_requestMetadata {sig : Bytes} (hsig : sig.length = 65)
    (h : InI64 timestamp) :
    parseMetadata (requestMetadata sig timestamp) = .ok (sig, timestamp) := by
  simp only [parseMetadata, requestMetadata, hexDecode_hexEncode, parseI64_toString h, okOr_some,
    ok_bind, ensure_of hsig]
  rfl

theorem Peers.authenticate_eq (h : Peers S own ownPubkey lookups node env timestamp)
    {method : String} {sig : Bytes}
    (hsig : signRequest S own.privateKey method timestamp = .ok sig) :
    node.authenticate S env (requestMetadata sig timestamp) method =
      .ok ⟨ownPubkey, own.ethAddress⟩ := by
  obtain ⟨sig', hsig', hlength, hrecover⟩ := h.ownKeys.exists_sign (signRequestMsg method timestamp)
  obtain rfl := Except.ok.inj (hsig'.symm.trans hsig)
  obtain ⟨nodes, hnodes, hmem⟩ := h.ownListed
  have hne : nodes ≠ [] := List.ne_nil_of_mem hmem
  have honchain : verifyOnChain node.appId (env.nodeListFor own.ethAddress) own.ethAddress =
      .ok () := by
    simp only [verifyOnChain, hnodes, mapError_ok, ok_bind, ensure_of hne, ensure_of hmem]
  rw [signRequestMsg] at hrecover
  simp only [Server.authenticate, authenticate, authenticateSigned,
    parseMetadata_requestMetadata hlength h.inRange, ok_bind, h.fresh, Bool.not_false, ensure_of,
    hrecover, mapError_ok, h.ownKeys.address, honchain, h.ownVerified]
  rfl

/-- An answer is encrypted so that the caller reads it, and signed by the node. -/
theorem Peers.respond_eq (h : Peers S own ownPubkey lookups node env timestamp)
    (plaintext : Bytes) (signingMsg : Bytes → Bytes) : ∃ ciphertext sig,
      node.respond S env ownPubkey plaintext signingMsg = .ok (ciphertext, sig) ∧
      eciesDecrypt S own.privateKey ciphertext = .ok plaintext ∧
      verifyClusterResponse S lookups (signingMsg ciphertext) sig = .ok () := by
  obtain ⟨ciphertext, hencrypt⟩ := h.ownKeys.encrypt env.randomness plaintext
  obtain ⟨pubkey, hkeys⟩ := h.nodeKeys
  obtain ⟨sig, hsig, -, -⟩ := hkeys.exists_sign (signingMsg ciphertext)
  obtain ⟨nodes, hnodes, hmem⟩ := h.nodeListed
  refine ⟨ciphertext, sig, ?_, ?_, ?_⟩
  · simp only [Server.respond, eciesEncrypt, hencrypt, hsig, mapError_ok, ok_bind]
    rfl
  · simp only [eciesDecrypt, h.ownKeys.decrypt _ _ _ hencrypt, mapError_ok]
  · simp only [verifyClusterResponse, hkeys.recoverSignerAddress_eq hsig, hnodes, mapError_ok,
      ok_bind, ensure_of hmem, h.nodeVerified]

theorem error_ok_iff {ε ε' α : Type} {e : ε} {e' : ε'} {a : α} :
    (.error e : Except ε α) = .ok a ↔ (.error e' : Except ε' α) = .ok a := by
  simp

/-- Over a network that delivers, the client reads off an answer what the node's share makes of
    the request. -/
theorem acceptPartial_handler (h : Peers S own ownPubkey lookups node env timestamp)
    (hindex : ∀ shard, node.shard = some shard → shard.shardIndex < 2 ^ 32)
    (hepoch : ∀ shard, node.shard = some shard → shard.epoch < 2 ^ 64) {sig : Bytes}
    (hsig : signRequest S own.privateKey "GetDprfPartial" timestamp = .ok sig) (appId : String)
    (material : Bytes) (reply : ℕ × Bytes × ℕ) :
    acceptPartial S own lookups (.ofHandler (getDprfPartialHandler B S node env
      (requestMetadata sig timestamp) appId material)) = .ok reply ↔
        getDprfPartial B node.shard appId material = .ok reply := by
  simp only [getDprfPartialHandler, h.authenticate_eq hsig, ok_bind, getDprfPartial]
  cases hshard : node.shard with
  | none => exact error_ok_iff
  | some shard =>
    simp only [okOr_some, ok_bind]
    cases shareFromBytes B shard.shardBytes with
    | error e => exact error_ok_iff
    | ok share =>
      simp only [mapError_ok, ok_bind]
      cases dprfPartial B share (dprfMessage appId material) with
      | error e => exact error_ok_iff
      | ok sig =>
        obtain ⟨ciphertext, answer, hrespond, hdecrypt, hverify⟩ := h.respond_eq
          (partialToBytes B sig) (dprfPartialSigningMsg own.ethAddress
            (UInt32.ofNat shard.shardIndex) (UInt64.ofNat shard.epoch))
        have hindex' : (UInt32.ofNat shard.shardIndex).toNat = shard.shardIndex :=
          UInt32.toNat_ofNat_of_lt' (hindex shard hshard)
        have hepoch' : (UInt64.ofNat shard.epoch).toNat = shard.epoch :=
          UInt64.toNat_ofNat_of_lt' (hepoch shard hshard)
        simp only [mapError_ok, ok_bind, hrespond, pure, Except.pure, Answer.ofHandler,
          acceptPartial, hverify, hdecrypt, hindex', hepoch']

end Delivered

section Finds

variable {Sig : Type} {S : PeerCrypto Sig}

/-- The call did not reach a node, or reached one that called itself unavailable. -/
def Answer.Missed {α : Type} : Answer α → Prop
  | .badUrl _ | .unconnected _ => True
  | .status s => s.code = .unavailable
  | .response _ => False

theorem requestShardFromPeer_unreachable_iff {own : NodeKey} {env : Lookups} {peerUrl : String}
    {answer : Answer EncryptedShard} :
    (∃ e, requestShardFromPeer S own env peerUrl answer = .error (.unreachable e)) ↔
      answer.Missed := by
  cases answer with
  | badUrl e => exact ⟨fun _ => trivial, fun _ => ⟨_, rfl⟩⟩
  | unconnected e => exact ⟨fun _ => trivial, fun _ => ⟨_, rfl⟩⟩
  | status s =>
    obtain ⟨code, message⟩ := s
    simp only [requestShardFromPeer, Answer.Missed]
    cases code <;> simp
  | response resp =>
    simp only [Answer.Missed, iff_false, not_exists]
    intro e h
    simp only [requestShardFromPeer] at h
    cases hverify : verifyClusterResponse S env
        (shardSigningMsg "RequestShard" own.ethAddress resp.shardIndex resp.ciphertext)
        resp.signature with
    | error e' =>
      rw [hverify] at h
      cases h
    | ok _ =>
      rw [hverify] at h
      cases hdecrypt : eciesDecrypt S own.privateKey resp.ciphertext with
      | error e' =>
        rw [hdecrypt] at h
        cases h
      | ok bytes =>
        rw [hdecrypt] at h
        cases h

theorem joinLoop_noSeedReachable_iff {own : NodeKey} {env : Lookups} {anyReachable : Bool}
    {calls : List (String × Answer EncryptedShard)} :
    joinLoop S own env anyReachable calls = .noSeedReachable ↔
      anyReachable = false ∧ ∀ call ∈ calls, call.2.Missed := by
  induction calls generalizing anyReachable with
  | nil => cases anyReachable <;> simp [joinLoop]
  | cons call calls ih =>
    obtain ⟨seedUrl, answer⟩ := call
    have hmissed := @requestShardFromPeer_unreachable_iff _ S own env seedUrl answer
    rw [joinLoop, List.forall_mem_cons]
    cases hcall : requestShardFromPeer S own env seedUrl answer with
    | ok shard =>
      simp only [hcall, reduceCtorEq, exists_false, false_iff] at hmissed
      simp [hmissed]
    | error e =>
      cases e with
      | unreachable e =>
        simp only [ih]
        have hthis : answer.Missed := hmissed.mp ⟨e, hcall⟩
        simp [hthis]
      | declined e =>
        simp only [hcall, Except.error.injEq, reduceCtorEq, exists_false, false_iff] at hmissed
        simp [ih, hmissed]

/-- When this fails, the status is not `Unavailable`. -/
abbrev NeverUnavailable {α : Type} (x : Except RpcStatus α) : Prop :=
  FailsIn (fun s => s.code ≠ .unavailable) x

variable {node : Server} {env : CallEnv}

theorem authenticate_neverUnavailable (metadata : Metadata) (method : String) :
    NeverUnavailable (node.authenticate S env metadata method) :=
  .mapError RpcStatus.ofStatus_code

theorem respond_neverUnavailable (callerPubkey plaintext : Bytes) (signingMsg : Bytes → Bytes) :
    NeverUnavailable (node.respond S env callerPubkey plaintext signingMsg) :=
  .bind (.mapError fun _ => by decide) fun _ _ =>
    .bind (.mapError fun _ => by decide) fun _ _ => .ok _

theorem assignedShard_neverUnavailable (shards : List (ℕ × Bytes))
    (nodeList : Except KmsError (List Address)) (callerAddr : Address) :
    NeverUnavailable (assignedShard shards nodeList callerAddr) :=
  .bind (.mapError fun _ => by decide) fun _ _ =>
    .bind (.okOr (by decide)) fun _ _ => .okOr (by decide)

/-- With pending shards there is an answer or another failure. -/
theorem tryAssignInitShard_neverUnavailable (callerPubkey : Bytes) :
    NeverUnavailable (tryAssignInitShard S node env callerPubkey) := by
  unfold tryAssignInitShard
  cases node.pendingShards with
  | none => exact .ok _
  | some shards =>
    exact .bind (assignedShard_neverUnavailable _ _ _) fun _ _ =>
      .bind (respond_neverUnavailable _ _ _) fun _ _ => .ok _

theorem tryAssignInitShard_eq_none {callerPubkey : Bytes} :
    tryAssignInitShard S node env callerPubkey = .ok none ↔ node.pendingShards = none := by
  unfold tryAssignInitShard
  cases node.pendingShards with
  | none => exact ⟨fun _ => rfl, fun _ => rfl⟩
  | some shards =>
    simp only [reduceCtorEq, iff_false]
    intro h
    obtain ⟨_, -, h⟩ := bind_eq_ok.mp h
    obtain ⟨_, -, h⟩ := bind_eq_ok.mp h
    cases h

/-- A handler answers `Unavailable` to an authenticated caller when it has nothing at all. -/
theorem requestShardHandler_unavailable_iff {metadata : Metadata} :
    (∃ message, requestShardHandler S node env metadata = .error ⟨.unavailable, message⟩) ↔
      (∃ ctx, node.authenticate S env metadata "RequestShard" = .ok ctx) ∧
        node.pendingShards = none ∧ node.shard = none := by
  constructor
  · rintro ⟨message, h⟩
    rw [requestShardHandler] at h
    cases hauth : node.authenticate S env metadata "RequestShard" with
    | error s =>
      rw [hauth] at h
      cases h
      exact absurd rfl (authenticate_neverUnavailable metadata "RequestShard" _ hauth)
    | ok ctx =>
      rw [hauth, ok_bind] at h
      cases hassign : tryAssignInitShard S node env ctx.callerPubkey with
      | error s =>
        rw [hassign] at h
        cases h
        exact absurd rfl (tryAssignInitShard_neverUnavailable ctx.callerPubkey _ hassign)
      | ok assigned =>
        rw [hassign, ok_bind] at h
        cases assigned with
        | some shard => cases h
        | none =>
          refine ⟨⟨ctx, rfl⟩, tryAssignInitShard_eq_none.mp hassign, ?_⟩
          cases hshard : node.shard with
          | none => rfl
          | some shard =>
            simp [hshard] at h
  · rintro ⟨⟨ctx, hauth⟩, hpending, hshard⟩
    have hassign := @tryAssignInitShard_eq_none _ S node env ctx.callerPubkey
    rw [requestShardHandler, hauth, ok_bind, hassign.mpr hpending, ok_bind]
    simp only [hshard]
    exact ⟨_, rfl⟩

/-- How the call to a seed goes: it does not get through, or a node answers. -/
inductive SeedCall where
  | badUrl (error : String)
  | unconnected (error : String)
  | answered (node : Server) (env : CallEnv) (metadata : Metadata)

def SeedCall.answer (S : PeerCrypto Sig) : SeedCall → Answer EncryptedShard
  | badUrl e => .badUrl e
  | unconnected e => .unconnected e
  | answered node env metadata => .ofHandler (requestShardHandler S node env metadata)

/-- Nothing at the seed speaks of a cluster. -/
def SeedCall.Silent (S : PeerCrypto Sig) : SeedCall → Prop
  | answered node env metadata =>
    (∃ ctx, node.authenticate S env metadata "RequestShard" = .ok ctx) ∧
      node.pendingShards = none ∧ node.shard = none
  | _ => True

theorem SeedCall.missed_iff (call : SeedCall) : (call.answer S).Missed ↔ call.Silent S := by
  cases call with
  | badUrl e => exact Iff.rfl
  | unconnected e => exact Iff.rfl
  | answered node env metadata =>
    have hiff := @requestShardHandler_unavailable_iff _ S node env metadata
    simp only [SeedCall.answer, SeedCall.Silent, ← hiff]
    cases requestShardHandler S node env metadata with
    | ok shard => simp [Answer.ofHandler, Answer.Missed]
    | error s =>
      obtain ⟨code, message⟩ := s
      simp [Answer.ofHandler, Answer.Missed]

/-- For any seeds, in any states and behind any connections: a join finds no cluster exactly when
    every call that gets through is answered by a node that knows the caller and has neither a
    share nor shares to hand out. -/
theorem joinCluster_noSeedReachable_iff {own : NodeKey} {env : Lookups} {timestamp : ℤ}
    {sig : Bytes} (hsig : signRequest S own.privateKey "RequestShard" timestamp = .ok sig)
    (calls : List (String × SeedCall)) :
    joinCluster S own env timestamp (calls.map fun call => (call.1, call.2.answer S)) =
      .ok .noSeedReachable ↔ ∀ call ∈ calls, call.2.Silent S := by
  have hloop := @joinLoop_noSeedReachable_iff _ S own env false
    (calls.map fun call => (call.1, call.2.answer S))
  simp only [List.forall_mem_map, SeedCall.missed_iff, true_and] at hloop
  rw [← hloop, joinCluster, hsig]
  cases calls with
  | nil => simp [joinLoop, pure, Except.pure]
  | cons call calls => simp [pure, Except.pure]

end Finds

section ByteKeys

open AppKey

/-- Crypto in which a private key is one byte, and whose signatures and ciphertexts name it. -/
def byteKeys : PeerCrypto Bytes where
  keccak256 := tailHash
  fromSlice := .ok
  recoverFromPrehash _ sig _ := .ok (point (sig.headD 0))
  encrypt _ pubkey plaintext := .ok (pubkey.getD 1 0 :: plaintext)
  signingKey _ := .ok ()
  signPrehash privateKey _ := .ok (List.replicate 64 (privateKey.headD 0), 0)
  decrypt privateKey ciphertext :=
    if ciphertext.head? = privateKey.head? then .ok ciphertext.tail else .error "wrong key"

def byteKey (b : UInt8) : NodeKey := ⟨[b], ethAddressFromPubkey byteKeys.toSecp (point b)⟩

theorem byteKeys_keyPair (b : UInt8) : KeyPair byteKeys (byteKey b) (point b) where
  address := rfl
  signingKey := rfl
  sign hash := ⟨_, 0, _, rfl, List.length_replicate, by decide, rfl, rfl⟩
  encrypt randomness plaintext := ⟨_, rfl⟩
  decrypt randomness plaintext ciphertext h := by
    obtain rfl := Except.ok.inj h
    exact if_pos rfl

def byteServer (b : UInt8) (shard : Option ShardState) (pendingShards : Option (List (ℕ × Bytes))) :
    Server :=
  ⟨byteKey b, "kms", ⟨300⟩, shard, pendingShards⟩

/-- Everybody on the list is attested, and the clock stands at zero. -/
def byteEnv (nodes : List Address) : CallEnv :=
  ⟨⟨fun _ => .ok nodes, fun _ => .ok ()⟩, 0, .ok nodes, []⟩

theorem bytePeers {a b : UInt8} {nodes : List Address} {shard : Option ShardState}
    {pendingShards : Option (List (ℕ × Bytes))} (ha : (byteKey a).ethAddress ∈ nodes)
    (hb : (byteKey b).ethAddress ∈ nodes) :
    Peers byteKeys (byteKey a) (point a) (byteEnv nodes).toLookups
      (byteServer b shard pendingShards) (byteEnv nodes) 0 where
  ownKeys := byteKeys_keyPair a
  nodeKeys := ⟨_, byteKeys_keyPair b⟩
  inRange := ⟨by norm_num, by norm_num⟩
  fresh := by
    show tooFarFromNow 0 0 300 = false
    decide
  ownListed := ⟨nodes, rfl, ha⟩
  ownVerified := rfl
  nodeListed := ⟨nodes, rfl, hb⟩
  nodeVerified := rfl

theorem signRequest_byteKey (a : UInt8) (method : String) (timestamp : ℤ) :
    signRequest byteKeys (byteKey a).privateKey method timestamp =
      .ok (List.replicate 64 a ++ [0]) :=
  rfl

def twoNodes : List Address := [(byteKey 1).ethAddress, (byteKey 2).ethAddress]

/-- Node 1 asks node 2. -/
theorem acceptPartial_handler_two : ∃ reply,
    acceptPartial byteKeys (byteKey 1) (byteEnv twoNodes).toLookups (.ofHandler
      (getDprfPartialHandler scalarBlsful byteKeys (byteServer 2 (some (lineShard 2 1)) none)
        (byteEnv twoNodes) (requestMetadata (List.replicate 64 1 ++ [0]) 0) "app" [7])) =
      .ok reply := by
  have hreply := (lineShard_onPolynomial (i := 2) 1 (by norm_num)).getDprfPartial_eq
    scalarBlsful_lawful "app" [7]
  refine ⟨_, (acceptPartial_handler (bytePeers List.mem_cons_self
    (List.mem_cons_of_mem _ List.mem_cons_self)) ?_ ?_ (signRequest_byteKey 1 _ 0) "app" [7]
    _).mpr hreply⟩
  · intro shard hshard
    cases hshard
    exact (by norm_num : 2 < 2 ^ 32)
  · intro shard hshard
    cases hshard
    exact (by norm_num : 1 < 2 ^ 64)

/-- One seed is down and the other has nothing. -/
def newSeeds : List (String × SeedCall) :=
  [("http://down", .unconnected "refused"), ("http://new", .answered (byteServer 2 none none)
    (byteEnv twoNodes) (requestMetadata (List.replicate 64 1 ++ [0]) 0))]

theorem joinCluster_noSeedReachable_iff_new :
    joinCluster byteKeys (byteKey 1) (byteEnv twoNodes).toLookups 0
      (newSeeds.map fun call => (call.1, call.2.answer byteKeys)) = .ok .noSeedReachable := by
  refine (joinCluster_noSeedReachable_iff (signRequest_byteKey 1 _ 0) _).mpr ?_
  intro call hcall
  rcases List.mem_cons.mp hcall with rfl | hcall
  · trivial
  · obtain rfl := List.mem_singleton.mp hcall
    exact ⟨⟨_, (bytePeers List.mem_cons_self
      (List.mem_cons_of_mem _ List.mem_cons_self)).authenticate_eq (signRequest_byteKey 1 _ 0)⟩,
      rfl, rfl⟩

end ByteKeys

end KmsCluster.PeerCalls
