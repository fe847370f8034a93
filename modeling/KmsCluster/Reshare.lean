import KmsCluster.Derive
import KmsCluster.Membership
import Mathlib.Data.List.Sort

/-!
# Resharing

Model of `run_reshare_recovery`, `run_reshare_dealer` and `trigger_refresh` (`src/init.rs`). The
participants and their polynomials come from `gennaro-dkg` and are the parameter `Gennaro`; the
message exchange of `run_session` is an argument of the functions.
-/

namespace KmsCluster

open Fallible Interpolation

/-- What the node calls of `gennaro-dkg`: participants of type `P` over the scalar field `F`,
    built from randomness of type `R`. -/
structure Gennaro (F R P : Type) where
  /-- `SecretParticipant::with_secret`: id, threshold, limit, secret, share ids, index. -/
  withSecret : ℕ → ℕ → ℕ → F → List F → ℕ → R → Except String P
  /-- `RefreshParticipant::new`: id, threshold, limit. -/
  refreshNew : ℕ → ℕ → ℕ → R → Except String P
  /-- The value of a participant's polynomial, as the receiver at that point gets it. -/
  contribution : P → F → F

/-- The `StartReshare` request. -/
structure ReshareRequest where
  sessionId : String
  recoveringId : ℕ
  dealerIds : List ℕ
  epoch : ℕ

/-- The participants of a session: the dealers and the recovering node, if there is one. -/
def ReshareRequest.participantIds (req : ReshareRequest) : List ℕ :=
  if req.recoveringId ≠ 0 then req.dealerIds ++ [req.recoveringId] else req.dealerIds

/-- `store_share`. `blob` is the sealed share, `none` when sealing failed. -/
def storeShare (st : AppState) (shard : ShardState) (groupPubkey : Bytes) (blob : Option String) :
    AppState :=
  { st with
    sealedShare := blob.or st.sealedShare
    groupPubkey := some groupPubkey
    shard := some shard }

/-- The group-key guard: a key the node already knows must not change. -/
def keepsGroupKey (known : Option Bytes) (pk : Bytes) : Bool := known.all (· == pk)

/-- Guard the group key, then store the share; `refusal` is the error when the key has changed. -/
def finishSession {F G₁ G₂ : Type} [NatCast F] (B : Blsful F G₁ G₂) (refusal : String)
    (st : AppState) (ownId epoch : ℕ) (share : F) (pk : G₁) (blob : Option String) :
    Except String AppState := do
  let pkBytes := B.pubkeyToBytes pk
  ensure (keepsGroupKey st.groupPubkey pkBytes) refusal
  return storeShare st
    ⟨ownId, shareToBytes B (gennaroShareToBlsful ownId share), epoch⟩ pkBytes blob

/-- `Parameters::new` over non-zero sizes. -/
def checkParameters (threshold total : ℕ) : Except String Unit := do
  ensure (0 < threshold) "threshold must be > 0"
  ensure (0 < total) "total_nodes must be > 0"

-- ════════════════════════════════════════════════════════════════════════
-- Recovery
-- ════════════════════════════════════════════════════════════════════════

/-- The dealers of a recovery, or why it cannot run yet. -/
def recoveryDealers (m : Membership) : Except String (List SessionPeer) := do
  let dealers := m.leadingDealers
  ensure (m.threshold ≤ dealers.length)
    ("cannot recover yet: " ++ toString dealers.length ++
      " live share-holders discovered, need >= threshold " ++ toString m.threshold)
  let participants := dealers.length + 1
  ensure (majority m.total ≤ participants)
    ("cannot recover yet: " ++ toString participants ++ " participants, need a majority (" ++
      toString (majority m.total) ++ ") of " ++ toString m.total ++ " to avoid split-brain")
  return dealers

/-- The session a recovering node starts, with its dealers. -/
def recoveryRequest (st : AppState) (m : Membership) (nonce : ℤ) :
    Except String (List SessionPeer × ReshareRequest) := do
  let dealers ← recoveryDealers m
  let newEpoch := nextEpoch st.knownEpoch
  return (dealers, {
    sessionId := "reshare:" ++ st.config.appId ++ ":" ++ toString newEpoch ++ ":" ++ toString nonce
    recoveringId := m.ownId
    dealerIds := (dealers.map (·.id)).insertionSort (· ≤ ·)
    epoch := newEpoch })

section Recovery

variable {F G₁ G₂ R P : Type} [NatCast F] (B : Blsful F G₁ G₂) (D : Gennaro F R P)

def recoveryParticipant (ownId threshold total : ℕ) (rnd : R) : Except String P := do
  checkParameters threshold total
  (D.refreshNew ownId threshold total rnd).mapError
    ("reshare (recovering) participant init: " ++ ·)

/-- What a recovering node does with the outcome of its session. -/
def finishRecovery (st : AppState) (ownId epoch : ℕ) (share : F) (pk : G₁)
    (blob : Option String) : Except String AppState :=
  finishSession B "reshare recovery changed the group public key — aborting to avoid corruption"
    st ownId epoch share pk blob

/-- `run_reshare_recovery`, with `runSession` for the message exchange. -/
def runReshareRecovery (st : AppState) (m : Membership) (nonce : ℤ)
    (signature : Except String Bytes) (rnd : R)
    (runSession : P → List SessionPeer → Except String (F × G₁)) (blob : Option String) :
    Except String AppState := do
  let (dealers, req) ← recoveryRequest st m nonce
  let _ ← signature
  let participant ← recoveryParticipant D m.ownId m.threshold m.total rnd
  let (share, pk) ← runSession participant dealers
  finishRecovery B st m.ownId req.epoch share pk blob

end Recovery

-- ════════════════════════════════════════════════════════════════════════
-- Dealer
-- ════════════════════════════════════════════════════════════════════════

/-- The dealer's participant id and its index in the dealer set. -/
def dealerPosition (st : AppState) (nodeList : Except String (List Address))
    (dealerIds : List ℕ) : Except String (ℕ × ℕ) := do
  let nodeList ← nodeList.mapError ("nodeList lookup failed: " ++ ·)
  let ownId ← okOr (positionOf nodeList st.ethAddress)
    "reshare dealer: this node is not in the nodeList"
  let ownIndex ← okOr (dealerIds.findIdx? (· == ownId))
    ("reshare dealer: own id " ++ toString ownId ++ " not in dealer set")
  return (ownId, ownIndex)

/-- Never reshare backwards into an epoch already passed. -/
def dealerEpochCheck (shard : Option ShardState) (epoch : ℕ) : Except String Unit :=
  ensure (shardEpoch shard < epoch)
    ("reshare dealer: target epoch " ++ toString epoch ++ " not ahead of current " ++
      toString (shardEpoch shard))

section Dealer

variable {F G₁ G₂ R P : Type} [NatCast F] (B : Blsful F G₁ G₂) (D : Gennaro F R P)

/-- The scalar a dealer contributes: the value of its stored share. -/
def dealerSecret (shard : Option ShardState) : Except String F := do
  let shard ← okOr shard "reshare dealer: no local share"
  let share ← shareFromBytes B shard.shardBytes
  return blsfulShareScalar share

def dealerParticipant (config : Config) (ownId ownIndex : ℕ) (secret : F) (dealerIds : List ℕ)
    (rnd : R) : Except String P := do
  checkParameters config.threshold config.totalNodes
  (D.withSecret ownId config.threshold config.totalNodes secret
    (dealerIds.map fun i : ℕ => (i : F)) ownIndex rnd).mapError
    ("reshare dealer participant init: " ++ ·)

/-- What a dealer does with the outcome of its session. -/
def finishDealer (st : AppState) (ownId epoch : ℕ) (share : F) (pk : G₁)
    (blob : Option String) : Except String AppState :=
  finishSession B
    "reshare changed the group public key — aborting share update to avoid corruption"
    st ownId epoch share pk blob

/-- `run_reshare_dealer`. The nodeList is fetched twice, for the own position and for the
    peers. -/
def runReshareDealer (st : AppState) (nodeList nodeList' : Except String (List Address))
    (req : ReshareRequest) (rnd : R)
    (runSession : P → List SessionPeer → Except String (F × G₁)) (blob : Option String) :
    Except String AppState := do
  let (ownId, ownIndex) ← dealerPosition st nodeList req.dealerIds
  dealerEpochCheck st.shard req.epoch
  let secret ← dealerSecret B st.shard
  let nodeList' ← nodeList'.mapError ("nodeList lookup failed: " ++ ·)
  let peers ← resolvePeers st.peerTable nodeList' req.participantIds ownId
  let participant ← dealerParticipant D st.config ownId ownIndex secret req.dealerIds rnd
  let (share, pk) ← runSession participant peers
  finishDealer B st ownId req.epoch share pk blob

/-- The session a refresh starts, with the other dealers. -/
def refreshRequest (st : AppState) (membership : Except String (Option Membership)) (nonce : ℤ) :
    Except String (List SessionPeer × ReshareRequest) := do
  ensure st.shard.isSome "cannot refresh: this node has no share"
  let m ← membership
  let m ← okOr m "refresh: nodeList not yet at configured size"
  ensure m.allDiscovered
    ("refresh requires all " ++ toString m.total ++
      " members healthy; some are not discovered — wait or resize")
  let ownEpoch := shardEpoch st.shard
  let mixed := (m.peers.filter fun p => p.epoch ≠ ownEpoch).map
    fun p => "id" ++ toString p.id ++ "@epoch" ++ toString p.epoch
  ensure mixed.isEmpty
    ("refresh requires a single epoch across the committee (own epoch " ++ toString ownEpoch ++
      "), but: " ++ ", ".intercalate mixed ++
      " — stragglers re-sync automatically; retry shortly")
  let newEpoch := nextEpoch st.knownEpoch
  return (m.peers, {
    sessionId := "refresh:" ++ st.config.appId ++ ":" ++ toString newEpoch ++ ":" ++ toString nonce
    recoveringId := 0
    dealerIds := (m.peers.map (·.id) ++ [m.ownId]).insertionSort (· ≤ ·)
    epoch := newEpoch })

/-- `trigger_refresh`: start the session and take part as a dealer. -/
def triggerRefresh (st : AppState) (membership : Except String (Option Membership)) (nonce : ℤ)
    (signature : Except String Bytes) (nodeList nodeList' : Except String (List Address)) (rnd : R)
    (runSession : P → List SessionPeer → Except String (F × G₁)) (blob : Option String) :
    Except String AppState := do
  let (_, req) ← refreshRequest st membership nonce
  let _ ← signature
  runReshareDealer B D st nodeList nodeList' req rnd runSession blob

end Dealer

-- ════════════════════════════════════════════════════════════════════════
-- Inversion
-- ════════════════════════════════════════════════════════════════════════

theorem recoveryDealers_eq_ok {m : Membership} {dealers : List SessionPeer}
    (h : recoveryDealers m = .ok dealers) :
    dealers = m.leadingDealers ∧ m.threshold ≤ dealers.length ∧
      majority m.total ≤ dealers.length + 1 := by
  obtain ⟨_, hthreshold, h⟩ := bind_eq_ok.mp h
  obtain ⟨_, hmajority, h⟩ := bind_eq_ok.mp h
  cases h
  exact ⟨rfl, ensure_eq_ok.mp hthreshold, ensure_eq_ok.mp hmajority⟩

theorem recoveryRequest_eq_ok {st : AppState} {m : Membership} {nonce : ℤ}
    {dealers : List SessionPeer} {req : ReshareRequest}
    (h : recoveryRequest st m nonce = .ok (dealers, req)) :
    recoveryDealers m = .ok dealers ∧ req.recoveringId = m.ownId ∧
      req.dealerIds = (dealers.map (·.id)).insertionSort (· ≤ ·) ∧
      req.epoch = nextEpoch st.knownEpoch := by
  obtain ⟨dealers', hdealers, h⟩ := bind_eq_ok.mp h
  cases h
  exact ⟨hdealers, rfl, rfl, rfl⟩

theorem refreshRequest_eq_ok {st : AppState} {membership : Except String (Option Membership)}
    {nonce : ℤ} {peers : List SessionPeer} {req : ReshareRequest}
    (h : refreshRequest st membership nonce = .ok (peers, req)) :
    ∃ m, membership = .ok (some m) ∧ peers = m.peers ∧ st.shard.isSome = true ∧
      m.allDiscovered = true ∧ (∀ p ∈ m.peers, p.epoch = shardEpoch st.shard) ∧
      req.recoveringId = 0 ∧
      req.dealerIds = (m.peers.map (·.id) ++ [m.ownId]).insertionSort (· ≤ ·) ∧
      req.epoch = nextEpoch st.knownEpoch := by
  obtain ⟨_, hshard, h⟩ := bind_eq_ok.mp h
  obtain ⟨membership', hmembership, h⟩ := bind_eq_ok.mp h
  obtain ⟨m, hm, h⟩ := bind_eq_ok.mp h
  obtain ⟨_, hall, h⟩ := bind_eq_ok.mp h
  obtain ⟨_, hmixed, h⟩ := bind_eq_ok.mp h
  cases h
  rw [okOr_eq_ok] at hm
  subst hm
  refine ⟨m, hmembership, rfl, ensure_eq_ok.mp hshard, ensure_eq_ok.mp hall, ?_, rfl, rfl, rfl⟩
  have hnone := ensure_eq_ok.mp hmixed
  simpa using hnone

theorem dealerPosition_eq_ok {st : AppState} {nodeList : Except String (List Address)}
    {dealerIds : List ℕ} {ownId ownIndex : ℕ}
    (h : dealerPosition st nodeList dealerIds = .ok (ownId, ownIndex)) :
    ∃ members, nodeList = .ok members ∧ positionOf members st.ethAddress = some ownId ∧
      dealerIds[ownIndex]? = some ownId := by
  obtain ⟨members, hmembers, h⟩ := bind_eq_ok.mp h
  obtain ⟨ownId', hown, h⟩ := bind_eq_ok.mp h
  obtain ⟨ownIndex', hindex, h⟩ := bind_eq_ok.mp h
  cases h
  refine ⟨members, mapError_eq_ok.mp hmembers, okOr_eq_ok.mp hown, ?_⟩
  obtain ⟨hlt, heq, -⟩ := List.findIdx?_eq_some_iff_getElem.mp (okOr_eq_ok.mp hindex)
  rw [List.getElem?_eq_getElem hlt, eq_of_beq heq]

section Outcomes

variable {F G₁ G₂ R P : Type} [NatCast F] {B : Blsful F G₁ G₂} {D : Gennaro F R P}

/-- The share a session leaves at its participant `id`. -/
def sessionShard (B : Blsful F G₁ G₂) (id epoch : ℕ) (share : F) : ShardState :=
  ⟨id, shareToBytes B ⟨id, share⟩, epoch⟩

theorem finishSession_eq_ok {refusal : String} {st st' : AppState} {ownId epoch : ℕ} {share : F}
    {pk : G₁} {blob : Option String} :
    finishSession B refusal st ownId epoch share pk blob = .ok st' ↔
      keepsGroupKey st.groupPubkey (B.pubkeyToBytes pk) = true ∧
        st' = storeShare st (sessionShard B ownId epoch share) (B.pubkeyToBytes pk) blob := by
  simp only [finishSession, bind_eq_ok, ensure_eq_ok, pure, Except.pure, Except.ok.injEq]
  constructor
  · rintro ⟨_, hkeeps, rfl⟩
    exact ⟨hkeeps, rfl⟩
  · rintro ⟨hkeeps, rfl⟩
    exact ⟨(), hkeeps, rfl⟩

theorem runReshareRecovery_eq_ok {st st' : AppState} {m : Membership} {nonce : ℤ}
    {signature : Except String Bytes} {rnd : R}
    {runSession : P → List SessionPeer → Except String (F × G₁)} {blob : Option String}
    (h : runReshareRecovery B D st m nonce signature rnd runSession blob = .ok st') :
    ∃ dealers req participant share pk, recoveryRequest st m nonce = .ok (dealers, req) ∧
      D.refreshNew m.ownId m.threshold m.total rnd = .ok participant ∧
      runSession participant dealers = .ok (share, pk) ∧
      keepsGroupKey st.groupPubkey (B.pubkeyToBytes pk) = true ∧
      st' = storeShare st (sessionShard B m.ownId req.epoch share) (B.pubkeyToBytes pk) blob := by
  obtain ⟨⟨dealers, req⟩, hreq, h⟩ := bind_eq_ok.mp h
  obtain ⟨_, -, h⟩ := bind_eq_ok.mp h
  obtain ⟨participant, hparticipant, h⟩ := bind_eq_ok.mp h
  obtain ⟨_, -, hparticipant⟩ := bind_eq_ok.mp hparticipant
  obtain ⟨⟨share, pk⟩, hsession, h⟩ := bind_eq_ok.mp h
  obtain ⟨hkeeps, hst'⟩ := finishSession_eq_ok.mp h
  exact ⟨dealers, req, participant, share, pk, hreq, mapError_eq_ok.mp hparticipant, hsession,
    hkeeps, hst'⟩

theorem runReshareDealer_eq_ok {st st' : AppState}
    {nodeList nodeList' : Except String (List Address)} {req : ReshareRequest} {rnd : R}
    {runSession : P → List SessionPeer → Except String (F × G₁)} {blob : Option String}
    (h : runReshareDealer B D st nodeList nodeList' req rnd runSession blob = .ok st') :
    ∃ ownId ownIndex secret peers participant share pk,
      dealerPosition st nodeList req.dealerIds = .ok (ownId, ownIndex) ∧
      shardEpoch st.shard < req.epoch ∧ dealerSecret B st.shard = .ok secret ∧
      D.withSecret ownId st.config.threshold st.config.totalNodes secret
        (req.dealerIds.map fun i : ℕ => (i : F)) ownIndex rnd = .ok participant ∧
      runSession participant peers = .ok (share, pk) ∧
      keepsGroupKey st.groupPubkey (B.pubkeyToBytes pk) = true ∧
      st' = storeShare st (sessionShard B ownId req.epoch share) (B.pubkeyToBytes pk) blob := by
  obtain ⟨⟨ownId, ownIndex⟩, hposition, h⟩ := bind_eq_ok.mp h
  obtain ⟨_, hepoch, h⟩ := bind_eq_ok.mp h
  obtain ⟨secret, hsecret, h⟩ := bind_eq_ok.mp h
  obtain ⟨members, -, h⟩ := bind_eq_ok.mp h
  obtain ⟨peers, -, h⟩ := bind_eq_ok.mp h
  obtain ⟨participant, hparticipant, h⟩ := bind_eq_ok.mp h
  obtain ⟨_, -, hparticipant⟩ := bind_eq_ok.mp hparticipant
  obtain ⟨⟨share, pk⟩, hsession, h⟩ := bind_eq_ok.mp h
  obtain ⟨hkeeps, hst'⟩ := finishSession_eq_ok.mp h
  exact ⟨ownId, ownIndex, secret, peers, participant, share, pk, hposition,
    ensure_eq_ok.mp hepoch, hsecret, mapError_eq_ok.mp hparticipant, hsession, hkeeps, hst'⟩

end Outcomes

end KmsCluster
