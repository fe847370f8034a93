import KmsCluster.Crypto
import Mathlib.Data.List.AList

/-!
# Node state

Model of the shared state of `src/server.rs`, with the part of `src/config.rs` it reads and the
errors of its handlers (`src/error.rs`).
Machine integers are natural numbers; the one addition that can wrap is `nextEpoch`.
-/

namespace KmsCluster

/-- A 20-byte Ethereum address. -/
abbrev Address := BitVec 160

instance Address.lawfulBEq : LawfulBEq Address := inferInstance

/-- `KmsError` (`src/error.rs`). -/
inductive KmsError where
  | invalidTimestamp (message : String)
  | invalidSignature (message : String)
  | appNotFound (message : String)
  /-- The signer is on chain but has no verified TEE evidence. -/
  | notAttested (message : String)
  /-- The caller sent something malformed. -/
  | badRequest (message : String)
  | chainError (message : String)
  | cryptoError (message : String)
  | configError (message : String)
  deriving DecidableEq

/-- The fields of `Config` that the cluster logic reads. -/
structure Config where
  appId : String
  threshold : ℕ
  totalNodes : ℕ
  selfUrl : String
  seeds : List String

-- ════════════════════════════════════════════════════════════════════════
-- Peer table
-- ════════════════════════════════════════════════════════════════════════

/-- Direct evidence of life counts for this many seconds. -/
def peerLivenessWindowSecs : ℤ := 90

structure PeerInfo where
  grpcUrl : String
  /-- Unix seconds of the last direct contact, 0 for a peer known by relay only. -/
  lastSeen : ℤ
  /-- Uncompressed secp256k1 key, empty until known. -/
  pubkey : Bytes
  /-- The peer's polynomial epoch as gossiped, 0 for no share. -/
  epoch : ℕ
  groupPubkey : Bytes

/-- Direct evidence of life within the liveness window. -/
def PeerInfo.isLive (p : PeerInfo) (now : ℤ) : Bool :=
  decide (now - p.lastSeen ≤ peerLivenessWindowSecs)

abbrev PeerTable := AList (fun _ : Address => PeerInfo)

/-- The highest epoch in the table, 0 when it is empty. -/
def PeerTable.maxEpoch (table : PeerTable) : ℕ :=
  (table.entries.map fun e => e.2.epoch).foldr max 0

theorem PeerTable.epoch_le_maxEpoch {table : PeerTable} {addr : Address} {info : PeerInfo}
    (h : table.lookup addr = some info) : info.epoch ≤ table.maxEpoch := by
  have hmem : info.epoch ∈ table.entries.map fun e => e.2.epoch :=
    List.mem_map.mpr ⟨⟨addr, info⟩, AList.mem_lookup_iff.mp h, rfl⟩
  unfold maxEpoch
  generalize table.entries.map (fun e => e.2.epoch) = epochs at hmem
  induction epochs with
  | nil => simp at hmem
  | cons e es ih =>
    rw [List.foldr_cons]
    rcases List.mem_cons.mp hmem with rfl | hes
    · exact le_max_left _ _
    · exact le_trans (ih hes) (le_max_right _ _)

theorem PeerTable.maxEpoch_lt {table : PeerTable} {n : ℕ} (hn : 0 < n)
    (h : ∀ addr info, table.lookup addr = some info → info.epoch < n) : table.maxEpoch < n := by
  have hall : ∀ epoch ∈ table.entries.map fun e => e.2.epoch, epoch < n := by
    intro epoch hmem
    obtain ⟨⟨addr, info⟩, hentry, rfl⟩ := List.mem_map.mp hmem
    exact h addr info (AList.mem_lookup_iff.mpr hentry)
  unfold maxEpoch
  generalize table.entries.map (fun e => e.2.epoch) = epochs at hall
  induction epochs with
  | nil => exact hn
  | cons e es ih =>
    rw [List.foldr_cons]
    exact max_lt (hall e List.mem_cons_self)
      (ih fun epoch hmem => hall epoch (List.mem_cons_of_mem _ hmem))

theorem PeerTable.maxEpoch_le {table : PeerTable} {n : ℕ}
    (h : ∀ addr info, table.lookup addr = some info → info.epoch ≤ n) : table.maxEpoch ≤ n :=
  Nat.lt_succ_iff.mp (maxEpoch_lt (Nat.succ_pos n) fun addr info hinfo =>
    Nat.lt_succ_of_le (h addr info hinfo))

-- ════════════════════════════════════════════════════════════════════════
-- Shared state
-- ════════════════════════════════════════════════════════════════════════

/-- The share a node serves from, tagged with the epoch of its polynomial. -/
structure ShardState where
  shardIndex : ℕ
  shardBytes : Bytes
  epoch : ℕ
  deriving DecidableEq

/-- `shard.as_ref().map(|s| s.epoch).unwrap_or(0)`. -/
def shardEpoch (shard : Option ShardState) : ℕ := shard.elim 0 (·.epoch)

@[simp] theorem shardEpoch_none : shardEpoch none = 0 := rfl

@[simp] theorem shardEpoch_some (s : ShardState) : shardEpoch (some s) = s.epoch := rfl

structure AppState where
  config : Config
  /-- `signing_key.eth_address`. -/
  ethAddress : Address
  shard : Option ShardState
  peerTable : PeerTable
  groupPubkey : Option Bytes
  /-- Latest sealed share, as exposed on `/sealed-share`. -/
  sealedShare : Option String

/-- The state `main` starts a node with. -/
def AppState.new (config : Config) (ethAddress : Address) : AppState where
  config := config
  ethAddress := ethAddress
  shard := none
  peerTable := ∅
  groupPubkey := none
  sealedShare := none

/-- Highest epoch the node knows of: its own share's and every gossiped one. -/
def AppState.knownEpoch (st : AppState) : ℕ := max (shardEpoch st.shard) st.peerTable.maxEpoch

theorem AppState.knownEpoch_lt_iff {st : AppState} {n : ℕ} (hn : 0 < n) : st.knownEpoch < n ↔
    shardEpoch st.shard < n ∧
      ∀ addr info, st.peerTable.lookup addr = some info → info.epoch < n := by
  unfold knownEpoch
  rw [max_lt_iff]
  constructor
  · rintro ⟨hown, hmax⟩
    exact ⟨hown, fun addr info h => lt_of_le_of_lt (PeerTable.epoch_le_maxEpoch h) hmax⟩
  · rintro ⟨hown, hentries⟩
    exact ⟨hown, PeerTable.maxEpoch_lt hn hentries⟩

/-- `known_epoch + 1` in `u64`, wrapping as the release profile does. -/
def nextEpoch (known : ℕ) : ℕ := (known + 1) % 2 ^ 64

end KmsCluster
