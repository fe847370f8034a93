import KmsCluster.Lib.AssocMap
import KmsCluster.Server

/-!
# Gossip

The peer table's two writers (`src/grpc.rs`): the `Gossip` handler, which enters what a caller
says of itself, and `gossip_round`, which merges what others say of their peers. Only direct
contact refreshes `last_seen`.

## Main results

- `mergeReply_epoch_le`: what a reply relays never lowers a known epoch.
- `mergeReply_lastSeen`: nor does it count as contact with the peers it names.
- `PeerTable.All.gossipHandler`, `PeerTable.All.mergeReply`: what the two writers keep of a fact
  about every entry.
-/

namespace KmsCluster

/-- What a node says of itself or of a peer. `ethAddr` is decoded, `none` when it is not the hex
    text of 20 bytes. -/
structure NodeInfo where
  grpcUrl : String
  ethAddr : Option Address
  pubkey : Bytes
  epoch : ℕ
  groupPubkey : Bytes

/-- The handler's table update. The caller's address and key come from its signature. -/
def gossipHandler (table : PeerTable) (caller : Address) (callerPubkey : Bytes)
    (selfInfo : Option NodeInfo) (now : ℤ) : PeerTable :=
  match selfInfo with
  | some info =>
    if info.grpcUrl ≠ "" then
      table.insert caller ⟨info.grpcUrl, now, callerPubkey, info.epoch, info.groupPubkey⟩
    else table
  | none => table

/-- The handler's reply: all known peers. -/
def knownPeers (table : PeerTable) : List NodeInfo :=
  table.entries.map fun e => ⟨e.2.grpcUrl, some e.1, e.2.pubkey, e.2.epoch, e.2.groupPubkey⟩

/-- The urls a gossip round pushes to; the seeds only while no peer is known. -/
def gossipTargets (st : AppState) : List String :=
  let urls := st.peerTable.entries.map fun e => e.2.grpcUrl
  (if urls.isEmpty then st.config.seeds else urls).filter (· ≠ st.config.selfUrl)

/-- What a node pushes about itself. -/
def AppState.selfInfo (st : AppState) : NodeInfo :=
  ⟨st.config.selfUrl, some st.ethAddress, [], shardEpoch st.shard, st.groupPubkey.getD []⟩

/-- The push to `target` was answered. -/
def markSeen (table : PeerTable) (target : String) (now : ℤ) : PeerTable :=
  AssocMap.mapValues (fun _ e => if e.grpcUrl = target then { e with lastSeen := now } else e) table

/-- What a relayed entry changes of a known peer. -/
def PeerInfo.relay (e : PeerInfo) (peer : NodeInfo) : PeerInfo :=
  { e with
    grpcUrl := peer.grpcUrl
    pubkey := if peer.pubkey.isEmpty then e.pubkey else peer.pubkey
    epoch := max e.epoch peer.epoch
    groupPubkey := if peer.groupPubkey.isEmpty then e.groupPubkey else peer.groupPubkey }

/-- Merge one relayed entry. -/
def mergePeer (selfUrl : String) (table : PeerTable) (peer : NodeInfo) : PeerTable :=
  if peer.grpcUrl = selfUrl ∨ peer.grpcUrl = "" then table
  else
    match peer.ethAddr with
    | some addr =>
      table.insert addr (((table.lookup addr).map fun e => e.relay peer).getD
        ⟨peer.grpcUrl, 0, peer.pubkey, peer.epoch, peer.groupPubkey⟩)
    | none => table

/-- What `gossip_round` does with the reply of `target`. -/
def mergeReply (selfUrl : String) (table : PeerTable) (target : String) (received : List NodeInfo)
    (now : ℤ) : PeerTable :=
  received.foldl (mergePeer selfUrl) (markSeen table target now)

-- ════════════════════════════════════════════════════════════════════════
-- Relayed knowledge
-- ════════════════════════════════════════════════════════════════════════

/-- The relayed entry is merged, under `addr`. -/
def NodeInfo.Taken (selfUrl : String) (peer : NodeInfo) (addr : Address) : Prop :=
  peer.grpcUrl ≠ selfUrl ∧ peer.grpcUrl ≠ "" ∧ peer.ethAddr = some addr

theorem lookup_gossipHandler {table : PeerTable} {caller : Address} {callerPubkey : Bytes}
    {info : NodeInfo} {now : ℤ} (hurl : info.grpcUrl ≠ "") (addr : Address) :
    (gossipHandler table caller callerPubkey (some info) now).lookup addr =
      if addr = caller then some ⟨info.grpcUrl, now, callerPubkey, info.epoch, info.groupPubkey⟩
      else table.lookup addr := by
  simp only [gossipHandler, if_pos hurl]
  split
  · next haddr =>
    rw [haddr]
    exact AList.lookup_insert _
  · next haddr => exact AList.lookup_insert_ne haddr

theorem lookup_markSeen {table : PeerTable} {target : String} {now : ℤ} {addr : Address} :
    (markSeen table target now).lookup addr = (table.lookup addr).map fun e =>
      if e.grpcUrl = target then { e with lastSeen := now } else e :=
  AssocMap.lookup_mapValues _ _ _

/-- A relayed entry leaves a known peer with the same contact time and no lower epoch. -/
theorem lookup_mergePeer (selfUrl : String) (peer : NodeInfo) {table : PeerTable} {addr : Address}
    {e : PeerInfo} (h : table.lookup addr = some e) :
    ∃ e', (mergePeer selfUrl table peer).lookup addr = some e' ∧ e.epoch ≤ e'.epoch ∧
      e'.lastSeen = e.lastSeen := by
  unfold mergePeer
  split
  · exact ⟨e, h, le_rfl, rfl⟩
  · split
    · next addr' _ =>
      by_cases haddr : addr = addr'
      · subst haddr
        refine ⟨e.relay peer, ?_, le_max_left _ _, rfl⟩
        rw [AList.lookup_insert, h]
        rfl
      · exact ⟨e, by rw [AList.lookup_insert_ne haddr, h], le_rfl, rfl⟩
    · exact ⟨e, h, le_rfl, rfl⟩

theorem lookup_foldl_mergePeer {selfUrl : String} {addr : Address} (received : List NodeInfo) :
    ∀ {table : PeerTable} {e : PeerInfo}, table.lookup addr = some e →
      ∃ e', (received.foldl (mergePeer selfUrl) table).lookup addr = some e' ∧
        e.epoch ≤ e'.epoch ∧ e'.lastSeen = e.lastSeen := by
  induction received with
  | nil =>
    intro table e h
    exact ⟨e, h, le_rfl, rfl⟩
  | cons peer rest ih =>
    intro table e h
    obtain ⟨m, hm, hepoch, hseen⟩ := lookup_mergePeer selfUrl peer h
    obtain ⟨e', he', hepoch', hseen'⟩ := ih hm
    exact ⟨e', he', hepoch.trans hepoch', hseen'.trans hseen⟩

/-- A relayed entry that is merged is known of its peer with no lower epoch. -/
theorem lookup_mergePeer_taken {selfUrl : String} {peer : NodeInfo} {addr : Address}
    (htaken : peer.Taken selfUrl addr) (table : PeerTable) :
    ∃ e, (mergePeer selfUrl table peer).lookup addr = some e ∧ peer.epoch ≤ e.epoch := by
  unfold mergePeer
  rw [if_neg (not_or.mpr ⟨htaken.1, htaken.2.1⟩), htaken.2.2]
  refine ⟨_, AList.lookup_insert _, ?_⟩
  cases table.lookup addr with
  | none => exact le_rfl
  | some e => exact le_max_right _ _

/-- So is every merged entry of a reply. -/
theorem mergeReply_taken {selfUrl target : String} {table : PeerTable} {received : List NodeInfo}
    {now : ℤ} {peer : NodeInfo} (hpeer : peer ∈ received) {addr : Address}
    (htaken : peer.Taken selfUrl addr) :
    ∃ e, (mergeReply selfUrl table target received now).lookup addr = some e ∧
      peer.epoch ≤ e.epoch := by
  obtain ⟨before, after, rfl⟩ := List.append_of_mem hpeer
  unfold mergeReply
  rw [List.foldl_append, List.foldl_cons]
  obtain ⟨e, he, hle⟩ := lookup_mergePeer_taken htaken
    (before.foldl (mergePeer selfUrl) (markSeen table target now))
  obtain ⟨e', he', hle', -⟩ := lookup_foldl_mergePeer after he
  exact ⟨e', he', le_trans hle hle'⟩

/-- A reply never lowers the epoch known of a peer. -/
theorem mergeReply_epoch_le {selfUrl target : String} {table : PeerTable}
    {received : List NodeInfo} {now : ℤ} {addr : Address} {e : PeerInfo}
    (h : table.lookup addr = some e) :
    ∃ e', (mergeReply selfUrl table target received now).lookup addr = some e' ∧
      e.epoch ≤ e'.epoch := by
  have hmarked : (markSeen table target now).lookup addr =
      some (if e.grpcUrl = target then { e with lastSeen := now } else e) := by
    rw [lookup_markSeen, h]
    rfl
  obtain ⟨e', he', hepoch, -⟩ := lookup_foldl_mergePeer received hmarked
  refine ⟨e', he', le_trans ?_ hepoch⟩
  split
  · exact le_rfl
  · exact le_rfl

/-- The contact time of a known peer changes only when its url is the one that answered. -/
theorem mergeReply_lastSeen {selfUrl target : String} {table : PeerTable}
    {received : List NodeInfo} {now : ℤ} {addr : Address} {e : PeerInfo}
    (h : table.lookup addr = some e) (hurl : e.grpcUrl ≠ target) :
    ∃ e', (mergeReply selfUrl table target received now).lookup addr = some e' ∧
      e'.lastSeen = e.lastSeen := by
  have hmarked : (markSeen table target now).lookup addr = some e := by
    rw [lookup_markSeen, h, Option.map_some, if_neg hurl]
  obtain ⟨e', he', -, hseen⟩ := lookup_foldl_mergePeer received hmarked
  exact ⟨e', he', hseen⟩

-- ════════════════════════════════════════════════════════════════════════
-- Facts about every entry
-- ════════════════════════════════════════════════════════════════════════

/-- Every entry of the table satisfies `Q`. -/
def PeerTable.All (Q : Address → PeerInfo → Prop) (table : PeerTable) : Prop :=
  ∀ addr e, table.lookup addr = some e → Q addr e

section All

variable {Q : Address → PeerInfo → Prop} {table : PeerTable}

theorem PeerTable.all_empty : PeerTable.All Q ∅ := by
  intro addr e he
  cases he

theorem PeerTable.All.insert (h : table.All Q) {addr : Address} {e : PeerInfo} (he : Q addr e) :
    PeerTable.All Q (table.insert addr e) := by
  intro addr' e' he'
  by_cases haddr : addr' = addr
  · subst haddr
    rw [AList.lookup_insert, Option.some.injEq] at he'
    subst he'
    exact he
  · rw [AList.lookup_insert_ne haddr] at he'
    exact h addr' e' he'

theorem PeerTable.All.gossipHandler (h : table.All Q) {caller : Address} {callerPubkey : Bytes}
    {selfInfo : Option NodeInfo} {now : ℤ}
    (hself : ∀ info, selfInfo = some info → info.grpcUrl ≠ "" →
      Q caller ⟨info.grpcUrl, now, callerPubkey, info.epoch, info.groupPubkey⟩) :
    PeerTable.All Q (gossipHandler table caller callerPubkey selfInfo now) := by
  unfold KmsCluster.gossipHandler
  split
  · next info =>
    split
    · next hurl => exact h.insert (hself info rfl hurl)
    · exact h
  · exact h

theorem PeerTable.All.markSeen (h : table.All Q) {target : String} {now : ℤ}
    (hseen : ∀ addr e, table.lookup addr = some e → Q addr e → e.grpcUrl = target →
      Q addr { e with lastSeen := now }) : PeerTable.All Q (markSeen table target now) := by
  intro addr e' he'
  rw [lookup_markSeen] at he'
  obtain ⟨e, he, rfl⟩ := Option.map_eq_some_iff.mp he'
  split
  · next hurl => exact hseen addr e he (h addr e he) hurl
  · exact h addr e he

theorem PeerTable.All.mergePeer (h : table.All Q) {selfUrl : String} {peer : NodeInfo}
    (hknown : ∀ addr e, peer.Taken selfUrl addr → Q addr e → Q addr (e.relay peer))
    (hnew : ∀ addr, peer.Taken selfUrl addr →
      Q addr ⟨peer.grpcUrl, 0, peer.pubkey, peer.epoch, peer.groupPubkey⟩) :
    PeerTable.All Q (mergePeer selfUrl table peer) := by
  unfold KmsCluster.mergePeer
  split
  · exact h
  · next hurl =>
    rw [not_or] at hurl
    split
    · next addr haddr =>
      have htaken : peer.Taken selfUrl addr := ⟨hurl.1, hurl.2, haddr⟩
      refine h.insert ?_
      cases he : table.lookup addr with
      | none => exact hnew addr htaken
      | some e => exact hknown addr e htaken (h addr e he)
    · exact h

/-- One rule for `gossip_round`'s write section: contact, then every relayed entry. -/
theorem PeerTable.All.mergeReply (h : table.All Q) {selfUrl target : String}
    {received : List NodeInfo} {now : ℤ}
    (hseen : ∀ addr e, table.lookup addr = some e → Q addr e → e.grpcUrl = target →
      Q addr { e with lastSeen := now })
    (hknown : ∀ peer ∈ received, ∀ addr e, peer.Taken selfUrl addr → Q addr e →
      Q addr (e.relay peer))
    (hnew : ∀ peer ∈ received, ∀ addr, peer.Taken selfUrl addr →
      Q addr ⟨peer.grpcUrl, 0, peer.pubkey, peer.epoch, peer.groupPubkey⟩) :
    PeerTable.All Q (mergeReply selfUrl table target received now) := by
  have hmarked : PeerTable.All Q (KmsCluster.markSeen table target now) := h.markSeen hseen
  unfold KmsCluster.mergeReply
  generalize KmsCluster.markSeen table target now = marked at hmarked
  induction received generalizing marked with
  | nil => exact hmarked
  | cons peer received ih =>
    rw [List.foldl_cons]
    refine ih (fun p hp => hknown p (List.mem_cons_of_mem _ hp))
      (fun p hp => hnew p (List.mem_cons_of_mem _ hp)) _ ?_
    exact hmarked.mergePeer (hknown peer List.mem_cons_self) (hnew peer List.mem_cons_self)

end All

end KmsCluster
