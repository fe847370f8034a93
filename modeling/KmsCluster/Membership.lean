import KmsCluster.Server

/-!
# Committee membership

The participant set a node assembles from the on-chain nodeList and its gossip table
(`src/init.rs`): who is discovered and live, who may deal, and how an explicit set of
participant ids is resolved.
-/

namespace KmsCluster

open Fallible

/-- One other participant of a session. -/
structure SessionPeer where
  /-- 1-based nodeList position. -/
  id : ℕ
  grpcUrl : String
  pubkey : Bytes
  /-- Gossiped epoch, 0 for no share. -/
  epoch : ℕ

structure Membership where
  ownId : ℕ
  /-- The other members that are discovered and live. -/
  peers : List SessionPeer
  threshold : ℕ
  total : ℕ
  /-- Every other nodeList member is in `peers`. -/
  allDiscovered : Bool

/-- Live peers that hold a share. -/
def Membership.liveDealers (m : Membership) : List SessionPeer :=
  m.peers.filter fun p => 0 < p.epoch

/-- The live share-holders at the highest epoch among them. -/
def Membership.leadingDealers (m : Membership) : List SessionPeer :=
  let dealers := m.liveDealers
  let leading := (dealers.map (·.epoch)).foldr max 0
  dealers.filter fun p => p.epoch = leading

/-- Majority quorum of the nominal committee. -/
def majority (total : ℕ) : ℕ := total / 2 + 1

/-- 1-based position of an address in the nodeList. -/
def positionOf (nodeList : List Address) (addr : Address) : Option ℕ :=
  (nodeList.findIdx? (· == addr)).map (· + 1)

/-- A table entry counts as a session peer when its key is known and it is live. -/
def discovered (table : PeerTable) (now : ℤ) (member : Address × ℕ) : Option SessionPeer :=
  (table.lookup member.1).bind fun info =>
    if !info.pubkey.isEmpty && info.isLive now then
      some ⟨member.2, info.grpcUrl, info.pubkey, info.epoch⟩
    else none

/-- The nodeList members other than `ownId`, with their ids. -/
def otherMembers (nodeList : List Address) (ownId : ℕ) : List (Address × ℕ) :=
  (nodeList.zipIdx 1).filter fun m => m.2 ≠ ownId

/-- Assemble the committee from chain and gossip. `none` while the nodeList is still shorter
    than the configured committee. -/
def assembleParticipants (st : AppState) (nodeList : Except String (List Address)) (now : ℤ) :
    Except String (Option Membership) := do
  let nodeList ← nodeList.mapError ("nodeList lookup failed: " ++ ·)
  let total := st.config.totalNodes
  if nodeList.length < total then
    return none
  let ownId ← okOr (positionOf nodeList st.ethAddress)
    "this node's address is not in the on-chain nodeList"
  let others := otherMembers nodeList ownId
  return some {
    ownId := ownId
    peers := others.filterMap (discovered st.peerTable now)
    threshold := st.config.threshold
    total := total
    allDiscovered := others.all fun m => (discovered st.peerTable now m).isSome }

/-- Resolve one explicit participant id. -/
def resolvePeer (table : PeerTable) (nodeList : List Address) (id : ℕ) :
    Except String SessionPeer := do
  let addr ← okOr nodeList[id - 1]? ("participant id " ++ toString id ++ " out of nodeList range")
  let unknown := "reshare participant " ++ toString id ++ " not discovered via gossip"
  let info ← okOr (table.lookup addr) unknown
  ensure (info.pubkey ≠ []) unknown
  return ⟨id, info.grpcUrl, info.pubkey, info.epoch⟩

/-- Resolve an explicit set of participant ids, leaving out self and id 0. -/
def resolvePeers (table : PeerTable) (nodeList : List Address) (ids : List ℕ) (ownId : ℕ) :
    Except String (List SessionPeer) :=
  (ids.filter fun id => id ≠ 0 ∧ id ≠ ownId).mapM (resolvePeer table nodeList)

-- ════════════════════════════════════════════════════════════════════════
-- What an assembled membership says
-- ════════════════════════════════════════════════════════════════════════

theorem positionOf_eq_some {nodeList : List Address} {addr : Address} {id : ℕ}
    (h : positionOf nodeList addr = some id) : 1 ≤ id ∧ nodeList[id - 1]? = some addr := by
  obtain ⟨pos, hpos, rfl⟩ := Option.map_eq_some_iff.mp h
  obtain ⟨hlt, heq, -⟩ := List.findIdx?_eq_some_iff_getElem.mp hpos
  refine ⟨by omega, ?_⟩
  rw [Nat.add_sub_cancel, List.getElem?_eq_getElem hlt, eq_of_beq heq]

theorem mem_otherMembers {nodeList : List Address} {ownId : ℕ} {addr : Address} {id : ℕ} :
    (addr, id) ∈ otherMembers nodeList ownId ↔
      1 ≤ id ∧ nodeList[id - 1]? = some addr ∧ id ≠ ownId := by
  simp only [otherMembers, List.mem_filter, decide_eq_true_eq,
    List.mk_mem_zipIdx_iff_le_and_getElem?_sub]
  tauto

theorem discovered_eq_some {table : PeerTable} {now : ℤ} {member : Address × ℕ}
    {p : SessionPeer} : discovered table now member = some p ↔
      ∃ info, table.lookup member.1 = some info ∧ info.pubkey ≠ [] ∧ info.isLive now = true ∧
        p = ⟨member.2, info.grpcUrl, info.pubkey, info.epoch⟩ := by
  simp only [discovered, Option.bind_eq_some_iff]
  constructor
  · rintro ⟨info, hinfo, hp⟩
    split at hp
    · next hok =>
      simp only [Bool.and_eq_true, Bool.not_eq_true', List.isEmpty_eq_false_iff] at hok
      exact ⟨info, hinfo, hok.1, hok.2, (Option.some.inj hp).symm⟩
    · cases hp
  · rintro ⟨info, hinfo, hkey, hlive, rfl⟩
    refine ⟨info, hinfo, ?_⟩
    simp [hkey, hlive]

/-- Inversion of `assembleParticipants`: every field of the membership it returns. -/
theorem assembleParticipants_eq_some {st : AppState} {nodeList : Except String (List Address)}
    {now : ℤ} {m : Membership} (h : assembleParticipants st nodeList now = .ok (some m)) :
    ∃ members, nodeList = .ok members ∧ st.config.totalNodes ≤ members.length ∧
      positionOf members st.ethAddress = some m.ownId ∧
      m.peers = (otherMembers members m.ownId).filterMap (discovered st.peerTable now) ∧
      m.threshold = st.config.threshold ∧ m.total = st.config.totalNodes ∧
      m.allDiscovered = (otherMembers members m.ownId).all
        fun member => (discovered st.peerTable now member).isSome := by
  obtain ⟨members, hmembers, h⟩ := bind_eq_ok.mp h
  refine ⟨members, mapError_eq_ok.mp hmembers, ?_⟩
  dsimp only at h
  split at h
  · cases h
  · next hlen =>
    obtain ⟨ownId, hown, h⟩ := bind_eq_ok.mp h
    cases h
    exact ⟨by omega, okOr_eq_ok.mp hown, rfl, rfl, rfl, rfl⟩

section Peers

variable {st : AppState} {nodeList : Except String (List Address)} {now : ℤ} {m : Membership}

/-- Every assembled peer is another nodeList member with a live entry of that epoch. -/
theorem assembleParticipants_peer (h : assembleParticipants st nodeList now = .ok (some m))
    {p : SessionPeer} (hp : p ∈ m.peers) :
    p.id ≠ m.ownId ∧ 1 ≤ p.id ∧ ∃ members addr info, nodeList = .ok members ∧
      members[p.id - 1]? = some addr ∧ st.peerTable.lookup addr = some info ∧
      info.isLive now = true ∧ p.epoch = info.epoch := by
  obtain ⟨members, hmembers, -, -, hpeers, -⟩ := assembleParticipants_eq_some h
  rw [hpeers] at hp
  obtain ⟨⟨addr, id⟩, hmem, hdisc⟩ := List.mem_filterMap.mp hp
  obtain ⟨info, hinfo, -, hlive, rfl⟩ := discovered_eq_some.mp hdisc
  obtain ⟨hpos, haddr, hne⟩ := mem_otherMembers.mp hmem
  exact ⟨hne, hpos, members, addr, info, hmembers, haddr, hinfo, hlive, rfl⟩

/-- With everyone discovered, the peers are all the other ids of the nodeList. -/
theorem assembleParticipants_allDiscovered
    (h : assembleParticipants st nodeList now = .ok (some m)) (hall : m.allDiscovered = true)
    {members : List Address} (hmembers : nodeList = .ok members) {id : ℕ} (hpos : 1 ≤ id)
    (hle : id ≤ members.length) (hne : id ≠ m.ownId) : ∃ p ∈ m.peers, p.id = id := by
  obtain ⟨members', hmembers', -, -, hpeers, -, -, hdisc⟩ := assembleParticipants_eq_some h
  obtain rfl : members' = members := Except.ok.inj (hmembers'.symm.trans hmembers)
  have hlt : id - 1 < members'.length := by omega
  have hmem : (members'[id - 1], id) ∈ otherMembers members' m.ownId :=
    mem_otherMembers.mpr ⟨hpos, List.getElem?_eq_getElem hlt, hne⟩
  rw [hdisc] at hall
  obtain ⟨p, hp⟩ := Option.isSome_iff_exists.mp (List.all_eq_true.mp hall _ hmem)
  obtain ⟨info, -, -, -, hid⟩ := discovered_eq_some.mp hp
  exact ⟨p, hpeers ▸ List.mem_filterMap.mpr ⟨_, hmem, hp⟩, by rw [hid]⟩

theorem discovered_id {table : PeerTable} {member : Address × ℕ} {p : SessionPeer}
    (h : discovered table now member = some p) : p.id = member.2 := by
  obtain ⟨info, -, -, -, rfl⟩ := discovered_eq_some.mp h
  rfl

/-- No id occurs twice among the assembled peers. -/
theorem assembleParticipants_nodup (h : assembleParticipants st nodeList now = .ok (some m)) :
    (m.peers.map (·.id)).Nodup := by
  obtain ⟨members, -, -, -, hpeers, -⟩ := assembleParticipants_eq_some h
  have hids : ((otherMembers members m.ownId).map Prod.snd).Nodup := by
    have hsub : ((otherMembers members m.ownId).map Prod.snd).Sublist
        ((members.zipIdx 1).map Prod.snd) := List.filter_sublist.map _
    refine hsub.nodup ?_
    simp [List.nodup_range']
  have hmap : (m.peers.map (·.id)).Sublist ((otherMembers members m.ownId).map Prod.snd) := by
    rw [hpeers]
    generalize otherMembers members m.ownId = others
    induction others with
    | nil => simp
    | cons member rest ih =>
      cases hd : discovered st.peerTable now member with
      | none => simpa [hd] using ih.cons member.2
      | some p => simpa [hd, discovered_id hd] using ih.cons_cons member.2
  exact hmap.nodup hids

end Peers

theorem leadingDealers_sublist (m : Membership) : m.leadingDealers.Sublist m.peers :=
  List.filter_sublist.trans List.filter_sublist

end KmsCluster
