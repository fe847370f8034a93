import KmsCluster.Reshare
import Mathlib.Data.List.Dedup
import Mathlib.Data.List.MinMax

/-!
# The node's view of the cluster

Model of `cluster_view` (`src/metrics.rs`), which the self-healing alarm reads: how many live
holders of the leading epoch a recovery could draw its dealers from. It counts table entries,
where `run_reshare_recovery` counts positions of the nodeList.

## Main results

- `alarm_counts_dealers_iff`: exactly when a shardless node's `leading_holders` is the number of
  leading dealers, and the alarm line is the line of the recovery gates.
- `alarm_silent_below_quorum`: a retired identity that keeps the alarm silent.
-/

namespace KmsCluster

structure ClusterView where
  hasShare : Bool
  ownId : ℕ
  ownEpoch : ℕ
  clusterEpoch : ℕ
  threshold : ℕ
  totalNodes : ℕ
  /-- The number of leading holders below which a shardless node can no longer rejoin. -/
  recoveryThreshold : ℕ
  liveShareHolders : ℕ
  leadingHolders : ℕ
  peersKnown : ℕ
  peersLive : ℕ
  groupPubkey : Option Bytes
  groupPubkeyMismatch : ℕ

/-- The view at the clock reading `now`. -/
def clusterView (st : AppState) (now : ℤ) : ClusterView :=
  let hasShare := st.shard.isSome
  let ownEpoch := shardEpoch st.shard
  let live := (st.peerTable.entries.map fun e => e.2).filter (·.isLive now)
  let holders := live.filter fun p => 0 < p.epoch
  let leadingEpoch := (holders.map (·.epoch) ++ st.shard.toList.map (·.epoch)).foldr max 0
  { hasShare := hasShare
    ownId := st.shard.elim 0 (·.shardIndex)
    ownEpoch := ownEpoch
    clusterEpoch := max ownEpoch st.peerTable.maxEpoch
    threshold := st.config.threshold
    totalNodes := st.config.totalNodes
    recoveryThreshold := max st.config.threshold (st.config.totalNodes / 2)
    liveShareHolders := hasShare.toNat + holders.length
    leadingHolders :=
      if leadingEpoch = 0 then 0
      else (hasShare && ownEpoch == leadingEpoch).toNat +
        (live.filter fun p => p.epoch = leadingEpoch).length
    peersKnown := st.peerTable.entries.length
    peersLive := live.length
    groupPubkey := st.groupPubkey
    groupPubkeyMismatch := st.groupPubkey.elim 0 fun own =>
      (live.filter fun p => !p.groupPubkey.isEmpty && p.groupPubkey != own).length }

-- ════════════════════════════════════════════════════════════════════════
-- Entries and positions
-- ════════════════════════════════════════════════════════════════════════

/-- The nodeList positions of the other members. -/
def committee (st : AppState) (nodeList : List Address) : List (Address × ℕ) :=
  otherMembers nodeList ((positionOf nodeList st.ethAddress).getD 0)

/-- The live table entries that hold a share. -/
def liveHolders (table : PeerTable) (now : ℤ) : List (Sigma fun _ : Address => PeerInfo) :=
  table.entries.filter fun e => e.2.isLive now && decide (0 < e.2.epoch)

/-- The highest epoch of a live table entry. -/
def liveEpoch (table : PeerTable) (now : ℤ) : ℕ :=
  ((liveHolders table now).map fun e => e.2.epoch).foldr max 0

/-- The live holders of the highest live epoch. -/
def leadingEntries (table : PeerTable) (now : ℤ) : List (Sigma fun _ : Address => PeerInfo) :=
  (liveHolders table now).filter fun e => e.2.epoch = liveEpoch table now

/-- The entry has a key and its address stands at a position of the committee. -/
def canDeal (members : List (Address × ℕ)) (e : Sigma fun _ : Address => PeerInfo) : Bool :=
  !e.2.pubkey.isEmpty && members.any fun m => m.1 = e.1

/-- The positions of the committee with a live entry that has a key and a share of epoch `k`. -/
def positionsAt (table : PeerTable) (members : List (Address × ℕ)) (now : ℤ) (k : ℕ) :
    List Address :=
  (members.filter fun m => (discovered table now m).any fun p => 0 < p.epoch ∧ p.epoch = k).map
    Prod.fst

/-- The highest epoch at a position of the committee. -/
def committeeEpoch (table : PeerTable) (members : List (Address × ℕ)) (now : ℤ) : ℕ :=
  (((members.filterMap (discovered table now)).filter fun p => 0 < p.epoch).map (·.epoch)).foldr
    max 0

/-- How many positions repeat an address. -/
def repeats (addrs : List Address) : ℕ := addrs.length - addrs.dedup.length

/-- Of the live entries at the highest live epoch, those that no position of the committee can
    use (no key, a retired identity, the node's own) are made up for: when some position does hold
    that epoch, by positions that repeat an address; when none does, by the positions at the
    committee's own highest epoch. -/
def OffCommitteeBalanced (st : AppState) (nodeList : List Address) (now : ℤ) : Prop :=
  let table := st.peerTable
  let members := committee st nodeList
  let unusable := (leadingEntries table now).filter fun e => !canDeal members e
  unusable.length =
    if positionsAt table members now (liveEpoch table now) = [] then
      (positionsAt table members now (committeeEpoch table members now)).length
    else repeats (positionsAt table members now (liveEpoch table now))

section Counting

variable {table : PeerTable} {members : List (Address × ℕ)} {now : ℤ}

theorem mem_positionsAt {k : ℕ} {addr : Address} : addr ∈ positionsAt table members now k ↔
    ∃ id info, (addr, id) ∈ members ∧ table.lookup addr = some info ∧ info.pubkey ≠ [] ∧
      info.isLive now = true ∧ 0 < info.epoch ∧ info.epoch = k := by
  simp only [positionsAt, List.mem_map, List.mem_filter, Option.any_eq_true, decide_eq_true_eq]
  constructor
  · rintro ⟨⟨addr, id⟩, ⟨hmem, p, hp, hpos, hk⟩, rfl⟩
    obtain ⟨info, hinfo, hkey, hlive, rfl⟩ := discovered_eq_some.mp hp
    exact ⟨id, info, hmem, hinfo, hkey, hlive, hpos, hk⟩
  · rintro ⟨id, info, hmem, hinfo, hkey, hlive, hpos, hk⟩
    exact ⟨(addr, id), ⟨hmem, _, discovered_eq_some.mpr ⟨info, hinfo, hkey, hlive, rfl⟩, hpos, hk⟩,
      rfl⟩

theorem mem_leadingEntries {addr : Address} {info : PeerInfo} :
    ⟨addr, info⟩ ∈ leadingEntries table now ↔ table.lookup addr = some info ∧
      info.isLive now = true ∧ 0 < info.epoch ∧ info.epoch = liveEpoch table now := by
  simp only [leadingEntries, liveHolders, List.mem_filter, Bool.and_eq_true, decide_eq_true_eq]
  rw [← Option.mem_def, AList.mem_lookup_iff]
  tauto

/-- The usable leading entries are the addresses at the positions of that epoch. -/
theorem length_usable : ((leadingEntries table now).filter (canDeal members)).length =
    (positionsAt table members now (liveEpoch table now)).dedup.length := by
  have hnodup : (((leadingEntries table now).filter (canDeal members)).map Sigma.fst).Nodup := by
    have hsub : (((leadingEntries table now).filter (canDeal members)).map Sigma.fst).Sublist
        table.keys :=
      ((List.filter_sublist.trans List.filter_sublist).trans List.filter_sublist).map _
    exact hsub.nodup table.keys_nodup
  rw [← List.length_map (f := Sigma.fst)]
  refine List.Perm.length_eq ((List.perm_ext_iff_of_nodup hnodup (List.nodup_dedup _)).mpr ?_)
  intro addr
  rw [List.mem_dedup, mem_positionsAt, List.mem_map]
  constructor
  · rintro ⟨⟨addr', info⟩, hmem, rfl⟩
    obtain ⟨hleading, hcan⟩ := List.mem_filter.mp hmem
    obtain ⟨hinfo, hlive, hpos, hepoch⟩ := mem_leadingEntries.mp hleading
    simp only [canDeal, Bool.and_eq_true, Bool.not_eq_true', List.isEmpty_eq_false_iff,
      List.any_eq_true, decide_eq_true_eq] at hcan
    obtain ⟨hkey, ⟨addr, id⟩, hmember, rfl⟩ := hcan
    exact ⟨id, info, hmember, hinfo, hkey, hlive, hpos, hepoch⟩
  · rintro ⟨id, info, hmember, hinfo, hkey, hlive, hpos, hepoch⟩
    refine ⟨⟨addr, info⟩, List.mem_filter.mpr
      ⟨mem_leadingEntries.mpr ⟨hinfo, hlive, hpos, hepoch⟩, ?_⟩, rfl⟩
    simp only [canDeal, Bool.and_eq_true, Bool.not_eq_true', List.isEmpty_eq_false_iff,
      List.any_eq_true, decide_eq_true_eq]
    exact ⟨hkey, (addr, id), hmember, rfl⟩

theorem epoch_le_liveEpoch {addr : Address} {info : PeerInfo}
    (hinfo : table.lookup addr = some info) (hlive : info.isLive now = true) :
    info.epoch ≤ liveEpoch table now := by
  by_cases hpos : 0 < info.epoch
  · have hmem : ⟨addr, info⟩ ∈ liveHolders table now := by
      rw [liveHolders, List.mem_filter, Bool.and_eq_true, decide_eq_true_eq]
      exact ⟨AList.mem_lookup_iff.mp hinfo, hlive, hpos⟩
    exact List.le_max_of_le' 0 (List.mem_map_of_mem hmem) le_rfl
  · omega

/-- A position that holds the highest live epoch makes it the committee's. -/
theorem committeeEpoch_eq (h : positionsAt table members now (liveEpoch table now) ≠ []) :
    committeeEpoch table members now = liveEpoch table now := by
  apply le_antisymm
  · apply List.max_le_of_forall_le
    intro k hk
    obtain ⟨p, hp, rfl⟩ := List.mem_map.mp hk
    obtain ⟨⟨addr, id⟩, -, hdisc⟩ := List.mem_filterMap.mp (List.mem_filter.mp hp).1
    obtain ⟨info, hinfo, -, hlive, rfl⟩ := discovered_eq_some.mp hdisc
    exact epoch_le_liveEpoch hinfo hlive
  · obtain ⟨addr, haddr⟩ := List.exists_mem_of_ne_nil _ h
    obtain ⟨id, info, hmem, hinfo, hkey, hlive, hpos, hepoch⟩ := mem_positionsAt.mp haddr
    have hdisc : discovered table now (addr, id) =
        some ⟨id, info.grpcUrl, info.pubkey, info.epoch⟩ :=
      discovered_eq_some.mpr ⟨info, hinfo, hkey, hlive, rfl⟩
    have hp : ⟨id, info.grpcUrl, info.pubkey, info.epoch⟩ ∈
        (members.filterMap (discovered table now)).filter fun p => 0 < p.epoch :=
      List.mem_filter.mpr ⟨List.mem_filterMap.mpr ⟨_, hmem, hdisc⟩, decide_eq_true hpos⟩
    exact List.le_max_of_le' 0 (List.mem_map_of_mem hp) hepoch.ge

theorem length_positionsAt (k : ℕ) : (positionsAt table members now k).length =
    (((members.filterMap (discovered table now)).filter fun p => 0 < p.epoch).filter
      fun p => p.epoch = k).length := by
  rw [positionsAt, List.length_map, List.filter_filter]
  induction members with
  | nil => rfl
  | cons m members ih =>
    cases hdisc : discovered table now m with
    | none =>
      rw [List.filterMap_cons_none hdisc, List.filter_cons_of_neg (by simp [hdisc])]
      exact ih
    | some p =>
      rw [List.filterMap_cons_some hdisc]
      by_cases hp : 0 < p.epoch ∧ p.epoch = k
      · rw [List.filter_cons_of_pos (by simpa [hdisc] using hp),
          List.filter_cons_of_pos (by simpa [and_comm] using hp), List.length_cons,
          List.length_cons, ih]
      · rw [List.filter_cons_of_neg (by simpa [hdisc] using hp),
          List.filter_cons_of_neg (by simpa [and_comm] using hp)]
        exact ih

end Counting

section Alarm

variable {st : AppState} {nodeList : List Address} {now : ℤ} {m : Membership}

/-- Recovery counts positions. -/
theorem length_leadingDealers (hm : assembleParticipants st (.ok nodeList) now = .ok (some m)) :
    m.leadingDealers.length = (positionsAt st.peerTable (committee st nodeList) now
      (committeeEpoch st.peerTable (committee st nodeList) now)).length := by
  obtain ⟨members, hmembers, -, hown, hpeers, -⟩ := assembleParticipants_eq_some hm
  cases hmembers
  have hcommittee : otherMembers nodeList m.ownId = committee st nodeList := by
    rw [committee, hown, Option.getD_some]
  rw [hcommittee] at hpeers
  rw [length_positionsAt, committeeEpoch, ← hpeers]
  rfl

/-- The holders among the live entries, with their addresses left out. -/
theorem map_liveHolders (table : PeerTable) (now : ℤ) :
    (((table.entries.map fun e => e.2).filter (·.isLive now)).filter fun p => 0 < p.epoch) =
      (liveHolders table now).map fun e => e.2 := by
  rw [liveHolders, List.filter_filter, List.filter_map]
  congr 1
  apply List.filter_congr
  intro e _
  exact Bool.and_comm _ _

/-- The view of a shardless node counts entries. -/
theorem leadingHolders_eq (hshard : st.shard = none) :
    (clusterView st now).leadingHolders = (leadingEntries st.peerTable now).length := by
  have hepoch : ((((st.peerTable.entries.map fun e => e.2).filter (·.isLive now)).filter
      fun p => 0 < p.epoch).map (·.epoch) ++ st.shard.toList.map (·.epoch)).foldr max 0 =
        liveEpoch st.peerTable now := by
    rw [hshard, map_liveHolders, List.map_map]
    simp only [Option.toList_none, List.map_nil, List.append_nil]
    rfl
  simp only [clusterView]
  rw [hepoch, hshard]
  by_cases hzero : liveEpoch st.peerTable now = 0
  · rw [if_pos hzero, eq_comm, List.length_eq_zero_iff, List.eq_nil_iff_forall_not_mem]
    rintro ⟨addr, info⟩ hmem
    obtain ⟨-, -, hpos, heq⟩ := mem_leadingEntries.mp hmem
    omega
  · rw [if_neg hzero, leadingEntries, liveHolders, List.filter_filter, List.filter_filter,
      List.filter_map, List.length_map]
    simp only [Option.isSome_none, Bool.false_and, Bool.toNat_false, zero_add]
    congr 1
    apply List.filter_congr
    intro e _
    -- An entry at a positive epoch holds a share.
    rw [Bool.eq_iff_iff]
    simp only [Function.comp_apply, Bool.and_eq_true, decide_eq_true_eq]
    constructor
    · rintro ⟨heq, hlive⟩
      exact ⟨heq, hlive, by omega⟩
    · rintro ⟨heq, hlive, -⟩
      exact ⟨heq, hlive⟩

/-- Both gates of a recovery in terms of the number of its dealers. -/
theorem recoveryDealers_iff : (∃ dealers, recoveryDealers m = .ok dealers) ↔
    max m.threshold (m.total / 2) ≤ m.leadingDealers.length := by
  constructor
  · rintro ⟨dealers, hdealers⟩
    obtain ⟨rfl, hthreshold, hmajority⟩ := recoveryDealers_eq_ok hdealers
    rw [majority] at hmajority
    exact max_le hthreshold (by omega)
  · intro h
    have hthreshold : m.threshold ≤ m.leadingDealers.length := (le_max_left _ _).trans h
    have hmajority : majority m.total ≤ m.leadingDealers.length + 1 :=
      Nat.succ_le_succ ((le_max_right _ _).trans h)
    refine ⟨m.leadingDealers, ?_⟩
    simp only [recoveryDealers, Fallible.ensure_of hthreshold, Fallible.ensure_of hmajority]
    rfl

theorem leadingHolders_eq_iff (hshard : st.shard = none)
    (hm : assembleParticipants st (.ok nodeList) now = .ok (some m)) :
    (clusterView st now).leadingHolders = m.leadingDealers.length ↔
      OffCommitteeBalanced st nodeList now := by
  have hsplit := List.length_eq_length_filter_add (l := leadingEntries st.peerTable now)
    (canDeal (committee st nodeList))
  rw [length_usable] at hsplit
  rw [leadingHolders_eq hshard, length_leadingDealers hm, hsplit, OffCommitteeBalanced]
  by_cases hnone : positionsAt st.peerTable (committee st nodeList) now
      (liveEpoch st.peerTable now) = []
  · rw [if_pos hnone, hnone, List.dedup_nil, List.length_nil, zero_add]
  · rw [if_neg hnone, committeeEpoch_eq hnone, repeats]
    have hle := (List.dedup_sublist (positionsAt st.peerTable (committee st nodeList) now
      (liveEpoch st.peerTable now))).length_le
    omega

/-- A shardless node's alarm counts the dealers a recovery counts, and crosses its line when the
    recovery's gates open, exactly when the unusable leading entries are balanced. -/
theorem alarm_counts_dealers_iff (hshard : st.shard = none)
    (hm : assembleParticipants st (.ok nodeList) now = .ok (some m)) :
    ((clusterView st now).leadingHolders = m.leadingDealers.length ∧
      ((clusterView st now).recoveryThreshold ≤ (clusterView st now).leadingHolders ↔
        ∃ dealers, recoveryDealers m = .ok dealers)) ↔
      OffCommitteeBalanced st nodeList now := by
  rw [← leadingHolders_eq_iff hshard hm, and_iff_left_iff_imp]
  intro heq
  obtain ⟨members, -, -, -, -, hthreshold, htotal, -⟩ := assembleParticipants_eq_some hm
  rw [recoveryDealers_iff, heq, hthreshold, htotal]
  rfl

end Alarm

/-- Node 1 without a share, next to a holder at position 2 and a holder of address `addr`. -/
def shardless (addr : Address) : AppState :=
  { AppState.new ⟨"app", 2, 3, "http://a:4443", []⟩ 1 with
    peerTable := AList.insert addr ⟨"http://c:4443", 1000, [4], 3, []⟩
      (AList.insert 2 ⟨"http://b:4443", 1000, [4], 3, []⟩ ∅) }

theorem alarm_counts_dealers_members : ∃ m,
    assembleParticipants (shardless 3) (.ok [1, 2, 3]) 1010 = .ok (some m) ∧
      (clusterView (shardless 3) 1010).leadingHolders = m.leadingDealers.length ∧
      ∃ dealers, recoveryDealers m = .ok dealers := by
  have hbalanced : OffCommitteeBalanced (shardless 3) [1, 2, 3] 1010 := by
    rfl
  obtain ⟨heq, hgates⟩ := (alarm_counts_dealers_iff rfl rfl).mpr hbalanced
  exact ⟨_, rfl, heq, hgates.mp (by decide)⟩

/-- The identity 9 is not on the nodeList any more. The alarm counts two leading holders and stays
    silent, while recovery has one dealer and cannot run. -/
theorem alarm_silent_below_quorum : ∃ m,
    assembleParticipants (shardless 9) (.ok [1, 2, 3]) 1010 = .ok (some m) ∧
      (clusterView (shardless 9) 1010).leadingHolders = 2 ∧
      (clusterView (shardless 9) 1010).recoveryThreshold = 2 ∧ m.leadingDealers.length = 1 ∧
      ¬ ∃ dealers, recoveryDealers m = .ok dealers := by
  refine ⟨_, rfl, rfl, rfl, rfl, ?_⟩
  rintro ⟨dealers, hdealers⟩
  obtain ⟨rfl, hthreshold, -⟩ := recoveryDealers_eq_ok hdealers
  exact absurd hthreshold (by decide)

end KmsCluster
