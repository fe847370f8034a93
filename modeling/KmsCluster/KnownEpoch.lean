import KmsCluster.GossipRun
import KmsCluster.Reshare

/-!
# Epoch arithmetic

The epoch that `run_reshare_recovery` and `trigger_refresh` start a session with is
`known_epoch() + 1` (`src/init.rs`), over the runs of a node's gossip. The epochs that come in are
any `u64`, the relay merge keeps the greatest of them, and the addition wraps in the release
profile.

## Main results

- `epoch_arithmetic_safe_iff`: the epochs of the sessions are ahead of all that the node knows in
  every state of a run exactly when nothing that is taken in carries the greatest `u64`.
- `greatest_epoch_wraps`: one relayed entry that carries it makes a recovery start at epoch 0.
-/

namespace KmsCluster

/-- The epoch is above the one of the node's own share and of every entry of its peer table. -/
def AppState.Ahead (st : AppState) (epoch : ℕ) : Prop :=
  shardEpoch st.shard < epoch ∧ ∀ addr e, st.peerTable.lookup addr = some e → e.epoch < epoch

/-- `known_epoch() + 1` does not overflow, and it is ahead of all that the node knows, as the epoch
    of every session started with it. -/
structure AppState.EpochSafe (st : AppState) : Prop where
  fits : st.knownEpoch + 1 < 2 ^ 64
  ahead : st.Ahead (nextEpoch st.knownEpoch)
  recovery : ∀ m nonce dealers req, recoveryRequest st m nonce = .ok (dealers, req) →
    st.Ahead req.epoch
  refresh : ∀ membership nonce peers req, refreshRequest st membership nonce = .ok (peers, req) →
    st.Ahead req.epoch

theorem nextEpoch_of_lt {known : ℕ} (h : known + 1 < 2 ^ 64) : nextEpoch known = known + 1 :=
  Nat.mod_eq_of_lt h

theorem AppState.knownEpoch_fits_iff {st : AppState} : st.knownEpoch + 1 < 2 ^ 64 ↔
    shardEpoch st.shard + 1 < 2 ^ 64 ∧ st.peerTable.All fun _ e => e.epoch + 1 < 2 ^ 64 := by
  have hknown : st.knownEpoch < 2 ^ 64 - 1 ↔ _ := knownEpoch_lt_iff (by omega)
  constructor
  · intro h
    obtain ⟨hown, hentries⟩ := hknown.mp (by omega)
    exact ⟨by omega, fun addr e he => Nat.add_lt_of_lt_sub (hentries addr e he)⟩
  · rintro ⟨hown, hentries⟩
    have hlt := hknown.mpr ⟨by omega, fun addr e he => Nat.lt_sub_of_add_lt (hentries addr e he)⟩
    omega

theorem AppState.epochSafe_iff {st : AppState} : st.EpochSafe ↔ st.knownEpoch + 1 < 2 ^ 64 := by
  constructor
  · intro h
    exact h.fits
  · intro h
    have hahead : st.Ahead (nextEpoch st.knownEpoch) := by
      rw [nextEpoch_of_lt h]
      exact (knownEpoch_lt_iff (Nat.succ_pos _)).mp (Nat.lt_succ_self _)
    refine ⟨h, hahead, ?_, ?_⟩
    · intro m nonce dealers req hreq
      obtain ⟨-, -, -, hepoch⟩ := recoveryRequest_eq_ok hreq
      rw [hepoch]
      exact hahead
    · intro membership nonce peers req hreq
      obtain ⟨m, -, -, -, -, -, -, -, hepoch⟩ := refreshRequest_eq_ok hreq
      rw [hepoch]
      exact hahead

namespace GossipRun

open Runs

variable {Sig : Type} (S : Secp Sig) (server : ServerConfig)

/-- No epoch that the step takes in is the greatest `u64`. -/
def EpochsBelowMax (s : State) : Label → Prop
  | .gossip metadata authNow nodeList requireVerified selfInfo _ => ∀ ctx info,
      authenticate S server s.app.config.appId authNow nodeList requireVerified metadata
        "Gossip" = .ok ctx →
      selfInfo = some info → info.grpcUrl ≠ "" → info.epoch + 1 < 2 ^ 64
  | .answered _ received _ => ∀ peer ∈ received, ∀ addr,
      peer.Taken s.app.config.selfUrl addr → peer.epoch + 1 < 2 ^ 64
  | .storeShare shard _ => shardEpoch shard + 1 < 2 ^ 64
  | _ => True

/-- What `known_epoch` sees: the lock of the share is taken first, the one of the table later. -/
def seen (s s' : State) : AppState := { s'.app with shard := s.app.shard }

variable {S server} {s s' : State}

theorem fits_gossipHandler_iff {table : PeerTable} (h : table.All fun _ e => e.epoch + 1 < 2 ^ 64)
    {caller : Address} {pubkey : Bytes} {selfInfo : Option NodeInfo} {now : ℤ} :
    (gossipHandler table caller pubkey selfInfo now).All (fun _ e => e.epoch + 1 < 2 ^ 64) ↔
      ∀ info, selfInfo = some info → info.grpcUrl ≠ "" → info.epoch + 1 < 2 ^ 64 := by
  constructor
  · rintro hnew info rfl hurl
    refine hnew caller ⟨info.grpcUrl, now, pubkey, info.epoch, info.groupPubkey⟩ ?_
    rw [lookup_gossipHandler hurl, if_pos rfl]
  · intro hinfo
    exact h.gossipHandler hinfo

theorem fits_mergeReply_iff {table : PeerTable} (h : table.All fun _ e => e.epoch + 1 < 2 ^ 64)
    {selfUrl target : String} {received : List NodeInfo} {now : ℤ} :
    (mergeReply selfUrl table target received now).All (fun _ e => e.epoch + 1 < 2 ^ 64) ↔
      ∀ peer ∈ received, ∀ addr, peer.Taken selfUrl addr → peer.epoch + 1 < 2 ^ 64 := by
  constructor
  · intro hnew peer hpeer addr htaken
    -- The merge keeps the maximum, so the entry of the peer is at least as high.
    obtain ⟨e, he, hle⟩ := mergeReply_taken hpeer htaken
    have hfits := hnew addr e he
    omega
  · intro hpeers
    refine h.mergeReply (fun _ _ _ he _ => he) ?_ ?_
    · intro peer hpeer addr e htaken he
      have hfits := hpeers peer hpeer addr htaken
      show max e.epoch peer.epoch + 1 < 2 ^ 64
      omega
    · intro peer hpeer addr htaken
      exact hpeers peer hpeer addr htaken

theorem fits_step_iff (l : Label) (h : s.app.knownEpoch + 1 < 2 ^ 64)
    (hstep : step S server s l = some s') :
    s'.app.knownEpoch + 1 < 2 ^ 64 ↔ EpochsBelowMax S server s l := by
  obtain ⟨hown, htable⟩ := AppState.knownEpoch_fits_iff.mp h
  rw [AppState.knownEpoch_fits_iff]
  cases l with
  | gossip metadata authNow nodeList requireVerified selfInfo now =>
    simp only [step] at hstep
    split at hstep
    · next ctx hctx =>
      cases hstep
      refine (and_iff_right hown).trans ((fits_gossipHandler_iff htable).trans ?_)
      constructor
      · intro hinfo _ info _
        exact hinfo info
      · intro hinfo info
        exact hinfo ctx info hctx
    · next err herr =>
      cases hstep
      refine iff_of_true ⟨hown, htable⟩ ?_
      intro ctx info hctx
      cases herr.symm.trans hctx
  | startRound order =>
    simp only [step] at hstep
    split at hstep
    · cases hstep
      exact iff_of_true ⟨hown, htable⟩ trivial
    · cases hstep
  | answered owner received now =>
    simp only [step] at hstep
    split at hstep
    · cases hstep
      exact (and_iff_right hown).trans (fits_mergeReply_iff htable)
    · cases hstep
  | pushFailed =>
    simp only [step] at hstep
    split at hstep
    · cases hstep
      exact iff_of_true ⟨hown, htable⟩ trivial
    · cases hstep
  | storeShare shard groupPubkey =>
    cases hstep
    exact and_iff_left htable

/-- A run in which the node's knowledge stays below the greatest `u64` in every state. -/
theorem fits_run_iff {labels : List Label} {s₀ : State} (h : s₀.app.knownEpoch + 1 < 2 ^ 64)
    (hrun : exec (step S server) s₀ labels = some s) :
    (∀ pre m, pre <+: labels → exec (step S server) s₀ pre = some m →
      m.app.knownEpoch + 1 < 2 ^ 64) ↔
        Meets (step S server) (EpochsBelowMax S server) s₀ labels := by
  refine (forall_prefix_iff (P := fun m : State => m.app.knownEpoch + 1 < 2 ^ 64)).trans ?_
  rw [and_iff_right h]
  refine meets_iff_of_invariant (I := fun m => m.app.knownEpoch + 1 < 2 ^ 64) ?_ ?_ h hrun
  · intro m l m' hm hl hstep
    exact (fits_step_iff l hm hstep).mpr hl
  · intro m l m' hm hstep
    constructor
    · intro hfits
      exact (fits_step_iff l hm hstep).mp (hfits m' hstep)
    · intro hl m'' hstep'
      exact (fits_step_iff l hm hstep').mpr hl

/-- In every run, whatever two states `known_epoch` reads the share and the peer table in,
    `known_epoch() + 1` fits a `u64` and the sessions started with it are ahead of both, exactly
    when no direct message, relayed entry or share that the node takes in carries the greatest
    `u64`. -/
theorem epoch_arithmetic_safe_iff {config : Config} {ethAddress : Address} {labels : List Label}
    (hrun : exec (step S server) (.init config ethAddress) labels = some s) :
    (∀ pre mid s₁ s₂, pre <+: mid → mid <+: labels →
      exec (step S server) (.init config ethAddress) pre = some s₁ →
      exec (step S server) (.init config ethAddress) mid = some s₂ → (seen s₁ s₂).EpochSafe) ↔
        Meets (step S server) (EpochsBelowMax S server) (.init config ethAddress) labels := by
  have hinit : (State.init config ethAddress).app.knownEpoch + 1 < 2 ^ 64 := by
    show (0 : ℕ) + 1 < 2 ^ 64
    omega
  rw [← fits_run_iff hinit hrun]
  constructor
  · intro h pre m hpre hm
    exact (h pre pre m m (List.prefix_refl pre) hpre hm hm).fits
  · intro h pre mid s₁ s₂ hpre hmid hs₁ hs₂
    obtain ⟨hown, -⟩ := AppState.knownEpoch_fits_iff.mp (h pre s₁ (hpre.trans hmid) hs₁)
    obtain ⟨-, htable⟩ := AppState.knownEpoch_fits_iff.mp (h mid s₂ hmid hs₂)
    exact AppState.epochSafe_iff.mpr (AppState.knownEpoch_fits_iff.mpr ⟨hown, htable⟩)

section Wrap

/-- One of two nodes, with a threshold of 1. -/
def pairConfig : Config := ⟨"app", 1, 2, "http://a:4443", ["http://seed:4443"]⟩

/-- The seed relays an entry of address 2 with the given epoch; address 2 then answers a push. -/
def epochRun (epoch : ℕ) : List Label :=
  [.startRound ["http://seed:4443"],
    .answered (some 3) [⟨"http://b:4443", some 2, plainKey 2, epoch, []⟩] 1000,
    .startRound ["http://b:4443"], .answered (some 2) [] 1030]

/-- `EpochsBelowMax`, evaluated on the labels of such a run. -/
def epochsBelowMaxTest : Label → Bool
  | .answered _ received _ => received.all fun peer => decide (peer.epoch + 1 < 2 ^ 64)
  | .startRound _ => true
  | _ => false

theorem epochsBelowMaxTest_sound (s : State) (l : Label) (h : epochsBelowMaxTest l = true) :
    EpochsBelowMax S server s l := by
  cases l with
  | answered owner received now =>
    intro peer hpeer _ _
    exact of_decide_eq_true (List.all_eq_true.mp h peer hpeer)
  | startRound order => trivial
  | gossip => cases h
  | pushFailed => trivial
  | storeShare => cases h

theorem epoch_arithmetic_safe_relayed : ∃ s,
    exec (step plainSecp ⟨60⟩) (.init pairConfig 1) (epochRun 5) = some s ∧
      s.app.knownEpoch = 5 ∧ s.app.EpochSafe := by
  obtain ⟨s, hrun, hknown⟩ : ∃ s, exec (step plainSecp ⟨60⟩) (.init pairConfig 1) (epochRun 5) =
      some s ∧ s.app.knownEpoch = 5 := ⟨_, rfl, rfl⟩
  refine ⟨s, hrun, hknown, ?_⟩
  have hmeets : Meets (step plainSecp ⟨60⟩) (EpochsBelowMax plainSecp ⟨60⟩) (.init pairConfig 1)
      (epochRun 5) := by
    apply meets_of_check (g := fun _ l => epochsBelowMaxTest l) epochsBelowMaxTest_sound
    rfl
  exact (epoch_arithmetic_safe_iff hrun).mpr hmeets _ _ s s (List.prefix_refl _)
    (List.prefix_refl _) hrun hrun

/-- After an entry with the greatest `u64`, the recovery of node 1 starts at epoch 0, below the
    one of the peer it has just heard of. -/
theorem greatest_epoch_wraps : ∃ s m dealers req,
    exec (step plainSecp ⟨60⟩) (.init pairConfig 1) (epochRun (2 ^ 64 - 1)) = some s ∧
      s.app.knownEpoch + 1 = 2 ^ 64 ∧
      assembleParticipants s.app (.ok [1, 2]) 1040 = .ok (some m) ∧
      recoveryRequest s.app m 1040 = .ok (dealers, req) ∧ req.epoch = 0 ∧
      ¬ s.app.Ahead req.epoch := by
  refine ⟨_, _, _, _, rfl, rfl, rfl, rfl, rfl, ?_⟩
  intro h
  exact absurd h.1 (Nat.not_lt_zero _)

end Wrap

end GossipRun

end KmsCluster
