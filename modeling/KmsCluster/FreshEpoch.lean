import KmsCluster.KnownEpoch
import KmsCluster.Process

/-!
# The epoch of a new session

The runs of a node process with all that it ever learned of epochs: those of its own shares and
those that direct and relayed gossip entered in its table (`src/grpc.rs`). A call of
`run_reshare_recovery` or `trigger_refresh` takes its new epoch from the table as it stands
(`src/init.rs`), and a direct push puts whatever its sender says in place of what was known.

## Main results

- `exec_process`: what is remembered does not change what the process does.
- `new_epoch_fresh`: as long as no replaced epoch is lost, every call chooses an epoch above all
  that was learned before it.
- `learned_epoch_chosen`: a push of a restarted node makes a recovery choose an epoch that the
  process had learned before.
-/

namespace KmsCluster.Process

open Runs

section History

variable {F G₁ G₂ : Type}

/-- The own epoch that a call has read in `known_epoch`, while it waits for the peer table. -/
def Pc.ownEpoch : Pc F G₁ → Option ℕ
  | .choose _ own | .refreshChoose _ own => some own
  | _ => none

/-- A call of `run_reshare_recovery` or `trigger_refresh` has begun. -/
def Pc.called : Pc F G₁ → Bool
  | .recover _ | .refresh => true
  | _ => false

/-- A process, the epochs that gossip entered in its table, and for each task the epochs that had
    been learned when it last began a call. -/
structure History (F G₁ : Type) where
  proc : State F G₁
  gossiped : List ℕ
  asked : ℕ → List ℕ

/-- All epochs learned so far, from the own shares and from gossip. -/
def History.learned (h : History F G₁) : List ℕ := h.proc.writes.map (·.2) ++ h.gossiped

def History.init (config : Config) (ethAddress : Address) : History F G₁ where
  proc := .init config ethAddress
  gossiped := []
  asked _ := []

inductive Event (F G₁ : Type) where
  | task (id : ℕ) (action : Action F G₁)
  /-- A `Gossip` request of an authenticated caller. -/
  | direct (caller : Address) (pubkey : Bytes) (selfInfo : Option NodeInfo) (now : ℤ)
  /-- `target` answers a push. -/
  | relay (target : String) (received : List NodeInfo) (now : ℤ)

/-- Gossip leaves a new table, with these epochs in it. -/
def History.heard (h : History F G₁) (table : PeerTable) (epochs : List ℕ) : History F G₁ :=
  { h with
    proc := { h.proc with st := { h.proc.st with peerTable := table } }
    gossiped := epochs ++ h.gossiped }

/-- Task `id` has moved; if it begins a call, what was learned until then is remembered. -/
def History.moved (h : History F G₁) (id : ℕ) (proc : State F G₁) : History F G₁ where
  proc := proc
  gossiped := h.gossiped
  asked := if (proc.tasks id).any (·.pc.called) then Function.update h.asked id h.learned
    else h.asked

variable [NatCast F] (B : Blsful F G₁ G₂)

def History.step (h : History F G₁) : Event F G₁ → Option (History F G₁)
  | .task _ (.gossip _) => none
  | .task id action => (Process.step B h.proc (id, action)).map (h.moved id)
  | .direct caller pubkey selfInfo now =>
    some (h.heard (gossipHandler h.proc.st.peerTable caller pubkey selfInfo now)
      ((selfInfo.toList.filter fun info => info.grpcUrl ≠ "").map (·.epoch)))
  | .relay target received now =>
    let selfUrl := h.proc.st.config.selfUrl
    some (h.heard (mergeReply selfUrl h.proc.st.peerTable target received now)
      ((received.filter fun peer =>
        peer.grpcUrl ≠ selfUrl ∧ peer.grpcUrl ≠ "" ∧ peer.ethAddr.isSome).map (·.epoch)))

/-- An own epoch that calls compute with: the one in place, or one that a call has read. -/
def State.GoesBy (s : State F G₁) (own : ℕ) : Prop :=
  own = shardEpoch s.st.shard ∨ ∃ id t, s.tasks id = some t ∧ t.pc.ownEpoch = some own

/-- No epoch that the step takes in is the greatest `u64`, and an epoch that it replaces in the
    table or in the share by a lower one is not above all others that calls compute with. -/
def KeepsKnown (h : History F G₁) : Event F G₁ → Prop
  | .direct caller _ selfInfo _ => ∀ info, selfInfo = some info → info.grpcUrl ≠ "" →
      info.epoch + 1 < 2 ^ 64 ∧
      ∀ old own, h.proc.st.peerTable.lookup caller = some old → h.proc.GoesBy own →
        old.epoch ≤ info.epoch ∨ old.epoch ≤ own ∨
          ∃ addr e, addr ≠ caller ∧ h.proc.st.peerTable.lookup addr = some e ∧
            old.epoch ≤ e.epoch
  | .relay _ received _ => ∀ peer ∈ received, ∀ addr,
      peer.Taken h.proc.st.config.selfUrl addr → peer.epoch + 1 < 2 ^ 64
  | .task id .next => ∀ t shard, h.proc.tasks id = some t → t.pc = .storeShard shard →
      shard.epoch + 1 < 2 ^ 64 ∧
      (shardEpoch h.proc.st.shard ≤ shard.epoch ∨
        ∃ addr e, h.proc.st.peerTable.lookup addr = some e ∧
          shardEpoch h.proc.st.shard ≤ e.epoch)
  | _ => True

/-- A task goes from its last read to the session with its new epoch. -/
inductive Chooses : Pc F G₁ → Pc F G₁ → ℕ → Prop
  | recovery {m : Membership} {own ownId epoch : ℕ} :
      Chooses (.choose m own) (.session ownId epoch) epoch
  | refresh {m : Membership} {own : ℕ} {req : ReshareRequest} :
      Chooses (.refreshChoose m own) (.dealer req) req.epoch

/-- A new epoch that the step computes is above all that was learned before the call. -/
def ChoosesFresh (h : History F G₁) (l : Event F G₁) : Prop :=
  ∀ h', h.step B l = some h' → ∀ id t t' epoch, h.proc.tasks id = some t →
    h'.proc.tasks id = some t' → Chooses t.pc t'.pc epoch → ∀ e ∈ h.asked id, e < epoch

end History

section Acts

variable {F G₁ G₂ : Type} [NatCast F] {B : Blsful F G₁ G₂} {s s' s₁ : State F G₁} {id : ℕ}
  {t : Task F G₁} {action : Action F G₁}

/-- What a step of task `id` does to the table, the share and the own epochs that were read. -/
structure Acts (s : State F G₁) (id : ℕ) (action : Action F G₁) (s' : State F G₁) : Prop where
  table : s'.st.peerTable = s.st.peerTable
  others : ∀ j, j ≠ id → (s'.tasks j).map (·.pc) = (s.tasks j).map (·.pc)
  read : ∀ t own, s'.tasks id = some t → t.pc.ownEpoch = some own → own = shardEpoch s.st.shard
  share : (s'.st.shard = s.st.shard ∧ s'.writes = s.writes) ∨
    ∃ t shard, s.tasks id = some t ∧ t.pc = .storeShard shard ∧ action = .next ∧
      s'.st.shard = some shard ∧
      s'.writes = (s.st.shard.map (·.epoch), shard.epoch) :: s.writes

omit [NatCast F] in
theorem Pc.ownEpoch_of_idle {pc : Pc F G₁} (h : pc.idle = true) : pc.ownEpoch = none := by
  cases pc <;> first | rfl | cases h

omit [NatCast F] in
theorem Pc.ownEpoch_of_founding {pc : Pc F G₁} (h : pc.founding = true) :
    pc.ownEpoch = none := by
  cases pc <;> first | rfl | cases h

omit [NatCast F] in
theorem Pc.ownEpoch_of_target {pc : Pc F G₁} {e : ℕ} (h : pc.target = some e) :
    pc.ownEpoch = none := by
  cases pc <;> first | rfl | cases h

omit [NatCast F] in
theorem Acts.setTask (htable : s₁.st.peerTable = s.st.peerTable)
    (hshard : s₁.st.shard = s.st.shard) (hwrites : s₁.writes = s.writes)
    (htasks : s₁.tasks = s.tasks)
    (hread : ∀ own, t.pc.ownEpoch = some own → own = shardEpoch s.st.shard) :
    Acts s id action (s₁.setTask id t) := by
  refine ⟨htable, ?_, ?_, .inl ⟨hshard, hwrites⟩⟩
  · intro j hj
    simp only [State.setTask, Function.update_of_ne hj, htasks]
  · intro t' own ht' hown
    simp only [State.setTask, Function.update_self, Option.some.injEq] at ht'
    subst ht'
    exact hread own hown

omit [NatCast F] in
/-- The task has read no own epoch where it goes. -/
theorem Acts.blank (htable : s₁.st.peerTable = s.st.peerTable)
    (hshard : s₁.st.shard = s.st.shard) (hwrites : s₁.writes = s.writes)
    (htasks : s₁.tasks = s.tasks) (hpc : t.pc.ownEpoch = none) :
    Acts s id action (s₁.setTask id t) := by
  refine .setTask htable hshard hwrites htasks ?_
  intro own hown
  cases hpc.symm.trans hown

omit [NatCast F] in
theorem Acts.goto {pc : Pc F G₁} (hpc : pc.ownEpoch = none) :
    Acts s id action (s.goto id t pc) :=
  .blank rfl rfl rfl rfl hpc

omit [NatCast F] in
theorem Acts.storeShard {shard : ShardState} (ht : s.tasks id = some t)
    (hpc : t.pc = .storeShard shard) : Acts s id .next (s.storeShard id t shard) := by
  refine ⟨rfl, ?_, ?_, .inr ⟨t, shard, ht, hpc, rfl, rfl, rfl⟩⟩
  · intro j hj
    simp only [State.storeShard, if_neg hj, Option.map_map]
    rfl
  · intro t' own ht' hown
    simp only [State.storeShard, ↓reduceIte, Option.some.injEq] at ht'
    subst ht'
    cases (Pc.ownEpoch_of_idle (Pc.idle_exit id)).symm.trans hown

theorem TaskSteps.acts {pc : Pc F G₁} (ht : s.tasks id = some t) (hpc : t.pc = pc)
    (hsteps : TaskSteps B s id t pc action s') : Acts s id action s' := by
  cases hsteps with
  | idle _ hidle _ => exact .goto (Pc.ownEpoch_of_idle hidle)
  | founding _ hf' => exact .goto (Pc.ownEpoch_of_founding hf')
  | found _ hpending =>
    obtain ⟨epoch, htarget⟩ := Pc.target_of_pendingKey hpending
    exact .blank rfl rfl rfl rfl (Pc.ownEpoch_of_target htarget)
  | carry _ _ htarget' => exact .goto (Pc.ownEpoch_of_target htarget')
  -- The own epoch is read under the lock of the share.
  | recover => exact .setTask rfl rfl rfl rfl fun _ h => (Option.some.inj h).symm
  | refreshKnown => exact .setTask rfl rfl rfl rfl fun _ h => (Option.some.inj h).symm
  | storeShard => exact .storeShard ht hpc
  | _ => exact .blank rfl rfl rfl rfl rfl

theorem step_acts (hne : ∀ table, action ≠ .gossip table)
    (hstep : step B s (id, action) = some s') : Acts s id action s' := by
  cases steps_of_step hstep with
  | gossip => exact absurd rfl (hne _)
  | spawn _ hidle _ => exact .blank rfl rfl rfl rfl (Pc.ownEpoch_of_idle hidle)
  | task ht hsteps => exact hsteps.acts ht rfl

theorem taskStep_choose {m : Membership} {own : ℕ}
    (hstep : taskStep B s id t (.choose m own) action = some s') :
    s' = s.goto id t .done ∨ s' = s.setTask id { t with
      pc := .session m.ownId (nextEpoch (max own s.st.peerTable.maxEpoch))
      wrapped := decide (nextEpoch (max own s.st.peerTable.maxEpoch) ≠
        max own s.st.peerTable.maxEpoch + 1) } := by
  cases action with
  | next =>
    cases hstep
    exact .inr rfl
  | drop =>
    simp only [taskStep] at hstep
    split at hstep
    · cases hstep
    · cases hstep
      exact .inl rfl
  | _ => cases hstep

theorem taskStep_refreshChoose {m : Membership} {own : ℕ}
    (hstep : taskStep B s id t (.refreshChoose m own) action = some s') :
    s' = s.goto id t .done ∨ ∃ req : ReshareRequest,
      req.epoch = nextEpoch (max own s.st.peerTable.maxEpoch) ∧
        s' = s.goto id t (.dealer req) := by
  cases action with
  | clock nonce =>
    cases hstep
    exact .inr ⟨_, rfl, rfl⟩
  | drop =>
    simp only [taskStep] at hstep
    split at hstep
    · cases hstep
    · cases hstep
      exact .inl rfl
  | _ => cases hstep

/-- The epoch of a new session is the successor of what `known_epoch` read under its two locks. -/
theorem chooses_epoch {t' : Task F G₁} {epoch : ℕ} (hne : ∀ table, action ≠ .gossip table)
    (ht : s.tasks id = some t) (hstep : step B s (id, action) = some s')
    (ht' : s'.tasks id = some t') (hchooses : Chooses t.pc t'.pc epoch) :
    ∃ own, t.pc.ownEpoch = some own ∧ epoch = nextEpoch (max own s.st.peerTable.maxEpoch) := by
  rw [step_eq_taskStep ht hne] at hstep
  generalize t.pc = pc at hstep hchooses
  generalize hpc' : t'.pc = pc' at hchooses
  cases hchooses with
  | @recovery m own ownId epoch =>
    refine ⟨own, rfl, ?_⟩
    rcases taskStep_choose hstep with rfl | rfl
    · rw [goto_tasks_self, Option.some.injEq] at ht'
      subst ht'
      cases hpc'
    · rw [setTask_tasks_self, Option.some.injEq] at ht'
      subst ht'
      cases hpc'
      rfl
  | @refresh m own req =>
    refine ⟨own, rfl, ?_⟩
    rcases taskStep_refreshChoose hstep with rfl | ⟨req', hepoch, rfl⟩
    · rw [goto_tasks_self, Option.some.injEq] at ht'
      subst ht'
      cases hpc'
    · rw [goto_tasks_self, Option.some.injEq] at ht'
      subst ht'
      cases hpc'
      exact hepoch

end Acts

section Known

variable {F G₁ G₂ : Type}

/-- Whatever was learned is known still, to the calls that have read the own epoch too, and has a
    successor in `u64`. -/
structure Knows (h : History F G₁) : Prop where
  known : ∀ e ∈ h.learned, e ≤ h.proc.st.knownEpoch
  fits : h.proc.st.knownEpoch + 1 < 2 ^ 64
  asked : ∀ id, h.asked id ⊆ h.learned
  chosen : ∀ id t own, h.proc.tasks id = some t → t.pc.ownEpoch = some own →
    own + 1 < 2 ^ 64 ∧ ∀ e ∈ h.asked id, e ≤ max own h.proc.st.peerTable.maxEpoch

variable {h h' : History F G₁}

/-- A call that has read the own epoch is under way. -/
theorem called_of_ownEpoch {pc : Pc F G₁} {own : ℕ} (h : pc.ownEpoch = some own) :
    pc.called = false := by
  cases pc <;> first | rfl | cases h

theorem not_chooses_self (pc : Pc F G₁) {epoch : ℕ} : ¬ Chooses pc pc epoch := by
  intro h
  cases h

theorem moved_asked_self (h : History F G₁) (id : ℕ) (proc : State F G₁) :
    (h.moved id proc).asked id =
      if (proc.tasks id).any (·.pc.called) then h.learned else h.asked id := by
  unfold History.moved
  dsimp only
  split
  · exact Function.update_self ..
  · rfl

theorem moved_asked_of_ne {id j : ℕ} (hj : j ≠ id) (proc : State F G₁) :
    (h.moved id proc).asked j = h.asked j := by
  unfold History.moved
  dsimp only
  split
  · exact Function.update_of_ne hj ..
  · rfl

theorem knows_init (config : Config) (ethAddress : Address) :
    Knows (History.init config ethAddress : History F G₁) where
  known e he := by cases he
  fits := by
    show (0 : ℕ) + 1 < 2 ^ 64
    omega
  asked id e he := by cases he
  chosen id t own ht hown := by
    simp only [History.init, State.init] at ht
    split at ht
    · cases ht
      cases hown
    · cases ht

/-- A new table in which nothing is lost of what calls go by. -/
theorem Knows.heard (hk : Knows h) {table : PeerTable} {epochs : List ℕ}
    (htable : ∀ own, h.proc.GoesBy own →
      h.proc.st.peerTable.maxEpoch ≤ max own table.maxEpoch)
    (hepochs : ∀ e ∈ epochs, e ≤ table.maxEpoch)
    (hfits : table.All fun _ e => e.epoch + 1 < 2 ^ 64) : Knows (h.heard table epochs) := by
  have hown := htable _ (.inl rfl)
  have hknown : h.proc.st.knownEpoch ≤ (h.heard table epochs).proc.st.knownEpoch :=
    max_le (le_max_left _ _) hown
  have hsub : h.learned ⊆ (h.heard table epochs).learned := by
    intro e he
    rcases List.mem_append.mp he with hown | hheard
    · exact List.mem_append_left _ hown
    · exact List.mem_append_right _ (List.mem_append_right _ hheard)
  refine ⟨?_, ?_, fun id => List.Subset.trans (hk.asked id) hsub, ?_⟩
  · intro e he
    rcases List.mem_append.mp he with hown | hheard
    · exact le_trans (hk.known e (List.mem_append_left _ hown)) hknown
    · rcases List.mem_append.mp hheard with hnew | hold
      · exact le_trans (hepochs e hnew) (le_max_right _ _)
      · exact le_trans (hk.known e (List.mem_append_right _ hold)) hknown
  · exact AppState.knownEpoch_fits_iff.mpr
      ⟨(AppState.knownEpoch_fits_iff.mp hk.fits).1, hfits⟩
  · intro id t own ht hread
    obtain ⟨hlt, hasked⟩ := hk.chosen id t own ht hread
    refine ⟨hlt, ?_⟩
    intro e he
    exact le_trans (hasked e he) (max_le (le_max_left _ _) (htable own (.inr ⟨id, t, ht, hread⟩)))

theorem epoch_le_gossipHandler {table : PeerTable} {caller : Address} {pubkey : Bytes}
    {info : NodeInfo} {now : ℤ} (hurl : info.grpcUrl ≠ "") :
    info.epoch ≤ (gossipHandler table caller pubkey (some info) now).maxEpoch := by
  have hentry : (gossipHandler table caller pubkey (some info) now).lookup caller =
      some ⟨info.grpcUrl, now, pubkey, info.epoch, info.groupPubkey⟩ := by
    rw [lookup_gossipHandler hurl, if_pos rfl]
  exact PeerTable.epoch_le_maxEpoch hentry

theorem maxEpoch_gossipHandler {table : PeerTable} {caller : Address} {pubkey : Bytes}
    {info : NodeInfo} {now : ℤ} (hurl : info.grpcUrl ≠ "") {own : ℕ}
    (hreplaced : ∀ old, table.lookup caller = some old → old.epoch ≤ info.epoch ∨
      old.epoch ≤ own ∨ ∃ addr e, addr ≠ caller ∧ table.lookup addr = some e ∧
        old.epoch ≤ e.epoch) :
    table.maxEpoch ≤ max own (gossipHandler table caller pubkey (some info) now).maxEpoch := by
  have hothers : ∀ addr e, addr ≠ caller → table.lookup addr = some e →
      e.epoch ≤ (gossipHandler table caller pubkey (some info) now).maxEpoch := by
    intro addr e haddr he
    have hentry : (gossipHandler table caller pubkey (some info) now).lookup addr = some e := by
      rw [lookup_gossipHandler hurl, if_neg haddr, he]
    exact PeerTable.epoch_le_maxEpoch hentry
  refine PeerTable.maxEpoch_le ?_
  intro addr e he
  by_cases haddr : addr = caller
  · subst haddr
    rcases hreplaced e he with hpushed | hown | ⟨addr', e', haddr', he', hle⟩
    · exact le_trans hpushed (le_trans (epoch_le_gossipHandler hurl) (le_max_right _ _))
    · exact le_trans hown (le_max_left _ _)
    · exact le_trans hle (le_trans (hothers addr' e' haddr' he') (le_max_right _ _))
  · exact le_trans (hothers addr e haddr he) (le_max_right _ _)

theorem Knows.direct (hk : Knows h) {caller : Address} {pubkey : Bytes}
    {selfInfo : Option NodeInfo} {now : ℤ}
    (hmeets : KeepsKnown h (.direct caller pubkey selfInfo now)) :
    Knows (h.heard (gossipHandler h.proc.st.peerTable caller pubkey selfInfo now)
      ((selfInfo.toList.filter fun info => info.grpcUrl ≠ "").map (·.epoch))) := by
  refine hk.heard ?_ ?_ ?_
  · intro own hown
    cases selfInfo with
    | none => exact le_max_right _ _
    | some info =>
      by_cases hurl : info.grpcUrl ≠ ""
      · exact maxEpoch_gossipHandler hurl fun old hold => (hmeets info rfl hurl).2 old own hold hown
      · simp only [gossipHandler, if_neg hurl]
        exact le_max_right _ _
  · intro e he
    obtain ⟨info, hinfo, rfl⟩ := List.mem_map.mp he
    obtain ⟨hself, hurl⟩ := List.mem_filter.mp hinfo
    obtain rfl : selfInfo = some info := Option.mem_toList.mp hself
    exact epoch_le_gossipHandler (of_decide_eq_true hurl)
  · apply (GossipRun.fits_gossipHandler_iff (AppState.knownEpoch_fits_iff.mp hk.fits).2).mpr
    intro info hinfo hurl
    exact (hmeets info hinfo hurl).1

theorem Knows.relay (hk : Knows h) {target : String} {received : List NodeInfo} {now : ℤ}
    (hmeets : KeepsKnown h (.relay target received now)) :
    Knows (h.heard (mergeReply h.proc.st.config.selfUrl h.proc.st.peerTable target received now)
      ((received.filter fun peer => peer.grpcUrl ≠ h.proc.st.config.selfUrl ∧
        peer.grpcUrl ≠ "" ∧ peer.ethAddr.isSome).map (·.epoch))) := by
  refine hk.heard ?_ ?_ ?_
  · intro own _
    refine le_trans (PeerTable.maxEpoch_le ?_) (le_max_right _ _)
    intro addr e he
    obtain ⟨e', he', hle⟩ := mergeReply_epoch_le he
    exact le_trans hle (PeerTable.epoch_le_maxEpoch he')
  · intro epoch hepoch
    obtain ⟨peer, hpeer, rfl⟩ := List.mem_map.mp hepoch
    obtain ⟨hmem, htest⟩ := List.mem_filter.mp hpeer
    obtain ⟨hself, hurl, haddr⟩ := of_decide_eq_true htest
    obtain ⟨addr, haddr⟩ := Option.isSome_iff_exists.mp haddr
    obtain ⟨e, he, hle⟩ := mergeReply_taken hmem ⟨hself, hurl, haddr⟩
    exact le_trans hle (PeerTable.epoch_le_maxEpoch he)
  · exact (GossipRun.fits_mergeReply_iff (AppState.knownEpoch_fits_iff.mp hk.fits).2).mpr hmeets

/-- The share is kept, or replaced by one that loses nothing. -/
theorem Knows.share (hk : Knows h) {id : ℕ} {action : Action F G₁} {proc : State F G₁}
    (hacts : Acts h.proc id action proc) (hmeets : KeepsKnown h (.task id action)) :
    (∀ e ∈ (h.moved id proc).learned, e ≤ proc.st.knownEpoch) ∧
      proc.st.knownEpoch + 1 < 2 ^ 64 ∧ h.learned ⊆ (h.moved id proc).learned := by
  rcases hacts.share with ⟨hshard, hwrites⟩ | ⟨t, shard, ht, hpc, rfl, hshard, hwrites⟩
  · have hlearned : (h.moved id proc).learned = h.learned := by
      show proc.writes.map _ ++ _ = _
      rw [hwrites]
      rfl
    have hknown : proc.st.knownEpoch = h.proc.st.knownEpoch := by
      unfold AppState.knownEpoch
      rw [hshard, hacts.table]
    rw [hlearned, hknown]
    exact ⟨hk.known, hk.fits, List.Subset.refl _⟩
  · obtain ⟨hfits, hreplaced⟩ := hmeets t shard ht hpc
    have hlearned : (h.moved id proc).learned = shard.epoch :: h.learned := by
      show proc.writes.map _ ++ _ = _
      rw [hwrites]
      rfl
    have hknown : proc.st.knownEpoch = max shard.epoch h.proc.st.peerTable.maxEpoch := by
      unfold AppState.knownEpoch
      rw [hshard, hacts.table, shardEpoch_some]
    have hold : h.proc.st.knownEpoch ≤ proc.st.knownEpoch := by
      rw [hknown]
      refine max_le ?_ (le_max_right _ _)
      rcases hreplaced with hle | ⟨addr, e, he, hle⟩
      · exact le_trans hle (le_max_left _ _)
      · exact le_trans hle (le_trans (PeerTable.epoch_le_maxEpoch he) (le_max_right _ _))
    have htable := (AppState.knownEpoch_fits_iff.mp hk.fits).2
    rw [hlearned]
    refine ⟨?_, ?_, List.subset_cons_self _ _⟩
    · intro e he
      rcases List.mem_cons.mp he with rfl | hmem
      · rw [hknown]
        exact le_max_left _ _
      · exact le_trans (hk.known e hmem) hold
    · rw [AppState.knownEpoch_fits_iff, hshard, hacts.table]
      exact ⟨hfits, htable⟩

theorem Knows.moved (hk : Knows h) {id : ℕ} {action : Action F G₁} {proc : State F G₁}
    (hacts : Acts h.proc id action proc) (hmeets : KeepsKnown h (.task id action)) :
    Knows (h.moved id proc) := by
  obtain ⟨hknown, hfits, hsub⟩ := hk.share hacts hmeets
  refine ⟨hknown, hfits, ?_, ?_⟩
  · intro j
    refine List.Subset.trans ?_ hsub
    by_cases hj : j = id
    · rw [hj, moved_asked_self]
      split
      · exact List.Subset.refl _
      · exact hk.asked id
    · rw [moved_asked_of_ne hj]
      exact hk.asked j
  · intro j t own ht hown
    show own + 1 < 2 ^ 64 ∧ ∀ e ∈ (h.moved id proc).asked j, e ≤ max own proc.st.peerTable.maxEpoch
    rw [hacts.table]
    by_cases hj : j = id
    · subst hj
      have ht' : proc.tasks j = some t := ht
      rw [moved_asked_self, ht', Option.any_some, called_of_ownEpoch hown, if_neg nofun,
        hacts.read t own ht hown]
      refine ⟨(AppState.knownEpoch_fits_iff.mp hk.fits).1, ?_⟩
      intro e he
      exact hk.known e (hk.asked j he)
    · have hpcs := hacts.others j hj
      have ht' : proc.tasks j = some t := ht
      rw [ht', Option.map_some] at hpcs
      obtain ⟨u, hu, hupc⟩ := Option.map_eq_some_iff.mp hpcs.symm
      rw [moved_asked_of_ne hj]
      exact hk.chosen j u own hu (hupc ▸ hown)

variable [NatCast F] {B : Blsful F G₁ G₂}

theorem step_task {id : ℕ} {action : Action F G₁} (hstep : h.step B (.task id action) = some h') :
    (∀ table, action ≠ .gossip table) ∧
      ∃ proc, Process.step B h.proc (id, action) = some proc ∧ h' = h.moved id proc := by
  cases action with
  | gossip table => cases hstep
  | _ =>
    obtain ⟨proc, hproc, rfl⟩ := Option.map_eq_some_iff.mp hstep
    exact ⟨nofun, proc, hproc, rfl⟩

/-- What is remembered does not change what the process does. -/
theorem exec_process {events : List (Event F G₁)}
    (hrun : exec (History.step B) h events = some h') :
    ∃ labels, exec (Process.step B) h.proc labels = some h'.proc := by
  refine exec_map (f := History.proc) ?_ hrun
  intro h l h' hstep
  cases l with
  | task id action =>
    obtain ⟨-, proc, hproc, rfl⟩ := step_task hstep
    exact ⟨(id, action), hproc⟩
  | direct caller pubkey selfInfo now =>
    cases hstep
    exact ⟨(0, .gossip (gossipHandler h.proc.st.peerTable caller pubkey selfInfo now)), rfl⟩
  | relay target received now =>
    cases hstep
    exact ⟨(0, .gossip (mergeReply h.proc.st.config.selfUrl h.proc.st.peerTable target received
      now)), rfl⟩

theorem knows_step (h : History F G₁) (l : Event F G₁) (h' : History F G₁) (hk : Knows h)
    (hmeets : KeepsKnown h l) (hstep : h.step B l = some h') : Knows h' := by
  cases l with
  | task id action =>
    obtain ⟨hne, proc, hproc, rfl⟩ := step_task hstep
    exact hk.moved (step_acts hne hproc) hmeets
  | direct caller pubkey selfInfo now =>
    cases hstep
    exact hk.direct hmeets
  | relay target received now =>
    cases hstep
    exact hk.relay hmeets

theorem choosesFresh (h : History F G₁) (l : Event F G₁) (hk : Knows h) : ChoosesFresh B h l := by
  intro h' hstep id t t' epoch ht ht' hchooses e he
  cases l with
  | task id' action =>
    obtain ⟨hne, proc, hproc, rfl⟩ := step_task hstep
    by_cases hid : id = id'
    · subst hid
      obtain ⟨own, hown, rfl⟩ := chooses_epoch hne ht hproc ht' hchooses
      obtain ⟨hlt, hasked⟩ := hk.chosen id t own ht hown
      have htable : h.proc.st.peerTable.maxEpoch ≤ h.proc.st.knownEpoch := le_max_right _ _
      have hfits := hk.fits
      rw [nextEpoch_of_lt (by omega)]
      exact Nat.lt_succ_of_le (hasked e he)
    · -- Another task has moved, and this one is where it was.
      have hpcs := (step_acts hne hproc).others id hid
      have ht'' : proc.tasks id = some t' := ht'
      rw [ht, ht'', Option.map_some, Option.map_some, Option.some.injEq] at hpcs
      rw [hpcs] at hchooses
      exact absurd hchooses (not_chooses_self t.pc)
  | direct caller pubkey selfInfo now =>
    cases hstep
    cases ht.symm.trans ht'
    exact absurd hchooses (not_chooses_self t.pc)
  | relay target received now =>
    cases hstep
    cases ht.symm.trans ht'
    exact absurd hchooses (not_chooses_self t.pc)

/-- In every run of a process in which no epoch that it takes in is the greatest `u64`, and no
    epoch that is replaced by a lower one is above all the others it knows, each call of
    `run_reshare_recovery` and `trigger_refresh` computes a new epoch above all that the process
    had learned when the call began. -/
theorem new_epoch_fresh {config : Config} {ethAddress : Address} {events : List (Event F G₁)}
    (hmeets : Meets (History.step B) KeepsKnown (.init config ethAddress) events) :
    Meets (History.step B) (ChoosesFresh B) (.init config ethAddress) events :=
  hmeets.of_invariant knows_step (fun h l hk _ => choosesFresh h l hk)
    (knows_init config ethAddress)

end Known

section Restarted

open TwoSessions

def urlOf (n : Address) : String := "http://node" ++ toString n.toNat ++ ":4443"

/-- Nodes push their epochs to node 1, which has no share; it then begins a recovery and reads its
    own epoch. -/
def recoveryRun (pushes : List (Address × ℕ)) : List (Event Scalar Scalar) :=
  pushes.map (fun p => .direct p.1 [4] (some ⟨urlOf p.1, none, [], p.2, []⟩) 1000) ++
    [.task 0 (.boot none), .task 0 (.assemble (.ok nodeList) 1010),
      .task 0 (.probe .seedReachableDeclined true), .task 0 .next]

/-- `KeepsKnown`, evaluated for pushes that lower no epoch and tasks that store no share. -/
def keepsKnownTest {F G₁ : Type} (h : History F G₁) : Event F G₁ → Bool
  | .direct caller _ (some info) _ => decide (info.epoch + 1 < 2 ^ 64) &&
      (h.proc.st.peerTable.lookup caller).all fun old => decide (old.epoch ≤ info.epoch)
  | .task id .next => (h.proc.tasks id).all fun t => match t.pc with
    | .storeShard _ => false
    | _ => true
  | .relay _ _ _ => false
  | _ => true

theorem keepsKnownTest_sound {F G₁ : Type} (h : History F G₁) (l : Event F G₁)
    (htest : keepsKnownTest h l = true) : KeepsKnown h l := by
  cases l with
  | direct caller pubkey selfInfo now =>
    rintro info rfl _
    simp only [keepsKnownTest, Bool.and_eq_true, decide_eq_true_eq] at htest
    refine ⟨htest.1, ?_⟩
    intro old own hold _
    have hle := htest.2
    rw [hold, Option.all_some, decide_eq_true_eq] at hle
    exact .inl hle
  | relay target received now => cases htest
  | task id action =>
    cases action with
    | next =>
      intro t shard ht hpc
      simp [keepsKnownTest, ht, hpc] at htest
    | _ => trivial

/-- Node 2 moves on to epoch 6, and the recovery chooses epoch 7. -/
theorem new_epoch_fresh_recovery : ∃ h t,
    exec (History.step scalarBlsful) (.init config 1)
      (recoveryRun [(2, 5), (2, 6), (3, 6), (4, 4)] ++ [.task 0 .next]) = some h ∧
      h.proc.tasks 0 = some t ∧ t.pc = .session 1 7 ∧
      Meets (History.step scalarBlsful) (ChoosesFresh scalarBlsful) (.init config 1)
        (recoveryRun [(2, 5), (2, 6), (3, 6), (4, 4)] ++ [.task 0 .next]) := by
  refine ⟨_, _, rfl, rfl, rfl, ?_⟩
  apply new_epoch_fresh
  apply meets_of_check keepsKnownTest_sound
  rfl

/-- Node 2 comes back without its share: the recovery of node 1 chooses epoch 5, of which it had
    heard before. -/
theorem learned_epoch_chosen : ∃ h,
    exec (History.step scalarBlsful) (.init config 1)
      (recoveryRun [(2, 5), (2, 0), (3, 4), (4, 4)]) = some h ∧
      (∀ e ∈ h.gossiped, e < 2 ^ 64 - 1) ∧ 5 ∈ h.asked 0 ∧
      ¬ ChoosesFresh scalarBlsful h (.task 0 .next) := by
  obtain ⟨h, hrun, hgossiped, hasked, h', t, t', hstep, ht, ht', hchooses⟩ : ∃ h,
      exec (History.step scalarBlsful) (.init config 1)
        (recoveryRun [(2, 5), (2, 0), (3, 4), (4, 4)]) = some h ∧
        h.gossiped = [4, 4, 0, 5] ∧ h.asked 0 = [4, 4, 0, 5] ∧
        ∃ h' t t', h.step scalarBlsful (.task 0 .next) = some h' ∧ h.proc.tasks 0 = some t ∧
          h'.proc.tasks 0 = some t' ∧ Chooses t.pc t'.pc 5 :=
    ⟨_, rfl, rfl, rfl, _, _, _, rfl, rfl, rfl, .recovery⟩
  have hmem : 5 ∈ h.asked 0 := by
    rw [hasked]
    decide
  refine ⟨h, hrun, ?_, hmem, ?_⟩
  · rw [hgossiped]
    decide
  · intro hfresh
    exact absurd (hfresh h' hstep 0 t t' 5 ht ht' hchooses 5 hmem) (Nat.lt_irrefl 5)

end Restarted

end KmsCluster.Process
