import KmsCluster.Lib.Runs
import KmsCluster.Reshare

/-!
# One node process

The concurrent tasks of a node (`form_cluster` with its watchdog, the dealers spawned by
`StartReshare`, `trigger_refresh` and `collect_and_dprf`) as a transition system. Each lock of
`AppState` is taken on its own, so a step touches one of its fields; what the network, the chain
and the other nodes answer comes with the step's label. The outcome of a session is arbitrary.
A request task may be dropped at any await.

Task 0 is `form_cluster`. Peers answer `RequestShard` without a shard, since `pending_shards` is
never set, so `join_cluster` never returns `Joined`.

## Main results

- `steps_of_step`: what one step can do, with its guards.
- `TaskSteps.inv`: what a task can do keeps the invariant.
- `group_key_stable`: the group public key and the derived keys never change.
- `epochs_increase`: shares are replaced by newer ones while no session is overtaken.
-/

namespace KmsCluster.Process

open Fallible Runs

/-- What `unseal_b64` returns of a sealed share. -/
structure SealedRecord where
  shardIndex : ℕ
  epoch : ℕ
  masterId : Bytes
  share : Bytes

inductive JoinResult where
  | noSeedReachable
  | seedReachableDeclined

def genesisEpoch : ℕ := 1

/-- Where a task stands. Each constructor waits for one lock or one answer. -/
inductive Pc (F G₁ : Type) where
  -- form_cluster
  | boot
  | reload (rec : SealedRecord) (blob : String)
  | reloadKnown (rec : SealedRecord) (blob : String) (own : ℕ)
  | reloadSeal (rec : SealedRecord) (blob : String)
  | loop
  | assembled (m : Membership)
  | genesis (ownId : ℕ)
  -- fall_behind_watchdog
  | watch (behind : ℕ)
  | watchOwn (behind own : ℕ)
  | watchKnown (behind own own' : ℕ)
  | catchUp
  -- run_reshare_recovery
  | recover (m : Membership)
  | choose (m : Membership) (own : ℕ)
  -- trigger_refresh
  | refresh
  | refreshAssemble
  | refreshEpoch (m : Membership)
  | refreshKnown (m : Membership)
  | refreshChoose (m : Membership) (own : ℕ)
  -- run_reshare_dealer
  | dealer (req : ReshareRequest)
  | dealerCheck (req : ReshareRequest) (ownId : ℕ)
  | dealerShare (req : ReshareRequest) (ownId : ℕ)
  | dealerResolve (req : ReshareRequest) (ownId : ℕ)
  -- run_session, the group-key guard and store_share
  | session (ownId epoch : ℕ)
  | guardKey (ownId epoch : ℕ) (share : F) (pk : G₁)
  | seal (shard : ShardState) (pk : Bytes)
  | storeKey (shard : ShardState) (pk : Bytes)
  | storeShard (shard : ShardState)
  -- collect_and_dprf
  | derive (shard : Option ShardState) (signature : Except String Bytes) (appId : String)
      (material : Bytes)
  | done

/-- A task, with what the properties need to know of its past: the own epoch it last read, the
    epochs that other tasks stored since, and whether its target wrapped around. -/
structure Task (F G₁ : Type) where
  pc : Pc F G₁
  base : ℕ
  since : List ℕ
  wrapped : Bool

structure State (F G₁ : Type) where
  st : AppState
  tasks : ℕ → Option (Task F G₁)
  /-- App id, material and key of the derivations that succeeded. -/
  derived : List (String × Bytes × Bytes)
  /-- For each write of the share: the epoch it replaced, and the new one. -/
  writes : List (Option ℕ × ℕ)

inductive Action (F G₁ : Type) where
  /-- The sealed share found at boot. -/
  | boot (found : Option (SealedRecord × String))
  /-- The next lock is free. -/
  | next
  /-- `assemble_participants` gets the nodeList and reads the peer table. -/
  | assemble (nodeList : Except String (List Address)) (now : ℤ)
  /-- `join_cluster` returned; `settled` says whether the settle window has elapsed. -/
  | probe (result : JoinResult) (settled : Bool)
  | nodeList (nodeList : Except String (List Address))
  | sessionOk (share : F) (pk : G₁)
  | fail
  | drop
  | clock (now : ℤ)
  | sealed (blob : Option String)
  | startReshare (req : ReshareRequest)
  | refresh
  | derive (appId : String) (material : Bytes) (signature : Except String Bytes)
  | replies (replies : List PartialReply)
  /-- Gossip changes the peer table. -/
  | gossip (table : PeerTable)

section System

variable {F G₁ G₂ : Type}

def State.init (config : Config) (ethAddress : Address) : State F G₁ where
  st := AppState.new config ethAddress
  tasks id := if id = 0 then some ⟨.boot, 0, [], false⟩ else none
  derived := []
  writes := []

def State.setTask (s : State F G₁) (id : ℕ) (t : Task F G₁) : State F G₁ :=
  { s with tasks := Function.update s.tasks id (some t) }

def State.goto (s : State F G₁) (id : ℕ) (t : Task F G₁) (pc : Pc F G₁) : State F G₁ :=
  s.setTask id { t with pc := pc }

/-- Where a task goes when its session ended or failed. -/
def exit (id : ℕ) : Pc F G₁ := if id = 0 then .loop else .done

/-- The own share is read; what other tasks store from now on is remembered. -/
def Task.readEpoch (t : Task F G₁) (st : AppState) (pc : Pc F G₁) : Task F G₁ :=
  { t with pc := pc, base := shardEpoch st.shard, since := [], wrapped := false }

/-- The last write of `store_share`. -/
def State.storeShard (s : State F G₁) (id : ℕ) (t : Task F G₁) (shard : ShardState) :
    State F G₁ :=
  { s with
    st := { s.st with shard := some shard }
    tasks := fun j => if j = id then some { t with pc := exit id }
      else (s.tasks j).map fun u => { u with since := shard.epoch :: u.since }
    writes := (s.st.shard.map (·.epoch), shard.epoch) :: s.writes }

/-- Continue with a value, or leave the session on an error. -/
def State.orExit {α : Type} (s : State F G₁) (id : ℕ) (t : Task F G₁) (x : Except String α)
    (k : α → State F G₁) : State F G₁ :=
  match x with
  | .ok a => k a
  | .error _ => s.goto id t (exit id)

variable [NatCast F] (B : Blsful F G₁ G₂)

/-- One step of a task that is under way. -/
def taskStep (s : State F G₁) (id : ℕ) (t : Task F G₁) :
    Pc F G₁ → Action F G₁ → Option (State F G₁)
  | .boot, .boot (some (rec, blob)) => some (s.goto id t (.reload rec blob))
  | .boot, .boot none => some (s.goto id t .loop)
  | .reload rec blob, .next => some (s.goto id t (.reloadKnown rec blob (shardEpoch s.st.shard)))
  | .reloadKnown rec blob own, .next =>
    if rec.epoch < max own s.st.peerTable.maxEpoch then some (s.goto id t .loop)
    else some (s.setTask id (t.readEpoch s.st (.reloadSeal rec blob)))
  | .reloadSeal rec blob, .next =>
    some ({ s with st := { s.st with sealedShare := some blob } }.goto id t
      (.storeKey ⟨rec.shardIndex, rec.share, rec.epoch⟩ rec.masterId))
  | .loop, .next => some (s.goto id t (if s.st.shard.isSome then .watch 0 else .loop))
  | .loop, .assemble nodeList now =>
    if s.st.shard.isSome then none
    else some (s.orExit id t (assembleParticipants s.st nodeList now) fun m =>
      s.goto id t (m.elim .loop .assembled))
  | .assembled m, .probe .noSeedReachable _ =>
    some (s.goto id t (if m.allDiscovered then .genesis m.ownId else .loop))
  | .assembled m, .probe .seedReachableDeclined settled =>
    some (s.goto id t (if m.allDiscovered || settled then .recover m else .loop))
  | .genesis ownId, .sessionOk share pk =>
    some (s.setTask id (t.readEpoch s.st
      (.seal (sessionShard B ownId genesisEpoch share) (B.pubkeyToBytes pk))))
  | .watch behind, .next =>
    some (s.goto id t (if s.st.shard.isSome then .watchOwn behind (shardEpoch s.st.shard)
      else .watch behind))
  | .watchOwn behind own, .next =>
    some (s.goto id t (.watchKnown behind own (shardEpoch s.st.shard)))
  | .watchKnown behind own own', .next =>
    some (s.goto id t (if max own' s.st.peerTable.maxEpoch ≤ own then .watch 0
      else if behind + 1 < 2 then .watch (behind + 1) else .catchUp))
  | .catchUp, .assemble nodeList now =>
    some (s.orExit id t (assembleParticipants s.st nodeList now) fun m =>
      s.goto id t (m.elim (.watch 0) .recover))
  | .recover m, .next =>
    some (s.orExit id t (recoveryDealers m) fun _ =>
      s.setTask id (t.readEpoch s.st (.choose m (shardEpoch s.st.shard))))
  | .choose m own, .next =>
    let known := max own s.st.peerTable.maxEpoch
    some (s.setTask id { t with
      pc := .session m.ownId (nextEpoch known), wrapped := decide (nextEpoch known ≠ known + 1) })
  | .refresh, .next =>
    some (s.goto id t (if s.st.shard.isSome then .refreshAssemble else .done))
  | .refreshAssemble, .assemble nodeList now =>
    some (s.orExit id t (assembleParticipants s.st nodeList now) fun m =>
      s.goto id t (m.elim .done fun m => if m.allDiscovered then .refreshEpoch m else .done))
  | .refreshEpoch m, .next =>
    some (s.goto id t (if m.peers.all fun p => p.epoch = shardEpoch s.st.shard
      then .refreshKnown m else .done))
  | .refreshKnown m, .next => some (s.goto id t (.refreshChoose m (shardEpoch s.st.shard)))
  | .refreshChoose m own, .clock nonce =>
    let newEpoch := nextEpoch (max own s.st.peerTable.maxEpoch)
    some (s.goto id t (.dealer
      { sessionId := "refresh:" ++ s.st.config.appId ++ ":" ++ toString newEpoch ++ ":" ++
          toString nonce
        recoveringId := 0
        dealerIds := (m.peers.map (·.id) ++ [m.ownId]).insertionSort (· ≤ ·)
        epoch := newEpoch }))
  | .dealer req, .nodeList nodeList =>
    some (s.orExit id t (dealerPosition s.st nodeList req.dealerIds) fun p =>
      s.goto id t (.dealerCheck req p.1))
  | .dealerCheck req ownId, .next =>
    some (s.orExit id t (dealerEpochCheck s.st.shard req.epoch) fun _ =>
      s.setTask id (t.readEpoch s.st (.dealerShare req ownId)))
  | .dealerShare req ownId, .next =>
    some (s.orExit id t (dealerSecret B s.st.shard) fun _ =>
      s.goto id t (.dealerResolve req ownId))
  | .dealerResolve req ownId, .nodeList nodeList =>
    some (s.orExit id t
      (nodeList.bind fun l => resolvePeers s.st.peerTable l req.participantIds ownId) fun _ =>
        s.goto id t (.session ownId req.epoch))
  | .session ownId epoch, .sessionOk share pk => some (s.goto id t (.guardKey ownId epoch share pk))
  | .guardKey ownId epoch share pk, .next =>
    if keepsGroupKey s.st.groupPubkey (B.pubkeyToBytes pk) then
      some (s.goto id t (.seal (sessionShard B ownId epoch share) (B.pubkeyToBytes pk)))
    else some (s.goto id t (exit id))
  | .seal shard pk, .sealed blob =>
    some ({ s with st := { s.st with sealedShare := blob.or s.st.sealedShare } }.goto id t
      (.storeKey shard pk))
  | .storeKey shard pk, .next =>
    some ({ s with st := { s.st with groupPubkey := some pk } }.goto id t (.storeShard shard))
  | .storeShard shard, .next => some (s.storeShard id t shard)
  | .derive shard signature appId material, .replies replies =>
    match collectAndDprf B s.st.config.threshold shard signature replies s.st.groupPubkey appId
      material with
    | .ok (key, _) =>
      some ({ s with derived := (appId, material, key) :: s.derived }.goto id t .done)
    | .error _ => some (s.goto id t .done)
  | .genesis _, .fail => some (s.goto id t (exit id))
  | .assembled _, .fail => some (s.goto id t (exit id))
  | .session _ _, .fail => some (s.goto id t (exit id))
  | _, .drop => if id = 0 then none else some (s.goto id t .done)
  | _, _ => none

def step (s : State F G₁) (l : ℕ × Action F G₁) : Option (State F G₁) :=
  match l.2, s.tasks l.1 with
  | .gossip table, _ => some { s with st := { s.st with peerTable := table } }
  | .startReshare req, none =>
    if s.st.shard.isSome then some (s.setTask l.1 ⟨.dealer req, 0, [], false⟩) else none
  | .refresh, none => some (s.setTask l.1 ⟨.refresh, 0, [], false⟩)
  | .derive appId material signature, none =>
    some (s.setTask l.1 ⟨.derive s.st.shard signature appId material, 0, [], false⟩)
  | action, some t => taskStep B s l.1 t t.pc action
  | _, none => none

variable {B} {s s' : State F G₁} {id : ℕ} {t : Task F G₁} {action : Action F G₁}

omit [NatCast F] in
@[simp] theorem setTask_tasks_self (s : State F G₁) (id : ℕ) (t : Task F G₁) :
    (s.setTask id t).tasks id = some t :=
  Function.update_self ..

omit [NatCast F] in
@[simp] theorem goto_tasks_self (s : State F G₁) (id : ℕ) (t : Task F G₁) (pc : Pc F G₁) :
    (s.goto id t pc).tasks id = some { t with pc := pc } :=
  Function.update_self ..

theorem step_eq_taskStep (ht : s.tasks id = some t) (hne : ∀ table, action ≠ .gossip table) :
    step B s (id, action) = taskStep B s id t t.pc action := by
  cases action with
  | gossip table => exact absurd rfl (hne table)
  | _ => simp only [step, ht]

/-- A run that begins with a step of a task. -/
theorem exec_taskStep {labels : List (ℕ × Action F G₁)} (ht : s.tasks id = some t)
    (hne : ∀ table, action ≠ .gossip table)
    (hstep : taskStep B s id t t.pc action = some s') :
    exec (step B) s ((id, action) :: labels) = exec (step B) s' labels := by
  rw [exec, step_eq_taskStep ht hne, hstep, Option.bind_some]

end System

section Invariant

variable {F G₁ G₂ : Type} {B : Blsful F G₁ G₂}

/-- Before the first share: only `form_cluster` is here, and only without a group key. -/
def Pc.founding : Pc F G₁ → Bool
  | .boot | .reload _ _ | .reloadKnown _ _ _ | .assembled _ | .genesis _ => true
  | _ => false

/-- The group key a task is about to store. -/
def Pc.pendingKey : Pc F G₁ → Option Bytes
  | .reloadSeal rec _ => some rec.masterId
  | .seal _ pk | .storeKey _ pk => some pk
  | _ => none

/-- The epoch of the share a task is about to store. -/
def Pc.target : Pc F G₁ → Option ℕ
  | .dealerShare req _ | .dealerResolve req _ => some req.epoch
  | .session _ epoch | .guardKey _ epoch _ _ => some epoch
  | .reloadSeal rec _ => some rec.epoch
  | .seal shard _ | .storeKey shard _ | .storeShard shard => some shard.epoch
  | _ => none

/-- The task has read the own epoch and goes by it. -/
def Pc.ownRead : Pc F G₁ → Bool
  | .choose _ _ => true
  | pc => pc.target.isSome

/-- A task other than `form_cluster` is here only once the node holds a share. -/
def Pc.acting : Pc F G₁ → Bool
  | .refresh | .derive _ _ _ _ | .done => false
  | _ => true

/-- At this place a task has no key to store and no epoch to go by. -/
def Pc.idle : Pc F G₁ → Bool
  | .refreshChoose _ _ => false
  | pc => !pc.founding && !pc.ownRead

theorem Pc.idle_exit (id : ℕ) : (exit id : Pc F G₁).idle = true := by
  unfold exit
  split
  · rfl
  · rfl

theorem Pc.acting_exit {id : ℕ} (hid : id ≠ 0) : (exit id : Pc F G₁).acting = false := by
  rw [exit, if_neg hid]
  rfl

section Steps

variable [NatCast F]

/-- What a task can do, with the guards that the properties need. -/
inductive TaskSteps (B : Blsful F G₁ G₂) (s : State F G₁) (id : ℕ) (t : Task F G₁) :
    Pc F G₁ → Action F G₁ → State F G₁ → Prop
  /-- The task goes on, starts over or ends, with nothing in hand. -/
  | idle {pc pc' : Pc F G₁} {action : Action F G₁}
      (hstore : id = 0 → ∀ sh, pc ≠ .storeShard sh) (hidle : pc'.idle = true)
      (hact : id ≠ 0 → pc'.acting = true → pc.acting = true ∨ s.st.shard ≠ none) :
      TaskSteps B s id t pc action (s.goto id t pc')
  | founding {pc pc' : Pc F G₁} {action : Action F G₁} (hf : pc.founding = true)
      (hf' : pc'.founding = true) : TaskSteps B s id t pc action (s.goto id t pc')
  | assembled {m : Membership} {nodeList : Except String (List Address)} {now : ℤ}
      (hshard : s.st.shard = none) :
      TaskSteps B s id t .loop (.assemble nodeList now) (s.goto id t (.assembled m))
  /-- The first share is there, from the genesis session or from the sealed blob. -/
  | found {pc pc' : Pc F G₁} {pk : Bytes} {action : Action F G₁} (hf : pc.founding = true)
      (hpending : pc'.pendingKey = some pk) :
      TaskSteps B s id t pc action (s.setTask id (t.readEpoch s.st pc'))
  | recover {m : Membership} :
      TaskSteps B s id t (.recover m) .next
        (s.setTask id (t.readEpoch s.st (.choose m (shardEpoch s.st.shard))))
  | choose {m : Membership} {own : ℕ} :
      TaskSteps B s id t (.choose m own) .next (s.setTask id { t with
        pc := .session m.ownId (nextEpoch (max own s.st.peerTable.maxEpoch))
        wrapped := decide (nextEpoch (max own s.st.peerTable.maxEpoch) ≠
          max own s.st.peerTable.maxEpoch + 1) })
  | refreshKnown {m : Membership} :
      TaskSteps B s id t (.refreshKnown m) .next
        (s.goto id t (.refreshChoose m (shardEpoch s.st.shard)))
  | dealerCheck {req : ReshareRequest} {ownId : ℕ} (hepoch : shardEpoch s.st.shard < req.epoch) :
      TaskSteps B s id t (.dealerCheck req ownId) .next
        (s.setTask id (t.readEpoch s.st (.dealerShare req ownId)))
  /-- The session goes on towards its epoch. -/
  | carry {pc pc' : Pc F G₁} {epoch : ℕ} {action : Action F G₁}
      (hstore : ∀ sh, pc ≠ .storeShard sh) (htarget : pc.target = some epoch)
      (htarget' : pc'.target = some epoch) (hpending : pc'.pendingKey = none)
      (hstored : ∀ sh, pc' ≠ .storeShard sh) :
      TaskSteps B s id t pc action (s.goto id t pc')
  | guardKey {ownId epoch : ℕ} {share : F} {pk : G₁}
      (hkeeps : keepsGroupKey s.st.groupPubkey (B.pubkeyToBytes pk) = true) :
      TaskSteps B s id t (.guardKey ownId epoch share pk) .next
        (s.goto id t (.seal (sessionShard B ownId epoch share) (B.pubkeyToBytes pk)))
  | sealed {pc : Pc F G₁} {shard : ShardState} {pk : Bytes} {blob : Option String}
      {action : Action F G₁} (htarget : pc.target = some shard.epoch)
      (hpending : pc.pendingKey = some pk) :
      TaskSteps B s id t pc action ({ s with st := { s.st with sealedShare := blob } }.goto id t
        (.storeKey shard pk))
  | storeKey {shard : ShardState} {pk : Bytes} :
      TaskSteps B s id t (.storeKey shard pk) .next
        ({ s with st := { s.st with groupPubkey := some pk } }.goto id t (.storeShard shard))
  | storeShard {shard : ShardState} :
      TaskSteps B s id t (.storeShard shard) .next (s.storeShard id t shard)
  | derived {shard : Option ShardState} {signature : Except String Bytes} {appId : String}
      {material key : Bytes} {replies : List PartialReply} {trace : DeriveTrace}
      (hkey : collectAndDprf B s.st.config.threshold shard signature replies s.st.groupPubkey
        appId material = .ok (key, trace)) :
      TaskSteps B s id t (.derive shard signature appId material) (.replies replies)
        ({ s with derived := (appId, material, key) :: s.derived }.goto id t .done)

/-- What the process can do. -/
inductive Steps (B : Blsful F G₁ G₂) (s : State F G₁) : ℕ × Action F G₁ → State F G₁ → Prop
  | gossip {id : ℕ} {table : PeerTable} :
      Steps B s (id, .gossip table) { s with st := { s.st with peerTable := table } }
  | spawn {l : ℕ × Action F G₁} {pc : Pc F G₁} (hnone : s.tasks l.1 = none)
      (hidle : pc.idle = true) (hact : pc.acting = true → s.st.shard ≠ none) :
      Steps B s l (s.setTask l.1 ⟨pc, 0, [], false⟩)
  | task {l : ℕ × Action F G₁} {t : Task F G₁} {s' : State F G₁} (ht : s.tasks l.1 = some t)
      (hsteps : TaskSteps B s l.1 t t.pc l.2 s') : Steps B s l s'

variable {s s' : State F G₁} {id : ℕ} {t : Task F G₁} {pc pc' : Pc F G₁} {action : Action F G₁}

/-- A task that is at work goes on, still before any share or key is in its hand. -/
theorem TaskSteps.goes (hstore : ∀ sh, pc ≠ .storeShard sh) (hact : pc.acting = true)
    (hidle : pc'.idle = true) : TaskSteps B s id t pc action (s.goto id t pc') :=
  .idle (fun _ => hstore) hidle fun _ _ => .inl hact

theorem TaskSteps.ends (hstore : ∀ sh, pc ≠ .storeShard sh) :
    TaskSteps B s id t pc action (s.goto id t .done) :=
  .idle (fun _ => hstore) rfl nofun

theorem TaskSteps.exits (hstore : ∀ sh, pc ≠ .storeShard sh) :
    TaskSteps B s id t pc action (s.goto id t (exit id)) := by
  refine .idle (fun _ => hstore) (Pc.idle_exit id) fun hid hact => ?_
  rw [Pc.acting_exit hid] at hact
  cases hact

theorem TaskSteps.orExit {α : Type} {x : Except String α} {k : α → State F G₁}
    (hstore : ∀ sh, pc ≠ .storeShard sh)
    (hk : ∀ a, x = .ok a → TaskSteps B s id t pc action (k a)) :
    TaskSteps B s id t pc action (s.orExit id t x k) := by
  cases x with
  | ok a => exact hk a rfl
  | error e => exact .exits hstore

-- A task's branches that look at the shared state or at an outcome.

theorem steps_reloadKnown {rec : SealedRecord} {blob : String} {own : ℕ}
    (hstep : taskStep B s id t (.reloadKnown rec blob own) .next = some s') :
    TaskSteps B s id t (.reloadKnown rec blob own) .next s' := by
  dsimp only [taskStep] at hstep
  split at hstep
  · cases hstep
    exact .goes nofun rfl rfl
  · cases hstep
    exact .found rfl rfl

theorem steps_loop (hstep : taskStep B s id t .loop .next = some s') :
    TaskSteps B s id t .loop .next s' := by
  cases hstep
  split
  · exact .goes nofun rfl rfl
  · exact .goes nofun rfl rfl

theorem steps_assemble {nodeList : Except String (List Address)} {now : ℤ}
    (hstep : taskStep B s id t .loop (.assemble nodeList now) = some s') :
    TaskSteps B s id t .loop (.assemble nodeList now) s' := by
  dsimp only [taskStep] at hstep
  split at hstep
  · cases hstep
  · next hnone =>
    cases hstep
    refine .orExit nofun fun m _ => ?_
    cases m with
    | none => exact .goes nofun rfl rfl
    | some m => exact .assembled (Option.not_isSome_iff_eq_none.mp hnone)

theorem steps_noSeedReachable {m : Membership} {settled : Bool}
    (hstep : taskStep B s id t (.assembled m) (.probe .noSeedReachable settled) = some s') :
    TaskSteps B s id t (.assembled m) (.probe .noSeedReachable settled) s' := by
  cases hstep
  split
  · exact .founding rfl rfl
  · exact .goes nofun rfl rfl

theorem steps_seedReachable {m : Membership} {settled : Bool}
    (hstep : taskStep B s id t (.assembled m) (.probe .seedReachableDeclined settled) = some s') :
    TaskSteps B s id t (.assembled m) (.probe .seedReachableDeclined settled) s' := by
  cases hstep
  split
  · exact .goes nofun rfl rfl
  · exact .goes nofun rfl rfl

theorem steps_watch {behind : ℕ} (hstep : taskStep B s id t (.watch behind) .next = some s') :
    TaskSteps B s id t (.watch behind) .next s' := by
  cases hstep
  split
  · exact .goes nofun rfl rfl
  · exact .goes nofun rfl rfl

theorem steps_watchKnown {behind own own' : ℕ}
    (hstep : taskStep B s id t (.watchKnown behind own own') .next = some s') :
    TaskSteps B s id t (.watchKnown behind own own') .next s' := by
  cases hstep
  split
  · exact .goes nofun rfl rfl
  · split
    · exact .goes nofun rfl rfl
    · exact .goes nofun rfl rfl

theorem steps_catchUp {nodeList : Except String (List Address)} {now : ℤ}
    (hstep : taskStep B s id t .catchUp (.assemble nodeList now) = some s') :
    TaskSteps B s id t .catchUp (.assemble nodeList now) s' := by
  cases hstep
  refine .orExit nofun fun m _ => ?_
  cases m with
  | none => exact .goes nofun rfl rfl
  | some m => exact .goes nofun rfl rfl

theorem steps_refresh (hstep : taskStep B s id t .refresh .next = some s') :
    TaskSteps B s id t .refresh .next s' := by
  cases hstep
  split
  · next hsome =>
    exact .idle (fun _ => nofun) rfl fun _ _ => .inr (Option.isSome_iff_ne_none.mp hsome)
  · exact .ends nofun

theorem steps_refreshAssemble {nodeList : Except String (List Address)} {now : ℤ}
    (hstep : taskStep B s id t .refreshAssemble (.assemble nodeList now) = some s') :
    TaskSteps B s id t .refreshAssemble (.assemble nodeList now) s' := by
  cases hstep
  refine .orExit nofun fun m _ => ?_
  cases m with
  | none => exact .ends nofun
  | some m =>
    dsimp only [Option.elim]
    split
    · exact .goes nofun rfl rfl
    · exact .ends nofun

theorem steps_refreshEpoch {m : Membership}
    (hstep : taskStep B s id t (.refreshEpoch m) .next = some s') :
    TaskSteps B s id t (.refreshEpoch m) .next s' := by
  cases hstep
  split
  · exact .goes nofun rfl rfl
  · exact .ends nofun

theorem steps_guardKey {ownId epoch : ℕ} {share : F} {pk : G₁}
    (hstep : taskStep B s id t (.guardKey ownId epoch share pk) .next = some s') :
    TaskSteps B s id t (.guardKey ownId epoch share pk) .next s' := by
  dsimp only [taskStep] at hstep
  split at hstep
  · next hkeeps =>
    cases hstep
    exact .guardKey hkeeps
  · cases hstep
    exact .exits nofun

theorem steps_derive {shard : Option ShardState} {signature : Except String Bytes}
    {appId : String} {material : Bytes} {replies : List PartialReply}
    (hstep : taskStep B s id t (.derive shard signature appId material) (.replies replies) =
      some s') :
    TaskSteps B s id t (.derive shard signature appId material) (.replies replies) s' := by
  dsimp only [taskStep] at hstep
  split at hstep
  · next hkey =>
    cases hstep
    exact .derived hkey
  · cases hstep
    exact .ends nofun

theorem steps_of_taskStep (hstep : taskStep B s id t pc action = some s') :
    TaskSteps B s id t pc action s' := by
  unfold taskStep at hstep
  split at hstep
  -- form_cluster
  · cases hstep
    exact .founding rfl rfl
  · cases hstep
    exact .goes nofun rfl rfl
  · cases hstep
    exact .founding rfl rfl
  · exact steps_reloadKnown hstep
  · cases hstep
    exact .sealed rfl rfl
  · exact steps_loop hstep
  · exact steps_assemble hstep
  · exact steps_noSeedReachable hstep
  · exact steps_seedReachable hstep
  · cases hstep
    exact .found rfl rfl
  -- fall_behind_watchdog
  · exact steps_watch hstep
  · cases hstep
    exact .goes nofun rfl rfl
  · exact steps_watchKnown hstep
  · exact steps_catchUp hstep
  -- run_reshare_recovery
  · cases hstep
    exact .orExit nofun fun _ _ => .recover
  · cases hstep
    exact .choose
  -- trigger_refresh
  · exact steps_refresh hstep
  · exact steps_refreshAssemble hstep
  · exact steps_refreshEpoch hstep
  · cases hstep
    exact .refreshKnown
  · cases hstep
    exact .goes nofun rfl rfl
  -- run_reshare_dealer
  · cases hstep
    exact .orExit nofun fun _ _ => .goes nofun rfl rfl
  · cases hstep
    exact .orExit nofun fun _ hcheck => .dealerCheck (ensure_eq_ok.mp hcheck)
  · cases hstep
    exact .orExit nofun fun _ _ => .carry nofun rfl rfl rfl nofun
  · cases hstep
    exact .orExit nofun fun _ _ => .carry nofun rfl rfl rfl nofun
  -- run_session, the group-key guard and store_share
  · cases hstep
    exact .carry nofun rfl rfl rfl nofun
  · exact steps_guardKey hstep
  · cases hstep
    exact .sealed rfl rfl
  · cases hstep
    exact .storeKey
  · cases hstep
    exact .storeShard
  -- collect_and_dprf
  · exact steps_derive hstep
  -- A task that fails or is dropped.
  · cases hstep
    exact .exits nofun
  · cases hstep
    exact .exits nofun
  · cases hstep
    exact .exits nofun
  · split at hstep
    · cases hstep
    · next hid =>
      cases hstep
      exact .idle (fun hzero => absurd hzero hid) rfl nofun
  · cases hstep

theorem steps_of_step {l : ℕ × Action F G₁} (hstep : step B s l = some s') : Steps B s l s' := by
  obtain ⟨id, action⟩ := l
  unfold step at hstep
  split at hstep
  · next haction =>
    cases haction
    cases hstep
    exact .gossip
  · next hnone =>
    split at hstep
    · next hsome =>
      cases hstep
      exact .spawn hnone rfl fun _ => Option.isSome_iff_ne_none.mp hsome
    · cases hstep
  · next hnone =>
    cases hstep
    exact .spawn hnone rfl nofun
  · next hnone =>
    cases hstep
    exact .spawn hnone rfl nofun
  · next t ht _ => exact .task ht (steps_of_taskStep hstep)
  · cases hstep

end Steps

structure TaskOk (shard : Option ShardState) (key : Option Bytes) (id : ℕ) (t : Task F G₁) :
    Prop where
  founding : t.pc.founding = true → id = 0 ∧ key = none
  pending : ∀ pk, t.pc.pendingKey = some pk → key = some pk ∨ (key = none ∧ id = 0)
  acting : id ≠ 0 → t.pc.acting = true → shard ≠ none
  stored : ∀ sh, t.pc = .storeShard sh → key ≠ none
  read : t.pc.ownRead = true → shardEpoch shard = t.since.head?.getD t.base
  chosen : ∀ m own, t.pc = .choose m own → t.base = own
  target : ∀ e, t.pc.target = some e → t.base < e ∨ t.wrapped = true ∨ shard = none

structure Inv (B : Blsful F G₁ G₂) (s : State F G₁) : Prop where
  tasks : ∀ id t, s.tasks id = some t → TaskOk s.st.shard s.st.groupPubkey id t
  shard_key : s.st.shard ≠ none → s.st.groupPubkey ≠ none
  forming : s.st.shard = none → s.st.groupPubkey = none ∨
    ∃ t sh, s.tasks 0 = some t ∧ t.pc = .storeShard sh
  derived : ∀ d ∈ s.derived, ∃ sigma pk, s.st.groupPubkey = some pk ∧
    dprfVerify B sigma pk (dprfMessage d.1 d.2.1) = .ok () ∧ d.2.2 = sigmaToAppKey B sigma

theorem Pc.ownRead_of_target {pc : Pc F G₁} {e : ℕ} (h : pc.target = some e) :
    pc.ownRead = true := by
  cases pc <;> first | rfl | cases h

/-- A place at which a task has no key to store and no epoch to go by. -/
theorem TaskOk.blank {shard : Option ShardState} {key : Option Bytes} {id : ℕ} {t : Task F G₁}
    (hfounding : t.pc.founding = true → id = 0 ∧ key = none) (hpending : t.pc.pendingKey = none)
    (hread : t.pc.ownRead = false) (hacting : id ≠ 0 → t.pc.acting = true → shard ≠ none) :
    TaskOk shard key id t := by
  refine ⟨hfounding, ?_, hacting, ?_, ?_, ?_, ?_⟩
  · intro pk h
    rw [hpending] at h
    cases h
  · intro sh h
    rw [h] at hread
    cases hread
  · intro h
    rw [hread] at h
    cases h
  · intro m own h
    rw [h] at hread
    cases hread
  · intro e h
    rw [Pc.ownRead_of_target h] at hread
    cases hread

theorem Pc.blank_of_idle {pc : Pc F G₁} (h : pc.idle = true) :
    pc.founding = false ∧ pc.pendingKey = none ∧ pc.ownRead = false := by
  cases pc <;> first | exact ⟨rfl, rfl, rfl⟩ | cases h

theorem Pc.blank_of_founding {pc : Pc F G₁} (h : pc.founding = true) :
    pc.pendingKey = none ∧ pc.ownRead = false := by
  cases pc <;> first | exact ⟨rfl, rfl⟩ | cases h

theorem Pc.founding_of_target {pc : Pc F G₁} {e : ℕ} (h : pc.target = some e) :
    pc.founding = false := by
  cases pc <;> first | rfl | cases h

theorem Pc.acting_of_target {pc : Pc F G₁} {e : ℕ} (h : pc.target = some e) :
    pc.acting = true := by
  cases pc <;> first | rfl | cases h

theorem Pc.target_of_pendingKey {pc : Pc F G₁} {pk : Bytes} (h : pc.pendingKey = some pk) :
    ∃ e, pc.target = some e := by
  cases pc <;> first | exact ⟨_, rfl⟩ | cases h

theorem Pc.ne_choose_of_target {pc : Pc F G₁} {e : ℕ} (h : pc.target = some e) (m : Membership)
    (own : ℕ) : pc ≠ .choose m own := by
  rintro rfl
  cases h

theorem Pc.ne_storeShard_of_founding {pc : Pc F G₁} (h : pc.founding = true) (sh : ShardState) :
    pc ≠ .storeShard sh := by
  rintro rfl
  cases h

theorem Pc.ne_storeShard_of_pendingKey {pc : Pc F G₁} {pk : Bytes} (h : pc.pendingKey = some pk)
    (sh : ShardState) : pc ≠ .storeShard sh := by
  rintro rfl
  cases h

theorem TaskOk.idle {shard : Option ShardState} {key : Option Bytes} {id : ℕ} {t : Task F G₁}
    (hidle : t.pc.idle = true) (hacting : id ≠ 0 → t.pc.acting = true → shard ≠ none) :
    TaskOk shard key id t := by
  obtain ⟨hfounding, hpending, hread⟩ := Pc.blank_of_idle hidle
  refine .blank (fun hf => ?_) hpending hread hacting
  rw [hfounding] at hf
  cases hf

/-- `form_cluster` before the first share. -/
theorem TaskOk.forming {shard : Option ShardState} {key : Option Bytes} {id : ℕ} {t : Task F G₁}
    (hf : t.pc.founding = true) (hid : id = 0 ∧ key = none) : TaskOk shard key id t := by
  obtain ⟨hpending, hread⟩ := Pc.blank_of_founding hf
  exact .blank (fun _ => hid) hpending hread fun hne => absurd hid.1 hne

/-- A session, or the reload of a share, on its way to a target. -/
theorem TaskOk.session {shard : Option ShardState} {key : Option Bytes} {id : ℕ} {t : Task F G₁}
    {epoch : ℕ} (htarget : t.pc.target = some epoch) (hstored : ∀ sh, t.pc ≠ .storeShard sh)
    (hpending : ∀ pk, t.pc.pendingKey = some pk → key = some pk ∨ (key = none ∧ id = 0))
    (hacting : id ≠ 0 → shard ≠ none) (hread : shardEpoch shard = t.since.head?.getD t.base)
    (hepoch : t.base < epoch ∨ t.wrapped = true ∨ shard = none) : TaskOk shard key id t := by
  refine ⟨?_, hpending, fun hne _ => hacting hne, fun sh heq => absurd heq (hstored sh),
    fun _ => hread, fun m own heq => absurd heq (Pc.ne_choose_of_target htarget m own), ?_⟩
  · intro hf
    rw [Pc.founding_of_target htarget] at hf
    cases hf
  · intro e he
    cases htarget.symm.trans he
    exact hepoch

theorem taskOk_exit {shard : Option ShardState} {key : Option Bytes} (id : ℕ) (t : Task F G₁) :
    TaskOk shard key id ({ t with pc := exit id } : Task F G₁) := by
  refine .idle (Pc.idle_exit id) fun hid hact => ?_
  dsimp only at hact
  rw [Pc.acting_exit hid] at hact
  cases hact

/-- A task moves on and the shared share and group key stay. -/
theorem Inv.move {s s' : State F G₁} (h : Inv B s) {id : ℕ} {t : Task F G₁}
    (hfree : id = 0 → ∀ u, s.tasks id = some u → ∀ sh, u.pc ≠ .storeShard sh)
    (htasks : s'.tasks = Function.update s.tasks id (some t)) (hshard : s'.st.shard = s.st.shard)
    (hkey : s'.st.groupPubkey = s.st.groupPubkey) (hderived : s'.derived = s.derived)
    (ht : TaskOk s.st.shard s.st.groupPubkey id t) : Inv B s' := by
  refine ⟨?_, ?_, ?_, ?_⟩
  · intro j u hu
    rw [hshard, hkey]
    rw [htasks] at hu
    by_cases hj : j = id
    · subst hj
      rw [Function.update_self] at hu
      cases hu
      exact ht
    · rw [Function.update_of_ne hj] at hu
      exact h.tasks j u hu
  · rw [hshard, hkey]
    exact h.shard_key
  · rw [hshard, hkey]
    intro hnone
    rcases h.forming hnone with hk | ⟨u, sh, hu, hpc⟩
    · exact .inl hk
    · have hid : 0 ≠ id := by
        rintro rfl
        exact hfree rfl u hu sh hpc
      exact .inr ⟨u, sh, by rw [htasks, Function.update_of_ne hid]; exact hu, hpc⟩
  · rw [hderived, hkey]
    exact h.derived

theorem inv_init (config : Config) (ethAddress : Address) :
    Inv B (State.init config ethAddress) := by
  refine ⟨?_, by simp [State.init, AppState.new], fun _ => .inl rfl, by simp [State.init]⟩
  intro id t ht
  simp only [State.init] at ht
  split at ht
  · next hid =>
    cases ht
    exact .forming rfl ⟨hid, rfl⟩
  · cases ht

/-- The group key is written: by `form_cluster` on an empty slot, by anyone else unchanged. -/
theorem inv_storeKey {s : State F G₁} (h : Inv B s) {id : ℕ} {t : Task F G₁}
    (ht : s.tasks id = some t) {shard : ShardState} {pk : Bytes} (hpc : t.pc = .storeKey shard pk) :
    Inv B
      ({ s with st := { s.st with groupPubkey := some pk } }.goto id t (.storeShard shard)) := by
  have hok := h.tasks id t ht
  have hpending : s.st.groupPubkey = some pk ∨ (s.st.groupPubkey = none ∧ id = 0) :=
    hok.pending pk (by rw [hpc]; rfl)
  refine ⟨?_, fun _ => by simp [State.goto, State.setTask], ?_, ?_⟩
  · intro j u hu
    by_cases hj : j = id
    · subst hj
      simp only [State.goto, State.setTask, Function.update_self, Option.some.injEq] at hu
      subst hu
      refine ⟨nofun, nofun, fun hne _ => hok.acting hne (by rw [hpc]; rfl), fun _ _ => nofun, ?_,
        nofun, ?_⟩
      · intro _
        exact hok.read (by rw [hpc]; rfl)
      · intro e he
        exact hok.target e (by rw [hpc]; exact he)
    · simp only [State.goto, State.setTask, Function.update_of_ne hj] at hu
      have hu' := h.tasks j u hu
      refine ⟨?_, ?_, hu'.acting, fun _ _ => nofun, hu'.read, hu'.chosen, hu'.target⟩
      · -- A founding task is `form_cluster` itself, so `id` found the key in place.
        intro hf
        obtain ⟨rfl, hnone⟩ := hu'.founding hf
        rcases hpending with hk | ⟨-, rfl⟩
        · rw [hnone] at hk
          cases hk
        · exact absurd rfl hj
      · intro pk' hpk'
        rcases hu'.pending pk' hpk' with hk | ⟨hnone, rfl⟩
        · rcases hpending with hk' | ⟨hnone, -⟩
          · exact .inl (hk'.symm.trans hk)
          · rw [hnone] at hk
            cases hk
        · rcases hpending with hk | ⟨-, rfl⟩
          · rw [hnone] at hk
            cases hk
          · exact absurd rfl hj
  · intro hnone
    right
    by_cases hid : id = 0
    · subst hid
      exact ⟨{ t with pc := .storeShard shard }, shard, by simp [State.goto, State.setTask], rfl⟩
    · exact absurd hnone (hok.acting hid (by rw [hpc]; rfl))
  · intro d hd
    obtain ⟨sigma, pk', hk, hverify⟩ := h.derived d hd
    rcases hpending with hk' | ⟨hnone, -⟩
    · obtain rfl : pk' = pk := Option.some.inj (hk.symm.trans hk')
      exact ⟨sigma, pk', rfl, hverify⟩
    · rw [hnone] at hk
      cases hk

/-- The share is written: everyone else remembers its epoch. -/
theorem inv_storeShard {s : State F G₁} (h : Inv B s) {id : ℕ}
    {t : Task F G₁} (ht : s.tasks id = some t) {shard : ShardState}
    (hpc : t.pc = .storeShard shard) : Inv B (s.storeShard id t shard) := by
  have hok := h.tasks id t ht
  refine ⟨?_, fun _ => hok.stored shard hpc, nofun, h.derived⟩
  intro j u hu
  simp only [State.storeShard] at hu
  split at hu
  · next hj =>
    cases hu
    exact hj ▸ taskOk_exit j t
  · next hj =>
    obtain ⟨v, hv, rfl⟩ := Option.map_eq_some_iff.mp hu
    have hv' := h.tasks j v hv
    refine ⟨hv'.founding, hv'.pending, fun _ _ => nofun, hv'.stored, fun _ => rfl, hv'.chosen, ?_⟩
    intro e he
    -- Before the first share only `form_cluster` has a target, and it is the one storing.
    rcases hv'.target e he with hlt | hwrapped | hnone
    · exact .inl hlt
    · exact .inr (.inl hwrapped)
    · have hzero : j = 0 := by
        by_contra hne
        exact hv'.acting hne (Pc.acting_of_target he) hnone
      have hid : id ≠ 0 := fun heq => hj (hzero.trans heq.symm)
      exact absurd hnone (hok.acting hid (by rw [hpc]; rfl))

/-- A move within the session of a task, with its epochs in hand. -/
theorem TaskOk.carry {shard : Option ShardState} {key : Option Bytes} {id : ℕ} {t : Task F G₁}
    (h : TaskOk shard key id t) {epoch : ℕ} (htarget : t.pc.target = some epoch) {pc : Pc F G₁}
    (htarget' : pc.target = some epoch) (hstored : ∀ sh, pc ≠ .storeShard sh)
    (hpending : ∀ pk, pc.pendingKey = some pk → key = some pk ∨ (key = none ∧ id = 0)) :
    TaskOk shard key id { t with pc := pc } :=
  .session htarget' hstored hpending (fun hne => h.acting hne (Pc.acting_of_target htarget))
    (h.read (Pc.ownRead_of_target htarget)) (h.target epoch htarget)

/-- With the share missing, a task that is not storing finds no group key. -/
theorem Inv.no_key {s : State F G₁} (h : Inv B s) (hshard : s.st.shard = none)
    (hfree : ∀ u, s.tasks 0 = some u → ∀ sh, u.pc ≠ .storeShard sh) :
    s.st.groupPubkey = none := by
  rcases h.forming hshard with hk | ⟨u, sh, hu, hpc⟩
  · exact hk
  · exact absurd hpc (hfree u hu sh)

theorem Inv.shard_none {s : State F G₁} (h : Inv B s) (hkey : s.st.groupPubkey = none) :
    s.st.shard = none := by
  by_contra hne
  exact h.shard_key hne hkey

/-- Only `form_cluster` is at a place where the node may still be without a share. -/
theorem TaskOk.id_zero {shard : Option ShardState} {key : Option Bytes} {id : ℕ} {t : Task F G₁}
    (h : TaskOk shard key id t) (hact : t.pc.acting = true) (hnone : shard = none) : id = 0 := by
  by_contra hne
  exact h.acting hne hact hnone

/-- The guard lets only the known key pass, or any key at a node that has none. -/
theorem keepsGroupKey_cases {known : Option Bytes} {pk : Bytes}
    (h : keepsGroupKey known pk = true) : known = some pk ∨ known = none := by
  cases known with
  | none => exact .inr rfl
  | some k =>
    left
    simp only [keepsGroupKey, Option.all_some, beq_iff_eq] at h
    rw [h]

theorem collectAndDprf_verified {threshold : ℕ} {shard : Option ShardState}
    {signature : Except String Bytes} {replies : List PartialReply} {groupPubkey : Option Bytes}
    {appId : String} {material key : Bytes} {trace : DeriveTrace}
    (h : collectAndDprf B threshold shard signature replies groupPubkey appId material =
      .ok (key, trace)) :
    ∃ sigma pk, groupPubkey = some pk ∧
      dprfVerify B sigma pk (dprfMessage appId material) = .ok () ∧
      key = sigmaToAppKey B sigma := by
  obtain ⟨own, -, h⟩ := bind_eq_ok.mp h
  obtain ⟨ownShare, -, h⟩ := bind_eq_ok.mp h
  obtain ⟨ownPartial, -, h⟩ := bind_eq_ok.mp h
  obtain ⟨_, -, h⟩ := bind_eq_ok.mp h
  obtain ⟨epoch, -, h⟩ := bind_eq_ok.mp h
  obtain ⟨sigma, -, h⟩ := bind_eq_ok.mp h
  obtain ⟨pk, hpk, h⟩ := bind_eq_ok.mp h
  obtain ⟨_, hverify, h⟩ := bind_eq_ok.mp h
  cases h
  exact ⟨sigma, pk, okOr_eq_ok.mp hpk, mapError_eq_ok.mp hverify, rfl⟩

theorem inv_derived {s : State F G₁} (h : Inv B s) {id : ℕ} {t : Task F G₁}
    (hfree : id = 0 → ∀ u, s.tasks id = some u → ∀ sh, u.pc ≠ .storeShard sh)
    {d : String × Bytes × Bytes}
    (hd : ∃ sigma pk, s.st.groupPubkey = some pk ∧
      dprfVerify B sigma pk (dprfMessage d.1 d.2.1) = .ok () ∧ d.2.2 = sigmaToAppKey B sigma) :
    Inv B ({ s with derived := d :: s.derived }.goto id t .done) := by
  have hmoved : Inv B (s.goto id t .done) :=
    h.move hfree rfl rfl rfl rfl (.idle rfl nofun)
  refine ⟨hmoved.tasks, hmoved.shard_key, hmoved.forming, ?_⟩
  intro d' hd'
  rcases List.mem_cons.mp hd' with rfl | hd'
  · exact hd
  · exact h.derived d' hd'

variable [NatCast F]

/-- What a task can do keeps the invariant. -/
theorem TaskSteps.inv {s s' : State F G₁} (h : Inv B s) {id : ℕ} {t : Task F G₁}
    (ht : s.tasks id = some t) {pc : Pc F G₁} (hpc : t.pc = pc) {action : Action F G₁}
    (hsteps : TaskSteps B s id t pc action s') : Inv B s' := by
  have hok := h.tasks id t ht
  have hfree : (id = 0 → ∀ sh, pc ≠ .storeShard sh) → id = 0 →
      ∀ u, s.tasks id = some u → ∀ sh, u.pc ≠ .storeShard sh := by
    intro hne hid u hu sh
    obtain rfl : t = u := Option.some.inj (ht.symm.trans hu)
    rw [hpc]
    exact hne hid sh
  have hfounding : pc.founding = true → id = 0 ∧ s.st.groupPubkey = none :=
    fun hf => hok.founding (hpc ▸ hf)
  have hacting : pc.acting = true → id ≠ 0 → s.st.shard ≠ none :=
    fun ha hid => hok.acting hid (hpc ▸ ha)
  cases hsteps with
  | idle hstore hidle hact =>
    refine h.move (hfree hstore) rfl rfl rfl rfl (.idle hidle fun hid ha => ?_)
    rcases hact hid ha with ha' | hne
    · exact hacting ha' hid
    · exact hne
  | founding hf hf' =>
    refine h.move (hfree fun _ => Pc.ne_storeShard_of_founding hf) rfl rfl rfl rfl ?_
    exact .forming hf' (hfounding hf)
  | @assembled m _ _ hshard =>
    have hid : id = 0 := hok.id_zero (by rw [hpc]; rfl) hshard
    have hkey := h.no_key hshard (hid ▸ hfree (fun _ => nofun) hid)
    exact h.move (hfree fun _ => nofun) rfl rfl rfl rfl (.forming rfl ⟨hid, hkey⟩)
  | found hf hpending =>
    obtain ⟨hid, hkey⟩ := hfounding hf
    refine h.move (hfree fun _ => Pc.ne_storeShard_of_founding hf) rfl rfl rfl rfl ?_
    obtain ⟨epoch, htarget⟩ := Pc.target_of_pendingKey hpending
    exact .session htarget (Pc.ne_storeShard_of_pendingKey hpending)
      (fun _ _ => .inr ⟨hkey, hid⟩) (fun hne => absurd hid hne) rfl
      (.inr (.inr (h.shard_none hkey)))
  | recover =>
    refine h.move (hfree fun _ => nofun) rfl rfl rfl rfl
      ⟨nofun, nofun, fun hne _ => hacting rfl hne, nofun, fun _ => rfl, ?_, nofun⟩
    intro m own heq
    cases heq
    rfl
  | @choose m own =>
    refine h.move (hfree fun _ => nofun) rfl rfl rfl rfl
      (.session rfl nofun nofun (hacting rfl) (hok.read (by rw [hpc]; rfl)) ?_)
    have hbase : t.base = own := hok.chosen m own hpc
    by_cases hwrap : nextEpoch (max own s.st.peerTable.maxEpoch) =
        max own s.st.peerTable.maxEpoch + 1
    · left
      dsimp only
      rw [hwrap, hbase]
      exact Nat.lt_succ_of_le (le_max_left _ _)
    · exact .inr (.inl (decide_eq_true hwrap))
  | refreshKnown =>
    exact h.move (hfree fun _ => nofun) rfl rfl rfl rfl
      (.blank nofun rfl rfl fun hid _ => hacting rfl hid)
  | dealerCheck hepoch =>
    exact h.move (hfree fun _ => nofun) rfl rfl rfl rfl
      (.session rfl nofun nofun (hacting rfl) rfl (.inl hepoch))
  | carry hstore htarget htarget' hpending hstored =>
    refine h.move (hfree fun _ => hstore) rfl rfl rfl rfl ?_
    refine hok.carry (hpc ▸ htarget) htarget' hstored fun pk hpk => ?_
    cases hpending.symm.trans hpk
  | guardKey hkeeps =>
    refine h.move (hfree fun _ => nofun) rfl rfl rfl rfl (hok.carry (hpc ▸ rfl) rfl nofun ?_)
    intro pk hpk
    cases hpk
    rcases keepsGroupKey_cases hkeeps with hk | hnone
    · exact .inl hk
    · exact .inr ⟨hnone, hok.id_zero (by rw [hpc]; rfl) (h.shard_none hnone)⟩
  | sealed htarget hpending =>
    refine h.move (hfree fun _ => Pc.ne_storeShard_of_pendingKey hpending) rfl rfl rfl rfl ?_
    refine hok.carry (hpc ▸ htarget) rfl nofun fun pk hpk => ?_
    cases hpk
    exact hok.pending _ (hpc ▸ hpending)
  | storeKey => exact inv_storeKey h ht hpc
  | storeShard => exact inv_storeShard h ht hpc
  | derived hkey => exact inv_derived h (hfree fun _ => nofun) (collectAndDprf_verified hkey)

theorem inv_step {s s' : State F G₁} (l : ℕ × Action F G₁) (h : Inv B s)
    (hstep : step B s l = some s') : Inv B s' := by
  cases steps_of_step hstep with
  | gossip => exact ⟨h.tasks, h.shard_key, h.forming, h.derived⟩
  | spawn hnone hidle hact =>
    refine h.move (fun _ u hu => ?_) rfl rfl rfl rfl (.idle hidle fun _ => hact)
    cases hnone.symm.trans hu
  | task ht hsteps => exact hsteps.inv h ht rfl

theorem inv_run {config : Config} {ethAddress : Address} {labels : List (ℕ × Action F G₁)}
    {s : State F G₁} (hrun : exec (step B) (State.init config ethAddress) labels = some s) :
    Inv B s :=
  exec_invariant (fun _ l _ h => inv_step l h) (inv_init config ethAddress) hrun

-- ════════════════════════════════════════════════════════════════════════
-- The group key
-- ════════════════════════════════════════════════════════════════════════

/-- What a step of a task does to the group key and to the log of writes. -/
inductive Effect (s : State F G₁) (t : Task F G₁) (action : Action F G₁) (s' : State F G₁) : Prop
  | quiet (hkey : s'.st.groupPubkey = s.st.groupPubkey) (hwrites : s'.writes = s.writes)
  | key {shard : ShardState} {pk : Bytes} (hpc : t.pc = .storeKey shard pk)
      (hkey : s'.st.groupPubkey = some pk) (hwrites : s'.writes = s.writes)
  | share {shard : ShardState} (hpc : t.pc = .storeShard shard) (haction : action = .next)
      (hkey : s'.st.groupPubkey = s.st.groupPubkey)
      (hwrites : s'.writes = (s.st.shard.map (·.epoch), shard.epoch) :: s.writes)

theorem TaskSteps.effect {s s' : State F G₁} {id : ℕ} {t : Task F G₁} {pc : Pc F G₁}
    (hpc : t.pc = pc) {action : Action F G₁} (hsteps : TaskSteps B s id t pc action s') :
    Effect s t action s' := by
  cases hsteps with
  | storeKey => exact .key hpc rfl rfl
  | storeShard => exact .share hpc rfl rfl rfl
  | _ => exact .quiet rfl rfl

theorem step_effect {s s' : State F G₁} {l : ℕ × Action F G₁} (hstep : step B s l = some s') :
    (s'.st.groupPubkey = s.st.groupPubkey ∧ s'.writes = s.writes) ∨
      ∃ t, s.tasks l.1 = some t ∧ Effect s t l.2 s' := by
  cases steps_of_step hstep with
  | gossip => exact .inl ⟨rfl, rfl⟩
  | spawn => exact .inl ⟨rfl, rfl⟩
  | @task _ t _ ht hsteps => exact .inr ⟨t, ht, hsteps.effect rfl⟩

/-- A group key that is set is never overwritten by another one. -/
theorem step_key {s s' : State F G₁} {l : ℕ × Action F G₁} (h : Inv B s)
    (hstep : step B s l = some s') {pk : Bytes} (hpk : s.st.groupPubkey = some pk) :
    s'.st.groupPubkey = some pk := by
  rcases step_effect hstep with ⟨hkey, -⟩ | ⟨t, ht, heffect⟩
  · rw [hkey, hpk]
  · cases heffect with
    | quiet hkey _ => rw [hkey, hpk]
    | share _ _ hkey _ => rw [hkey, hpk]
    | @key shard pk' hpc hkey _ =>
      rcases (h.tasks l.1 t ht).pending pk' (by rw [hpc]; rfl) with hold | ⟨hnone, -⟩
      · rw [hkey, ← hold, hpk]
      · rw [hnone] at hpk
        cases hpk

/-- At most one signature on a message verifies under a public key. -/
def UniqueSignature (B : Blsful F G₁ G₂) : Prop :=
  ∀ pk msg sigma sigma', B.verify sigma pk msg = .ok () → B.verify sigma' pk msg = .ok () →
    sigma = sigma'

omit [NatCast F] in
theorem dprfVerify_unique (hunique : UniqueSignature B) {sigma sigma' : G₂} {pk msg : Bytes}
    (h : dprfVerify B sigma pk msg = .ok ()) (h' : dprfVerify B sigma' pk msg = .ok ()) :
    sigma = sigma' := by
  obtain ⟨point, hpoint, hverify⟩ := bind_eq_ok.mp h
  obtain ⟨point', hpoint', hverify'⟩ := bind_eq_ok.mp h'
  obtain rfl : point = point' := Except.ok.inj (hpoint.symm.trans hpoint')
  exact hunique point msg sigma sigma' (mapError_eq_ok.mp hverify) (mapError_eq_ok.mp hverify')

/-- In every run of a process the group public key, once set, stays, and all derivations for one
    app id and material give one key. -/
theorem group_key_stable (hunique : UniqueSignature B) (config : Config) (ethAddress : Address)
    (before after : List (ℕ × Action F G₁)) (s s' : State F G₁)
    (hbefore : exec (step B) (State.init config ethAddress) before = some s)
    (hafter : exec (step B) s after = some s') :
    (∀ pk, s.st.groupPubkey = some pk → s'.st.groupPubkey = some pk) ∧
      ∀ d ∈ s'.derived, ∀ d' ∈ s'.derived, d.1 = d'.1 → d.2.1 = d'.2.1 → d.2.2 = d'.2.2 := by
  have hinv := inv_run hbefore
  refine ⟨?_, ?_⟩
  · intro pk hpk
    have hkept : Inv B s' ∧ s'.st.groupPubkey = some pk :=
      exec_invariant (I := fun s => Inv B s ∧ s.st.groupPubkey = some pk)
        (fun _ l _ h hstep => ⟨inv_step l h.1 hstep, step_key h.1 hstep h.2⟩) ⟨hinv, hpk⟩ hafter
    exact hkept.2
  · have hinv' : Inv B s' := exec_invariant (fun _ l _ h => inv_step l h) hinv hafter
    intro d hd d' hd' happ hmaterial
    obtain ⟨sigma, pk, hpk, hverify, hkey⟩ := hinv'.derived d hd
    obtain ⟨sigma', pk', hpk', hverify', hkey'⟩ := hinv'.derived d' hd'
    obtain rfl : pk = pk' := Option.some.inj (hpk.symm.trans hpk')
    rw [← happ, ← hmaterial] at hverify'
    rw [hkey, hkey', dprfVerify_unique hunique hverify hverify']

-- ════════════════════════════════════════════════════════════════════════
-- The share's epoch
-- ════════════════════════════════════════════════════════════════════════

/-- The write replaced a share by one of a later epoch, or there was none. -/
def Increasing (w : Option ℕ × ℕ) : Prop := ∀ e, w.1 = some e → e < w.2

/-- When a task stores its share over another, no task has stored an epoch at or above its
    target since it read the own epoch, and its target had not wrapped around. -/
def NotOvertaken (s : State F G₁) (l : ℕ × Action F G₁) : Prop :=
  ∀ t shard, s.tasks l.1 = some t → t.pc = .storeShard shard → l.2 = .next →
    s.st.shard = none ∨ ((∀ e ∈ t.since, e < shard.epoch) ∧ t.wrapped = false)

omit [NatCast F] in
/-- The epoch in place is the one read, or the last one stored since. -/
theorem TaskOk.increasing {shard : Option ShardState} {key : Option Bytes} {id : ℕ}
    {t : Task F G₁} (h : TaskOk shard key id t) {new : ShardState} (hpc : t.pc = .storeShard new)
    (hcond : shard = none ∨ ((∀ e ∈ t.since, e < new.epoch) ∧ t.wrapped = false)) :
    Increasing (shard.map (·.epoch), new.epoch) := by
  intro e he
  obtain ⟨old, rfl, rfl⟩ := Option.map_eq_some_iff.mp he
  obtain ⟨hsince, hwrapped⟩ := hcond.resolve_left nofun
  have hread : old.epoch = t.since.head?.getD t.base := h.read (by rw [hpc]; rfl)
  cases hlist : t.since with
  | nil =>
    rw [hlist] at hread
    rcases h.target new.epoch (by rw [hpc]; rfl) with hlt | hw | hnone
    · exact hread ▸ hlt
    · rw [hwrapped] at hw
      cases hw
    · cases hnone
  | cons last rest =>
    rw [hlist] at hread
    exact hread ▸ hsince last (by rw [hlist]; exact List.mem_cons_self)

/-- In every run in which no storing session is overtaken, each write of the share replaces an
    epoch by a greater one. -/
theorem epochs_increase (config : Config) (ethAddress : Address)
    (labels : List (ℕ × Action F G₁)) (s : State F G₁)
    (hmeets : Meets (step B) NotOvertaken (State.init config ethAddress) labels)
    (hrun : exec (step B) (State.init config ethAddress) labels = some s) :
    ∀ w ∈ s.writes, Increasing w := by
  have hall : Inv B s ∧ ∀ w ∈ s.writes, Increasing w := by
    refine exec_invariant_of_meets (I := fun s => Inv B s ∧ ∀ w ∈ s.writes, Increasing w) ?_
      ⟨inv_init config ethAddress, by simp [State.init]⟩ hmeets hrun
    intro s l s' h hcond hstep
    refine ⟨inv_step l h.1 hstep, ?_⟩
    intro w hw
    rcases step_effect hstep with ⟨-, hwrites⟩ | ⟨t, ht, heffect⟩
    · exact h.2 w (hwrites ▸ hw)
    · cases heffect with
      | quiet _ hwrites => exact h.2 w (hwrites ▸ hw)
      | key _ _ hwrites => exact h.2 w (hwrites ▸ hw)
      | @share shard hpc haction _ hwrites =>
        rw [hwrites] at hw
        rcases List.mem_cons.mp hw with rfl | hw
        · exact (h.1.tasks l.1 t ht).increasing hpc (hcond t shard ht hpc haction)
        · exact h.2 w hw
  exact hall.2

end Invariant

namespace TwoSessions

def config : Config := ⟨"app", 2, 4, "", []⟩

def nodeList : List Address := [1, 2, 3, 4]

def table : PeerTable :=
  AList.insert 4 ⟨"d", 0, [4], 0, []⟩ (AList.insert 3 ⟨"c", 0, [4], 0, []⟩
    (AList.insert 2 ⟨"b", 0, [4], 1, []⟩ ∅))

/-- The sealed share of node 1 on the line `5 + x`. -/
def record : SealedRecord :=
  ⟨1, 1, scalarBlsful.pubkeyToBytes (5 : ℕ), shareToBytes scalarBlsful ⟨1, (6 : ℕ)⟩⟩

/-- Node 1 boots with its sealed share and hears of the others. -/
def boot : List (ℕ × Action Scalar Scalar) :=
  [(0, .boot (some (record, "blob"))), (0, .next), (0, .next), (0, .next), (0, .next), (0, .next),
    (0, .gossip table)]

/-- Node 1 deals in the session with the given target, up to the message exchange. -/
def deal (id recoveringId epoch : ℕ) : List (ℕ × Action Scalar Scalar) :=
  [(id, .startReshare ⟨"session", recoveringId, [1, 2], epoch⟩), (id, .nodeList (.ok nodeList)),
    (id, .next), (id, .next), (id, .nodeList (.ok nodeList))]

/-- The exchange completes and node 1 stores its new share. -/
def store (id : ℕ) : List (ℕ × Action Scalar Scalar) :=
  [(id, .sessionOk (8 : ℕ) (5 : ℕ)), (id, .next), (id, .sealed none), (id, .next), (id, .next)]

/-- The recovery of node 4 at epoch 3 overtakes the one of node 3 at epoch 2. -/
def overtaken : List (ℕ × Action Scalar Scalar) :=
  boot ++ deal 1 3 2 ++ deal 2 4 3 ++ store 2 ++ store 1

/-- The two recoveries one after the other. -/
def inOrder : List (ℕ × Action Scalar Scalar) :=
  boot ++ deal 1 3 2 ++ store 1 ++ deal 2 4 3 ++ store 2

/-- Node 1 derives with the reply of node 2, whose share has the given value and epoch. -/
def derive (id value epoch : ℕ) : List (ℕ × Action Scalar Scalar) :=
  [(id, .derive "app" [7] (.ok [])),
    (id, .replies [getDprfPartial scalarBlsful
      (some ⟨2, shareToBytes scalarBlsful ⟨2, value⟩, epoch⟩) "app" [7]])]

/-- Derivations before and after a session that moves node 2's share from 7 to 11. -/
def derivedTwice : List (ℕ × Action Scalar Scalar) :=
  derive 3 7 1 ++ deal 1 3 2 ++ store 1 ++ derive 4 11 2

theorem uniqueSignature : UniqueSignature scalarBlsful := by
  intro pk msg sigma sigma' h h'
  rw [ensure_eq_ok.mp h, ensure_eq_ok.mp h']

end TwoSessions

open TwoSessions in
theorem group_key_stable_deal : ∃ s s',
    exec (step scalarBlsful) (State.init config 1) boot = some s ∧
      exec (step scalarBlsful) s derivedTwice = some s' ∧
      s.st.groupPubkey = some record.masterId ∧ s'.st.groupPubkey = some record.masterId ∧
      s'.st.shard.map (·.epoch) = some 2 ∧
      s'.derived.map (fun d => (d.1, d.2.1)) = [("app", [7]), ("app", [7])] ∧
      ∀ d ∈ s'.derived, ∀ d' ∈ s'.derived, d.2.2 = d'.2.2 := by
  obtain ⟨s, hboot, hkey⟩ : ∃ s, exec (step scalarBlsful) (State.init config 1) boot = some s ∧
      s.st.groupPubkey = some record.masterId := ⟨_, rfl, rfl⟩
  have hran : ((exec (step scalarBlsful) (State.init config 1) boot).bind fun s =>
      exec (step scalarBlsful) s derivedTwice).any (fun s' =>
        s'.st.shard.map (·.epoch) == some 2 &&
          s'.derived.map (fun d => (d.1, d.2.1)) == [("app", [7]), ("app", [7])]) = true := by
    decide +kernel
  rw [hboot, Option.bind_some] at hran
  obtain ⟨s', hrun, hs'⟩ := (Option.any_eq_true _ _).mp hran
  rw [Bool.and_eq_true, beq_iff_eq, beq_iff_eq] at hs'
  have hstable := group_key_stable uniqueSignature config 1 boot derivedTwice s s' hboot hrun
  have hinput : ∀ d ∈ s'.derived, (d.1, d.2.1) = ("app", [7]) := by
    intro d hd
    have hmem : (d.1, d.2.1) ∈ s'.derived.map (fun d => (d.1, d.2.1)) := List.mem_map_of_mem hd
    simpa [hs'.2] using hmem
  refine ⟨s, s', hboot, hrun, hkey, hstable.1 _ hkey, hs'.1, hs'.2, ?_⟩
  intro d hd d' hd'
  obtain ⟨happ, hmaterial⟩ := Prod.mk.inj ((hinput d hd).trans (hinput d' hd').symm)
  exact hstable.2 d hd d' hd' happ hmaterial

/-- `NotOvertaken`, evaluated. -/
def notOvertaken {F G₁ : Type} (s : State F G₁) (l : ℕ × Action F G₁) : Bool :=
  (s.tasks l.1).all fun t => match t.pc with
    | .storeShard shard => s.st.shard.isNone ||
      (t.since.all (fun e => decide (e < shard.epoch)) && !t.wrapped)
    | _ => true

theorem notOvertaken_sound {F G₁ : Type} (s : State F G₁) (l : ℕ × Action F G₁)
    (h : notOvertaken s l = true) : NotOvertaken s l := by
  intro t shard ht hpc _
  simpa [notOvertaken, ht, hpc] using h

open TwoSessions in
theorem epochs_increase_inOrder : ∃ s,
    exec (step scalarBlsful) (State.init config 1) inOrder = some s ∧ s.writes.length = 3 ∧
      ∀ w ∈ s.writes, Increasing w := by
  have hcheck : check (step scalarBlsful) notOvertaken (State.init config 1) inOrder = true := by
    decide +kernel
  obtain ⟨s, hrun, hlength⟩ : ∃ s,
      exec (step scalarBlsful) (State.init config 1) inOrder = some s ∧ s.writes.length = 3 :=
    ⟨_, rfl, rfl⟩
  exact ⟨s, hrun, hlength,
    epochs_increase config 1 inOrder s (meets_of_check notOvertaken_sound hcheck) hrun⟩

open TwoSessions in
/-- A dealer that passed its check before a session with a later epoch stored puts its own,
    older share over it. -/
theorem epochs_decrease : ∃ s, exec (step scalarBlsful) (State.init config 1) overtaken = some s ∧
    ∃ w ∈ s.writes, ¬ Increasing w := by
  obtain ⟨s, hrun, hwrites⟩ : ∃ s,
      exec (step scalarBlsful) (State.init config 1) overtaken = some s ∧
        (some 3, 2) ∈ s.writes := ⟨_, rfl, List.mem_cons_self⟩
  refine ⟨s, hrun, (some 3, 2), hwrites, fun h => ?_⟩
  exact absurd (h 3 rfl) (by decide)

end KmsCluster.Process
