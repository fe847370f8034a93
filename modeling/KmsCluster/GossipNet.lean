import KmsCluster.Gossip
import KmsCluster.Lib.Runs
import KmsCluster.Membership

/-!
# Gossip between honest nodes

Any number of nodes that run `gossip_round` and serve `gossip` (`src/grpc.rs`), crash, come back
with a new process and store shares. A push is taken off the wire at any time, also after its
sender gave it up or crashed, and is answered with the table the recipient has at a later time.
What a node is remembered to hold travels with the answers.

## Main results

- `dealers_hold_share`: as long as no entry is taken in that names an epoch which its peer's
  current process does not hold, a selected dealer holds a share of at least the selected epoch.
- `shareless_dealer_selected`: a node that lost its share and is selected, by what a third node
  remembers of it.
-/

namespace KmsCluster

namespace GossipNet

open Runs

/-- A node process, with its gossip round: what the round says of the node, the targets left, and
    the push it waits for. -/
structure Node where
  app : AppState
  process : ℕ
  info : NodeInfo
  targets : List String
  waiting : Option ℕ

/-- A new process of a node. -/
def Node.boot (config : Config) (addr : Address) (process : ℕ) : Node :=
  let app := AppState.new config addr
  ⟨app, process, app.selfInfo, [], none⟩

def Node.table (n : Node) : PeerTable := n.app.peerTable

def Node.setTable (n : Node) (table : PeerTable) : Node :=
  { n with app := { n.app with peerTable := table } }

/-- The epoch of the share the process holds. -/
def Node.epoch (n : Node) : ℕ := shardEpoch n.app.shard

/-- A push, sent by a process of `sender` to the node that listens at `target`. -/
structure Push where
  sender : Address
  process : ℕ
  recipient : Address
  target : String
  info : NodeInfo

/-- How far a push has come: not taken in yet, entered by a process of the recipient, or
    answered. -/
inductive Stage where
  | sent
  | entered (process : ℕ)
  | answered (peers : List NodeInfo)

/-- The nodes, all pushes so far with their stages, and which pushes were entered: recipient,
    sender and the sender's process. -/
structure Net where
  node : Address → Node
  pushes : List Push
  stage : ℕ → Stage
  heard : List (Address × Address × ℕ)

def Net.setNode (net : Net) (a : Address) (n : Node) : Net :=
  { net with node := Function.update net.node a n }

def Net.setStage (net : Net) (i : ℕ) (stage : Stage) : Net :=
  { net with stage := Function.update net.stage i stage }

def Net.init (config : Address → Config) : Net :=
  ⟨fun a => .boot (config a) a 0, [], fun _ => .sent, []⟩

/-- `a` has received a push of the current process of `p`. -/
def Net.Heard (net : Net) (a p : Address) : Prop := (a, p, (net.node p).process) ∈ net.heard

inductive Label where
  /-- The node crashes and comes back, perhaps with another configuration. -/
  | restart (a : Address) (config : Config)
  /-- A task of the node stores a share. -/
  | storeShare (a : Address) (shard : ShardState) (groupPubkey : Option Bytes)
  | startRound (a : Address) (order : List String)
  /-- The round's next push goes out; `b` listens at its target. -/
  | push (a b : Address)
  /-- Nobody listens at the next target. -/
  | pushFailed (a : Address)
  /-- The recipient's handler enters what the push says. -/
  | enter (i : ℕ) (now : ℤ)
  /-- The handler reads its table for the answer. -/
  | answer (i : ℕ)
  /-- The round merges the answer it waits for. -/
  | merge (a : Address) (now : ℤ)
  /-- The round gives up waiting. -/
  | giveUp (a : Address)

section Step

variable (pubkey : Address → Bytes)

/-- One step of the network. `pubkey` are the nodes' own keys, which a handler recovers from the
    signature. -/
def step (net : Net) : Label → Option Net
  | .restart a config => some (net.setNode a (.boot config a ((net.node a).process + 1)))
  | .storeShare a shard groupPubkey =>
    let n := net.node a
    some (net.setNode a
      { n with app := { n.app with shard := some shard, groupPubkey := groupPubkey } })
  | .startRound a order =>
    let n := net.node a
    if n.app.config.selfUrl ≠ "" ∧ n.targets = [] ∧ n.waiting = none ∧
        order.isPerm (gossipTargets n.app) then
      some (net.setNode a { n with info := n.app.selfInfo, targets := order })
    else none
  | .push a b =>
    let n := net.node a
    match n.targets, n.waiting with
    | target :: rest, none =>
      some { net.setNode a { n with targets := rest, waiting := some net.pushes.length } with
        pushes := net.pushes ++ [⟨a, n.process, b, target, n.info⟩] }
    | _, _ => none
  | .pushFailed a =>
    let n := net.node a
    match n.targets, n.waiting with
    | _ :: rest, none => some (net.setNode a { n with targets := rest })
    | _, _ => none
  | .enter i now =>
    match net.pushes[i]?, net.stage i with
    | some push, .sent =>
      let n := net.node push.recipient
      let table := gossipHandler n.table push.sender (pubkey push.sender) (some push.info) now
      some { (net.setNode push.recipient (n.setTable table)).setStage i (.entered n.process) with
        heard := (push.recipient, push.sender, push.process) :: net.heard }
    | _, _ => none
  | .answer i =>
    match net.pushes[i]?, net.stage i with
    | some push, .entered process =>
      let n := net.node push.recipient
      if n.process = process then some (net.setStage i (.answered (knownPeers n.table))) else none
    | _, _ => none
  | .merge a now =>
    let n := net.node a
    match n.waiting with
    | some i =>
      match net.pushes[i]?, net.stage i with
      | some push, .answered peers =>
        let table := mergeReply n.app.config.selfUrl n.table push.target peers now
        some (net.setNode a { n.setTable table with waiting := none })
      | _, _ => none
    | none => none
  | .giveUp a => some (net.setNode a { net.node a with waiting := none })

/-- What a step does, with what it needs. -/
inductive Moves (net : Net) : Label → Net → Prop where
  | restart (a config) : Moves net (.restart a config)
      (net.setNode a (.boot config a ((net.node a).process + 1)))
  | storeShare (a shard groupPubkey) : Moves net (.storeShare a shard groupPubkey)
      (net.setNode a { net.node a with
        app := { (net.node a).app with shard := some shard, groupPubkey := groupPubkey } })
  | startRound (a order) (hurl : (net.node a).app.config.selfUrl ≠ "") :
      Moves net (.startRound a order)
        (net.setNode a { net.node a with info := (net.node a).app.selfInfo, targets := order })
  | push (a b target rest) (htargets : (net.node a).targets = target :: rest) :
      Moves net (.push a b)
        { net.setNode a { net.node a with
            targets := rest, waiting := some net.pushes.length } with
          pushes := net.pushes ++ [⟨a, (net.node a).process, b, target, (net.node a).info⟩] }
  | idle (a l targets waiting) (htargets : targets ⊆ (net.node a).targets) : Moves net l
      (net.setNode a { net.node a with targets := targets, waiting := waiting })
  | enter (i now push) (hpush : net.pushes[i]? = some push) : Moves net (.enter i now)
      { (net.setNode push.recipient ((net.node push.recipient).setTable
          (gossipHandler (net.node push.recipient).table push.sender (pubkey push.sender)
            (some push.info) now))).setStage i (.entered (net.node push.recipient).process) with
        heard := (push.recipient, push.sender, push.process) :: net.heard }
  | answer (i push) (hpush : net.pushes[i]? = some push) : Moves net (.answer i)
      (net.setStage i (.answered (knownPeers (net.node push.recipient).table)))
  | merge (a now i push peers) (hwaiting : (net.node a).waiting = some i)
      (hpush : net.pushes[i]? = some push) (hstage : net.stage i = .answered peers) :
      Moves net (.merge a now)
        (net.setNode a { (net.node a).setTable
          (mergeReply (net.node a).app.config.selfUrl (net.node a).table push.target peers now) with
            waiting := none })

theorem moves_of_step {net net' : Net} {l : Label} (h : step pubkey net l = some net') :
    Moves pubkey net l net' := by
  cases l with
  | restart a config =>
    cases h
    exact .restart a config
  | storeShare a shard groupPubkey =>
    cases h
    exact .storeShare a shard groupPubkey
  | startRound a order =>
    simp only [step] at h
    split at h
    · next hguard =>
      cases h
      exact .startRound a order hguard.1
    · cases h
  | push a b =>
    simp only [step] at h
    split at h
    · next target rest htargets _ =>
      cases h
      exact .push a b target rest htargets
    · cases h
  | pushFailed a =>
    simp only [step] at h
    split at h
    · next rest htargets hwaiting =>
      cases h
      exact .idle a _ rest _ (htargets ▸ List.subset_cons_self _ _)
    · cases h
  | enter i now =>
    simp only [step] at h
    split at h
    · next push hpush _ =>
      cases h
      exact .enter i now push hpush
    · cases h
  | answer i =>
    simp only [step] at h
    split at h
    · next push process hpush _ =>
      split at h
      · cases h
        exact .answer i push hpush
      · cases h
    · cases h
  | merge a now =>
    simp only [step] at h
    split at h
    · next i hwaiting =>
      split at h
      · next push peers hpush hstage =>
        cases h
        exact .merge a now i push peers hwaiting hpush hstage
      · cases h
    · cases h
  | giveUp a =>
    cases h
    exact .idle a _ (net.node a).targets none (List.Subset.refl _)

-- ════════════════════════════════════════════════════════════════════════
-- Dealers
-- ════════════════════════════════════════════════════════════════════════

/-- No entry is taken in over what was heard of a peer's current process when it names an epoch
    above the share that process holds: neither from an answer nor from a push of an earlier
    process. A share that replaces another one has no lower epoch. -/
def NoLeftover (net : Net) : Label → Prop
  | .merge a _ => ∀ i peers, (net.node a).waiting = some i → net.stage i = .answered peers →
      ∀ peer ∈ peers, ∀ p, peer.Taken (net.node a).app.config.selfUrl p → net.Heard a p →
        peer.epoch ≤ (net.node p).epoch
  | .enter i _ => ∀ push, net.pushes[i]? = some push →
      push.process ≠ (net.node push.sender).process → net.Heard push.recipient push.sender →
        push.info.epoch ≤ (net.node push.sender).epoch
  | .storeShare a shard _ => (net.node a).epoch ≤ shard.epoch
  | _ => True

/-- What a running round says of its node is not above the share the node holds. -/
structure NodeOk (n : Node) : Prop where
  epoch : n.info.epoch ≤ n.epoch
  url : n.targets ≠ [] → n.info.grpcUrl ≠ ""

structure Inv (net : Net) : Prop where
  node : ∀ a, NodeOk (net.node a)
  pushUrl : ∀ push ∈ net.pushes, push.info.grpcUrl ≠ ""
  pushOld : ∀ push ∈ net.pushes, push.process ≤ (net.node push.sender).process
  push : ∀ push ∈ net.pushes, push.process = (net.node push.sender).process →
    push.info.epoch ≤ (net.node push.sender).epoch
  heardOld : ∀ a p k, (a, p, k) ∈ net.heard → k ≤ (net.node p).process
  entry : ∀ a p e, net.Heard a p → (net.node a).table.lookup p = some e →
    e.epoch ≤ (net.node p).epoch

variable {pubkey} {net : Net}

theorem nodeOk_boot (config : Config) (addr : Address) (process : ℕ) :
    NodeOk (.boot config addr process) :=
  ⟨le_rfl, fun h => absurd rfl h⟩

theorem inv_init (config : Address → Config) : Inv (.init config) where
  node a := nodeOk_boot (config a) a 0
  pushUrl _ h := by cases h
  pushOld _ h := by cases h
  push _ h := by cases h
  heardOld _ _ _ h := by cases h
  entry _ _ _ h := by cases h

theorem setNode_self (net : Net) (a : Address) (n : Node) : (net.setNode a n).node a = n :=
  Function.update_self ..

theorem setNode_of_ne (net : Net) {a b : Address} (n : Node) (h : b ≠ a) :
    (net.setNode a n).node b = net.node b :=
  Function.update_of_ne h ..

/-- A process goes on, with no lower share. -/
theorem Inv.setNode (h : Inv net) {a : Address} {n : Node}
    (hprocess : n.process = (net.node a).process) (hepoch : (net.node a).epoch ≤ n.epoch)
    (hok : NodeOk n) (htable : ∀ p e, net.Heard a p → n.table.lookup p = some e →
      e.epoch ≤ ((net.setNode a n).node p).epoch) : Inv (net.setNode a n) := by
  have hprocesses : ∀ p, ((net.setNode a n).node p).process = (net.node p).process := by
    intro p
    by_cases hp : p = a
    · rw [hp, setNode_self, hprocess]
    · rw [setNode_of_ne net n hp]
  have hepochs : ∀ p, (net.node p).epoch ≤ ((net.setNode a n).node p).epoch := by
    intro p
    by_cases hp : p = a
    · rw [hp, setNode_self]
      exact hepoch
    · rw [setNode_of_ne net n hp]
  have hheard : ∀ b p, (net.setNode a n).Heard b p → net.Heard b p := by
    intro b p hb
    show (b, p, _) ∈ net.heard
    rw [← hprocesses p]
    exact hb
  refine ⟨?_, h.pushUrl, ?_, ?_, ?_, ?_⟩
  · intro b
    by_cases hb : b = a
    · rw [hb, setNode_self]
      exact hok
    · rw [setNode_of_ne net n hb]
      exact h.node b
  · intro push hpush
    rw [hprocesses]
    exact h.pushOld push hpush
  · intro push hpush hcurrent
    rw [hprocesses] at hcurrent
    exact (h.push push hpush hcurrent).trans (hepochs _)
  · intro b p k hk
    rw [hprocesses]
    exact h.heardOld b p k hk
  · intro b p e hb he
    by_cases hba : b = a
    · rw [hba, setNode_self] at he
      exact htable p e (hba ▸ hheard b p hb) he
    · rw [setNode_of_ne net n hba] at he
      exact (h.entry b p e (hheard b p hb) he).trans (hepochs p)

/-- A process goes on with the share it has. -/
theorem Inv.goOn (h : Inv net) {a : Address} {n : Node}
    (hprocess : n.process = (net.node a).process) (hepoch : n.epoch = (net.node a).epoch)
    (hok : NodeOk n) (htable : ∀ p e, net.Heard a p → n.table.lookup p = some e →
      e.epoch ≤ (net.node p).epoch) : Inv (net.setNode a n) := by
  refine h.setNode hprocess hepoch.ge hok ?_
  intro p e hheard he
  have hold := htable p e hheard he
  by_cases hp : p = a
  · rw [hp, setNode_self, hepoch]
    exact hp ▸ hold
  · rw [setNode_of_ne net n hp]
    exact hold

theorem Inv.setStage (h : Inv net) (i : ℕ) (stage : Stage) : Inv (net.setStage i stage) :=
  ⟨h.node, h.pushUrl, h.pushOld, h.push, h.heardOld, h.entry⟩

theorem Inv.send (h : Inv net) {push : Push} (hurl : push.info.grpcUrl ≠ "")
    (hprocess : push.process = (net.node push.sender).process)
    (hepoch : push.info.epoch ≤ (net.node push.sender).epoch) :
    Inv { net with pushes := net.pushes ++ [push] } := by
  have hcases : ∀ {q : Push}, q ∈ net.pushes ++ [push] → q ∈ net.pushes ∨ q = push := by
    intro q hq
    exact (List.mem_append.mp hq).imp_right List.mem_singleton.mp
  refine ⟨h.node, ?_, ?_, ?_, h.heardOld, h.entry⟩
  · intro q hq
    obtain hold | rfl := hcases hq
    · exact h.pushUrl q hold
    · exact hurl
  · intro q hq
    obtain hold | rfl := hcases hq
    · exact h.pushOld q hold
    · exact hprocess.le
  · intro q hq hcurrent
    obtain hold | rfl := hcases hq
    · exact h.push q hold hcurrent
    · exact hepoch

theorem Inv.hear (h : Inv net) {a p : Address} {k : ℕ} (hk : k ≤ (net.node p).process)
    (hentry : k = (net.node p).process → ∀ e, (net.node a).table.lookup p = some e →
      e.epoch ≤ (net.node p).epoch) : Inv { net with heard := (a, p, k) :: net.heard } := by
  refine ⟨h.node, h.pushUrl, h.pushOld, h.push, ?_, ?_⟩
  · intro b q j hj
    cases hj with
    | head => exact hk
    | tail _ hj => exact h.heardOld b q j hj
  · intro b q e hb he
    obtain heq | hold := List.mem_cons.mp hb
    · obtain ⟨rfl, hrest⟩ := Prod.mk.inj heq
      obtain ⟨rfl, hcurrent⟩ := Prod.mk.inj hrest
      exact hentry hcurrent.symm e he
    · exact h.entry b q e hold he

/-- Nobody has heard of a process that has just started, and it knows nobody. -/
theorem Inv.restart (h : Inv net) (a : Address) (config : Config) :
    Inv (net.setNode a (.boot config a ((net.node a).process + 1))) := by
  refine ⟨?_, h.pushUrl, ?_, ?_, ?_, ?_⟩
  · intro b
    by_cases hb : b = a
    · rw [hb, setNode_self]
      exact nodeOk_boot ..
    · rw [setNode_of_ne net _ hb]
      exact h.node b
  · intro push hpush
    by_cases hp : push.sender = a
    · rw [hp, setNode_self]
      exact (hp ▸ h.pushOld push hpush).trans (Nat.le_succ _)
    · rw [setNode_of_ne net _ hp]
      exact h.pushOld push hpush
  · intro push hpush hcurrent
    by_cases hp : push.sender = a
    · rw [hp, setNode_self] at hcurrent
      have hold := hp ▸ h.pushOld push hpush
      rw [hcurrent] at hold
      exact absurd hold (Nat.not_succ_le_self _)
    · rw [setNode_of_ne net _ hp] at hcurrent ⊢
      exact h.push push hpush hcurrent
  · intro b p k hk
    by_cases hp : p = a
    · rw [hp, setNode_self]
      exact (hp ▸ h.heardOld b p k hk).trans (Nat.le_succ _)
    · rw [setNode_of_ne net _ hp]
      exact h.heardOld b p k hk
  · intro b p e hb he
    by_cases hp : p = a
    · subst hp
      have hheard : (b, p, (net.node p).process + 1) ∈ net.heard := by
        have hb' := hb
        rw [Net.Heard, setNode_self] at hb'
        exact hb'
      exact absurd (h.heardOld b p _ hheard) (Nat.not_succ_le_self _)
    · have hheard : net.Heard b p := by
        have hb' := hb
        rw [Net.Heard, setNode_of_ne net _ hp] at hb'
        exact hb'
      rw [setNode_of_ne net _ hp]
      by_cases hba : b = a
      · rw [hba, setNode_self] at he
        cases he
      · rw [setNode_of_ne net _ hba] at he
        exact h.entry b p e hheard he

theorem Inv.enter (h : Inv net) {i : ℕ} {now : ℤ} {push : Push}
    (hpush : net.pushes[i]? = some push) (hguard : NoLeftover net (.enter i now)) :
    Inv { (net.setNode push.recipient ((net.node push.recipient).setTable
      (gossipHandler (net.node push.recipient).table push.sender (pubkey push.sender)
        (some push.info) now))).setStage i (.entered (net.node push.recipient).process) with
      heard := (push.recipient, push.sender, push.process) :: net.heard } := by
  have hmem := List.mem_of_getElem? hpush
  have hentered : ∀ p e, (gossipHandler (net.node push.recipient).table push.sender
      (pubkey push.sender) (some push.info) now).lookup p = some e →
      (p = push.sender ∧ e.epoch = push.info.epoch) ∨
        p ≠ push.sender ∧ (net.node push.recipient).table.lookup p = some e := by
    intro p e he
    rw [lookup_gossipHandler (h.pushUrl push hmem)] at he
    split at he
    · next hp =>
      cases he
      exact .inl ⟨hp, rfl⟩
    · next hp => exact .inr ⟨hp, he⟩
  -- The entry is replaced first: the push is of the current process, or the guard covers it.
  have hset := h.goOn (a := push.recipient) (n := (net.node push.recipient).setTable
    (gossipHandler (net.node push.recipient).table push.sender (pubkey push.sender)
      (some push.info) now)) rfl rfl ⟨(h.node _).epoch, (h.node _).url⟩ (by
    intro p e hheard he
    obtain ⟨rfl, hepoch⟩ | ⟨-, hold⟩ := hentered p e he
    · rw [hepoch]
      by_cases hcurrent : push.process = (net.node push.sender).process
      · exact h.push push hmem hcurrent
      · exact hguard push hpush hcurrent hheard
    · exact h.entry _ p e hheard hold)
  refine (hset.setStage i (.entered (net.node push.recipient).process)).hear
    (hset.pushOld push hmem) ?_
  intro hcurrent e he
  have htable : ((net.setNode push.recipient ((net.node push.recipient).setTable
      (gossipHandler (net.node push.recipient).table push.sender (pubkey push.sender)
        (some push.info) now))).node push.recipient).table.lookup push.sender = some e := he
  rw [setNode_self] at htable
  obtain ⟨-, hepoch⟩ | ⟨hne, -⟩ := hentered push.sender e htable
  · rw [hepoch]
    exact hset.push push hmem hcurrent
  · exact absurd rfl hne

theorem Inv.merge (h : Inv net) {a : Address} {now : ℤ} {i : ℕ} {push : Push}
    {peers : List NodeInfo} (hwaiting : (net.node a).waiting = some i)
    (hstage : net.stage i = .answered peers) (hguard : NoLeftover net (.merge a now)) :
    Inv (net.setNode a { (net.node a).setTable
      (mergeReply (net.node a).app.config.selfUrl (net.node a).table push.target peers now) with
        waiting := none }) := by
  have hold : (net.node a).table.All fun p e => net.Heard a p → e.epoch ≤ (net.node p).epoch :=
    fun p e he hheard => h.entry a p e hheard he
  have hpeers := hguard i peers hwaiting hstage
  refine h.goOn rfl rfl ⟨(h.node a).epoch, (h.node a).url⟩ ?_
  intro p e hheard he
  refine hold.mergeReply (fun p e _ he _ => he) ?_ ?_ p e he hheard
  · intro peer hpeer p e htaken he hheard
    exact max_le (he hheard) (hpeers peer hpeer p htaken hheard)
  · intro peer hpeer p htaken hheard
    exact hpeers peer hpeer p htaken hheard

theorem inv_step (net : Net) (l : Label) (net' : Net) (h : Inv net) (hguard : NoLeftover net l)
    (hs : step pubkey net l = some net') : Inv net' := by
  cases moves_of_step pubkey hs with
  | restart a config => exact h.restart a config
  | storeShare a shard groupPubkey =>
    refine h.setNode rfl hguard ⟨(h.node a).epoch.trans hguard, (h.node a).url⟩ ?_
    intro p e hheard he
    refine (h.entry a p e hheard he).trans ?_
    by_cases hp : p = a
    · rw [hp, setNode_self]
      exact hguard
    · rw [setNode_of_ne net _ hp]
  | startRound a order hurl =>
    exact h.goOn rfl rfl ⟨le_rfl, fun _ => hurl⟩ fun p e hheard he => h.entry a p e hheard he
  | push a b target rest htargets =>
    have hurl : (net.node a).info.grpcUrl ≠ "" :=
      (h.node a).url (by rw [htargets]; exact List.cons_ne_nil _ _)
    have hset := h.goOn (a := a)
      (n := { net.node a with targets := rest, waiting := some net.pushes.length }) rfl rfl
      ⟨(h.node a).epoch, fun _ => hurl⟩ fun p e hheard he => h.entry a p e hheard he
    refine hset.send hurl ?_ ?_
    · rw [setNode_self]
    · rw [setNode_self]
      exact (h.node a).epoch
  | idle a l targets waiting htargets =>
    refine h.goOn rfl rfl ⟨(h.node a).epoch, fun hne => (h.node a).url ?_⟩
      fun p e hheard he => h.entry a p e hheard he
    intro hnil
    rw [hnil] at htargets
    exact hne (List.subset_nil.mp htargets)
  | enter i now push hpush => exact h.enter hpush hguard
  | answer i push hpush => exact h.setStage ..
  | merge a now i push peers hwaiting hpush hstage => exact h.merge hwaiting hstage hguard

theorem epoch_pos_of_leading {m : Membership} {peer : SessionPeer}
    (h : peer ∈ m.leadingDealers) : peer ∈ m.peers ∧ 0 < peer.epoch := by
  have hdealer : peer ∈ m.liveDealers := (List.mem_filter.mp h).1
  obtain ⟨hpeer, hepoch⟩ := List.mem_filter.mp hdealer
  exact ⟨hpeer, of_decide_eq_true hepoch⟩

/-- In a run that takes in no leftover epoch, a dealer that `a` selects after a push of its current
    process holds a share, of at least the epoch `a` knows of it. -/
theorem dealers_hold_share {config : Address → Config} {labels : List Label}
    (hguard : Meets (step pubkey) NoLeftover (.init config) labels)
    (hrun : exec (step pubkey) (.init config) labels = some net) {a p : Address}
    (hheard : net.Heard a p) {nodeList : List Address} (now : ℤ) {m : Membership}
    (hm : assembleParticipants (net.node a).app (.ok nodeList) now = .ok (some m))
    {peer : SessionPeer} (hpeer : peer ∈ m.leadingDealers)
    (hp : nodeList[peer.id - 1]? = some p) :
    ∃ e shard, (net.node a).table.lookup p = some e ∧ (net.node p).app.shard = some shard ∧
      e.epoch ≤ shard.epoch := by
  have hinv : Inv net := exec_invariant_of_meets inv_step (inv_init config) hguard hrun
  obtain ⟨hmem, hpos⟩ := epoch_pos_of_leading hpeer
  obtain ⟨-, -, members, addr, e, hmembers, haddr, he, -, hepoch⟩ :=
    assembleParticipants_peer hm hmem
  cases hmembers
  cases hp.symm.trans haddr
  have hle := hinv.entry a p e hheard he
  cases hshard : (net.node p).app.shard with
  | none =>
    rw [Node.epoch, hshard, shardEpoch_none] at hle
    omega
  | some shard =>
    rw [Node.epoch, hshard, shardEpoch_some] at hle
    exact ⟨e, shard, he, rfl, hle⟩

end Step

/-- `NoLeftover`, evaluated without asking what was heard. -/
def noLeftoverTest (net : Net) : Label → Bool
  | .merge a _ => (net.node a).waiting.all fun i =>
      match net.stage i with
      | .answered peers => peers.all fun peer => peer.ethAddr.all fun p =>
          decide (peer.epoch ≤ (net.node p).epoch)
      | _ => true
  | .enter i _ => net.pushes[i]?.all fun push =>
      decide (push.info.epoch ≤ (net.node push.sender).epoch)
  | .storeShare a shard _ => decide ((net.node a).epoch ≤ shard.epoch)
  | _ => true

theorem noLeftoverTest_sound (net : Net) (l : Label) (h : noLeftoverTest net l = true) :
    NoLeftover net l := by
  cases l with
  | merge a now =>
    intro i peers hwaiting hstage peer hpeer p htaken _
    simp only [noLeftoverTest, hwaiting, Option.all_some, hstage] at h
    have hentry := List.all_eq_true.mp h peer hpeer
    rw [htaken.2.2, Option.all_some] at hentry
    exact of_decide_eq_true hentry
  | enter i now =>
    intro push hpush _ _
    simp only [noLeftoverTest, hpush, Option.all_some] at h
    exact of_decide_eq_true h
  | storeShare a shard groupPubkey =>
    show (net.node a).epoch ≤ shard.epoch
    exact of_decide_eq_true h
  | restart a config => trivial
  | startRound a order => trivial
  | push a b => trivial
  | pushFailed a => trivial
  | answer i => trivial
  | giveUp a => trivial

def urlOf (a : Address) : String :=
  if a = 1 then "http://a:4443" else if a = 2 then "http://b:4443" else "http://c:4443"

def netConfig (a : Address) : Config :=
  ⟨"app", 2, 3, urlOf a, ["http://a:4443", "http://b:4443", "http://c:4443"]⟩

/-- Node 2 holds a share of epoch 5 and tells node 3, whose answer to node 1 carries it. Node 1
    hears of node 2 itself before it merges that answer, from a new process when `crash`. -/
def relayedEpoch (crash : Bool) : List Label :=
  [.storeShare 2 ⟨2, [], 5⟩ none, .startRound 2 ["http://c:4443", "http://a:4443"], .push 2 3,
    .enter 0 1000, .startRound 1 ["http://c:4443", "http://b:4443"], .push 1 3, .enter 1 1005,
    .answer 1] ++
  (if crash then [.restart 2 (netConfig 2), .startRound 2 ["http://a:4443", "http://c:4443"]]
    else [.giveUp 2]) ++ [.push 2 1, .enter 2 1010, .merge 1 1011]

/-- What node 1 knows of node 2 after either run. -/
def dealerTwo : SessionPeer := ⟨2, "http://b:4443", [4], 5⟩

theorem dealers_hold_share_relayed : ∃ net m e shard,
    exec (step fun _ => [4]) (.init netConfig) (relayedEpoch false) = some net ∧
      assembleParticipants (net.node 1).app (.ok [1, 2, 3]) 1020 = .ok (some m) ∧
      m.leadingDealers = [dealerTwo] ∧ (net.node 1).table.lookup 2 = some e ∧
      (net.node 2).app.shard = some shard ∧ e.epoch ≤ shard.epoch := by
  have hguard : Meets (step fun _ => [4]) NoLeftover (.init netConfig) (relayedEpoch false) := by
    apply meets_of_check noLeftoverTest_sound
    rfl
  have hdealer : dealerTwo ∈ Membership.leadingDealers ⟨1, [dealerTwo], 2, 3, false⟩ :=
    List.mem_cons_self
  have hposition : ([1, 2, 3] : List Address)[dealerTwo.id - 1]? = some 2 := rfl
  obtain ⟨e, shard, he, hshard, hle⟩ := dealers_hold_share (a := 1) hguard rfl
    List.mem_cons_self 1020 rfl hdealer hposition
  exact ⟨_, _, e, shard, rfl, rfl, rfl, he, hshard, hle⟩

/-- Node 2 has lost its share and says so, and is selected at epoch 5. -/
theorem shareless_dealer_selected : ∃ net m,
    exec (step fun _ => [4]) (.init netConfig) (relayedEpoch true) = some net ∧
      net.Heard 1 2 ∧ assembleParticipants (net.node 1).app (.ok [1, 2, 3]) 1020 = .ok (some m) ∧
      m.leadingDealers = [dealerTwo] ∧ (net.node 2).app.shard = none :=
  ⟨_, _, rfl, List.mem_cons_self, rfl, rfl, rfl⟩

end GossipNet

end KmsCluster
