import KmsCluster.Gossip
import KmsCluster.Lib.Runs
import KmsCluster.ReshareAlgebra

/-!
# The cluster

All nodes together, from the moment the genesis session has everyone in it: gossip, crashes and
restarts with or without a sealed share, and any number of reshare and refresh sessions. A session
is taken as a whole here: its participants join one by one, and once all of them are in, each one
either completes or gives up on its own, whatever the others do.

A membership that `assemble_participants` returned may be used much later, when the peer table has
changed. `Node.origin`, `Member.dealt`, `Member.key` and `State.commits` are not in the code: they
remember where a share comes from and what a session started with.
-/

namespace KmsCluster.Cluster

open Fallible Runs

/-- A sealed share that a restart may find again. -/
structure SealedShare where
  shard : ShardState
  masterId : Bytes
  blob : String
  origin : ℕ

/-- A gossip round under way: the targets that are left, and a reply with the target it is of. -/
structure GossipRound where
  info : NodeInfo
  targets : List String
  reply : Option (String × List NodeInfo)

/-- A membership in the hands of some task, with the nodeList and the configuration it was
    assembled from. Positions in a nodeList are 32-bit. -/
structure Assembled where
  nodeList : List Address
  config : Config
  membership : Membership
  bound : nodeList.length < 2 ^ 32
  source : ∃ st now, st.config = config ∧
    assembleParticipants st (.ok nodeList) now = .ok (some membership)

/-- Where `form_cluster` stands. -/
inductive Task where
  | boot
  | idle
  /-- The watchdog is about to catch up. -/
  | behind
  | session (k : ℕ)
  deriving DecidableEq

structure Node where
  st : AppState
  task : Task
  assembled : List Assembled
  gossip : Option GossipRound
  /-- The session that `st.shard` comes from. -/
  origin : ℕ
  sealedShares : List SealedShare

structure Member (P : Type) where
  addr : Address
  participant : P
  /-- The share a dealer deals, and the session it comes from. -/
  dealt : Option (ShardState × ℕ)
  /-- The group key the node knew when it joined. -/
  key : Option Bytes
  running : Bool

structure Session (P : Type) where
  genesis : Bool
  req : ReshareRequest
  /-- By participant id. -/
  members : ℕ → Option (Member P)
  /-- All participants were in the session at one time. -/
  ready : Bool

/-- A share and group key stored at the end of a session. -/
structure Commit where
  addr : Address
  session : ℕ
  key : Bytes

structure State (P : Type) where
  clock : ℤ
  nodes : Address → Node
  sessions : List (Session P)
  commits : List Commit

inductive Label (R : Type) where
  | tick (secs : ℕ)
  | gossipStart (p : Address)
  /-- A push of `p` reaches `q`. The order of the targets is that of a hash map. -/
  | gossipPush (p q : Address)
  | gossipMerge (p : Address)
  | gossipLost (p : Address)
  /-- The other pushes of the round fail. -/
  | gossipDone (p : Address)
  | crash (p : Address)
  /-- No sealed share, or a stale one. -/
  | boot (p : Address)
  | reload (p : Address) (n : ℕ)
  /-- The watchdog finds `p` behind, for the second time. -/
  | watch (p : Address)
  | assemble (p : Address) (nodeList : List Address)
  /-- `run_reshare_recovery` at `p` on its `n`-th membership. Without a share it runs because
      `seed` has declined to serve one. -/
  | recover (p : Address) (n : ℕ) (seed : String) (rnd : R)
  | refresh (p : Address) (n : ℕ)
  /-- `run_reshare_dealer` at `p` enters session `k`. -/
  | join (k : ℕ) (p : Address) (nodeList : List Address) (rnd : R)
  | ready (k : ℕ)
  /-- Participant `i` of session `k` has everyone's last message. -/
  | complete (k i : ℕ) (blob : Option String)
  | abort (k i : ℕ)

section Phases

variable {F G₁ G₂ R P : Type} [NatCast F] (B : Blsful F G₁ G₂) (D : Gennaro F R P)

/-- `run_reshare_recovery` up to its session. -/
def startRecovery (st : AppState) (m : Membership) (now : ℤ) (rnd : R) :
    Except String (ReshareRequest × P × List SessionPeer) := do
  let (dealers, req) ← recoveryRequest st m now
  let participant ← recoveryParticipant D m.ownId m.threshold m.total rnd
  return (req, participant, dealers)

/-- `run_reshare_dealer` up to its session. -/
def startDealer (st : AppState) (nodeList : List Address) (req : ReshareRequest) (rnd : R) :
    Except String (ℕ × P × List SessionPeer) := do
  let (ownId, ownIndex) ← dealerPosition st (.ok nodeList) req.dealerIds
  dealerEpochCheck st.shard req.epoch
  let secret ← dealerSecret B st.shard
  let peers ← resolvePeers st.peerTable nodeList req.participantIds ownId
  let participant ← dealerParticipant D st.config ownId ownIndex secret req.dealerIds rnd
  return (ownId, participant, peers)

/-- A recovery is its start, the session, and what the node does with the outcome. -/
theorem runReshareRecovery_eq (st : AppState) (m : Membership) (now : ℤ) (signature : Bytes)
    (rnd : R) (runSession : P → List SessionPeer → Except String (F × G₁))
    (blob : Option String) :
    runReshareRecovery B D st m now (.ok signature) rnd runSession blob = (do
      let (req, participant, dealers) ← startRecovery D st m now rnd
      let (share, pk) ← runSession participant dealers
      finishRecovery B st m.ownId req.epoch share pk blob) := by
  simp only [runReshareRecovery, startRecovery, ok_bind, bind_assoc, pure_bind]

/-- A dealer's run is its start, the session, and what it does with the outcome. -/
theorem runReshareDealer_eq (st : AppState) (nodeList : List Address) (req : ReshareRequest)
    (rnd : R) (runSession : P → List SessionPeer → Except String (F × G₁))
    (blob : Option String) :
    runReshareDealer B D st (.ok nodeList) (.ok nodeList) req rnd runSession blob = (do
      let (ownId, participant, peers) ← startDealer B D st nodeList req rnd
      let (share, pk) ← runSession participant peers
      finishDealer B st ownId req.epoch share pk blob) := by
  simp only [runReshareDealer, startDealer, mapError_ok, ok_bind, bind_assoc, pure_bind]

omit [NatCast F] in
theorem startRecovery_eq_ok {D : Gennaro F R P} {st : AppState} {m : Membership} {now : ℤ}
    {rnd : R} {req : ReshareRequest} {participant : P} {dealers : List SessionPeer}
    (h : startRecovery D st m now rnd = .ok (req, participant, dealers)) :
    recoveryRequest st m now = .ok (dealers, req) ∧ 0 < m.threshold ∧
      D.refreshNew m.ownId m.threshold m.total rnd = .ok participant := by
  obtain ⟨⟨dealers', req'⟩, hreq, h⟩ := bind_eq_ok.mp h
  obtain ⟨participant', hparticipant, h⟩ := bind_eq_ok.mp h
  cases h
  obtain ⟨_, hparams, hparticipant⟩ := bind_eq_ok.mp hparticipant
  obtain ⟨_, hthreshold, -⟩ := bind_eq_ok.mp hparams
  exact ⟨hreq, ensure_eq_ok.mp hthreshold, mapError_eq_ok.mp hparticipant⟩

theorem startDealer_eq_ok {B : Blsful F G₁ G₂} {D : Gennaro F R P} {st : AppState}
    {nodeList : List Address} {req : ReshareRequest} {rnd : R} {ownId : ℕ} {participant : P}
    {peers : List SessionPeer} (h : startDealer B D st nodeList req rnd =
      .ok (ownId, participant, peers)) :
    ∃ ownIndex secret, req.dealerIds[ownIndex]? = some ownId ∧
      shardEpoch st.shard < req.epoch ∧ dealerSecret B st.shard = .ok secret ∧
      D.withSecret ownId st.config.threshold st.config.totalNodes secret
        (req.dealerIds.map fun i : ℕ => (i : F)) ownIndex rnd = .ok participant := by
  obtain ⟨⟨ownId', ownIndex⟩, hposition, h⟩ := bind_eq_ok.mp h
  obtain ⟨_, hepoch, h⟩ := bind_eq_ok.mp h
  obtain ⟨secret, hsecret, h⟩ := bind_eq_ok.mp h
  obtain ⟨peers', -, h⟩ := bind_eq_ok.mp h
  obtain ⟨participant', hparticipant, h⟩ := bind_eq_ok.mp h
  cases h
  obtain ⟨-, -, -, hindex⟩ := dealerPosition_eq_ok hposition
  obtain ⟨_, -, hparticipant⟩ := bind_eq_ok.mp hparticipant
  exact ⟨ownIndex, secret, hindex, ensure_eq_ok.mp hepoch, hsecret,
    mapError_eq_ok.mp hparticipant⟩

end Phases

section System

variable {P : Type}

/-- The process at `p` starts: an empty state. -/
def Node.start (config : Config) (p : Address) (sealedShares : List SealedShare) : Node where
  st := AppState.new config p
  task := .boot
  assembled := []
  gossip := none
  origin := 0
  sealedShares := sealedShares

def State.setNode (s : State P) (p : Address) (node : Node) : State P :=
  { s with nodes := Function.update s.nodes p node }

def State.setSession (s : State P) (k : ℕ) (sess : Session P) : State P :=
  { s with sessions := s.sessions.set k sess }

def Session.setMember (sess : Session P) (i : ℕ) (m : Member P) : Session P :=
  { sess with members := Function.update sess.members i (some m) }

/-- The members at `p` are out of the session. -/
def Session.stop (sess : Session P) (p : Address) : Session P :=
  { sess with members := fun i => (sess.members i).map fun m =>
      if m.addr = p then { m with running := false } else m }

/-- Some participant is in the session. -/
def Session.active (sess : Session P) : Bool :=
  sess.req.participantIds.any fun i => (sess.members i).any (·.running)

def Session.allIn (sess : Session P) : Bool :=
  sess.req.participantIds.all fun i => (sess.members i).any (·.running)

/-- The recovery gates of `form_cluster`: without a share, some seed has been reached and has
    declined, which any status other than `Unavailable` is taken for; with a share, the watchdog has
    found the node behind. The settle window takes time, which may pass. -/
def Node.mayRecover (node : Node) (seed : String) : Bool :=
  node.task = .behind ∨
    (node.task = .idle ∧ node.st.shard.isNone ∧ seed ∈ node.st.config.seeds)

/-- Back from a session, `form_cluster` goes on. -/
def Task.leave (task : Task) (k : ℕ) : Task := if task = .session k then .idle else task

variable {F G₁ G₂ R : Type} [Field F] [AddCommGroup G₁] [Module F G₁] (B : Blsful F G₁ G₂)
  (D : Gennaro F R P)

/-- The value at `x` of what the members of a session contribute. -/
def Session.value (sess : Session P) (x : F) : F :=
  (sess.req.participantIds.map fun i =>
    (sess.members i).elim 0 fun m => D.contribution m.participant x).sum

/-- The group key of a session. -/
def Session.key (sess : Session P) : Bytes := B.pubkeyToBytes (sess.value D 0 • B.generator)

/-- What participant `i` does with the outcome of its session. -/
def Session.finish (sess : Session P) (i : ℕ) (st : AppState) (blob : Option String) :
    Except String AppState :=
  let share := sess.value D (i : F)
  let pk := sess.value D (0 : F) • B.generator
  if sess.genesis then
    .ok (storeShare st (sessionShard B i sess.req.epoch share) (B.pubkeyToBytes pk) blob)
  else if i = sess.req.recoveringId then finishRecovery B st i sess.req.epoch share pk blob
  else finishDealer B st i sess.req.epoch share pk blob

/-- The sealed shares of a node that stores a share, when sealing succeeds. -/
def addSealed (sealedShares : List SealedShare) (shard : ShardState) (key : Bytes) (k : ℕ) :
    Option String → List SealedShare
  | some blob => ⟨shard, key, blob, k⟩ :: sealedShares
  | none => sealedShares

/-- Participant `i` of session `k` completes; the group-key guard may still refuse. -/
def State.finish (s : State P) (k : ℕ) (sess : Session P) (i : ℕ) (m : Member P)
    (blob : Option String) : State P :=
  let node := s.nodes m.addr
  let out := s.setSession k (sess.setMember i { m with running := false })
  match sess.finish B D i node.st blob with
  | .ok st =>
    { out.setNode m.addr { node with
        st := st
        task := node.task.leave k
        origin := k
        sealedShares := addSealed node.sealedShares
          (sessionShard B i sess.req.epoch (sess.value D (i : F))) (sess.key B D) k blob } with
      commits := ⟨m.addr, k, sess.key B D⟩ :: s.commits }
  | .error _ => out.setNode m.addr { node with task := node.task.leave k }

/-- Everything that can happen. -/
def step (pubkeyOf : Address → Bytes) (s : State P) : Label R → Option (State P)
  | .tick secs => some { s with clock := s.clock + secs }
  | .gossipStart p =>
    let node := s.nodes p
    if node.gossip.isNone ∧ node.st.config.selfUrl ≠ "" ∧ gossipTargets node.st ≠ [] then
      some (s.setNode p { node with
        gossip := some ⟨node.st.selfInfo, gossipTargets node.st, none⟩ })
    else none
  | .gossipPush p q =>
    match (s.nodes p).gossip with
    | some ⟨info, targets, none⟩ =>
      let peer := s.nodes q
      let target := peer.st.config.selfUrl
      if target ∈ targets ∧ q ≠ p then
        let table := gossipHandler peer.st.peerTable p (pubkeyOf p) (some info) s.clock
        some ((s.setNode q { peer with st := { peer.st with peerTable := table } }).setNode p
          { s.nodes p with
            gossip := some ⟨info, targets.erase target, some (target, knownPeers table)⟩ })
      else none
    | _ => none
  | .gossipMerge p =>
    let node := s.nodes p
    match node.gossip with
    | some ⟨info, targets, some (target, received)⟩ =>
      some (s.setNode p { node with
        st := { node.st with
          peerTable := mergeReply node.st.config.selfUrl node.st.peerTable target received s.clock }
        gossip := some ⟨info, targets, none⟩ })
    | _ => none
  | .gossipLost p =>
    let node := s.nodes p
    match node.gossip with
    | some ⟨info, targets, some _⟩ =>
      some (s.setNode p { node with gossip := some ⟨info, targets, none⟩ })
    | _ => none
  | .gossipDone p =>
    let node := s.nodes p
    match node.gossip with
    | some ⟨_, _, none⟩ => some (s.setNode p { node with gossip := none })
    | _ => none
  | .crash p =>
    let node := s.nodes p
    some { s.setNode p (Node.start node.st.config p node.sealedShares) with
      sessions := s.sessions.map (·.stop p) }
  | .boot p =>
    let node := s.nodes p
    if node.task = .boot then some (s.setNode p { node with task := .idle }) else none
  | .reload p n =>
    let node := s.nodes p
    match node.sealedShares[n]? with
    | some rec =>
      if node.task = .boot ∧ ¬rec.shard.epoch < node.st.knownEpoch then
        some (s.setNode p { node with
          st := { node.st with
            sealedShare := some rec.blob, groupPubkey := some rec.masterId, shard := some rec.shard }
          task := .idle
          origin := rec.origin })
      else none
    | none => none
  | .watch p =>
    let node := s.nodes p
    if node.task = .idle ∧ node.st.shard.isSome ∧ shardEpoch node.st.shard < node.st.knownEpoch then
      some (s.setNode p { node with task := .behind })
    else none
  | .assemble p nodeList =>
    let node := s.nodes p
    if hbound : nodeList.length < 2 ^ 32 then
      match hm : assembleParticipants node.st (.ok nodeList) s.clock with
      | .ok (some m) =>
        some (s.setNode p { node with
          assembled := ⟨nodeList, node.st.config, m, hbound, node.st, s.clock, rfl, hm⟩ ::
            node.assembled })
      | _ => none
    else none
  | .recover p n seed rnd =>
    let node := s.nodes p
    match node.assembled[n]? with
    | some a =>
      if node.mayRecover seed then
        match startRecovery D node.st a.membership s.clock rnd with
        | .ok (req, participant, _) =>
          some { s.setNode p { node with task := .session s.sessions.length } with
            sessions := s.sessions ++ [⟨false, req,
              Function.update (fun _ => none) a.membership.ownId
                (some ⟨p, participant, none, node.st.groupPubkey, true⟩), false⟩] }
        | .error _ => some (s.setNode p { node with task := .idle })
      else none
    | none => none
  | .refresh p n =>
    let node := s.nodes p
    match node.assembled[n]? with
    | some a =>
      match refreshRequest node.st (.ok (some a.membership)) s.clock with
      | .ok (_, req) =>
        some { s with sessions := s.sessions ++ [⟨false, req, fun _ => none, false⟩] }
      | .error _ => none
    | none => none
  | .join k p nodeList rnd =>
    let node := s.nodes p
    match s.sessions[k]?, node.st.shard with
    | some sess, some shard =>
      match startDealer B D node.st nodeList sess.req rnd with
      | .ok (ownId, participant, _) =>
        if sess.genesis = false ∧ (sess.members ownId).isNone then
          some (s.setSession k (sess.setMember ownId
            ⟨p, participant, some (shard, node.origin), node.st.groupPubkey, true⟩))
        else none
      | .error _ => none
    | _, _ => none
  | .ready k =>
    match s.sessions[k]? with
    | some sess =>
      if sess.ready = false ∧ sess.allIn then some (s.setSession k { sess with ready := true })
      else none
    | none => none
  | .complete k i blob =>
    match s.sessions[k]? with
    | some sess =>
      match sess.members i with
      | some m => if sess.ready ∧ m.running then some (s.finish B D k sess i m blob) else none
      | none => none
    | none => none
  | .abort k i =>
    match s.sessions[k]? with
    | some sess =>
      match sess.members i with
      | some m =>
        if m.running then
          some ((s.setSession k (sess.setMember i { m with running := false })).setNode m.addr
            { s.nodes m.addr with task := (s.nodes m.addr).task.leave k })
        else none
      | none => none
    | none => none

end System

/-- The genesis session with everyone in it, and what gossip has left in the tables by then. -/
structure Founding (F R P : Type) [Field F] (D : Gennaro F R P) where
  appId : String
  threshold : ℕ
  nodeList : List Address
  config : Address → Config
  clock : ℤ
  table : Address → PeerTable
  participant : ℕ → P
  config_threshold : ∀ p, (config p).threshold = threshold
  contributes : ∀ i, ∃ c, ContributesPoly D (participant i) threshold c

namespace Founding

variable {F R P : Type} [Field F] {D : Gennaro F R P} (g : Founding F R P D)

/-- Genesis is `SecretParticipant::new` at every position of the nodeList. -/
def session : Session P where
  genesis := true
  req := ⟨"genesis:" ++ g.appId, 0, List.range' 1 g.nodeList.length, 1⟩
  members i := if i = 0 then none else g.nodeList[i - 1]?.map fun addr =>
    ⟨addr, g.participant i, none, none, true⟩
  ready := true

def init : State P where
  clock := g.clock
  nodes p := { Node.start (g.config p) p [] with
    st := { AppState.new (g.config p) p with peerTable := g.table p }
    task := if p ∈ g.nodeList then .session 0 else .idle }
  sessions := [g.session]
  commits := []

end Founding

-- ════════════════════════════════════════════════════════════════════════
-- What a step can do
-- ════════════════════════════════════════════════════════════════════════

/-- The node holds and has sealed what it did before. -/
structure Kept (node node' : Node) : Prop where
  config : node'.st.config = node.st.config
  shard : node'.st.shard = node.st.shard
  key : node'.st.groupPubkey = node.st.groupPubkey
  origin : node'.origin = node.origin
  sealedShares : node'.sealedShares = node.sealedShares
  assembled : ∀ a ∈ node'.assembled, a ∈ node.assembled ∨ a.config = node.st.config

theorem Kept.refl (node : Node) : Kept node node :=
  ⟨rfl, rfl, rfl, rfl, rfl, fun _ ha => .inl ha⟩

theorem kept_update (nodes : Address → Node) {p : Address} {node : Node}
    (h : Kept (nodes p) node) (q : Address) : Kept (nodes q) (Function.update nodes p node q) := by
  by_cases hq : q = p
  · subst hq
    rwa [Function.update_self]
  · rw [Function.update_of_ne hq]
    exact .refl _

section Moves

variable {F G₁ G₂ R P : Type} [Field F] [AddCommGroup G₁] [Module F G₁]

/-- A session a node may open. -/
inductive Opens (D : Gennaro F R P) (s : State P) : Session P → Prop
  | recovery {p : Address} {a : Assembled} {rnd : R} {req : ReshareRequest} {participant : P}
      {dealers : List SessionPeer} (ha : a ∈ (s.nodes p).assembled)
      (h : startRecovery D (s.nodes p).st a.membership s.clock rnd =
        .ok (req, participant, dealers)) :
      Opens D s ⟨false, req, Function.update (fun _ => none) a.membership.ownId
        (some ⟨p, participant, none, (s.nodes p).st.groupPubkey, true⟩), false⟩
  | refresh {p : Address} {a : Assembled} {req : ReshareRequest} {peers : List SessionPeer}
      (ha : a ∈ (s.nodes p).assembled)
      (h : refreshRequest (s.nodes p).st (.ok (some a.membership)) s.clock = .ok (peers, req)) :
      Opens D s ⟨false, req, fun _ => none, false⟩

/-- The ways a step can change what the nodes hold and who is in which session. -/
inductive Moves (B : Blsful F G₁ G₂) (D : Gennaro F R P) (s : State P) :
    Label R → State P → Prop
  | quiet {l : Label R} {s' : State P} (hnodes : ∀ p, Kept (s.nodes p) (s'.nodes p))
      (hsessions : s'.sessions = s.sessions) (hcommits : s'.commits = s.commits) :
      Moves B D s l s'
  | crash {p : Address} :
      Moves B D s (.crash p)
        { s.setNode p (Node.start (s.nodes p).st.config p (s.nodes p).sealedShares) with
          sessions := s.sessions.map (·.stop p) }
  | reload {p : Address} {n : ℕ} {node : Node} {rec : SealedShare}
      (hrec : rec ∈ (s.nodes p).sealedShares) (hconfig : node.st.config = (s.nodes p).st.config)
      (hshard : node.st.shard = some rec.shard) (hkey : node.st.groupPubkey = some rec.masterId)
      (horigin : node.origin = rec.origin)
      (hsealed : node.sealedShares = (s.nodes p).sealedShares)
      (hassembled : node.assembled = (s.nodes p).assembled) :
      Moves B D s (.reload p n) (s.setNode p node)
  | opens {l : Label R} {s' : State P} {sess : Session P} (hopens : Opens D s sess)
      (hnodes : ∀ p, Kept (s.nodes p) (s'.nodes p)) (hsessions : s'.sessions = s.sessions ++ [sess])
      (hcommits : s'.commits = s.commits) : Moves B D s l s'
  | join {k : ℕ} {p : Address} {nodeList : List Address} {rnd : R} {sess : Session P}
      {shard : ShardState} {ownId : ℕ} {participant : P} {peers : List SessionPeer}
      (hsess : s.sessions[k]? = some sess)
      (hshard : (s.nodes p).st.shard = some shard)
      (hstart : startDealer B D (s.nodes p).st nodeList sess.req rnd =
        .ok (ownId, participant, peers))
      (hgenesis : sess.genesis = false) (hfree : sess.members ownId = none) :
      Moves B D s (.join k p nodeList rnd) (s.setSession k (sess.setMember ownId
        ⟨p, participant, some (shard, (s.nodes p).origin), (s.nodes p).st.groupPubkey, true⟩))
  | ready {k : ℕ} {sess : Session P} (hsess : s.sessions[k]? = some sess)
      (hall : sess.allIn = true) :
      Moves B D s (.ready k) (s.setSession k { sess with ready := true })
  | commits {k i : ℕ} {blob : Option String} {sess : Session P} {m : Member P} {node : Node}
      (hsess : s.sessions[k]? = some sess) (hm : sess.members i = some m)
      (hready : sess.ready = true) (hrunning : m.running = true)
      (hkeeps : sess.genesis = true ∨
        keepsGroupKey (s.nodes m.addr).st.groupPubkey (sess.key B D) = true)
      (hconfig : node.st.config = (s.nodes m.addr).st.config)
      (hshard : node.st.shard = some (sessionShard B i sess.req.epoch (sess.value D (i : F))))
      (hkey : node.st.groupPubkey = some (sess.key B D)) (horigin : node.origin = k)
      (hsealed : node.sealedShares = addSealed (s.nodes m.addr).sealedShares
        (sessionShard B i sess.req.epoch (sess.value D (i : F))) (sess.key B D) k blob)
      (hassembled : node.assembled = (s.nodes m.addr).assembled) :
      Moves B D s (.complete k i blob)
        { (s.setSession k (sess.setMember i { m with running := false })).setNode m.addr node with
          commits := ⟨m.addr, k, sess.key B D⟩ :: s.commits }
  | stops {l : Label R} {s' : State P} {k i : ℕ} {sess : Session P} {m : Member P}
      (hnodes : ∀ p, Kept (s.nodes p) (s'.nodes p)) (hsess : s.sessions[k]? = some sess)
      (hm : sess.members i = some m)
      (hsessions : s'.sessions =
        (s.setSession k (sess.setMember i { m with running := false })).sessions)
      (hcommits : s'.commits = s.commits) : Moves B D s l s'

/-- The guard, and what is stored when it passes. -/
theorem finish_eq_ok {B : Blsful F G₁ G₂} {D : Gennaro F R P} {sess : Session P} {i : ℕ}
    {st st' : AppState} {blob : Option String} (h : sess.finish B D i st blob = .ok st') :
    (sess.genesis = true ∨ keepsGroupKey st.groupPubkey (sess.key B D) = true) ∧
      st' = storeShare st (sessionShard B i sess.req.epoch (sess.value D (i : F)))
        (sess.key B D) blob := by
  unfold Session.finish at h
  split at h
  · next hgenesis =>
    cases h
    exact ⟨.inl hgenesis, rfl⟩
  · split at h
    · obtain ⟨hkeeps, hst'⟩ := finishSession_eq_ok.mp h
      exact ⟨.inr hkeeps, hst'⟩
    · obtain ⟨hkeeps, hst'⟩ := finishSession_eq_ok.mp h
      exact ⟨.inr hkeeps, hst'⟩

variable {B : Blsful F G₁ G₂} {D : Gennaro F R P}

theorem moves_finish {s : State P} {k i : ℕ} {blob : Option String} {sess : Session P}
    {m : Member P} (hsess : s.sessions[k]? = some sess) (hm : sess.members i = some m)
    (hready : sess.ready = true) (hrunning : m.running = true) :
    Moves B D s (.complete k i blob) (s.finish B D k sess i m blob) := by
  unfold State.finish
  dsimp only
  split
  · next st hfinish =>
    obtain ⟨hkeeps, rfl⟩ := finish_eq_ok hfinish
    exact .commits hsess hm hready hrunning hkeeps rfl rfl rfl rfl rfl rfl
  · refine .stops (fun q => ?_) hsess hm rfl rfl
    refine kept_update s.nodes ?_ q
    exact ⟨rfl, rfl, rfl, rfl, rfl, fun _ ha => .inl ha⟩

section Labels

variable {pubkeyOf : Address → Bytes} {s s' : State P} {p : Address}

theorem moves_of_gossipPush {q : Address}
    (h : step B D pubkeyOf s (.gossipPush p q) = some s') : Moves B D s (.gossipPush p q) s' := by
  simp only [step] at h
  split at h
  · split at h
    · next hcond =>
      cases h
      refine .quiet (fun r => ?_) rfl rfl
      by_cases hr : r = p
      · subst hr
        simp only [State.setNode, Function.update_self]
        exact ⟨rfl, rfl, rfl, rfl, rfl, fun _ ha => .inl ha⟩
      · simp only [State.setNode, Function.update_of_ne hr]
        refine kept_update s.nodes ?_ r
        exact ⟨rfl, rfl, rfl, rfl, rfl, fun _ ha => .inl ha⟩
    · cases h
  · cases h

theorem moves_of_reload {n : ℕ} (h : step B D pubkeyOf s (.reload p n) = some s') :
    Moves B D s (.reload p n) s' := by
  simp only [step] at h
  split at h
  · next rec hrec =>
    split at h
    · cases h
      exact .reload (List.mem_of_getElem? hrec) rfl rfl rfl rfl rfl rfl
    · cases h
  · cases h

theorem moves_of_assemble {nodeList : List Address}
    (h : step B D pubkeyOf s (.assemble p nodeList) = some s') :
    Moves B D s (.assemble p nodeList) s' := by
  simp only [step] at h
  split at h
  · split at h
    · cases h
      refine .quiet (kept_update s.nodes ⟨rfl, rfl, rfl, rfl, rfl, fun a ha => ?_⟩) rfl rfl
      rcases List.mem_cons.mp ha with rfl | hold
      · exact .inr rfl
      · exact .inl hold
    · cases h
  · cases h

theorem moves_of_recover {n : ℕ} {seed : String} {rnd : R}
    (h : step B D pubkeyOf s (.recover p n seed rnd) = some s') :
    Moves B D s (.recover p n seed rnd) s' := by
  simp only [step] at h
  split at h
  · next a ha =>
    split at h
    · split at h
      · next hstart =>
        cases h
        exact .opens (.recovery (List.mem_of_getElem? ha) hstart)
          (kept_update s.nodes ⟨rfl, rfl, rfl, rfl, rfl, fun _ ha => .inl ha⟩) rfl rfl
      · cases h
        exact .quiet (kept_update s.nodes ⟨rfl, rfl, rfl, rfl, rfl, fun _ ha => .inl ha⟩) rfl rfl
    · cases h
  · cases h

theorem moves_of_refresh {n : ℕ} (h : step B D pubkeyOf s (.refresh p n) = some s') :
    Moves B D s (.refresh p n) s' := by
  simp only [step] at h
  split at h
  · next a ha =>
    split at h
    · next hreq =>
      cases h
      exact .opens (.refresh (List.mem_of_getElem? ha) hreq) (fun _ => .refl _) rfl rfl
    · cases h
  · cases h

theorem moves_of_join {k : ℕ} {nodeList : List Address} {rnd : R}
    (h : step B D pubkeyOf s (.join k p nodeList rnd) = some s') :
    Moves B D s (.join k p nodeList rnd) s' := by
  simp only [step] at h
  split at h
  · next sess shard hsess hshard =>
    split at h
    · next hstart =>
      split at h
      · next hcond =>
        cases h
        exact .join hsess hshard hstart hcond.1 (Option.isNone_iff_eq_none.mp hcond.2)
      · cases h
    · cases h
  · cases h

theorem moves_of_ready {k : ℕ} (h : step B D pubkeyOf s (.ready k) = some s') :
    Moves B D s (.ready k) s' := by
  simp only [step] at h
  split at h
  · next sess hsess =>
    split at h
    · next hcond =>
      cases h
      exact .ready hsess hcond.2
    · cases h
  · cases h

theorem moves_of_complete {k i : ℕ} {blob : Option String}
    (h : step B D pubkeyOf s (.complete k i blob) = some s') :
    Moves B D s (.complete k i blob) s' := by
  simp only [step] at h
  split at h
  · next sess hsess =>
    split at h
    · next m hm =>
      split at h
      · next hcond =>
        cases h
        exact moves_finish hsess hm hcond.1 hcond.2
      · cases h
    · cases h
  · cases h

theorem moves_of_abort {k i : ℕ} (h : step B D pubkeyOf s (.abort k i) = some s') :
    Moves B D s (.abort k i) s' := by
  simp only [step] at h
  split at h
  · next sess hsess =>
    split at h
    · next m hm =>
      split at h
      · cases h
        refine .stops (fun q => ?_) hsess hm rfl rfl
        refine kept_update s.nodes ?_ q
        exact ⟨rfl, rfl, rfl, rfl, rfl, fun _ ha => .inl ha⟩
      · cases h
    · cases h
  · cases h

theorem moves_of_step {l : Label R} (h : step B D pubkeyOf s l = some s') :
    Moves B D s l s' := by
  cases l with
  | tick secs =>
    cases h
    exact .quiet (fun _ => .refl _) rfl rfl
  | gossipStart p | gossipMerge p | gossipLost p | gossipDone p | boot p | watch p =>
    simp only [step] at h
    split at h
    · cases h
      exact .quiet (kept_update s.nodes ⟨rfl, rfl, rfl, rfl, rfl, fun _ ha => .inl ha⟩) rfl rfl
    · cases h
  | gossipPush p q => exact moves_of_gossipPush h
  | crash p =>
    cases h
    exact .crash
  | reload p n => exact moves_of_reload h
  | assemble p nodeList => exact moves_of_assemble h
  | recover p n seed rnd => exact moves_of_recover h
  | refresh p n => exact moves_of_refresh h
  | join k p nodeList rnd => exact moves_of_join h
  | ready k => exact moves_of_ready h
  | complete k i blob => exact moves_of_complete h
  | abort k i => exact moves_of_abort h

end Labels

end Moves

end KmsCluster.Cluster
