import KmsCluster.Derive
import KmsCluster.MasterPreserved
import KmsCluster.Process

/-!
# The cluster as a key service

Derivations run while the cluster lives on: a coordinator reads its share when it starts, its peers
answer from whatever share they hold when they are asked, answers are under way for any time, and
the group public key is read at the end. Nodes crash, reload and reshare in between.

What all this is for is stated apart from it: an oracle with one master secret that answers every
request for an app id and a material with one key.

## Main results

- `keys_from_master`: what the nodes release, an oracle with the genesis secret releases.
- `derives_served`: while nobody forges answers, a derivation yields a key as soon as one epoch has
  a threshold of distinct contributors, and only then.
-/

namespace KmsCluster.KeyService

open Cluster Fallible Polynomial Runs

/-- An app key handed out by a node. -/
structure Release where
  addr : Address
  appId : String
  material : Bytes
  key : Bytes

section Oracle

variable {F G₁ G₂ : Type} [SMul F G₂] (B : Blsful F G₁ G₂)

/-- The key of an app id and a material under a master secret. -/
def oracleKey (master : F) (appId : String) (material : Bytes) : Bytes :=
  sigmaToAppKey B (master • B.hashToCurve (dprfMessage appId material))

/-- The oracle answers one request. -/
def oracleStep (master : F) (released : List Release) (request : Address × String × Bytes) :
    Option (List Release) :=
  some (⟨request.1, request.2.1, request.2.2, oracleKey B master request.2.1 request.2.2⟩ ::
    released)

end Oracle

-- ════════════════════════════════════════════════════════════════════════
-- The nodes
-- ════════════════════════════════════════════════════════════════════════

/-- A `collect_and_dprf` under way. -/
structure Derive where
  addr : Address
  /-- The coordinator's share, read at the start. -/
  own : ShardState
  appId : String
  material : Bytes
  signature : Bytes
  /-- Answers under way. -/
  pending : List PartialReply
  /-- Answers the collection loop has taken, in order. -/
  heard : List PartialReply

structure State (P : Type) where
  cluster : Cluster.State P
  derives : List Derive
  released : List Release

inductive Event (R : Type) where
  | cluster (l : Label R)
  /-- A request reaches node `p`, which signs it for its peers. -/
  | derive (p : Address) (appId : String) (material signature : Bytes)
  /-- The handler at `q` answers derivation `n`. -/
  | answer (n : ℕ) (q : Address)
  /-- Anything else that derivation `n` may take for an answer, also a failed call. -/
  | forge (n : ℕ) (reply : PartialReply)
  | hear (n i : ℕ)
  | combine (n : ℕ)
  | drop (n : ℕ)

/-- One more answer is under way. -/
def Derive.send (d : Derive) (reply : PartialReply) : Derive :=
  { d with pending := reply :: d.pending }

/-- The collection loop takes the `i`-th answer under way. -/
def Derive.hear (d : Derive) (i : ℕ) (reply : PartialReply) : Derive :=
  { d with pending := d.pending.eraseIdx i, heard := d.heard ++ [reply] }

/-- The requests of a process end with it. -/
def Derive.survives {R : Type} (d : Derive) : Label R → Bool
  | .crash p => d.addr ≠ p
  | _ => true

/-- The shard indices heard at an epoch, with the coordinator's own. -/
def Derive.contributors (d : Derive) (epoch : ℕ) : Finset ℕ :=
  ((((d.own.shardIndex, d.own.epoch) :: d.heard.filterMap fun reply =>
    reply.toOption.map fun r => (r.1, r.2.2)).filter (·.2 = epoch)).map (·.1)).toFinset

section System

variable {F G₁ G₂ R P : Type} [Field F] [AddCommGroup G₁] [Module F G₁] (B : Blsful F G₁ G₂)
  (D : Gennaro F R P)

/-- What `collect_and_dprf` returns when its loop ends now. -/
def Derive.outcome (d : Derive) (st : AppState) : Except KmsError (Bytes × DeriveTrace) :=
  collectAndDprf B st.config.threshold (some d.own) (.ok d.signature) d.heard st.groupPubkey
    d.appId d.material

def step (pubkeyOf : Address → Bytes) (s : State P) : Event R → Option (State P)
  | .cluster l => (Cluster.step B D pubkeyOf s.cluster l).map fun c =>
    { s with cluster := c, derives := s.derives.filter (·.survives l) }
  | .derive p appId material signature =>
    (s.cluster.nodes p).st.shard.map fun own =>
      { s with derives := ⟨p, own, appId, material, signature, [], []⟩ :: s.derives }
  | .answer n q => (s.derives[n]?).map fun d =>
    let reply := getDprfPartial B (s.cluster.nodes q).st.shard d.appId d.material
    { s with derives := s.derives.set n (d.send reply) }
  | .forge n reply => (s.derives[n]?).map fun d =>
    { s with derives := s.derives.set n (d.send reply) }
  | .hear n i => (s.derives[n]?).bind fun d => (d.pending[i]?).map fun reply =>
    { s with derives := s.derives.set n (d.hear i reply) }
  | .combine n => (s.derives[n]?).map fun d =>
    let rest := { s with derives := s.derives.eraseIdx n }
    match d.outcome B (s.cluster.nodes d.addr).st with
    | .ok (key, _) => { rest with released := ⟨d.addr, d.appId, d.material, key⟩ :: s.released }
    | .error _ => rest
  | .drop n => (s.derives[n]?).map fun _ => { s with derives := s.derives.eraseIdx n }

end System

def init {F R P : Type} [Field F] {D : Gennaro F R P} (g : Founding F R P D) : State P :=
  ⟨g.init, [], []⟩

section Moves

variable {F G₁ G₂ R P : Type} [Field F] [AddCommGroup G₁] [Module F G₁]

/-- Where a derivation comes from. -/
inductive DeriveMoves (B : Blsful F G₁ G₂) (s : State P) (e : Event R) (d' : Derive) : Prop
  | kept (h : d' ∈ s.derives)
  | started {p : Address} {own : ShardState} {appId : String} {material signature : Bytes}
      (hshard : (s.cluster.nodes p).st.shard = some own)
      (h : d' = ⟨p, own, appId, material, signature, [], []⟩)
  | answered {d : Derive} {q : Address} (hd : d ∈ s.derives)
      (h : d' = d.send (getDprfPartial B (s.cluster.nodes q).st.shard d.appId d.material))
  | forged {n : ℕ} {d : Derive} {reply : PartialReply} (he : e = .forge n reply)
      (hd : d ∈ s.derives) (h : d' = d.send reply)
  | heard {i : ℕ} {d : Derive} {reply : PartialReply} (hd : d ∈ s.derives)
      (hreply : reply ∈ d.pending) (h : d' = d.hear i reply)

inductive Moves (B : Blsful F G₁ G₂) (D : Gennaro F R P) (pubkeyOf : Address → Bytes)
    (s : State P) : Event R → State P → Prop
  | cluster {l : Label R} {c : Cluster.State P}
      (h : Cluster.step B D pubkeyOf s.cluster l = some c) :
      Moves B D pubkeyOf s (.cluster l)
        { s with cluster := c, derives := s.derives.filter (·.survives l) }
  | derives {e : Event R} {ds : List Derive} (h : ∀ d' ∈ ds, DeriveMoves B s e d') :
      Moves B D pubkeyOf s e { s with derives := ds }
  | releases {n : ℕ} {d : Derive} {key : Bytes} {trace : DeriveTrace} (hd : d ∈ s.derives)
      (hok : d.outcome B (s.cluster.nodes d.addr).st = .ok (key, trace)) :
      Moves B D pubkeyOf s (.combine n)
        { s with
          derives := s.derives.eraseIdx n
          released := ⟨d.addr, d.appId, d.material, key⟩ :: s.released }

variable {B : Blsful F G₁ G₂} {D : Gennaro F R P} {pubkeyOf : Address → Bytes} {s s' : State P}
  {e : Event R}

omit [Field F] [AddCommGroup G₁] [Module F G₁] in
theorem deriveMoves_set {n : ℕ} {new : Derive} (hnew : DeriveMoves B s e new) :
    ∀ d' ∈ s.derives.set n new, DeriveMoves B s e d' := by
  intro d' hd'
  rcases List.mem_or_eq_of_mem_set hd' with hold | rfl
  · exact .kept hold
  · exact hnew

theorem moves_of_step (h : step B D pubkeyOf s e = some s') : Moves B D pubkeyOf s e s' := by
  have herased : ∀ n, ∀ d' ∈ s.derives.eraseIdx n, DeriveMoves B s e d' :=
    fun n d' hd' => .kept (List.mem_of_mem_eraseIdx hd')
  cases e with
  | cluster l =>
    obtain ⟨c, hc, rfl⟩ := Option.map_eq_some_iff.mp h
    exact .cluster hc
  | derive p appId material signature =>
    obtain ⟨own, hshard, rfl⟩ := Option.map_eq_some_iff.mp h
    refine .derives fun d' hd' => ?_
    rcases List.mem_cons.mp hd' with rfl | hold
    · exact .started hshard rfl
    · exact .kept hold
  | answer n q =>
    obtain ⟨d, hd, rfl⟩ := Option.map_eq_some_iff.mp h
    exact .derives (deriveMoves_set (.answered (List.mem_of_getElem? hd) rfl))
  | forge n reply =>
    obtain ⟨d, hd, rfl⟩ := Option.map_eq_some_iff.mp h
    exact .derives (deriveMoves_set (.forged rfl (List.mem_of_getElem? hd) rfl))
  | hear n i =>
    obtain ⟨d, hd, h⟩ := Option.bind_eq_some_iff.mp h
    obtain ⟨reply, hreply, rfl⟩ := Option.map_eq_some_iff.mp h
    exact .derives (deriveMoves_set
      (.heard (List.mem_of_getElem? hd) (List.mem_of_getElem? hreply) rfl))
  | combine n =>
    obtain ⟨d, hd, rfl⟩ := Option.map_eq_some_iff.mp h
    dsimp only
    split
    · next hok => exact .releases (List.mem_of_getElem? hd) hok
    · exact .derives (herased n)
  | drop n =>
    obtain ⟨_, -, rfl⟩ := Option.map_eq_some_iff.mp h
    exact .derives (herased n)

end Moves

-- ════════════════════════════════════════════════════════════════════════
-- The keys
-- ════════════════════════════════════════════════════════════════════════

/-- The cluster steps are sound. -/
def SoundStep {R P : Type} (s : State P) : Event R → Prop
  | .cluster l => Sound s.cluster l
  | _ => True

section Keys

variable {F G₁ G₂ R P : Type} [Field F] [DecidableEq F] [AddCommGroup G₁] [Module F G₁]
  {B : Blsful F G₁ G₂} {D : Gennaro F R P} {pubkeyOf : Address → Bytes} {s s' : State P}
  {e : Event R}

/-- The cluster below keeps its invariants. -/
structure Below (B : Blsful F G₁ G₂) (D : Gennaro F R P) (t : ℕ) (key : Bytes)
    (c : Cluster.State P) : Prop where
  inv : Inv B D c
  master : MasterInv B D t key c

theorem below_init (g : Founding F R P D) :
    Below B D g.threshold (g.session.key B D) g.init :=
  ⟨inv_init g, master_init g⟩

variable [AddCommGroup G₂] [Module F G₂]

theorem Below.step (hB : B.Lawful) (hD : D.Lawful) {t : ℕ} {key : Bytes} {c c' : Cluster.State P}
    {l : Label R} (h : Below B D t key c) (hsound : Sound c l)
    (hstep : Cluster.step B D pubkeyOf c l = some c') : Below B D t key c' := by
  have hmoves := Cluster.moves_of_step hstep
  exact ⟨h.inv.step hmoves, h.master.step hB hD h.inv hsound hmoves⟩

/-- A derivation that succeeds at a node of the cluster yields the key of the oracle, whatever its
    coordinator heard. -/
theorem Below.outcome_eq (hB : B.Lawful) {t : ℕ} {master : F} {c : Cluster.State P}
    (h : Below B D t (B.pubkeyToBytes (master • B.generator)) c) {d : Derive} {key : Bytes}
    {trace : DeriveTrace} (hok : d.outcome B (c.nodes d.addr).st = .ok (key, trace)) :
    key = oracleKey B master d.appId d.material := by
  obtain ⟨sigma, pk, hpk, hverify, rfl⟩ := Process.collectAndDprf_verified hok
  rw [h.master.node d.addr pk hpk, hB.dprfVerify_iff] at hverify
  rw [hverify, oracleKey]

/-- In every run of the cluster in which nodes without a group key only recover from dealers with
    shares of one session, everything released is what the oracle with the genesis secret
    releases, whatever the coordinators were told. -/
theorem keys_from_master (hB : B.Lawful) (hD : D.Lawful) (g : Founding F R P D)
    (pubkeyOf : Address → Bytes) (events : List (Event R)) (s : State P)
    (hrun : exec (step B D pubkeyOf) (init g) events = some s)
    (hsound : Meets (step B D pubkeyOf) SoundStep (init g) events) :
    ∃ requests, exec (oracleStep B (g.session.value D 0)) [] requests = some s.released := by
  have hsim : ∀ (s : State P) (log : List Release) (e : Event R) (s' : State P),
      (Below B D g.threshold (g.session.key B D) s.cluster ∧ log = s.released) →
      SoundStep s e → step B D pubkeyOf s e = some s' →
      ∃ requests log', exec (oracleStep B (g.session.value D 0)) log requests = some log' ∧
        Below B D g.threshold (g.session.key B D) s'.cluster ∧ log' = s'.released := by
    rintro s _ e s' ⟨hbelow, rfl⟩ hl hstep
    cases moves_of_step hstep with
    | cluster hc => exact ⟨[], _, rfl, hbelow.step hB hD hl hc, rfl⟩
    | derives _ => exact ⟨[], _, rfl, hbelow, rfl⟩
    | @releases _ d key _ _ hok =>
      have hkey := hbelow.outcome_eq hB hok
      refine ⟨[(d.addr, d.appId, d.material)], _, rfl, hbelow, ?_⟩
      rw [hkey]
  obtain ⟨requests, log, hlog, -, rfl⟩ :=
    exec_simulates_of_meets hsim ⟨below_init g, rfl⟩ hsound hrun
  exact ⟨requests, hlog⟩

end Keys

-- ════════════════════════════════════════════════════════════════════════
-- When a key comes out
-- ════════════════════════════════════════════════════════════════════════

/-- No session gets its last participant with the epoch of an earlier one. -/
def NewEpoch {R P : Type} (s : Cluster.State P) : Label R → Prop
  | .ready k => ∀ sess, s.sessions[k]? = some sess → ∀ used ∈ s.sessions, used.ready = true →
    used.req.epoch ≠ sess.req.epoch
  | _ => True

/-- The cluster steps are sound and take new epochs, and nobody forges an answer. -/
def Healthy {R P : Type} (s : State P) : Event R → Prop
  | .cluster l => Sound s.cluster l ∧ NewEpoch s.cluster l
  | .forge _ (.ok _) => False
  | _ => True

section Epochs

variable {F G₁ G₂ R P : Type} [Field F] [AddCommGroup G₁] [Module F G₁] {B : Blsful F G₁ G₂}
  {D : Gennaro F R P} {s s' : Cluster.State P} {l : Label R}

/-- Sessions that had everyone in have different epochs, and positions are 32-bit. -/
structure Epochs (s : Cluster.State P) : Prop where
  distinct : ∀ (j k : ℕ) (a b : Session P), s.sessions[j]? = some a → s.sessions[k]? = some b →
    a.ready = true → b.ready = true → a.req.epoch = b.req.epoch → j = k
  bound : ∀ sess ∈ s.sessions, ∀ i ∈ sess.req.participantIds, i < 2 ^ 32
  held : ∀ p shard, (s.nodes p).st.shard = some shard → shard.shardIndex < 2 ^ 32
  kept : ∀ p, ∀ rec ∈ (s.nodes p).sealedShares, rec.shard.shardIndex < 2 ^ 32

omit [Field F] in
theorem opens_bound {t : ℕ} (hassembled : ∀ p, ∀ a ∈ (s.nodes p).assembled, a.config.threshold = t)
    {sess : Session P} (h : Opens D s sess) {i : ℕ} (hi : i ∈ sess.req.participantIds) :
    i < 2 ^ 32 := by
  rcases mem_participantIds.mp hi with hdealer | ⟨hne, rfl⟩
  · exact (h.requestOk hassembled).bound i hdealer
  · cases h with
    | @recovery _ a _ _ _ _ _ hstart =>
      obtain ⟨hreq, -⟩ := startRecovery_eq_ok hstart
      obtain ⟨-, hrecovering, -⟩ := recoveryRequest_eq_ok hreq
      obtain ⟨nodeList, config, m, hbound, st, now, hconfig, hassemble⟩ := a
      obtain ⟨members, hmembers, -, hposition, -⟩ := assembleParticipants_eq_some hassemble
      cases hmembers
      obtain ⟨hpos, haddr⟩ := positionOf_eq_some hposition
      have hlt := (List.getElem?_eq_some_iff.mp haddr).1
      dsimp only
      rw [hrecovering]
      dsimp only
      omega
    | refresh _ hreq =>
      obtain ⟨_, _, -, -, -, -, hrecovering, -⟩ := refreshRequest_eq_ok hreq
      exact absurd hrecovering hne

theorem ready_of_moves (hmoves : Cluster.Moves B D s l s') {k : ℕ} {sess' : Session P}
    (hsess' : s'.sessions[k]? = some sess') (hready : sess'.ready = true) :
    ∃ sess, s.sessions[k]? = some sess ∧ sess'.req = sess.req ∧
      (sess.ready = true ∨ l = .ready k) := by
  cases hmoves.session hsess' with
  | narrows hsess h => exact ⟨_, hsess, h.req, .inl (h.ready ▸ hready)⟩
  | opened _ hopens =>
    rw [hopens.facts.2.1] at hready
    cases hready
  | joined hsess _ _ _ _ h =>
    subst h
    exact ⟨_, hsess, rfl, .inl hready⟩
  | becameReady hl hsess _ h =>
    subst h
    exact ⟨_, hsess, rfl, .inr hl⟩

theorem Epochs.step {t : ℕ}
    (hassembled : ∀ p, ∀ a ∈ (s.nodes p).assembled, a.config.threshold = t) (hinv : Inv B D s)
    (h : Epochs s) (hnew : NewEpoch s l) (hmoves : Cluster.Moves B D s l s') : Epochs s' := by
  refine ⟨?_, ?_, ?_, ?_⟩
  · intro j k a' b' ha' hb' hready hready' hepoch
    obtain ⟨a, ha, hreqa, hoa⟩ := ready_of_moves hmoves ha' hready
    obtain ⟨b, hb, hreqb, hob⟩ := ready_of_moves hmoves hb' hready'
    rw [hreqa, hreqb] at hepoch
    rcases hoa with hra | rfl
    · rcases hob with hrb | rfl
      · exact h.distinct j k a b ha hb hra hrb hepoch
      · exact absurd hepoch (hnew b hb a (List.mem_of_getElem? ha) hra)
    · rcases hob with hrb | hl
      · exact absurd hepoch.symm (hnew a ha b (List.mem_of_getElem? hb) hrb)
      · cases hl
        rfl
  · intro sess' hsess' i hi
    obtain ⟨k, hk⟩ := List.getElem?_of_mem hsess'
    cases hmoves.session hk with
    | narrows hsess hn => exact h.bound _ (List.mem_of_getElem? hsess) i (hn.req ▸ hi)
    | opened _ hopens => exact opens_bound hassembled hopens hi
    | joined hsess _ _ _ _ heq =>
      subst heq
      exact h.bound _ (List.mem_of_getElem? hsess) i hi
    | becameReady _ hsess _ heq =>
      subst heq
      exact h.bound _ (List.mem_of_getElem? hsess) i hi
  · intro p shard hshard
    cases hmoves.node p with
    | kept hsame => exact h.held p shard (hsame.shard ▸ hshard)
    | crashed _ hnone =>
      rw [hnone] at hshard
      cases hshard
    | reloaded hrec _ hnew =>
      cases Option.some.inj (hnew.symm.trans hshard)
      exact h.kept p _ hrec
    | @committed k i _ sess m _ hsess hm _ _ _ _ _ hnew =>
      cases Option.some.inj (hnew.symm.trans hshard)
      exact h.bound sess (List.mem_of_getElem? hsess) i (hinv.ids k sess i hsess (by simp [hm]))
  · intro p rec hrec
    cases hmoves.node p with
    | kept hsame => exact h.kept p rec (hsame.sealedShares ▸ hrec)
    | crashed _ _ _ hsealed => exact h.kept p rec (hsealed ▸ hrec)
    | reloaded _ _ _ _ _ hsealed => exact h.kept p rec (hsealed ▸ hrec)
    | @committed k i _ sess m _ hsess hm _ _ _ _ _ _ _ _ hsealed =>
      rw [hsealed] at hrec
      rcases mem_addSealed hrec with ⟨hshard, -, -⟩ | hold
      · rw [hshard]
        exact h.bound sess (List.mem_of_getElem? hsess) i (hinv.ids k sess i hsess (by simp [hm]))
      · exact h.kept p rec hold

theorem epochs_init (g : Founding F R P D) (hbound : g.nodeList.length < 2 ^ 32) :
    Epochs g.init := by
  have hzero : ∀ {k : ℕ} {sess : Session P}, g.init.sessions[k]? = some sess → k = 0 := by
    intro k sess hsess
    have hlt := (List.getElem?_eq_some_iff.mp hsess).1
    simp only [Founding.init, List.length_singleton] at hlt
    omega
  refine ⟨?_, ?_, ?_, ?_⟩
  · intro j k a b ha hb _ _ _
    rw [hzero ha, hzero hb]
  · intro sess hsess i hi
    rw [List.mem_singleton.mp hsess] at hi
    simp only [Founding.session, ReshareRequest.participantIds] at hi
    simp at hi
    omega
  · intro p shard hshard
    cases hshard
  · intro p rec hrec
    cases hrec

end Epochs

section Service

variable {F G₁ G₂ R P : Type} [Field F] [DecidableEq F] [AddCommGroup G₁] [Module F G₁]
  {B : Blsful F G₁ G₂} {D : Gennaro F R P} {c c' : Cluster.State P} {key : Bytes}

/-- A share that a session with the group key has dealt at a 32-bit position. -/
structure Dealt (B : Blsful F G₁ G₂) (D : Gennaro F R P) (key : Bytes) (c : Cluster.State P)
    (shard : ShardState) : Prop where
  session : ∃ (k : ℕ) (sess : Session P), c.sessions[k]? = some sess ∧ sess.ready = true ∧
    sess.key B D = key ∧ shard =
      sessionShard B shard.shardIndex sess.req.epoch (sess.value D (shard.shardIndex : F))
  index_lt : shard.shardIndex < 2 ^ 32

/-- A failed call, or what a handler made of a share. -/
def Genuine (B : Blsful F G₁ G₂) (D : Gennaro F R P) (key : Bytes) (c : Cluster.State P)
    (d : Derive) (reply : PartialReply) : Prop :=
  (∃ message, reply = .error message) ∨
    ∃ shard, Dealt B D key c shard ∧ reply = getDprfPartial B (some shard) d.appId d.material

structure DeriveOk (B : Blsful F G₁ G₂) (D : Gennaro F R P) (key : Bytes) (c : Cluster.State P)
    (d : Derive) : Prop where
  known : (c.nodes d.addr).st.groupPubkey = some key
  own : Dealt B D key c d.own
  pending : ∀ reply ∈ d.pending, Genuine B D key c d reply
  heard : ∀ reply ∈ d.heard, Genuine B D key c d reply

omit [DecidableEq F] in
theorem Dealt.keeps {shard : ShardState} (h : Dealt B D key c shard) (hkeeps : Keeps D c c') :
    Dealt B D key c' shard := by
  obtain ⟨⟨k, sess, hsess, hready, hkey, hshard⟩, hlt⟩ := h
  obtain ⟨sess', hsess', hready', hreq, hvalue⟩ := hkeeps.session k sess hsess hready
  refine ⟨⟨k, sess', hsess', hready', ?_, ?_⟩, hlt⟩
  · rw [← hkey, Session.key, hvalue, Session.key]
  · rwa [hreq, hvalue]

omit [DecidableEq F] in
theorem Genuine.keeps {d : Derive} {reply : PartialReply} (h : Genuine B D key c d reply)
    (hkeeps : Keeps D c c') : Genuine B D key c' d reply := by
  rcases h with herror | ⟨shard, hdealt, hreply⟩
  · exact .inl herror
  · exact .inr ⟨shard, hdealt.keeps hkeeps, hreply⟩

/-- A share in the hands of a node has been dealt by a session with the group key. -/
theorem Below.dealt {t : ℕ} (h : Below B D t key c) (hepochs : Epochs c) {p : Address}
    {shard : ShardState} (hshard : (c.nodes p).st.shard = some shard) : Dealt B D key c shard := by
  obtain ⟨sess, hsess, hready, hvalue⟩ := (h.inv.held p shard hshard).session
  obtain ⟨-, sess', hsess', -, hkey⟩ := h.master.shard p (by simp [hshard])
  cases Option.some.inj (hsess'.symm.trans hsess)
  exact ⟨⟨_, sess, hsess, hready, hkey, hvalue⟩, hepochs.held p shard hshard⟩

omit [DecidableEq F] in
/-- A node keeps its group key, or some group key, until it crashes. -/
theorem known_of_moves {l : Label R} (h : Cluster.Moves B D c l c') {p : Address}
    (hcrash : l ≠ .crash p) (hknown : (c.nodes p).st.groupPubkey ≠ none) :
    (c'.nodes p).st.groupPubkey ≠ none := by
  have hset : ∀ (q : Address) (node : Node), node.st.groupPubkey ≠ none →
      (Function.update c.nodes q node p).st.groupPubkey ≠ none := by
    intro q node hnode
    by_cases hp : p = q
    · subst hp
      rwa [Function.update_self]
    · rwa [Function.update_of_ne hp]
  cases h with
  | quiet hnodes => exact (hnodes p).key ▸ hknown
  | opens _ hnodes => exact (hnodes p).key ▸ hknown
  | stops hnodes => exact (hnodes p).key ▸ hknown
  | join => exact hknown
  | ready => exact hknown
  | reload _ _ _ hrecKey => exact hset _ _ (by simp [hrecKey])
  | commits _ _ _ _ _ _ _ hnewKey => exact hset _ _ (by simp [hnewKey])
  | @crash q =>
    have hne : p ≠ q := fun hp => hcrash (hp ▸ rfl)
    simpa [Cluster.State.setNode, Function.update_of_ne hne] using hknown

/-- The cluster and all derivations are as they should be. -/
structure Served (B : Blsful F G₁ G₂) (D : Gennaro F R P) (t : ℕ) (key : Bytes) (s : State P) :
    Prop where
  below : Below B D t key s.cluster
  epochs : Epochs s.cluster
  derives : ∀ d ∈ s.derives, DeriveOk B D key s.cluster d

theorem served_init (g : Founding F R P D) (hbound : g.nodeList.length < 2 ^ 32) :
    Served B D g.threshold (g.session.key B D) (init g) :=
  ⟨below_init g, epochs_init g hbound, fun _ hd => by cases hd⟩

/-- What becomes of one derivation. -/
theorem DeriveMoves.ok {t : ℕ} {s : State P} {e : Event R} (h : Served B D t key s)
    (hhealthy : Healthy s e) {d' : Derive} (hmoves : DeriveMoves B s e d') :
    DeriveOk B D key s.cluster d' := by
  cases hmoves with
  | kept hold => exact h.derives d' hold
  | @started p own appId material signature hshard hd' =>
    subst hd'
    obtain ⟨known, hknown⟩ := Option.ne_none_iff_exists'.mp
      (h.below.master.shard p (by simp [hshard])).1
    refine ⟨?_, h.below.dealt h.epochs hshard, fun _ hr => absurd hr List.not_mem_nil,
      fun _ hr => absurd hr List.not_mem_nil⟩
    rw [hknown, h.below.master.node p known hknown]
  | @answered d q hd hd' =>
    subst hd'
    have hok := h.derives d hd
    refine ⟨hok.known, hok.own, fun reply hreply => ?_, hok.heard⟩
    rcases List.mem_cons.mp hreply with rfl | hold
    · cases hshard : (s.cluster.nodes q).st.shard with
      | none => exact .inl ⟨_, rfl⟩
      | some shard => exact .inr ⟨shard, h.below.dealt h.epochs hshard, rfl⟩
    · exact hok.pending reply hold
  | @forged n d reply he hd hd' =>
    subst hd' he
    have hok := h.derives d hd
    refine ⟨hok.known, hok.own, fun reply' hreply => ?_, hok.heard⟩
    rcases List.mem_cons.mp hreply with rfl | hold
    · cases reply' with
      | error message => exact .inl ⟨message, rfl⟩
      | ok _ => exact hhealthy.elim
    · exact hok.pending reply' hold
  | @heard i d reply hd hreply hd' =>
    subst hd'
    have hok := h.derives d hd
    refine ⟨hok.known, hok.own, fun r hr => hok.pending r (List.mem_of_mem_eraseIdx hr), ?_⟩
    intro r hr
    rcases List.mem_append.mp hr with hold | hnew
    · exact hok.heard r hold
    · rw [List.mem_singleton.mp hnew]
      exact hok.pending reply hreply

variable [AddCommGroup G₂] [Module F G₂]

theorem Served.step (hB : B.Lawful) (hD : D.Lawful) {pubkeyOf : Address → Bytes} {t : ℕ}
    {s s' : State P} {e : Event R} (h : Served B D t key s) (hhealthy : Healthy s e)
    (hstep : step B D pubkeyOf s e = some s') : Served B D t key s' := by
  cases moves_of_step hstep with
  | @cluster l c' hc =>
    have hmoves := Cluster.moves_of_step hc
    have hkeeps := hmoves.keeps h.below.inv.full
    have hbelow := h.below.step hB hD hhealthy.1 hc
    refine ⟨hbelow, h.epochs.step h.below.master.assembled h.below.inv hhealthy.2 hmoves,
      fun d hd => ?_⟩
    obtain ⟨hold, hsurvives⟩ := List.mem_filter.mp hd
    have hok := h.derives d hold
    have hcrash : l ≠ .crash d.addr := by
      rintro rfl
      simp [Derive.survives] at hsurvives
    obtain ⟨known, hknown⟩ := Option.ne_none_iff_exists'.mp
      (known_of_moves hmoves hcrash (by simp [hok.known]))
    refine ⟨?_, hok.own.keeps hkeeps, fun r hr => (hok.pending r hr).keeps hkeeps,
      fun r hr => (hok.heard r hr).keeps hkeeps⟩
    rw [hknown, hbelow.master.node _ _ hknown]
  | derives hds => exact ⟨h.below, h.epochs, fun d' hd' => (hds d' hd').ok h hhealthy⟩
  | releases _ _ =>
    exact ⟨h.below, h.epochs, fun d' hd' => h.derives d' (List.mem_of_mem_eraseIdx hd')⟩

/-- One polynomial for each epoch, all with the master at zero, that all shares lie on. -/
theorem Served.polynomials (hB : B.Lawful) (hgen : B.generator ≠ 0) {t : ℕ} (ht : 0 < t)
    {master : F} {s : State P} (h : Served B D t (B.pubkeyToBytes (master • B.generator)) s) :
    ∃ f : ℕ → F[X], (∀ e, (f e).degree < t) ∧ (∀ e, (f e).eval 0 = master) ∧
      ∀ shard, Dealt B D (B.pubkeyToBytes (master • B.generator)) s.cluster shard →
        OnPolynomial B f shard := by
  have hsecret : ∀ {sess : Session P},
      sess.key B D = B.pubkeyToBytes (master • B.generator) → sess.value D 0 = master := by
    intro sess hkey
    have hread := congrArg B.pubkeyTryFrom hkey
    rw [Session.key, hB.pubkeyTryFrom_toBytes, hB.pubkeyTryFrom_toBytes] at hread
    exact smul_left_injective F hgen (Except.ok.inj hread)
  have hpoly : ∀ e, ∃ p : F[X], p.degree < t ∧ p.eval 0 = master ∧
      ∀ (k : ℕ) (sess : Session P), s.cluster.sessions[k]? = some sess → sess.ready = true →
        sess.key B D = B.pubkeyToBytes (master • B.generator) → sess.req.epoch = e →
        ∀ x, sess.value D x = p.eval x := by
    intro e
    by_cases hused : ∃ (k : ℕ) (sess : Session P), s.cluster.sessions[k]? = some sess ∧
        sess.ready = true ∧ sess.key B D = B.pubkeyToBytes (master • B.generator) ∧
        sess.req.epoch = e
    · obtain ⟨k, sess, hsess, hready, hkey, rfl⟩ := hused
      obtain ⟨p, hdeg, hp⟩ := h.below.master.poly h.below.inv.full hsess hready
      refine ⟨p, hdeg, by rw [← hp, hsecret hkey], ?_⟩
      intro j sess' hsess' hready' _ hepoch
      obtain rfl := h.epochs.distinct j k sess' sess hsess' hsess hready' hready hepoch
      cases Option.some.inj (hsess'.symm.trans hsess)
      exact hp
    · refine ⟨C master, lt_of_le_of_lt degree_C_le (by exact_mod_cast ht), eval_C, ?_⟩
      intro k sess hsess hready hkey hepoch
      exact absurd ⟨k, sess, hsess, hready, hkey, hepoch⟩ hused
  choose f hdeg hzero hvalue using hpoly
  refine ⟨f, hdeg, hzero, ?_⟩
  rintro shard ⟨⟨k, sess, hsess, hready, hkey, hshard⟩, hlt⟩
  refine ⟨hlt, ?_⟩
  have hepoch : shard.epoch = sess.req.epoch := by rw [hshard, sessionShard]
  have hbytes : shard.shardBytes = shareToBytes B
      ⟨(shard.shardIndex : F), sess.value D (shard.shardIndex : F)⟩ := by
    conv_lhs => rw [hshard]
    rfl
  rw [hbytes, hepoch, hvalue _ k sess hsess hready hkey rfl]

omit [DecidableEq F] [AddCommGroup G₂] [Module F G₂] in
/-- What was heard are the answers of nodes, some of them failed. -/
theorem Genuine.answers {c : Cluster.State P} {d : Derive} {replies : List PartialReply}
    (h : ∀ reply ∈ replies, Genuine B D key c d reply) :
    ∃ answers : List (Except String ShardState),
      replies = answers.map (replyOf B d.appId d.material) ∧
      ∀ shard, .ok shard ∈ answers → Dealt B D key c shard := by
  induction replies with
  | nil => exact ⟨[], rfl, fun _ hmem => absurd hmem List.not_mem_nil⟩
  | cons reply replies ih =>
    obtain ⟨answers, rfl, hdealt⟩ := ih fun r hr => h r (List.mem_cons_of_mem _ hr)
    rcases h reply List.mem_cons_self with ⟨message, rfl⟩ | ⟨shard, hshard, rfl⟩
    · refine ⟨.error message :: answers, rfl, fun shard hmem => ?_⟩
      rcases List.mem_cons.mp hmem with hhead | htail
      · cases hhead
      · exact hdealt shard htail
    · refine ⟨.ok shard :: answers, rfl, fun shard' hmem => ?_⟩
      rcases List.mem_cons.mp hmem with hhead | htail
      · cases hhead
        exact hshard
      · exact hdealt shard' htail

/-- The contributors read off the replies are the nodes that answered. -/
theorem contributors_eq (hB : B.Lawful) {f : ℕ → F[X]} {d : Derive}
    {answers : List (Except String ShardState)}
    (hheard : d.heard = answers.map (replyOf B d.appId d.material))
    (hanswers : ∀ shard, .ok shard ∈ answers → OnPolynomial B f shard) (e : ℕ) :
    d.contributors e = contributingNodes d.own answers e := by
  let place := fun shard : ShardState => (shard.shardIndex, shard.epoch)
  have hread : ∀ answers : List (Except String ShardState),
      (∀ shard, .ok shard ∈ answers → OnPolynomial B f shard) →
      ((answers.map (replyOf B d.appId d.material)).filterMap fun reply =>
        reply.toOption.map fun r => (r.1, r.2.2)) =
        (answers.filterMap Except.toOption).map place := by
    intro answers
    induction answers with
    | nil => intro _; rfl
    | cons answer answers ih =>
      intro h
      have hrest := ih fun shard hmem => h shard (List.mem_cons_of_mem _ hmem)
      cases answer with
      | error message =>
        rw [List.map_cons, List.filterMap_cons_none rfl, hrest, List.filterMap_cons_none rfl]
      | ok shard =>
        have hreply : replyOf B d.appId d.material (.ok shard) = _ :=
          (h shard List.mem_cons_self).getDprfPartial_eq hB d.appId d.material
        rw [List.map_cons, hreply, List.filterMap_cons, List.filterMap_cons]
        exact congrArg (place shard :: ·) hrest
  have hown : (d.own.shardIndex, d.own.epoch) = place d.own := rfl
  unfold Derive.contributors contributingNodes
  rw [hheard, hread answers hanswers, hown, ← List.map_cons, List.filter_map, List.map_map]
  rfl

/-- The loop over honest answers ends with a ready epoch exactly when some epoch has enough
    contributors. -/
theorem collected_run (hB : B.Lawful) {f : ℕ → F[X]} {threshold : ℕ} (hthreshold : 2 ≤ threshold)
    {own : ShardState} (hown : own.shardIndex < 2 ^ 32) {answers : List (Except String ShardState)}
    (hanswers : ∀ shard, .ok shard ∈ answers → OnPolynomial B f shard) (appId : String)
    (material : Bytes) :
    let c := Collect.run B threshold (Collect.start threshold own
      (partialAt B (f own.epoch) (dprfMessage appId material) own.shardIndex))
      (answers.map (replyOf B appId material))
    ∃ sources, Collected B f (dprfMessage appId material) threshold sources c ∧
      (∀ shard ∈ sources, shard.shardIndex < 2 ^ 32) ∧
      (c.ready ≠ none ↔ ∃ e, threshold ≤ (contributingNodes own answers e).card) := by
  intro c
  obtain ⟨taken, htaken, hcollected, hall⟩ :=
    (Collected.start (f := f) hthreshold own).run hB answers hanswers
  have hcount : ∀ e, (Multimap.get c.seen e).length =
      (((own :: taken).filter (·.epoch = e)).map (·.shardIndex)).toFinset.card :=
    hcollected.length_seen
  refine ⟨[own] ++ taken, hcollected, ?_, ?_, ?_⟩
  · intro shard hshard
    rcases List.mem_cons.mp hshard with rfl | htail
    · exact hown
    · obtain ⟨answer, hanswer, hok⟩ := List.mem_filterMap.mp (htaken.subset htail)
      cases answer with
      | error message => cases hok
      | ok shard' =>
        cases hok
        exact (hanswers shard hanswer).index_lt
  · intro hready
    obtain ⟨e, he⟩ := Option.ne_none_iff_exists'.mp hready
    refine ⟨e, le_trans (hcollected.ready_some e he) ?_⟩
    have hsub : (own :: taken).Sublist (own :: answers.filterMap Except.toOption) :=
      htaken.sublist.cons_cons own
    have hindices := ((hsub.filter (·.epoch = e)).map (·.shardIndex)).subset
    rw [hcount, contributingNodes]
    exact Finset.card_le_card fun i hi => List.mem_toFinset.mpr (hindices (List.mem_toFinset.mp hi))
  · rintro ⟨e, he⟩ hready
    -- Every answer went in, so every epoch is short.
    have hshort := hcollected.ready_none hready e
    rw [hcount, hall hready] at hshort
    exact absurd he (Nat.not_le.mpr hshort)

/-- In every run with sound cluster steps, new epochs and no forged answers, a derivation yields a
    key exactly when it has heard a threshold of distinct nodes at one epoch, with its coordinator
    among them or not, and the key is the oracle's. -/
theorem derives_served (hB : B.Lawful) (hD : D.Lawful) (hgen : B.generator ≠ 0)
    (g : Founding F R P D) (hthreshold : 2 ≤ g.threshold) (hbound : g.nodeList.length < 2 ^ 32)
    (pubkeyOf : Address → Bytes) (events : List (Event R)) (s : State P)
    (hrun : exec (KeyService.step B D pubkeyOf) (init g) events = some s)
    (hhealthy : Meets (KeyService.step B D pubkeyOf) Healthy (init g) events)
    (d : Derive) (hd : d ∈ s.derives) :
    ((∃ key trace, d.outcome B (s.cluster.nodes d.addr).st = .ok (key, trace)) ↔
      ∃ e, g.threshold ≤ (d.contributors e).card) ∧
    ∀ key trace, d.outcome B (s.cluster.nodes d.addr).st = .ok (key, trace) →
      key = oracleKey B (g.session.value D 0) d.appId d.material := by
  have hserved : Served B D g.threshold (g.session.key B D) s :=
    exec_invariant_of_meets (fun _ _ _ h hl hstep => h.step hB hD hl hstep)
      (served_init g hbound) hhealthy hrun
  obtain ⟨f, hdeg, hzero, hon⟩ := hserved.polynomials hB hgen (by omega)
  have hok := hserved.derives d hd
  obtain ⟨answers, hheard, hdealt⟩ := Genuine.answers hok.heard
  have hanswers : ∀ shard, .ok shard ∈ answers → OnPolynomial B f shard :=
    fun shard hmem => hon shard (hdealt shard hmem)
  refine ⟨?_, fun key trace hkey => hserved.below.outcome_eq hB hkey⟩
  rw [Derive.outcome, hserved.below.master.config d.addr, hok.known, hheard]
  simp only [contributors_eq hB hheard hanswers]
  obtain ⟨sources, hcollected, hindex, hready⟩ :=
    collected_run hB hthreshold hok.own.index_lt hanswers d.appId d.material
  rw [← hready, collectAndDprf_eq hB (hon d.own hok.own)]
  constructor
  · rintro ⟨key, trace, hkey⟩ hnone
    exact Collect.finish_of_none B hnone _ _ _ _ hkey
  · intro hsome
    obtain ⟨e, he⟩ := Option.ne_none_iff_exists'.mp hsome
    obtain ⟨trace, hfinish⟩ := hcollected.finish hB hthreshold hdeg hzero hindex he d.own
    exact ⟨_, trace, hfinish⟩

end Service

namespace FourNodes

open Cluster.FourNodes

def serve (s : State (List Scalar)) (e : Event (List Scalar)) : Option (State (List Scalar)) :=
  step scalarBlsful scalarGennaro (fun _ => [4]) s e

/-- Node 1 coordinates. Node 2 answers at epoch 1, and node 4 only when the recovery has taken the
    cluster to epoch 2. -/
def across : List (Event (List Scalar)) :=
  genesis.map .cluster ++ [.derive 1 "app" [7] [], .answer 0 2] ++
    (recovered.drop 4).map .cluster ++ [.answer 0 4, .hear 0 0, .hear 0 0]

/-- A test for `Healthy`. -/
def healthyTest (s : State (List Scalar)) : Event (List Scalar) → Bool
  | .cluster (.ready k) => (s.cluster.sessions[k]?).all fun sess =>
    s.cluster.sessions.all fun used => !used.ready || used.req.epoch ≠ sess.req.epoch
  | .cluster l => soundTest s.cluster l
  | .forge _ (.ok _) => false
  | _ => true

theorem healthyTest_sound {s : State (List Scalar)} {e : Event (List Scalar)}
    (h : healthyTest s e = true) : Healthy s e := by
  cases e with
  | cluster l =>
    cases l with
    | ready k =>
      refine ⟨trivial, fun sess hsess used hused hready => ?_⟩
      simp only [healthyTest, hsess, Option.all_some, List.all_eq_true] at h
      have hne := h used hused
      rw [hready, Bool.not_true, Bool.false_or] at hne
      exact of_decide_eq_true hne
    | _ => exact ⟨soundTest_sound h, trivial⟩
  | forge n reply =>
    cases reply with
    | ok _ => cases h
    | error _ => trivial
  | _ => trivial

theorem soundStep_of_healthyTest {s : State (List Scalar)} {e : Event (List Scalar)}
    (h : healthyTest s e = true) : SoundStep s e := by
  have hhealthy := healthyTest_sound h
  cases e with
  | cluster l => exact hhealthy.1
  | _ => trivial

end FourNodes

open FourNodes Cluster.FourNodes in
/-- Node 1 releases a key after the recovery, one that the oracle releases. -/
theorem keys_from_master_across : ∃ s,
    exec serve (init founding) (across ++ [.combine 0]) = some s ∧
    s.released.length = 1 ∧ ∃ requests, exec (oracleStep scalarBlsful
      (founding.session.value scalarGennaro (0 : Scalar))) [] requests = some s.released := by
  have hend : (exec serve (init founding) (across ++ [.combine 0])).any
      (fun s => s.released.length = 1) = true := by decide +kernel
  have htest : check serve healthyTest (init founding) (across ++ [.combine 0]) = true := by
    decide +kernel
  obtain ⟨s, hrun, hlength⟩ := (Option.any_eq_true _ _).mp hend
  refine ⟨s, hrun, of_decide_eq_true hlength, ?_⟩
  exact keys_from_master scalarBlsful_lawful scalarGennaro_lawful founding _ _ s hrun
    (meets_of_check (fun _ _ => soundStep_of_healthyTest) htest)

open FourNodes Cluster.FourNodes in
/-- With the answer of node 4 at epoch 2 and that of node 2 at epoch 1, there is a key. -/
theorem derives_served_across : ∃ s, exec serve (init founding) across = some s ∧
    ∃ d ∈ s.derives, d.addr = 1 ∧
      ∃ key trace, d.outcome scalarBlsful (s.cluster.nodes d.addr).st = .ok (key, trace) := by
  have hend : (exec serve (init founding) across).any (fun s => s.derives.any fun d =>
      d.addr = 1 ∧ 2 ≤ (d.contributors 1).card) = true := by decide +kernel
  have htest : check serve healthyTest (init founding) across = true := by decide +kernel
  obtain ⟨s, hrun, hderives⟩ := (Option.any_eq_true _ _).mp hend
  obtain ⟨d, hd, hfacts⟩ := List.any_eq_true.mp hderives
  obtain ⟨haddr, hcard⟩ := of_decide_eq_true hfacts
  refine ⟨s, hrun, d, hd, haddr, ?_⟩
  exact (derives_served scalarBlsful_lawful scalarGennaro_lawful one_ne_zero founding le_rfl
    (by decide) _ across s hrun (meets_of_check (fun _ _ => healthyTest_sound) htest)
    d hd).1.mpr ⟨1, hcard⟩

end KmsCluster.KeyService
