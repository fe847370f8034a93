import KmsCluster.Dkg
import KmsCluster.ReshareAlgebra

/-!
# One reshare session under message loss

The participants of one reshare or refresh session, driven by `run_session` (`src/dkg.rs`) over
messages that may be lost or late. Each participant that passes the last barrier replaces its
share on its own; there is no commit phase.

## Main results

- `shard_after`: who holds the new share once every driver has returned.
- `master_survives_iff`: when a threshold of shares of one epoch is left.
-/

namespace KmsCluster.ReshareSession

open DkgSession Runs

/-- A session and the committee it runs in, by nodeList position. -/
structure Setup (F G₁ : Type) where
  nodeList : List Address
  before : ℕ → AppState
  req : ReshareRequest
  /-- The share each participant computes, and the public key all of them do. -/
  share : ℕ → F
  pk : G₁

/-- The session was started by a recovering node or by a refresh, on its own membership. -/
def Setup.Admitted {F G₁ : Type} (S : Setup F G₁) : Prop :=
  ∃ starter now nonce m peers,
    assembleParticipants (S.before starter) (.ok S.nodeList) now = .ok (some m) ∧
    m.ownId = starter ∧
    (recoveryRequest (S.before starter) m nonce = .ok (peers, S.req) ∨
      refreshRequest (S.before starter) (.ok (some m)) nonce = .ok (peers, S.req))

inductive Driver where
  | idle
  | waiting (round : ℕ)
  | returned
  deriving DecidableEq

structure Node where
  st : AppState
  driver : Driver
  session : DkgSession Unit

structure State where
  nodes : ℕ → Node
  /-- Sender and round of the messages sent so far. -/
  net : List (ℕ × ℕ)

inductive Label where
  /-- `p` enters `run_session`. -/
  | join (p : ℕ)
  | deliver (sender round p : ℕ)
  /-- The barrier of a round before the last opens at `p`. -/
  | advance (p : ℕ)
  /-- The last barrier opens at `p`. -/
  | complete (p : ℕ) (blob : Option String)
  /-- `p` gives up in `round`. -/
  | timeout (p round : ℕ)
  deriving DecidableEq

section System

variable {F G₁ G₂ : Type} [NatCast F] (B : Blsful F G₁ G₂) (S : Setup F G₁)

def State.init : State := ⟨fun p => ⟨S.before p, .idle, ∅⟩, []⟩

/-- The peers of `p` in the session. -/
def Setup.expected (p : ℕ) : List ℕ := S.req.participantIds.filter fun q => q ≠ 0 ∧ q ≠ p

/-- The dealer's checks before its session. -/
def dealerReady (p : ℕ) : Except String Unit := do
  let (ownId, _) ← dealerPosition (S.before p) (.ok S.nodeList) S.req.dealerIds
  Fallible.ensure (ownId = p) "other node"
  dealerEpochCheck (S.before p).shard S.req.epoch
  let _ ← dealerSecret B (S.before p).shard
  let _ ← resolvePeers (S.before p).peerTable S.nodeList S.req.participantIds ownId

/-- A participant may join: the recovering node by itself, a dealer when its checks pass. -/
def Setup.mayJoin (p : ℕ) : Bool :=
  p ∈ S.req.participantIds ∧ p ≠ 0 ∧ (p = S.req.recoveringId ∨ (dealerReady B S p).isOk)

/-- What `p` does with the outcome of its session. -/
def finish (p : ℕ) (blob : Option String) : Except String AppState :=
  if p = S.req.recoveringId then finishRecovery B (S.before p) p S.req.epoch (S.share p) S.pk blob
  else finishDealer B (S.before p) p S.req.epoch (S.share p) S.pk blob

/-- The state of `p` once its session has completed; the guard may refuse the new share. -/
def committed (p : ℕ) (blob : Option String) : AppState :=
  match finish B S p blob with
  | .ok st => st
  | .error _ => S.before p

def State.setNode (s : State) (p : ℕ) (node : Node) : State :=
  { s with nodes := Function.update s.nodes p node }

def step (s : State) : Label → Option State
  | .join p =>
    if (s.nodes p).driver = .idle ∧ S.mayJoin B p then
      some { s.setNode p { s.nodes p with driver := .waiting 1 } with net := (p, 1) :: s.net }
    else none
  | .deliver sender round p =>
    if (sender, round) ∈ s.net then
      some (s.setNode p { s.nodes p with session := (s.nodes p).session.record round sender () })
    else none
  | .advance p =>
    match (s.nodes p).driver with
    | .waiting round =>
      if round < 4 ∧ ((s.nodes p).session.awaitRound round (S.expected p)).isSome then
        some { s.setNode p { s.nodes p with driver := .waiting (round + 1) } with
          net := (p, round + 1) :: s.net }
      else none
    | _ => none
  | .complete p blob =>
    if (s.nodes p).driver = .waiting 4 ∧
        ((s.nodes p).session.awaitRound 4 (S.expected p)).isSome then
      some (s.setNode p ⟨committed B S p blob, .returned, ∅⟩)
    else none
  | .timeout p round =>
    if (s.nodes p).driver = .waiting round ∧
        (s.nodes p).session.awaitRound round (S.expected p) = none then
      some (s.setNode p { s.nodes p with driver := .returned })
    else none

/-- Every participant's `run_session` has returned. -/
def Complete (s : State) : Prop := ∀ p round, (s.nodes p).driver ≠ .waiting round

end System

/-- The members that hold a share of the epoch. -/
def holders (nodeList : List Address) (shard : ℕ → Option ShardState) (epoch : ℕ) : Finset ℕ :=
  (Finset.Icc 1 nodeList.length).filter fun a => (shard a).map (·.epoch) = some epoch

/-- Read off the schedule: all participants join and are in time up to round 3, `p` is in time in
    round 4 too, and it knows no other group key. -/
def Setup.takes {F G₁ G₂ : Type} (B : Blsful F G₁ G₂) (S : Setup F G₁) (labels : List Label)
    (p : ℕ) : Bool :=
  decide (p ∈ S.req.participantIds ∧ p ≠ 0 ∧
    (∀ q ∈ S.req.participantIds, q ≠ 0 →
      .join q ∈ labels ∧ ∀ r ∈ [1, 2, 3], .timeout q r ∉ labels) ∧
    .timeout p 4 ∉ labels) && keepsGroupKey (S.before p).groupPubkey (B.pubkeyToBytes S.pk)

section Invariant

variable {F G₁ G₂ : Type} [NatCast F] {B : Blsful F G₁ G₂} {S : Setup F G₁}

/-- What the labels so far say about a driver. -/
def DriverOk (B : Blsful F G₁ G₂) (S : Setup F G₁) (labels : List Label) (net : List (ℕ × ℕ))
    (p : ℕ) (node : Node) : Prop :=
  match node.driver with
  | .idle => .join p ∉ labels ∧ node.st = S.before p
  | .waiting round => (1 ≤ round ∧ round ≤ 4) ∧ (∀ r, .timeout p r ∉ labels) ∧
      node.st = S.before p
  | .returned => (node.st = S.before p ∧ ∃ r, (1 ≤ r ∧ r ≤ 4) ∧ .timeout p r ∈ labels) ∨
      ((∃ blob, node.st = committed B S p blob) ∧ (∀ r, .timeout p r ∉ labels) ∧
        ∀ q ∈ S.expected p, (q, 4) ∈ net)

/-- What the labels so far say about a participant. -/
structure NodeOk (B : Blsful F G₁ G₂) (S : Setup F G₁) (labels : List Label)
    (net : List (ℕ × ℕ)) (p : ℕ) (node : Node) : Prop where
  driver : DriverOk B S labels net p node
  joined : .join p ∈ labels → S.mayJoin B p = true ∧ node.driver ≠ .idle
  started : node.driver ≠ .idle → .join p ∈ labels
  session : ∀ r q, node.session.lookup (r, q) = some () → (q, r) ∈ net
  sent : ∀ r, (p, r) ∈ net → .join p ∈ labels ∧ (∀ r' < r, .timeout p r' ∉ labels) ∧
    ∀ round, node.driver = .waiting round → r ≤ round
  late : ∀ r, .timeout p r ∈ labels → node.driver = .returned

def Inv (B : Blsful F G₁ G₂) (S : Setup F G₁) (labels : List Label) (s : State) : Prop :=
  ∀ p, NodeOk B S labels s.net p (s.nodes p)

theorem inv_init : Inv B S [] (State.init S) := by
  intro p
  refine ⟨⟨by simp, rfl⟩, by simp, by simp [State.init], ?_, by simp [State.init], by simp⟩
  intro r q h
  cases h

theorem NodeOk.barrier {labels : List Label} {net : List (ℕ × ℕ)} {p r : ℕ} {node : Node}
    (h : NodeOk B S labels net p node)
    (hopen : (node.session.awaitRound r (S.expected p)).isSome = true) :
    ∀ q ∈ S.expected p, (q, r) ∈ net := by
  intro q hq
  obtain ⟨msgs, hmsgs⟩ := Option.isSome_iff_exists.mp hopen
  obtain ⟨-, hall, -⟩ := awaitRound_eq_some.mp hmsgs
  obtain ⟨msg, hmsg⟩ := hall q hq
  exact h.session r q hmsg

theorem NodeOk.waiting {labels : List Label} {net : List (ℕ × ℕ)} {p round : ℕ} {node : Node}
    (h : NodeOk B S labels net p node) (hwaiting : node.driver = .waiting round) :
    .join p ∈ labels ∧ (1 ≤ round ∧ round ≤ 4) ∧ (∀ r, .timeout p r ∉ labels) ∧
      node.st = S.before p := by
  have hdriver := h.driver
  rw [DriverOk, hwaiting] at hdriver
  exact ⟨h.started (by simp [hwaiting]), hdriver⟩

/-- The label is not about `p` joining or timing out. -/
def Label.spares (l : Label) (p : ℕ) : Prop := l ≠ .join p ∧ ∀ r, l ≠ .timeout p r

theorem mem_snoc_join {labels : List Label} {l : Label} {p : ℕ} (h : l.spares p) :
    .join p ∈ labels ++ [l] ↔ .join p ∈ labels := by
  simp [List.mem_append, h.1.symm]

theorem mem_snoc_timeout {labels : List Label} {l : Label} {p r : ℕ} (h : l.spares p) :
    .timeout p r ∈ labels ++ [l] ↔ .timeout p r ∈ labels := by
  simp [List.mem_append, (h.2 r).symm]

theorem DriverOk.mono {labels : List Label} {net net' : List (ℕ × ℕ)} {l : Label} {p : ℕ}
    {node : Node} (h : DriverOk B S labels net p node) (hspares : l.spares p)
    (hsub : net ⊆ net') : DriverOk B S (labels ++ [l]) net' p node := by
  unfold DriverOk at h ⊢
  split at h
  · exact ⟨fun hj => h.1 ((mem_snoc_join hspares).mp hj), h.2⟩
  · exact ⟨h.1, fun r hr => h.2.1 r ((mem_snoc_timeout hspares).mp hr), h.2.2⟩
  · rcases h with ⟨hst, r, hr, hmem⟩ | ⟨hst, hno, hnet⟩
    · exact .inl ⟨hst, r, hr, (mem_snoc_timeout hspares).mpr hmem⟩
    · exact .inr ⟨hst, fun r hr => hno r ((mem_snoc_timeout hspares).mp hr),
        fun q hq => hsub (hnet q hq)⟩

/-- A label that spares `p`, and messages of others, change nothing about it. -/
theorem NodeOk.mono {labels : List Label} {net net' : List (ℕ × ℕ)} {l : Label} {p : ℕ}
    {node : Node} (h : NodeOk B S labels net p node) (hspares : l.spares p) (hsub : net ⊆ net')
    (hown : ∀ r, (p, r) ∈ net' → (p, r) ∈ net) : NodeOk B S (labels ++ [l]) net' p node := by
  refine ⟨h.driver.mono hspares hsub, ?_, ?_, fun r q hm => hsub (h.session r q hm), ?_, ?_⟩
  · intro hj
    exact h.joined ((mem_snoc_join hspares).mp hj)
  · intro hne
    exact (mem_snoc_join hspares).mpr (h.started hne)
  · intro r hmem
    obtain ⟨hj, hno, hround⟩ := h.sent r (hown r hmem)
    exact ⟨(mem_snoc_join hspares).mpr hj,
      fun r' hr' ht => hno r' hr' ((mem_snoc_timeout hspares).mp ht), hround⟩
  · intro r ht
    exact h.late r ((mem_snoc_timeout hspares).mp ht)

/-- A step of `p`, which may send messages. -/
theorem Inv.update {labels : List Label} {s s' : State} (h : Inv B S labels s) {l : Label} {p : ℕ}
    {node : Node} (hspares : ∀ q ≠ p, l.spares q)
    (hnodes : s'.nodes = Function.update s.nodes p node) (hsub : s.net ⊆ s'.net)
    (hothers : ∀ q r, q ≠ p → (q, r) ∈ s'.net → (q, r) ∈ s.net)
    (hnode : NodeOk B S (labels ++ [l]) s'.net p node) : Inv B S (labels ++ [l]) s' := by
  intro q
  rw [hnodes]
  by_cases hq : q = p
  · subst hq
    rw [Function.update_self]
    exact hnode
  · rw [Function.update_of_ne hq]
    exact (h q).mono (hspares q hq) hsub fun r => hothers q r hq

theorem mem_of_mem_cons_sender {net : List (ℕ × ℕ)} {p r : ℕ} (q r' : ℕ) (hq : q ≠ p)
    (h : (q, r') ∈ (p, r) :: net) : (q, r') ∈ net := by
  rcases List.mem_cons.mp h with heq | hold
  · exact absurd (Prod.mk.inj heq).1 hq
  · exact hold

theorem inv_join {labels : List Label} {s : State} (h : Inv B S labels s) {p : ℕ}
    (hidle : (s.nodes p).driver = .idle) (hmay : S.mayJoin B p = true) :
    Inv B S (labels ++ [.join p])
      { s.setNode p { s.nodes p with driver := .waiting 1 } with net := (p, 1) :: s.net } := by
  have hnew : .join p ∉ labels := fun hj => ((h p).joined hj).2 hidle
  have hjoined : Label.join p ∈ labels ++ [.join p] := by simp
  have hno : ∀ r, Label.timeout p r ∉ labels ++ [.join p] := by
    intro r hr
    have hold : .timeout p r ∈ labels := by simpa using hr
    rw [(h p).late r hold] at hidle
    cases hidle
  have hst : (s.nodes p).st = S.before p := by
    have hdriver := (h p).driver
    rw [DriverOk, hidle] at hdriver
    exact hdriver.2
  refine h.update (fun q hq => ⟨by simp [hq.symm], by simp⟩) rfl (List.subset_cons_self _ _)
    mem_of_mem_cons_sender ⟨⟨⟨le_rfl, by decide⟩, hno, hst⟩, ?_, ?_, ?_, ?_, ?_⟩
  · exact fun _ => ⟨hmay, by simp⟩
  · exact fun _ => hjoined
  · exact fun r q hm => List.mem_cons_of_mem _ ((h p).session r q hm)
  · intro r hmem
    refine ⟨hjoined, fun r' _ => hno r', ?_⟩
    intro round hround
    cases hround
    rcases List.mem_cons.mp hmem with heq | hold
    · exact (Prod.mk.inj heq).2.le
    · -- Nothing was sent before joining.
      exact absurd ((h p).sent r hold).1 hnew
  · exact fun r ht => absurd ht (hno r)

theorem inv_timeout {labels : List Label} {s : State} (h : Inv B S labels s) {p round : ℕ}
    (hwaiting : (s.nodes p).driver = .waiting round) :
    Inv B S (labels ++ [.timeout p round])
      (s.setNode p { s.nodes p with driver := .returned }) := by
  obtain ⟨hjoined, hround, hno, hst⟩ := (h p).waiting hwaiting
  refine h.update (fun q hq => ⟨by simp, by simp [hq.symm]⟩) rfl (List.Subset.refl _)
    (fun q r _ hmem => hmem) ⟨?_, ?_, ?_, (h p).session, ?_, fun _ _ => rfl⟩
  · exact .inl ⟨hst, round, hround, by simp⟩
  · exact fun _ => ⟨((h p).joined hjoined).1, by simp⟩
  · exact fun _ => List.mem_append_left _ hjoined
  · intro r hmem
    obtain ⟨-, hno', hle⟩ := (h p).sent r hmem
    refine ⟨List.mem_append_left _ hjoined, ?_, by simp⟩
    intro r' hr' ht
    rcases List.mem_append.mp ht with ht | ht
    · exact hno' r' hr' ht
    · -- What it sent does not go past the round it waits in.
      rw [List.mem_singleton] at ht
      cases ht
      have hlast := hle round hwaiting
      omega

theorem inv_deliver {labels : List Label} {s : State} (h : Inv B S labels s)
    {sender round p : ℕ} (hsent : (sender, round) ∈ s.net) :
    Inv B S (labels ++ [.deliver sender round p])
      (s.setNode p { s.nodes p with session := (s.nodes p).session.record round sender () }) := by
  have hspares : ∀ q, (Label.deliver sender round p).spares q := fun q => ⟨by simp, by simp⟩
  have hp := (h p).mono (hspares p) (List.Subset.refl _) fun _ hmem => hmem
  refine h.update (fun q _ => hspares q) rfl (List.Subset.refl _) (fun q r _ hmem => hmem)
    ⟨hp.driver, hp.joined, hp.started, ?_, hp.sent, hp.late⟩
  intro r q hm
  rcases lookup_record hm with ⟨rfl, rfl, -⟩ | hold
  · exact hsent
  · exact (h p).session r q hold

theorem inv_advance {labels : List Label} {s : State} (h : Inv B S labels s) {p round : ℕ}
    (hwaiting : (s.nodes p).driver = .waiting round) (hlt : round < 4) :
    Inv B S (labels ++ [.advance p])
      { s.setNode p { s.nodes p with driver := .waiting (round + 1) } with
        net := (p, round + 1) :: s.net } := by
  have hspares : ∀ q, (Label.advance p).spares q := fun q => ⟨by simp, by simp⟩
  have hp := (h p).mono (hspares p) (List.Subset.refl _) fun _ hmem => hmem
  obtain ⟨hjoined, hround, hno, hst⟩ := hp.waiting hwaiting
  refine h.update (fun q _ => hspares q) rfl (List.subset_cons_self _ _) mem_of_mem_cons_sender
    ⟨⟨by omega, hno, hst⟩, ?_, fun _ => hjoined, ?_, ?_, fun r ht => absurd ht (hno r)⟩
  · exact fun hj => ⟨(hp.joined hj).1, by simp⟩
  · exact fun r q hm => List.mem_cons_of_mem _ (hp.session r q hm)
  · intro r hmem
    refine ⟨hjoined, fun r' _ => hno r', ?_⟩
    intro round' hround'
    cases hround'
    rcases List.mem_cons.mp hmem with heq | hold
    · exact (Prod.mk.inj heq).2.le
    · exact Nat.le_succ_of_le ((hp.sent r hold).2.2 round hwaiting)

theorem inv_complete {labels : List Label} {s : State} (h : Inv B S labels s) {p : ℕ}
    (blob : Option String) (hwaiting : (s.nodes p).driver = .waiting 4)
    (hopen : ((s.nodes p).session.awaitRound 4 (S.expected p)).isSome = true) :
    Inv B S (labels ++ [.complete p blob])
      (s.setNode p ⟨committed B S p blob, .returned, ∅⟩) := by
  have hspares : ∀ q, (Label.complete p blob).spares q := fun q => ⟨by simp, by simp⟩
  have hp := (h p).mono (hspares p) (List.Subset.refl _) fun _ hmem => hmem
  obtain ⟨hjoined, -, hno, -⟩ := hp.waiting hwaiting
  refine h.update (fun q _ => hspares q) rfl (List.Subset.refl _) (fun q r _ hmem => hmem)
    ⟨.inr ⟨⟨blob, rfl⟩, hno, hp.barrier hopen⟩, ?_, fun _ => hjoined, ?_, ?_, fun _ _ => rfl⟩
  · exact fun hj => ⟨(hp.joined hj).1, by simp⟩
  · intro r q hm
    cases hm
  · exact fun r hmem => ⟨hjoined, (hp.sent r hmem).2.1, by simp⟩

theorem inv_step {labels : List Label} {s s' : State} {l : Label} (h : Inv B S labels s)
    (hstep : step B S s l = some s') : Inv B S (labels ++ [l]) s' := by
  cases l with
  | join p =>
    simp only [step] at hstep
    split at hstep
    · next hcond =>
      cases hstep
      exact inv_join h hcond.1 hcond.2
    · cases hstep
  | deliver sender round p =>
    simp only [step] at hstep
    split at hstep
    · next hsent =>
      cases hstep
      exact inv_deliver h hsent
    · cases hstep
  | advance p =>
    simp only [step] at hstep
    split at hstep
    · next round hwaiting =>
      split at hstep
      · next hcond =>
        cases hstep
        exact inv_advance h hwaiting hcond.1
      · cases hstep
    · cases hstep
  | complete p blob =>
    simp only [step] at hstep
    split at hstep
    · next hcond =>
      cases hstep
      exact inv_complete h blob hcond.1 hcond.2
    · cases hstep
  | timeout p round =>
    simp only [step] at hstep
    split at hstep
    · next hcond =>
      cases hstep
      exact inv_timeout h hcond.1
    · cases hstep

theorem inv_run {labels : List Label} {s : State}
    (hrun : exec (step B S) (State.init S) labels = some s) : Inv B S labels s :=
  exec_history (I := Inv B S) inv_init (fun _ _ _ _ h hstep => inv_step h hstep) hrun

-- ════════════════════════════════════════════════════════════════════════
-- The outcome
-- ════════════════════════════════════════════════════════════════════════

omit [NatCast F] in
theorem takes_iff {labels : List Label} {p : ℕ} : S.takes B labels p = true ↔
    (p ∈ S.req.participantIds ∧ p ≠ 0 ∧
      (∀ q ∈ S.req.participantIds, q ≠ 0 →
        .join q ∈ labels ∧ ∀ r ∈ [1, 2, 3], .timeout q r ∉ labels) ∧
      .timeout p 4 ∉ labels) ∧
    keepsGroupKey (S.before p).groupPubkey (B.pubkeyToBytes S.pk) = true := by
  rw [Setup.takes, Bool.and_eq_true, decide_eq_true_eq]

theorem finish_eq_ok_iff {p : ℕ} {blob : Option String} {st : AppState} :
    finish B S p blob = .ok st ↔
      keepsGroupKey (S.before p).groupPubkey (B.pubkeyToBytes S.pk) = true ∧
        st = storeShare (S.before p) (sessionShard B p S.req.epoch (S.share p))
          (B.pubkeyToBytes S.pk) blob := by
  unfold finish
  split
  · exact finishSession_eq_ok
  · exact finishSession_eq_ok

theorem committed_shard (p : ℕ) (blob : Option String) : (committed B S p blob).shard =
    if keepsGroupKey (S.before p).groupPubkey (B.pubkeyToBytes S.pk) then
      some (sessionShard B p S.req.epoch (S.share p)) else (S.before p).shard := by
  unfold committed
  cases hfinish : finish B S p blob with
  | ok st =>
    obtain ⟨hkeeps, rfl⟩ := finish_eq_ok_iff.mp hfinish
    rw [if_pos hkeeps]
    rfl
  | error e =>
    rw [if_neg]
    intro hkeeps
    rw [finish_eq_ok_iff.mpr ⟨hkeeps, rfl⟩] at hfinish
    cases hfinish

/-- Once every driver has returned, exactly the participants that the schedule lets through hold
    a share of the new epoch; everyone else holds what it held. -/
theorem shard_after {labels : List Label} {s : State}
    (hrun : exec (step B S) (State.init S) labels = some s) (hdone : Complete s) (p : ℕ) :
    (s.nodes p).st.shard = if S.takes B labels p then
      some (sessionShard B p S.req.epoch (S.share p)) else (S.before p).shard := by
  have h := inv_run hrun
  have hdriver := (h p).driver
  unfold DriverOk at hdriver
  split at hdriver
  · -- It never joined.
    rw [hdriver.2, if_neg]
    intro htakes
    obtain ⟨⟨hmem, hne, hall, -⟩, -⟩ := takes_iff.mp htakes
    exact hdriver.1 (hall p hmem hne).1
  · next round hwaiting => exact absurd hwaiting (hdone p round)
  · next hreturned =>
    have hjoined : .join p ∈ labels := (h p).started (by simp [hreturned])
    have hmay : p ∈ S.req.participantIds ∧ p ≠ 0 ∧ _ :=
      of_decide_eq_true ((h p).joined hjoined).1
    rcases hdriver with ⟨hst, r, hr, hlate⟩ | ⟨⟨blob, hst⟩, hno, hnet⟩
    · -- It timed out.
      rw [hst, if_neg]
      intro htakes
      obtain ⟨⟨hmem, hne, hall, hfour⟩, -⟩ := takes_iff.mp htakes
      by_cases hr4 : r = 4
      · exact hfour (hr4 ▸ hlate)
      · exact (hall p hmem hne).2 r (by simp; omega) hlate
    · -- It completed, so everyone had sent its round-4 message.
      have hall : ∀ q ∈ S.req.participantIds, q ≠ 0 →
          .join q ∈ labels ∧ ∀ r ∈ [1, 2, 3], .timeout q r ∉ labels := by
        intro q hq hne
        by_cases hqp : q = p
        · exact hqp ▸ ⟨hjoined, fun r _ => hno r⟩
        · have hsent := hnet q (List.mem_filter.mpr ⟨hq, by simp [hne, hqp]⟩)
          obtain ⟨hj, hno', -⟩ := (h q).sent 4 hsent
          refine ⟨hj, fun r hr => hno' r ?_⟩
          simp at hr
          omega
      rw [hst, committed_shard]
      by_cases hkeeps : keepsGroupKey (S.before p).groupPubkey (B.pubkeyToBytes S.pk) = true
      · rw [if_pos hkeeps, if_pos (takes_iff.mpr ⟨⟨hmay.1, hmay.2.1, hall, hno 4⟩, hkeeps⟩)]
      · rw [if_neg hkeeps, if_neg fun htakes => hkeeps (takes_iff.mp htakes).2]

/-- The members the schedule lets through. -/
def takers (B : Blsful F G₁ G₂) (S : Setup F G₁) (labels : List Label) : Finset ℕ :=
  (Finset.Icc 1 S.nodeList.length).filter fun p => S.takes B labels p

/-- The members that hold a share of the epoch before the session. -/
def Setup.holdersBefore (S : Setup F G₁) (epoch : ℕ) : Finset ℕ :=
  holders S.nodeList (fun p => (S.before p).shard) epoch

theorem holders_after {labels : List Label} {s : State}
    (hrun : exec (step B S) (State.init S) labels = some s) (hdone : Complete s) (epoch : ℕ) :
    holders S.nodeList (fun p => (s.nodes p).st.shard) epoch =
      (if epoch = S.req.epoch then takers B S labels else ∅) ∪
        (S.holdersBefore epoch \ takers B S labels) := by
  ext p
  simp only [holders, Setup.holdersBefore, takers, Finset.mem_union, Finset.mem_sdiff,
    Finset.mem_filter, shard_after hrun hdone p]
  have hepochs : (some S.req.epoch = some epoch) ↔ epoch = S.req.epoch := by
    rw [Option.some.injEq, eq_comm]
  by_cases htakes : S.takes B labels p = true
  · rw [if_pos htakes, Option.map_some, sessionShard, hepochs]
    by_cases hepoch : epoch = S.req.epoch
    · simp only [htakes, hepoch, if_pos, Finset.mem_filter]
      tauto
    · simp only [htakes, hepoch]
      tauto
  · rw [if_neg htakes]
    split
    · simp [htakes]
    · simp [htakes]

/-- Enough members take the new share, or hold one of its epoch already; or enough holders of
    another epoch keep theirs. -/
def Survives (B : Blsful F G₁ G₂) (S : Setup F G₁) (labels : List Label) (threshold : ℕ) : Prop :=
  threshold ≤ (takers B S labels ∪ S.holdersBefore S.req.epoch).card ∨
    ∃ e ≠ S.req.epoch, threshold ≤ (S.holdersBefore e \ takers B S labels).card

/-- After a session in which every participant has returned, a threshold of shares of one epoch
    is left exactly when the schedule lets enough participants through, or holds enough back. -/
theorem master_survives_iff (B : Blsful F G₁ G₂) (S : Setup F G₁) (threshold : ℕ)
    (labels : List Label) (s : State) (hrun : exec (step B S) (State.init S) labels = some s)
    (hdone : Complete s) :
    (∃ e, threshold ≤ (holders S.nodeList (fun p => (s.nodes p).st.shard) e).card) ↔
      Survives B S labels threshold := by
  simp only [holders_after hrun hdone, Survives]
  constructor
  · rintro ⟨e, he⟩
    by_cases hepoch : e = S.req.epoch
    · left
      rwa [if_pos hepoch, hepoch, Finset.union_sdiff_self_eq_union] at he
    · right
      rw [if_neg hepoch, Finset.empty_union] at he
      exact ⟨e, hepoch, he⟩
  · rintro (he | ⟨e, hepoch, he⟩)
    · refine ⟨S.req.epoch, ?_⟩
      rwa [if_pos rfl, Finset.union_sdiff_self_eq_union]
    · refine ⟨e, ?_⟩
      rwa [if_neg hepoch, Finset.empty_union]

/-- Nobody waits when everyone who joined has returned. -/
theorem complete_of_joined {labels : List Label} {s : State}
    (hrun : exec (step B S) (State.init S) labels = some s)
    (h : ∀ p, .join p ∈ labels → (s.nodes p).driver = .returned) : Complete s := by
  intro p round hwaiting
  have hjoined : .join p ∈ labels := (inv_run hrun p).started (by simp [hwaiting])
  rw [h p hjoined] at hwaiting
  cases hwaiting

end Invariant

namespace LastRound

/-- Nodes 1 and 2 hold shares of epoch 1 and know the group key; node 3 lost its share. -/
def setup : Setup Scalar Scalar where
  nodeList := TwoOfThree.nodeList
  before i := { TwoOfThree.before i with
    groupPubkey := if i = 3 then none else some (scalarBlsful.pubkeyToBytes (5 : ℕ)) }
  req := TwoOfThree.request
  share i := (5 + 7 * i : ℕ)
  pk := (5 : ℕ)

/-- A round in which every message arrives. -/
def fullRound (r : ℕ) : List Label :=
  [.deliver 1 r 2, .deliver 1 r 3, .deliver 2 r 1, .deliver 2 r 3, .deliver 3 r 1, .deliver 3 r 2]

/-- Everyone joins and passes the first three barriers. -/
def upToLast : List Label :=
  [.join 3, .join 1, .join 2] ++
    [1, 2, 3].flatMap fun r => fullRound r ++ [.advance 1, .advance 2, .advance 3]

def allCommit : List Label :=
  upToLast ++ fullRound 4 ++ [.complete 1 none, .complete 2 none, .complete 3 none]

/-- The last messages to nodes 2 and 3 are lost. -/
def oneCommits : List Label :=
  upToLast ++ [.deliver 2 4 1, .deliver 3 4 1, .complete 1 none, .timeout 2 4, .timeout 3 4]

def joinsMember : Label → Bool
  | .join p => p ∈ [1, 2, 3]
  | _ => true

theorem runs {labels : List Label}
    (h : ((exec (step scalarBlsful setup) (State.init setup) labels).any fun s =>
      [1, 2, 3].all fun p => (s.nodes p).driver = .returned) = true)
    (hjoins : labels.all joinsMember = true) :
    ∃ s, exec (step scalarBlsful setup) (State.init setup) labels = some s ∧ Complete s := by
  obtain ⟨s, hrun, hreturned⟩ := (Option.any_eq_true _ _).mp h
  rw [List.all_eq_true] at hreturned
  refine ⟨s, hrun, complete_of_joined hrun fun p hp => ?_⟩
  have hmember : p ∈ [1, 2, 3] := of_decide_eq_true (List.all_eq_true.mp hjoins _ hp)
  exact of_decide_eq_true (hreturned p hmember)

theorem admitted : setup.Admitted :=
  ⟨3, 0, 0, TwoOfThree.membership, TwoOfThree.membership.peers, rfl, rfl,
    .inl rfl⟩

theorem takers_oneCommits : takers scalarBlsful setup oneCommits = {1} := by
  decide +kernel

theorem takers_allCommit : takers scalarBlsful setup allCommit = {1, 2, 3} := by
  decide +kernel

theorem before_epoch (p : ℕ) :
    (setup.before p).shard.map (·.epoch) = if p = 3 then none else some 1 := by
  by_cases hp : p = 3
  · simp [setup, TwoOfThree.before, hp]
  · simp [setup, TwoOfThree.before, hp, sessionShard]

/-- Only one node is left at each epoch. -/
theorem card_after_oneCommits (e : ℕ) : ((if e = setup.req.epoch then {1} else ∅) ∪
    (setup.holdersBefore e \ {1})).card ≤ 1 := by
  rw [Finset.card_le_one]
  intro a ha b hb
  simp only [Setup.holdersBefore, holders, before_epoch, Finset.mem_union, Finset.mem_sdiff,
    Finset.mem_filter, Finset.mem_Icc, Finset.mem_singleton] at ha hb
  have hlen : setup.nodeList.length = 3 := rfl
  have hepoch : setup.req.epoch = 2 := rfl
  grind

end LastRound

open LastRound in
/-- Every message of the last round reaches node 1 and none reaches the others. Node 1 replaces
    its share, the others keep theirs, and no two shares fit together any more. -/
theorem master_lost : ∃ labels s, setup.Admitted ∧ (∀ p, (setup.before p).config.threshold = 2) ∧
    2 ≤ (setup.holdersBefore 1).card ∧
    exec (step scalarBlsful setup) (State.init setup) labels = some s ∧ Complete s ∧
    ¬∃ e, 2 ≤ (holders setup.nodeList (fun p => (s.nodes p).st.shard) e).card := by
  obtain ⟨s, hrun, hdone⟩ := @runs oneCommits (by decide +kernel) (by decide)
  refine ⟨oneCommits, s, admitted, fun _ => rfl, by decide +kernel, hrun, hdone, ?_⟩
  rintro ⟨e, he⟩
  have hcard := card_after_oneCommits e
  rw [holders_after hrun hdone, takers_oneCommits] at he
  omega

open LastRound in
/-- With every message in time all three nodes hold the new epoch. -/
theorem master_survives_allCommit : ∃ s,
    exec (step scalarBlsful setup) (State.init setup) allCommit = some s ∧ Complete s ∧
    ∃ e, 2 ≤ (holders setup.nodeList (fun p => (s.nodes p).st.shard) e).card := by
  obtain ⟨s, hrun, hdone⟩ := @runs allCommit (by decide +kernel) (by decide)
  refine ⟨s, hrun, hdone, ?_⟩
  refine (master_survives_iff scalarBlsful setup 2 allCommit s hrun hdone).mpr (.inl ?_)
  rw [takers_allCommit]
  exact le_trans (by decide) (Finset.card_le_card Finset.subset_union_left)

end KmsCluster.ReshareSession
