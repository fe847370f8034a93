import KmsCluster.ReshareAlgebra
import KmsCluster.SessionNet
import Mathlib.Data.Set.Basic

/-!
# Repeated `StartReshare` deliveries

One reshare request that is delivered to one dealer any number of times. Each delivery that passes
the checks of `start_reshare` (`src/grpc.rs`) and `run_reshare_dealer` (`src/init.rs`) spawns a
dealer task of its own, with fresh randomness, over the same buffers.

## Main results

- `redelivery_idempotent`: when later deliveries arrive after the dealer has stored a share of the
  request's epoch, it takes part with one polynomial, and the stored shares are those of a single
  delivery, for every order of everything else.
- `overlapping_deliveries`: two deliveries that overlap enter the session with two polynomials.
-/

namespace KmsCluster

namespace Redelivery

open Fallible Runs SessionNet

/-- What a delivery meets at the dealer: the outcomes of the two nodeList lookups, the randomness
    of its participant, its signatures and encryptions, and the sealed share. -/
structure Delivery (R : Type) where
  nodeList : Except String (List Address)
  nodeList' : Except String (List Address)
  rnd : R
  signRequest : ℕ → Except String Bytes
  randomness : ℕ → Bytes
  blob : Option String

section Admission

variable {F G₁ G₂ R P : Type} [NatCast F] (B : Blsful F G₁ G₂) (D : Gennaro F R P)
  (req : ReshareRequest)

/-- `start_reshare`, and the task it spawns up to its session. -/
def dealerEntry (st : AppState) (x : Delivery R) : Except String (ℕ × P × List SessionPeer) := do
  ensure st.shard.isSome "no local share to reshare"
  let (ownId, ownIndex) ← dealerPosition st x.nodeList req.dealerIds
  dealerEpochCheck st.shard req.epoch
  let secret ← dealerSecret B st.shard
  let nodeList' ← x.nodeList'.mapError ("nodeList lookup failed: " ++ ·)
  let peers ← resolvePeers st.peerTable nodeList' req.participantIds ownId
  let participant ← dealerParticipant D st.config ownId ownIndex secret req.dealerIds x.rnd
  return (ownId, participant, peers)

/-- The dealer task is its admission, the session, and what it does with the outcome. -/
theorem runReshareDealer_eq_entry {st : AppState} (hshard : st.shard.isSome = true)
    (x : Delivery R) (runSession : P → List SessionPeer → Except String (F × G₁)) :
    runReshareDealer B D st x.nodeList x.nodeList' req x.rnd runSession x.blob = (do
      let (ownId, participant, peers) ← dealerEntry B D req st x
      let (share, pk) ← runSession participant peers
      finishDealer B st ownId req.epoch share pk x.blob) := by
  simp only [runReshareDealer, dealerEntry, ensure_of hshard, ok_bind, bind_assoc, pure_bind]

/-- The delivery comes to a dealer that holds no share, or one whose epoch the request is not ahead
    of, or its nodeList lookup fails. -/
def Late (st : AppState) (x : Delivery R) : Prop :=
  (∀ shard, st.shard = some shard → req.epoch ≤ shard.epoch) ∨ ∃ e, x.nodeList = .error e

variable {B D req} in
/-- What passes the checks is not late. -/
theorem not_late {st : AppState} {x : Delivery R} {r : ℕ × P × List SessionPeer}
    (h : dealerEntry B D req st x = .ok r) : ¬ Late req st x := by
  obtain ⟨_, hshard, h⟩ := bind_eq_ok.mp h
  obtain ⟨_, hposition, h⟩ := bind_eq_ok.mp h
  obtain ⟨_, hepoch, -⟩ := bind_eq_ok.mp h
  rintro (hstored | ⟨e, he⟩)
  · obtain ⟨shard, hshard⟩ := Option.isSome_iff_exists.mp (ensure_eq_ok.mp hshard)
    have hahead : shardEpoch st.shard < req.epoch := ensure_eq_ok.mp hepoch
    have hle := hstored shard hshard
    rw [hshard, shardEpoch, Option.elim_some] at hahead
    omega
  · rw [dealerPosition, he] at hposition
    cases hposition

/-- The same delivery, with the first lookup failing. -/
def Delivery.unanswered (x : Delivery R) : Delivery R := { x with nodeList := .error "unreachable" }

theorem late_unanswered (st : AppState) (x : Delivery R) : Late req st x.unanswered :=
  .inr ⟨_, rfl⟩

end Admission

inductive Label (R P F G : Type) where
  /-- The request is delivered to the dealer. -/
  | deliver (x : Delivery R)
  /-- A step of the session. -/
  | session (l : SessionNet.Label P F G)
  /-- Other tasks of node `n` leave it in state `st`. -/
  | elsewhere (n : ℕ) (st : AppState)

def Label.isDelivery {R P F G : Type} : Label R P F G → Bool
  | .deliver _ => true
  | _ => false

/-- The step enters the session at `d`. -/
def entersAt {P F G : Type} (d : ℕ) : SessionNet.Label P F G → Bool
  | .attempt node _ _ _ => decide (node = d)
  | _ => false

section System

variable {F G₁ G₂ R P Sig : Type} [NatCast F] (B : Blsful F G₁ G₂) (D : Gennaro F R P)
  (E : ParticipantOps P F G₁) (S : Secp Sig) (decrypt : ℕ → Bytes → Except String Bytes)
  (d : ℕ) (req : ReshareRequest)

/-- One step of the cluster around the dealer `d`, which enters the session by deliveries only. -/
def step (net : Net E) : Label R P F G₁ → Option (Net E)
  | .deliver x =>
    match dealerEntry B D req (net.app d) x with
    | .ok (ownId, participant, peers) =>
      SessionNet.step E S decrypt req.sessionId net
        (.attempt d ⟨req.sessionId, peers, x.signRequest, x.randomness⟩ participant
          fun st share pk => finishDealer B st ownId req.epoch share pk x.blob)
    | .error _ => some net
  | .session l =>
    if entersAt d l then none else SessionNet.step E S decrypt req.sessionId net l
  | .elsewhere n st => some { net with app := Function.update net.app n st }

/-- The participants the dealer has entered the session with. -/
def dealt {E : ParticipantOps P F G₁} (net : Net E) : List P :=
  (net.parts.filter fun part => part.1 = d).map Prod.snd

/-- A delivery that comes after the dealer has entered the session is late. -/
def LaterLate (net : Net E) (l : Label R P F G₁) : Prop :=
  ∀ x, l = .deliver x → dealt d net ≠ [] → Late req (net.app d) x

/-- `labels` are `k` deliveries among the steps `rest`, in any order, from `net` to `net'`. -/
def Delivers (net : Net E) (k : ℕ) (rest labels : List (Label R P F G₁)) (net' : Net E) : Prop :=
  labels.countP Label.isDelivery = k ∧ labels.filter (fun l => !l.isDelivery) = rest ∧
    exec (step B D E S decrypt d req) net labels = some net'

variable {B D E S decrypt d req} {net net' : Net E}

/-- What a step does to the dealer's participants. -/
theorem step_cases {l : Label R P F G₁} (h : step B D E S decrypt d req net l = some net') :
    (∃ x r, l = .deliver x ∧ dealerEntry B D req (net.app d) x = .ok r ∧
      dealt d net' = dealt d net ++ [r.2.1]) ∨
    (∃ x, l = .deliver x ∧ (∀ r, dealerEntry B D req (net.app d) x ≠ .ok r) ∧ net' = net) ∨
    (l.isDelivery = false ∧ dealt d net' = dealt d net) := by
  cases l with
  | deliver x =>
    simp only [step] at h
    split at h
    · next ownId participant peers hentry =>
      refine .inl ⟨x, _, rfl, hentry, ?_⟩
      simp only [SessionNet.step, if_true] at h
      cases h
      simp [dealt, Net.parts]
    · next hentry =>
      cases h
      refine .inr (.inl ⟨x, rfl, ?_, rfl⟩)
      intro r hr
      rw [hentry] at hr
      cases hr
  | session l =>
    simp only [step] at h
    split at h
    · cases h
    · next hnode =>
      refine .inr (.inr ⟨rfl, ?_⟩)
      obtain hsame | ⟨node, sess, participant, finish, rfl, hparts⟩ := step_parts h
      · rw [dealt, dealt, hsame]
      · have hne : ¬ node = d := fun heq => hnode (decide_eq_true heq)
        rw [dealt, hparts, List.filter_append, List.filter_cons_of_neg (by simpa using hne),
          List.filter_nil, List.append_nil]
        rfl
  | elsewhere n st =>
    cases h
    exact .inr (.inr ⟨rfl, rfl⟩)

/-- Once the dealer takes part, the deliveries change nothing. -/
theorem exec_of_dealt {labels : List (Label R P F G₁)} : ∀ {net net' : Net E}, dealt d net ≠ [] →
    Meets (step B D E S decrypt d req) (LaterLate E d req) net labels →
    exec (step B D E S decrypt d req) net labels = some net' →
    exec (step B D E S decrypt d req) net (labels.filter fun l => !l.isDelivery) = some net' := by
  induction labels with
  | nil =>
    intro net net' _ _ hrun
    exact hrun
  | cons l labels ih =>
    intro net net' hdealt hmeets hrun
    obtain ⟨m, hm, hrest⟩ := exec_cons_eq_some.mp hrun
    obtain ⟨x, r, rfl, hentry, -⟩ | ⟨x, rfl, -, rfl⟩ | ⟨hother, hsame⟩ := step_cases hm
    · exact absurd (hmeets.1 x rfl hdealt) (not_late hentry)
    · rw [List.filter_cons_of_neg (by simp [Label.isDelivery])]
      exact ih hdealt (hmeets.2 m hm) hrest
    · rw [List.filter_cons_of_pos (by simp [hother])]
      exact exec_cons_eq_some.mpr ⟨m, hm, ih (hsame ▸ hdealt) (hmeets.2 m hm) hrest⟩

/-- A run is the run without its deliveries, or with the one that passes the checks. -/
theorem exec_first {labels : List (Label R P F G₁)} : ∀ {net net' : Net E}, dealt d net = [] →
    Meets (step B D E S decrypt d req) (LaterLate E d req) net labels →
    exec (step B D E S decrypt d req) net labels = some net' →
    exec (step B D E S decrypt d req) net (labels.filter fun l => !l.isDelivery) = some net' ∨
      ∃ pre x post, pre ++ post = labels.filter (fun l => !l.isDelivery) ∧
        exec (step B D E S decrypt d req) net (pre ++ .deliver x :: post) = some net' := by
  induction labels with
  | nil =>
    intro net net' _ _ hrun
    exact .inl hrun
  | cons l labels ih =>
    intro net net' hfresh hmeets hrun
    obtain ⟨m, hm, hrest⟩ := exec_cons_eq_some.mp hrun
    obtain ⟨x, r, rfl, -, hdealt⟩ | ⟨x, rfl, -, rfl⟩ | ⟨hother, hsame⟩ := step_cases hm
    · rw [List.filter_cons_of_neg (by simp [Label.isDelivery])]
      refine .inr ⟨[], x, _, rfl, exec_cons_eq_some.mpr ⟨m, hm, ?_⟩⟩
      exact exec_of_dealt (by simp [hdealt]) (hmeets.2 m hm) hrest
    · rw [List.filter_cons_of_neg (by simp [Label.isDelivery])]
      exact ih hfresh (hmeets.2 m hm) hrest
    · rw [List.filter_cons_of_pos (by simp [hother])]
      obtain hnone | ⟨pre, x, post, hsplit, hrun'⟩ :=
        ih (hsame.trans hfresh) (hmeets.2 m hm) hrest
      · exact .inl (exec_cons_eq_some.mpr ⟨m, hm, hnone⟩)
      · refine .inr ⟨l :: pre, x, post, ?_, exec_cons_eq_some.mpr ⟨m, hm, hrun'⟩⟩
        rw [List.cons_append, hsplit]

/-- Refused deliveries at the end of a run. -/
theorem exec_replicate_unanswered (x : Delivery R) (n : ℕ) :
    exec (step B D E S decrypt d req) net (List.replicate n (.deliver x.unanswered)) =
      some net := by
  induction n with
  | zero => rfl
  | succ n ih =>
    have hstep : step B D E S decrypt d req net (.deliver x.unanswered) = some net := by
      simp only [step]
      split
      · next hentry => exact absurd (late_unanswered req _ x) (not_late hentry)
      · rfl
    exact exec_cons_eq_some.mpr ⟨net, hstep, ih⟩

omit [NatCast F] in
theorem exists_delivery {labels : List (Label R P F G₁)}
    (h : 1 ≤ labels.countP Label.isDelivery) : ∃ x, .deliver x ∈ labels := by
  obtain ⟨l, hl, hdelivery⟩ := List.countP_pos_iff.mp h
  cases l with
  | deliver x => exact ⟨x, hl⟩
  | session l => cases hdelivery
  | elsewhere n st => cases hdelivery

/-- Every order of `k` deliveries has an order of one delivery with the same outcome. -/
theorem Delivers.single {k : ℕ} {rest labels : List (Label R P F G₁)}
    (h : Delivers B D E S decrypt d req net k rest labels net') (hk : 1 ≤ k)
    (hfresh : dealt d net = [])
    (hlate : Meets (step B D E S decrypt d req) (LaterLate E d req) net labels) :
    ∃ labels', Delivers B D E S decrypt d req net 1 rest labels' net' := by
  obtain ⟨hcount, hrest, hrun⟩ := h
  have hquiet : rest.countP Label.isDelivery = 0 := by
    rw [← hrest, List.countP_eq_zero]
    intro l hl
    simpa using (List.mem_filter.mp hl).2
  have hkeeps : rest.filter (fun l => !l.isDelivery) = rest := by
    rw [← hrest, List.filter_filter]
    simp only [Bool.and_self]
  obtain hnone | ⟨pre, x, post, hsplit, hone⟩ := exec_first hfresh hlate hrun
  · obtain ⟨x, -⟩ := exists_delivery (hk.trans hcount.ge)
    refine ⟨rest ++ List.replicate 1 (.deliver x.unanswered), ?_, ?_, ?_⟩
    · rw [List.countP_append, hquiet]
      rfl
    · rw [List.filter_append, hkeeps]
      simp [Label.isDelivery]
    · rw [exec_append, ← hrest, hnone, Option.bind_some]
      exact exec_replicate_unanswered x 1
  · rw [hrest] at hsplit
    refine ⟨pre ++ .deliver x :: post, ?_, ?_, hone⟩
    · rw [← hsplit, List.countP_append] at hquiet
      rw [List.countP_append, List.countP_cons_of_pos rfl]
      omega
    · rw [← hkeeps, ← hsplit, List.filter_append, List.filter_append,
        List.filter_cons_of_neg (by simp [Label.isDelivery])]

end System

section Fixtures

open TwoOfThree

/-- Participants that publish their polynomials. -/
def lineOps : ParticipantOps (ℕ × List Scalar) Scalar Scalar where
  Broadcast _ := List Scalar
  P2p := Scalar
  getId p := p.1
  round1 p := .ok (p, p.2, fun i => some (Interpolation.horner p.2 i))
  round2 p _ _ := .ok (p, p.2)
  round3 p _ := .ok (p, p.2)
  round4 p _ := .ok (p, p.2)
  round5 p _ := .ok p
  getSecretShare _ := some 1
  getPublicKey _ := some 1
  ser _ cs := .ok (cs.flatMap fun c => BigEndian.beBytes 8 c.val)
  de _ _ := .ok []
  serP2p _ := .ok []
  deP2p _ := .ok 0

def cluster : Net lineOps := .init lineOps before

/-- Node `n` enters the session of the request. -/
def entry (n : ℕ) : Label (List Scalar) (ℕ × List Scalar) Scalar Scalar :=
  .session (.attempt n (DkgDriver.probeSession request.sessionId
    (([1, 2, 3].filter (· ≠ n)).map fun i => ⟨i, "url", [4], 1⟩)) (n, []) fun st _ _ => .ok st)

/-- The messages of round `k + 1` arrive, and all three nodes go on. -/
def exchange (k : ℕ) : List (Label (List Scalar) (ℕ × List Scalar) Scalar Scalar) :=
  ((List.range 6).map fun i => .session (.record (6 * k + i))) ++
    (List.range 3).map fun j => .session (.check j)

end Fixtures

end Redelivery

end KmsCluster
