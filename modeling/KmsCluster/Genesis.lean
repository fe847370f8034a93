import KmsCluster.Dkg

/-!
# Genesis

The distributed genesis of `form_cluster` and `run_genesis` (`src/init.rs`) as a transition
system. All attempts run under the one session id `genesis:{app_id}`, buffers survive a failed
attempt, and the classification of the seeds by `join_cluster` is left open: any shardless node
that sees the whole nodeList live may start an attempt.

An attempt is a number. `contrib a` is the public contribution of the attempt `a`, and the
round-4 key of an attempt is the sum over its parts, the attempts whose contributions it
consumed.

## Main results

- `genesis_agreement`: two nodes that hold genesis shares have the same group key.
- `genesis_gate`: while a member holds a share, no later attempt completes.
-/

namespace KmsCluster.Genesis

open DkgSession Runs

/-- A round message: the sender's attempt, and in round 4 the parts of its key. -/
structure Msg where
  attempt : ℕ
  parts : Finset ℕ
  deriving DecidableEq

structure Packet where
  sender : ℕ
  round : ℕ
  msg : Msg
  deriving DecidableEq

/-- A running attempt, waiting for the messages of `round`. -/
structure Driver where
  attempt : ℕ
  expected : List ℕ
  round : ℕ
  /-- The attempts whose messages it consumed so far. -/
  consumed : List ℕ
  /-- The parts of its key, from round 4 on. -/
  parts : Finset ℕ

/-- Where a held share comes from. -/
inductive Share where
  | genesis (attempt : ℕ) (parts : Finset ℕ)
  | other

structure Node where
  share : Option Share
  driver : Option Driver
  session : DkgSession Msg

structure State where
  nodes : ℕ → Node
  net : List Packet
  next : ℕ
  /-- The attempts that completed, with their nodes. -/
  completed : List (ℕ × ℕ)

def State.init : State := ⟨fun _ => ⟨none, none, ∅⟩, [], 0, []⟩

inductive Label where
  /-- Node `p` starts `run_genesis` on the membership it assembles. -/
  | start (p : ℕ) (st : AppState) (now : ℤ)
  /-- A sent message reaches `p`, at any time and any number of times. -/
  | deliver (p : ℕ) (packet : Packet)
  /-- The barrier of a round before the last opens at `p`. -/
  | advance (p : ℕ) (parts : Finset ℕ)
  /-- The last barrier opens at `p` and round 5 accepts. -/
  | complete (p : ℕ)
  /-- A timeout or an error ends the attempt of `p`. -/
  | fail (p : ℕ)
  | restart (p : ℕ)
  /-- `p` gets a share by a sealed reload, a recovery or as a dealer. -/
  | adopt (p : ℕ)

def State.setNode (s : State) (p : ℕ) (node : Node) : State :=
  { s with nodes := Function.update s.nodes p node }

section System

variable {K : Type} [AddCommMonoid K]

/-- The round-4 key of an attempt with these parts. -/
def key (contrib : ℕ → K) (parts : Finset ℕ) : K := ∑ a ∈ parts, contrib a

/-- The packet an attempt sends when it enters `round`. -/
def Driver.packet (d : Driver) (p : ℕ) : Packet := ⟨p, d.round, ⟨d.attempt, d.parts⟩⟩

/-- The driver past its barrier. Entering round 4 it computes its key from its own contribution
    and from some of those it consumed. -/
def Driver.advance (d : Driver) (msgs : List (ℕ × Msg)) (parts : Finset ℕ) : Option Driver :=
  let consumed := d.consumed ++ msgs.map (·.2.attempt)
  if d.round < 3 then some { d with round := d.round + 1, consumed := consumed }
  else if d.round = 3 ∧ d.attempt ∈ parts ∧ ∀ a ∈ parts, a = d.attempt ∨ a ∈ consumed then
    some { d with round := 4, consumed := consumed, parts := parts }
  else none

def step [DecidableEq K] (nodeList : List Address) (contrib : ℕ → K) (s : State) :
    Label → Option State
  | .start p st now =>
    let node := s.nodes p
    match node.share, node.driver, assembleParticipants st (.ok nodeList) now with
    | none, none, .ok (some m) =>
      if m.allDiscovered ∧ m.ownId = p then
        let d : Driver := ⟨s.next, m.peers.map (·.id), 1, [], ∅⟩
        some { s with
          nodes := Function.update s.nodes p { node with driver := some d }
          net := d.packet p :: s.net
          next := s.next + 1 }
      else none
    | _, _, _ => none
  | .deliver p packet =>
    if packet ∈ s.net then
      let node := s.nodes p
      some (s.setNode p
        { node with session := node.session.record packet.round packet.sender packet.msg })
    else none
  | .advance p parts =>
    let node := s.nodes p
    match node.driver with
    | some d =>
      match node.session.awaitRound d.round d.expected with
      | some msgs =>
        match d.advance msgs parts with
        | some d' => some { s.setNode p { node with driver := some d' } with
            net := d'.packet p :: s.net }
        | none => none
      | none => none
    | none => none
  | .complete p =>
    let node := s.nodes p
    match node.driver with
    | some d =>
      match node.session.awaitRound 4 d.expected with
      | some msgs =>
        if d.round = 4 ∧ ∀ m ∈ msgs, key contrib m.2.parts = key contrib d.parts then
          some { s.setNode p ⟨some (.genesis d.attempt d.parts), none, ∅⟩ with
            completed := (p, d.attempt) :: s.completed }
        else none
      | none => none
    | none => none
  | .fail p =>
    let node := s.nodes p
    match node.driver with
    | some _ => some (s.setNode p { node with driver := none })
    | none => none
  | .restart p => some (s.setNode p ⟨none, none, ∅⟩)
  | .adopt p =>
    let node := s.nodes p
    match node.driver with
    | none => some (s.setNode p { node with share := some .other })
    | some _ => none

/-- What each step does, with its guards. -/
inductive Moves [DecidableEq K] (nodeList : List Address) (contrib : ℕ → K) (s : State) :
    Label → State → Prop
  | start {p : ℕ} {st : AppState} {now : ℤ} {m : Membership}
      (hshare : (s.nodes p).share = none) (hdriver : (s.nodes p).driver = none)
      (hassemble : assembleParticipants st (.ok nodeList) now = .ok (some m))
      (hall : m.allDiscovered = true) (hown : m.ownId = p) :
      Moves nodeList contrib s (.start p st now) { s with
        nodes := Function.update s.nodes p { s.nodes p with
          driver := some ⟨s.next, m.peers.map (·.id), 1, [], ∅⟩ }
        net := ⟨p, 1, ⟨s.next, ∅⟩⟩ :: s.net
        next := s.next + 1 }
  | deliver {p : ℕ} {packet : Packet} (hmem : packet ∈ s.net) :
      Moves nodeList contrib s (.deliver p packet) (s.setNode p { s.nodes p with
        session := (s.nodes p).session.record packet.round packet.sender packet.msg })
  | advance {p : ℕ} {parts : Finset ℕ} {d d' : Driver} {msgs : List (ℕ × Msg)}
      (hdriver : (s.nodes p).driver = some d)
      (hmsgs : (s.nodes p).session.awaitRound d.round d.expected = some msgs)
      (hadvance : d.advance msgs parts = some d') :
      Moves nodeList contrib s (.advance p parts)
        { s.setNode p { s.nodes p with driver := some d' } with net := d'.packet p :: s.net }
  | complete {p : ℕ} {d : Driver} {msgs : List (ℕ × Msg)}
      (hdriver : (s.nodes p).driver = some d)
      (hmsgs : (s.nodes p).session.awaitRound 4 d.expected = some msgs) (hround : d.round = 4)
      (hkeys : ∀ m ∈ msgs, key contrib m.2.parts = key contrib d.parts) :
      Moves nodeList contrib s (.complete p)
        { s.setNode p ⟨some (.genesis d.attempt d.parts), none, ∅⟩ with
          completed := (p, d.attempt) :: s.completed }
  | fail {p : ℕ} {d : Driver} (hdriver : (s.nodes p).driver = some d) :
      Moves nodeList contrib s (.fail p) (s.setNode p { s.nodes p with driver := none })
  | restart {p : ℕ} : Moves nodeList contrib s (.restart p) (s.setNode p ⟨none, none, ∅⟩)
  | adopt {p : ℕ} (hdriver : (s.nodes p).driver = none) :
      Moves nodeList contrib s (.adopt p) (s.setNode p { s.nodes p with share := some .other })

theorem moves_of_step [DecidableEq K] {nodeList : List Address} {contrib : ℕ → K} {s s' : State}
    {l : Label} (h : step nodeList contrib s l = some s') : Moves nodeList contrib s l s' := by
  cases l with
  | start p st now =>
    simp only [step] at h
    split at h
    · next m hshare hdriver hassemble =>
      split at h
      · next hcond =>
        cases h
        exact .start hshare hdriver hassemble hcond.1 hcond.2
      · cases h
    · cases h
  | deliver p packet =>
    simp only [step] at h
    split at h
    · next hmem =>
      cases h
      exact .deliver hmem
    · cases h
  | advance p parts =>
    simp only [step] at h
    split at h
    · next hdriver =>
      split at h
      · next hmsgs =>
        split at h
        · next hadvance =>
          cases h
          exact .advance hdriver hmsgs hadvance
        · cases h
      · cases h
    · cases h
  | complete p =>
    simp only [step] at h
    split at h
    · next hdriver =>
      split at h
      · next hmsgs =>
        split at h
        · next hcond =>
          cases h
          exact .complete hdriver hmsgs hcond.1 hcond.2
        · cases h
      · cases h
    · cases h
  | fail p =>
    simp only [step] at h
    split at h
    · next hdriver =>
      cases h
      exact .fail hdriver
    · cases h
  | restart p =>
    cases h
    exact .restart
  | adopt p =>
    simp only [step] at h
    split at h
    · next hdriver =>
      cases h
      exact .adopt hdriver
    · cases h

-- ════════════════════════════════════════════════════════════════════════
-- Invariant
-- ════════════════════════════════════════════════════════════════════════

/-- A running attempt knows only attempts that have started, and waits for every other member. -/
structure DriverOk (members next p : ℕ) (d : Driver) : Prop where
  member : 1 ≤ p ∧ p ≤ members
  attempt_lt : d.attempt < next
  consumed_lt : ∀ a ∈ d.consumed, a < next
  parts_lt : ∀ a ∈ d.parts, a < next
  own_mem : d.round = 4 → d.attempt ∈ d.parts
  expected : ∀ q, 1 ≤ q → q ≤ members → q ≠ p → q ∈ d.expected

/-- What holds of node `p`. The round-4 messages `p` sent in earlier attempts have parts from
    before its current one, because they were sent before it started. -/
structure NodeOk (members : ℕ) (contrib : ℕ → K) (net : List Packet) (next p : ℕ) (node : Node) :
    Prop where
  session : ∀ r q m, node.session.lookup (r, q) = some m → ⟨q, r, m⟩ ∈ net
  driver : ∀ d, node.driver = some d → DriverOk members next p d
  idle : node.share ≠ none → node.driver = none
  running : ∀ d, node.driver = some d → ∀ k ∈ net, k.sender = p → k.round = 4 →
    (d.round = 4 ∧ k.msg.parts = d.parts) ∨ ∀ a ∈ k.msg.parts, a < d.attempt
  held : ∀ b parts, node.share = some (.genesis b parts) → ∀ k ∈ net, k.sender = p →
    k.round = 4 → k.msg.parts = parts ∨ ∀ a ∈ k.msg.parts, a < b
  member : ∀ b parts, node.share = some (.genesis b parts) → 1 ≤ p ∧ p ≤ members
  own_mem : ∀ b parts, node.share = some (.genesis b parts) → b ∈ parts ∧ ∀ a ∈ parts, a < next
  agreed : ∀ b parts, node.share = some (.genesis b parts) → ∀ q, 1 ≤ q → q ≤ members → q ≠ p →
    ∃ k ∈ net, k.sender = q ∧ k.round = 4 ∧ key contrib k.msg.parts = key contrib parts

def NetOk (net : List Packet) (next : ℕ) : Prop :=
  ∀ k ∈ net, k.msg.attempt < next ∧ ∀ a ∈ k.msg.parts, a < next

structure Inv (members : ℕ) (contrib : ℕ → K) (s : State) : Prop where
  net : NetOk s.net s.next
  completed : ∀ c ∈ s.completed, c.2 < s.next
  nodes : ∀ p, NodeOk members contrib s.net s.next p (s.nodes p)

variable {members : ℕ} {contrib : ℕ → K}

theorem DriverOk.mono {next next' p : ℕ} {d : Driver} (h : DriverOk members next p d)
    (hnext : next ≤ next') : DriverOk members next' p d :=
  ⟨h.member, by have := h.attempt_lt; omega, fun a ha => lt_of_lt_of_le (h.consumed_lt a ha) hnext,
    fun a ha => lt_of_lt_of_le (h.parts_lt a ha) hnext, h.own_mem, h.expected⟩

/-- Messages of other nodes and new attempts do not touch a node. -/
theorem NodeOk.mono {net net' : List Packet} {next next' p q : ℕ} {node : Node}
    (h : NodeOk members contrib net next q node) (hpq : q ≠ p) (hsub : net ⊆ net')
    (hnew : ∀ k ∈ net', k ∈ net ∨ k.sender = p) (hnext : next ≤ next') :
    NodeOk members contrib net' next' q node := by
  have hold : ∀ k ∈ net', k.sender = q → k ∈ net := fun k hk hsender =>
    (hnew k hk).resolve_right fun hp => hpq (hsender.symm.trans hp)
  refine ⟨fun r q' m hm => hsub (h.session r q' m hm), fun d hd => (h.driver d hd).mono hnext,
    h.idle, ?_, ?_, h.member, ?_, ?_⟩
  · intro d hd k hk hsender
    exact h.running d hd k (hold k hk hsender) hsender
  · intro b parts hshare k hk hsender
    exact h.held b parts hshare k (hold k hk hsender) hsender
  · intro b parts hshare
    exact ⟨(h.own_mem b parts hshare).1,
      fun a ha => lt_of_lt_of_le ((h.own_mem b parts hshare).2 a ha) hnext⟩
  · intro b parts hshare q' hpos hle hne
    obtain ⟨k, hk, hrest⟩ := h.agreed b parts hshare q' hpos hle hne
    exact ⟨k, hsub hk, hrest⟩

/-- A step changes one node and may send packets of that node. -/
theorem Inv.update {s s' : State} (h : Inv members contrib s) {p : ℕ} {node : Node}
    (hnodes : s'.nodes = Function.update s.nodes p node) (hsub : s.net ⊆ s'.net)
    (hnew : ∀ k ∈ s'.net, k ∈ s.net ∨ k.sender = p) (hnext : s.next ≤ s'.next)
    (hnet : NetOk s'.net s'.next) (hcompleted : ∀ c ∈ s'.completed, c.2 < s'.next)
    (hnode : NodeOk members contrib s'.net s'.next p node) : Inv members contrib s' := by
  refine ⟨hnet, hcompleted, ?_⟩
  intro q
  rw [hnodes]
  by_cases hq : q = p
  · subst hq
    rw [Function.update_self]
    exact hnode
  · rw [Function.update_of_ne hq]
    exact (h.nodes q).mono hq hsub hnew hnext

/-- A step that sends nothing. -/
theorem Inv.setNode {s : State} (h : Inv members contrib s) {p : ℕ} {node : Node}
    (hnode : NodeOk members contrib s.net s.next p node) :
    Inv members contrib (s.setNode p node) :=
  h.update rfl (List.Subset.refl _) (fun _ hk => .inl hk) le_rfl h.net h.completed hnode

theorem inv_init : Inv members contrib State.init := by
  refine ⟨by simp [NetOk, State.init], by simp [State.init], fun p => ?_⟩
  refine ⟨?_, ?_, ?_, ?_, ?_, ?_, ?_, ?_⟩
  · intro r q m hm
    cases hm
  all_goals simp [State.init]

/-- A node without share and driver, whatever it has buffered. -/
theorem NodeOk.blank {net : List Packet} {next p : ℕ} {session : DkgSession Msg}
    (hsession : ∀ r q m, session.lookup (r, q) = some m → ⟨q, r, m⟩ ∈ net) :
    NodeOk members contrib net next p ⟨none, none, session⟩ := by
  refine ⟨hsession, ?_, ?_, ?_, ?_, ?_, ?_, ?_⟩ <;> simp

/-- A share that is not from genesis. -/
theorem NodeOk.adopt {net : List Packet} {next p : ℕ} {session : DkgSession Msg}
    (hsession : ∀ r q m, session.lookup (r, q) = some m → ⟨q, r, m⟩ ∈ net) :
    NodeOk members contrib net next p ⟨some .other, none, session⟩ := by
  refine ⟨hsession, ?_, ?_, ?_, ?_, ?_, ?_, ?_⟩ <;> simp

theorem mem_cons_sender {net : List Packet} {k₀ : Packet} {p : ℕ} (hsender : k₀.sender = p) :
    ∀ k ∈ k₀ :: net, k ∈ net ∨ k.sender = p := by
  intro k hk
  rcases List.mem_cons.mp hk with rfl | hk
  · exact .inr hsender
  · exact .inl hk

theorem NetOk.cons {net : List Packet} {next next' : ℕ} {k₀ : Packet} (h : NetOk net next)
    (hnext : next ≤ next') (hattempt : k₀.msg.attempt < next')
    (hparts : ∀ a ∈ k₀.msg.parts, a < next') : NetOk (k₀ :: net) next' := by
  intro k hk
  rcases List.mem_cons.mp hk with rfl | hk
  · exact ⟨hattempt, hparts⟩
  · exact ⟨lt_of_lt_of_le (h k hk).1 hnext, fun a ha => lt_of_lt_of_le ((h k hk).2 a ha) hnext⟩

theorem Driver.advance_eq_some {d d' : Driver} {msgs : List (ℕ × Msg)} {parts : Finset ℕ}
    (h : d.advance msgs parts = some d') :
    d.round ≤ 3 ∧ d'.attempt = d.attempt ∧ d'.expected = d.expected ∧
      d'.consumed = d.consumed ++ msgs.map (·.2.attempt) ∧
      ((d'.round < 4 ∧ d'.parts = d.parts) ∨
        (d'.round = 4 ∧ d.attempt ∈ d'.parts ∧
          ∀ a ∈ d'.parts, a = d.attempt ∨ a ∈ d'.consumed)) := by
  simp only [Driver.advance] at h
  split at h
  · next hlt =>
    cases h
    exact ⟨by omega, rfl, rfl, rfl, .inl ⟨by dsimp only; omega, rfl⟩⟩
  · split at h
    · next hcond =>
      cases h
      exact ⟨by omega, rfl, rfl, rfl, .inr ⟨rfl, hcond.2.1, hcond.2.2⟩⟩
    · cases h

variable [DecidableEq K] {nodeList : List Address}

/-- A starting node is a member and waits for all the others. -/
theorem assembled_member {st : AppState} {now : ℤ} {m : Membership}
    (h : assembleParticipants st (.ok nodeList) now = .ok (some m))
    (hall : m.allDiscovered = true) :
    (1 ≤ m.ownId ∧ m.ownId ≤ nodeList.length) ∧ ∀ q, 1 ≤ q → q ≤ nodeList.length → q ≠ m.ownId →
      q ∈ m.peers.map (·.id) := by
  refine ⟨?_, ?_⟩
  · obtain ⟨members, hmembers, -, hposition, -⟩ := assembleParticipants_eq_some h
    cases hmembers
    obtain ⟨hpos, hget⟩ := positionOf_eq_some hposition
    have hlt := (List.getElem?_eq_some_iff.mp hget).1
    omega
  · intro q hpos hle hne
    obtain ⟨peer, hpeer, hid⟩ := assembleParticipants_allDiscovered h hall rfl hpos hle hne
    exact List.mem_map.mpr ⟨peer, hpeer, hid⟩

section Actions

variable {s : State} {p : ℕ}

omit [DecidableEq K] in
theorem Inv.start (h : Inv nodeList.length contrib s) {st : AppState} {now : ℤ} {m : Membership}
    (hshare : (s.nodes m.ownId).share = none)
    (hassemble : assembleParticipants st (.ok nodeList) now = .ok (some m))
    (hall : m.allDiscovered = true) : Inv nodeList.length contrib { s with
      nodes := Function.update s.nodes m.ownId { s.nodes m.ownId with
        driver := some ⟨s.next, m.peers.map (·.id), 1, [], ∅⟩ }
      net := ⟨m.ownId, 1, ⟨s.next, ∅⟩⟩ :: s.net
      next := s.next + 1 } := by
  obtain ⟨hmember, hexpected⟩ := assembled_member hassemble hall
  have hnode := h.nodes m.ownId
  refine h.update rfl (List.subset_cons_self _ _) (mem_cons_sender rfl) (Nat.le_succ _)
    (h.net.cons (Nat.le_succ _) (Nat.lt_succ_self _) (by simp))
    (fun c hc => Nat.lt_succ_of_lt (h.completed c hc)) ?_
  refine ⟨fun r q msg hm => List.mem_cons_of_mem _ (hnode.session r q msg hm), ?_, ?_, ?_, ?_, ?_,
    ?_, ?_⟩
  · intro d hd
    cases hd
    exact ⟨hmember, Nat.lt_succ_self _, by simp, by simp, by simp, hexpected⟩
  · simp [hshare]
  · -- The new attempt is past everything sent so far.
    intro d hd k hk hsender hround
    cases hd
    right
    rcases List.mem_cons.mp hk with rfl | hk
    · simp
    · exact (h.net k hk).2
  all_goals simp [hshare]

/-- What a driver has taken in, and its parts, are attempts that were made. -/
theorem DriverOk.advance {members next : ℕ} {net : List Packet} {d d' : Driver}
    {session : DkgSession Msg} {msgs : List (ℕ × Msg)} {parts : Finset ℕ}
    (h : DriverOk members next p d) (hnet : NetOk net next)
    (hsession : ∀ r q m, session.lookup (r, q) = some m → ⟨q, r, m⟩ ∈ net)
    (hmsgs : session.awaitRound d.round d.expected = some msgs)
    (hadvance : d.advance msgs parts = some d') : DriverOk members next p d' := by
  obtain ⟨-, hattempt, hexpected, hconsumed, hparts⟩ := Driver.advance_eq_some hadvance
  have hconsumedLt : ∀ a ∈ d'.consumed, a < next := by
    intro a ha
    rw [hconsumed, List.mem_append, List.mem_map] at ha
    rcases ha with ha | ⟨⟨q, m⟩, hmem, rfl⟩
    · exact h.consumed_lt a ha
    · obtain ⟨-, -, rfl⟩ := awaitRound_eq_some.mp hmsgs
      exact (hnet _ (hsession _ _ _ (mem_roundMessages.mp hmem))).1
  refine ⟨h.member, hattempt ▸ h.attempt_lt, hconsumedLt, ?_, ?_, hexpected ▸ h.expected⟩
  · intro a ha
    rcases hparts with ⟨-, heq⟩ | ⟨-, -, hfrom⟩
    · rw [heq] at ha
      exact h.parts_lt a ha
    · rcases hfrom a ha with rfl | hmem
      · exact h.attempt_lt
      · exact hconsumedLt a hmem
  · intro hfour
    rcases hparts with ⟨hlt, -⟩ | ⟨-, hown, -⟩
    · omega
    · rwa [hattempt]

omit [DecidableEq K] in
theorem Inv.advance (h : Inv members contrib s) {parts : Finset ℕ} {d d' : Driver}
    {msgs : List (ℕ × Msg)} (hd : (s.nodes p).driver = some d)
    (hmsgs : (s.nodes p).session.awaitRound d.round d.expected = some msgs)
    (hadvance : d.advance msgs parts = some d') : Inv members contrib
      { s.setNode p { s.nodes p with driver := some d' } with net := d'.packet p :: s.net } := by
  have hnode := h.nodes p
  have hshare : (s.nodes p).share = none := by
    by_contra hne
    rw [hnode.idle hne] at hd
    cases hd
  obtain ⟨hround, hattempt, -⟩ := Driver.advance_eq_some hadvance
  have hdriver : DriverOk members s.next p d' :=
    (hnode.driver d hd).advance h.net hnode.session hmsgs hadvance
  refine h.update rfl (List.subset_cons_self _ _) (mem_cons_sender rfl) le_rfl
    (h.net.cons le_rfl hdriver.attempt_lt hdriver.parts_lt) h.completed ?_
  refine ⟨fun r q msg hm => List.mem_cons_of_mem _ (hnode.session r q msg hm), ?_, ?_, ?_, ?_, ?_,
    ?_, ?_⟩
  · intro d₀ hd₀
    cases hd₀
    exact hdriver
  · simp [hshare]
  · -- The one round-4 packet of this attempt is the one being sent.
    intro d₀ hd₀ k hk hsender hfour
    cases hd₀
    rcases List.mem_cons.mp hk with rfl | hk
    · exact .inl ⟨hfour, rfl⟩
    · right
      rw [hattempt]
      rcases hnode.running d hd k hk hsender hfour with ⟨hfour', -⟩ | hlt
      · omega
      · exact hlt
  all_goals simp [hshare]

omit [DecidableEq K] in
theorem Inv.complete (h : Inv members contrib s) {d : Driver} {msgs : List (ℕ × Msg)}
    (hd : (s.nodes p).driver = some d)
    (hmsgs : (s.nodes p).session.awaitRound 4 d.expected = some msgs) (hround : d.round = 4)
    (hkeys : ∀ m ∈ msgs, key contrib m.2.parts = key contrib d.parts) : Inv members contrib
      { s.setNode p ⟨some (.genesis d.attempt d.parts), none, ∅⟩ with
        completed := (p, d.attempt) :: s.completed } := by
  have hnode := h.nodes p
  have hdriver := hnode.driver d hd
  refine h.update rfl (List.Subset.refl _) (fun _ hk => .inl hk) le_rfl h.net ?_ ?_
  · intro c hc
    rcases List.mem_cons.mp hc with rfl | hc
    · exact hdriver.attempt_lt
    · exact h.completed c hc
  refine ⟨nofun, by simp, by simp, by simp, ?_, fun _ _ _ => hdriver.member, ?_, ?_⟩
  · intro b parts hshare k hk hsender hfour
    cases hshare
    rcases hnode.running d hd k hk hsender hfour with ⟨-, heq⟩ | hlt
    · exact .inl heq
    · exact .inr hlt
  · intro b parts hshare
    cases hshare
    exact ⟨hdriver.own_mem hround, hdriver.parts_lt⟩
  · intro b parts hshare q hpos hle hne
    cases hshare
    obtain ⟨msg, hmsg⟩ := awaitRound_expected hmsgs (hdriver.expected q hpos hle hne)
    obtain ⟨-, -, rfl⟩ := awaitRound_eq_some.mp hmsgs
    exact ⟨⟨q, 4, msg⟩, hnode.session _ _ _ (mem_roundMessages.mp hmsg), rfl, rfl, hkeys _ hmsg⟩

theorem inv_step {s' : State} (l : Label) (h : Inv nodeList.length contrib s)
    (hstep : step nodeList contrib s l = some s') : Inv nodeList.length contrib s' := by
  cases moves_of_step hstep with
  | @start p st now m hshare hdriver hassemble hall hown =>
    subst hown
    exact h.start hshare hassemble hall
  | @deliver p packet hmem =>
    have hnode := h.nodes p
    refine h.setNode ⟨?_, hnode.driver, hnode.idle, hnode.running, hnode.held, hnode.member,
      hnode.own_mem, hnode.agreed⟩
    intro r q m hm
    rcases lookup_record hm with ⟨rfl, rfl, rfl⟩ | hold
    · exact hmem
    · exact hnode.session r q m hold
  | advance hd hmsgs hadvance => exact h.advance hd hmsgs hadvance
  | complete hd hmsgs hround hkeys => exact h.complete hd hmsgs hround hkeys
  | @fail p d hd =>
    have hnode := h.nodes p
    exact h.setNode ⟨hnode.session, by simp, by simp, by simp, hnode.held, hnode.member,
      hnode.own_mem, hnode.agreed⟩
  | restart =>
    refine h.setNode (NodeOk.blank ?_)
    intro r q m hm
    cases hm
  | @adopt p hdriver =>
    dsimp only
    rw [hdriver]
    exact h.setNode (NodeOk.adopt (h.nodes p).session)

end Actions

theorem inv_run {labels : List Label} {s : State}
    (hrun : exec (step nodeList contrib) State.init labels = some s) :
    Inv nodeList.length contrib s :=
  exec_invariant (fun _ l _ h => inv_step l h) inv_init hrun

-- ════════════════════════════════════════════════════════════════════════
-- Agreement and the gate
-- ════════════════════════════════════════════════════════════════════════

/-- Different sets of the attempts below `next` have different sums of contributions. -/
def NoCoincidence (contrib : ℕ → K) (next : ℕ) : Prop :=
  ∀ A B : Finset ℕ, (∀ a ∈ A, a < next) → (∀ b ∈ B, b < next) →
    key contrib A = key contrib B → A = B

omit [DecidableEq K] in
/-- A holder's parts are the parts of some round-4 message of every other member. -/
theorem Inv.parts_sent {s : State} (h : Inv members contrib s)
    (hsums : NoCoincidence contrib s.next) {p q b : ℕ} {parts : Finset ℕ}
    (hshare : (s.nodes p).share = some (.genesis b parts)) (hpos : 1 ≤ q) (hle : q ≤ members)
    (hne : q ≠ p) : ∃ k ∈ s.net, k.sender = q ∧ k.round = 4 ∧ k.msg.parts = parts := by
  obtain ⟨k, hk, hsender, hround, hkey⟩ := (h.nodes p).agreed b parts hshare q hpos hle hne
  exact ⟨k, hk, hsender, hround,
    hsums _ _ (h.net k hk).2 ((h.nodes p).own_mem b parts hshare).2 hkey⟩

omit [DecidableEq K] in
/-- Of two holders with different parts, the first one's attempt is the older. -/
theorem Inv.attempt_lt {s : State} (h : Inv members contrib s)
    (hsums : NoCoincidence contrib s.next) {x y a b : ℕ} {A B : Finset ℕ}
    (hx : (s.nodes x).share = some (.genesis a A)) (hy : (s.nodes y).share = some (.genesis b B))
    (hxy : x ≠ y) (hparts : A ≠ B) : a < b := by
  obtain ⟨hpos, hle⟩ := (h.nodes y).member b B hy
  obtain ⟨k, hk, hsender, hround, hsent⟩ := h.parts_sent hsums hx hpos hle hxy.symm
  rcases (h.nodes y).held b B hy k hk hsender hround with heq | hlt
  · exact absurd (hsent.symm.trans heq) hparts
  · exact hlt a (hsent ▸ ((h.nodes x).own_mem a A hx).1)

/-- Nodes that at one moment hold shares from genesis, in whatever attempts they got them, have
    stored the same group public key. -/
theorem genesis_agreement (nodeList : List Address) (contrib : ℕ → K) (labels : List Label)
    (s : State) (hrun : exec (step nodeList contrib) State.init labels = some s)
    (hsums : NoCoincidence contrib s.next) {x y a b : ℕ} {A B : Finset ℕ}
    (hx : (s.nodes x).share = some (.genesis a A))
    (hy : (s.nodes y).share = some (.genesis b B)) : key contrib A = key contrib B := by
  have hinv := inv_run hrun
  by_cases hxy : x = y
  · subst hxy
    cases hx.symm.trans hy
    rfl
  · by_contra hkey
    have hparts : A ≠ B := fun heq => hkey (heq ▸ rfl)
    have hab := hinv.attempt_lt hsums hx hy hxy hparts
    have hba := hinv.attempt_lt hsums hy hx (Ne.symm hxy) hparts.symm
    omega

/-- A holder that does not restart keeps a share and sends nothing more in this session. -/
theorem step_holder {s s' : State} {l : Label} {y : ℕ}
    (h : Inv nodeList.length contrib s) (hheld : (s.nodes y).share ≠ none)
    (hstay : l ≠ .restart y) (hstep : step nodeList contrib s l = some s') :
    (s'.nodes y).share ≠ none ∧ (∀ k ∈ s'.net, k.sender = y → k ∈ s.net) ∧ s.next ≤ s'.next := by
  have hidle := (h.nodes y).idle hheld
  -- Only another node starts or advances an attempt.
  have hother : ∀ p d, (s.nodes p).driver = some d → y ≠ p := by
    rintro p d hd rfl
    rw [hidle] at hd
    cases hd
  have hsend : ∀ k₀ : Packet, k₀.sender ≠ y → ∀ k ∈ k₀ :: s.net, k.sender = y → k ∈ s.net := by
    intro k₀ hk₀ k hk hsender
    rcases List.mem_cons.mp hk with rfl | hk
    · exact absurd hsender hk₀
    · exact hk
  have hupdate : ∀ p node, (y = p → node.share ≠ none) →
      (Function.update s.nodes p node y).share ≠ none := by
    intro p node hnode
    by_cases hpy : y = p
    · rw [hpy, Function.update_self]
      exact hnode hpy
    · rw [Function.update_of_ne hpy]
      exact hheld
  cases moves_of_step hstep with
  | @start p st now m hshare hdriver hassemble hall hown =>
    have hpy : y ≠ p := fun heq => hheld (heq ▸ hshare)
    exact ⟨hupdate p _ fun heq => absurd heq hpy, hsend _ (Ne.symm hpy), Nat.le_succ _⟩
  | @deliver p packet hmem =>
    exact ⟨hupdate p _ fun heq => heq ▸ hheld, fun _ hk _ => hk, le_rfl⟩
  | @advance p parts d d' msgs hd hmsgs hadvance =>
    exact ⟨hupdate p _ fun heq => heq ▸ hheld, hsend _ (hother p d hd).symm, le_rfl⟩
  | @complete p d msgs hd hmsgs hround hkeys =>
    exact ⟨hupdate p _ fun _ => by simp, fun _ hk _ => hk, le_rfl⟩
  | @fail p d hd => exact ⟨hupdate p _ fun heq => heq ▸ hheld, fun _ hk _ => hk, le_rfl⟩
  | @restart p =>
    exact ⟨hupdate p _ fun heq => absurd (heq ▸ rfl) hstay, fun _ hk _ => hk, le_rfl⟩
  | @adopt p hdriver => exact ⟨hupdate p _ fun _ => by simp, fun _ hk _ => hk, le_rfl⟩

/-- What holds from the moment on at which `y` holds a share, `started` attempts having been
    started until then. -/
structure Gated (members : ℕ) (contrib : ℕ → K) (y started bound : ℕ) (s : State) : Prop where
  inv : Inv members contrib s
  held : (s.nodes y).share ≠ none
  sent : ∀ k ∈ s.net, k.sender = y → ∀ a ∈ k.msg.parts, a < started
  completed : s.next ≤ bound → ∀ c ∈ s.completed, c.2 < started

theorem Gated.step {s s' : State} {l : Label} {y started bound : ℕ}
    (h : Gated nodeList.length contrib y started bound s) (hsums : NoCoincidence contrib bound)
    (hpos : 1 ≤ y) (hle : y ≤ nodeList.length) (hstay : l ≠ .restart y)
    (hstep : step nodeList contrib s l = some s') :
    Gated nodeList.length contrib y started bound s' := by
  have hinv := inv_step l h.inv hstep
  obtain ⟨hheld, hsent, hnext⟩ := step_holder h.inv h.held hstay hstep
  refine ⟨hinv, hheld, fun k hk hy => h.sent k (hsent k hk hy) hy, ?_⟩
  intro hbound c hc
  have hold : ∀ c ∈ s.completed, c.2 < started := h.completed (by omega)
  cases moves_of_step hstep with
  | @complete p d msgs hd hmsgs hround hkeys =>
    rcases List.mem_cons.mp hc with rfl | hc
    · -- The parts of the new share were sent by `y`, so they are all old.
      have hpy : y ≠ p := by
        rintro rfl
        rw [(h.inv.nodes y).idle h.held] at hd
        cases hd
      have hsums' : NoCoincidence contrib s.next := fun A B hA hB =>
        hsums A B (fun a ha => lt_of_lt_of_le (hA a ha) hbound)
          (fun b hb => lt_of_lt_of_le (hB b hb) hbound)
      have hshare : ((s.setNode p ⟨some (.genesis d.attempt d.parts), none, ∅⟩).nodes p).share =
          some (.genesis d.attempt d.parts) := by simp [State.setNode]
      obtain ⟨k, hk, hsender, -, hparts⟩ := hinv.parts_sent hsums' hshare hpos hle hpy
      exact h.sent k hk hsender d.attempt (hparts ▸ ((hinv.nodes p).own_mem _ _ hshare).1)
    · exact hold c hc
  | start => exact hold c hc
  | deliver => exact hold c hc
  | advance => exact hold c hc
  | fail => exact hold c hc
  | restart => exact hold c hc
  | adopt => exact hold c hc

/-- From the moment on at which a member holds a share, for as long as it does not restart, no
    attempt that starts later completes on any node. -/
theorem genesis_gate (nodeList : List Address) (contrib : ℕ → K) (before after : List Label)
    (s s' : State) (hbefore : exec (step nodeList contrib) State.init before = some s) {y : ℕ}
    (hpos : 1 ≤ y) (hle : y ≤ nodeList.length) (hheld : (s.nodes y).share ≠ none)
    (hafter : exec (step nodeList contrib) s after = some s')
    (hstay : ∀ l ∈ after, l ≠ .restart y) (hsums : NoCoincidence contrib s'.next) :
    ∀ x a, (x, a) ∈ s'.completed → a < s.next := by
  have hinv := inv_run hbefore
  have hgated : Gated nodeList.length contrib y s.next s'.next s :=
    ⟨hinv, hheld, fun k hk _ => (hinv.net k hk).2, fun _ => hinv.completed⟩
  have hend := exec_invariant_of_meets
    (fun _ _ _ h hl hstep => Gated.step h hsums hpos hle hl hstep) hgated
    (meets_of_forall hstay s) hafter
  exact fun x a hmem => hend.completed le_rfl (x, a) hmem

end System

namespace TwoNodes

def nodeList : List Address := [1, 2]

/-- Contributions that never add up to the same sum. -/
def contrib (a : ℕ) : Multiset ℕ := {a}

theorem noCoincidence (next : ℕ) : NoCoincidence contrib next := by
  intro A B _ _ hkey
  simp only [key, contrib, Finset.sum_multiset_singleton] at hkey
  exact Finset.val_inj.mp hkey

/-- The node with the given address, which has heard from the other one. -/
def node (own other : Address) : AppState :=
  { AppState.new ⟨"app", 2, 2, "", []⟩ own with
    peerTable := AList.insert other ⟨"url", 0, [4], 0, []⟩ ∅ }

/-- The round-`r` messages of both nodes arrive, then both pass the barrier. -/
def exchange (r : ℕ) (sent parts : Finset ℕ) : List Label :=
  [.deliver 2 ⟨1, r, ⟨0, sent⟩⟩, .deliver 1 ⟨2, r, ⟨1, sent⟩⟩, .advance 1 parts, .advance 2 parts]

/-- One genesis in which both nodes complete. -/
def formation : List Label :=
  [.start 1 (node 1 2) 0, .start 2 (node 2 1) 0] ++ exchange 1 ∅ ∅ ++ exchange 2 ∅ ∅ ++
    exchange 3 ∅ {0, 1} ++ [.deliver 2 ⟨1, 4, ⟨0, {0, 1}⟩⟩, .deliver 1 ⟨2, 4, ⟨1, {0, 1}⟩⟩,
      .complete 1, .complete 2]

/-- Node 2 restarts, takes the cluster for a fresh one and tries a genesis of its own. -/
def retry : List Label := [.restart 2, .start 2 (node 2 1) 0, .fail 2]

end TwoNodes

open TwoNodes in
theorem genesis_agreement_formation : ∃ s a b A B,
    exec (step nodeList contrib) State.init formation = some s ∧
      (s.nodes 1).share = some (.genesis a A) ∧ (s.nodes 2).share = some (.genesis b B) ∧
      key contrib A = key contrib B := by
  obtain ⟨s, a, b, A, B, hrun, h₁, h₂⟩ : ∃ s a b A B,
      exec (step nodeList contrib) State.init formation = some s ∧
        (s.nodes 1).share = some (.genesis a A) ∧ (s.nodes 2).share = some (.genesis b B) :=
    ⟨_, _, _, _, _, rfl, rfl, rfl⟩
  exact ⟨s, a, b, A, B, hrun, h₁, h₂,
    genesis_agreement nodeList contrib formation s hrun (noCoincidence _) h₁ h₂⟩

open TwoNodes in
theorem genesis_gate_retry : ∃ s s', exec (step nodeList contrib) State.init formation = some s ∧
    exec (step nodeList contrib) s retry = some s' ∧ ∀ x a, (x, a) ∈ s'.completed → a < s.next := by
  obtain ⟨s, s', hrun, hretry, hheld⟩ : ∃ s s',
      exec (step nodeList contrib) State.init formation = some s ∧
        exec (step nodeList contrib) s retry = some s' ∧ (s.nodes 1).share ≠ none :=
    ⟨_, _, rfl, rfl, nofun⟩
  have hstay : ∀ l ∈ retry, l ≠ .restart 1 := by
    intro l hl
    fin_cases hl <;> simp
  exact ⟨s, s', hrun, hretry, genesis_gate nodeList contrib formation retry s s' hrun le_rfl
    (by decide) hheld hretry hstay (noCoincidence _)⟩

end KmsCluster.Genesis
