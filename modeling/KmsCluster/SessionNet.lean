import KmsCluster.DkgDriver

/-!
# Attempts at one session

All attempts of any number of nodes at one session id (`src/dkg.rs`, `src/grpc.rs`): each attempt is
a `run_session`, the attempts of a node share its buffers, and messages arrive at any time, also
after the attempt that sent them has ended. Nodes go by nodeList position. Buffered messages are
tagged with the attempt they come from and the time they were recorded; the code has no such tags.

## Main results

- `no_residue`: as long as what an attempt has yet to consume does not outlive the attempts it comes
  from, no attempt consumes a message of an ended attempt that was there before it began.
- `stale_message_consumed`: a retry that consumes what a failed attempt left.
-/

namespace KmsCluster

namespace SessionNet

open DkgDriver Runs

/-- The attempt a message comes from, and when it was recorded. -/
structure Origin where
  attempt : ℕ
  recorded : ℕ

abbrev Tagged := Payload × Origin

variable {P F G Sig : Type}

/-- A `run_session` with what its caller does with the result. -/
structure Attempt (E : ParticipantOps P F G) where
  node : ℕ
  sess : Session
  participant : P
  finish : AppState → F → G → Except String AppState
  pos : Pos E
  begun : ℕ

def Attempt.running {E : ParticipantOps P F G} (a : Attempt E) : Bool := a.pos.awaiting.isSome

/-- A message that went into a round: when the attempt began, when the message was recorded, and
    whether the attempt it comes from had ended. -/
structure Consumed where
  attempt : ℕ
  begun : ℕ
  source : ℕ
  recorded : ℕ
  sourceEnded : Bool
  deriving DecidableEq

structure Net (E : ParticipantOps P F G) where
  app : ℕ → AppState
  buffers : ℕ → DkgSession Tagged
  attempts : List (Attempt E)
  /-- All messages sent so far, with their attempts. -/
  flight : List (ℕ × RoundMsg)
  time : ℕ
  consumed : List Consumed

def Net.init (E : ParticipantOps P F G) (app : ℕ → AppState) : Net E :=
  ⟨app, fun _ => ∅, [], [], 0, []⟩

def Net.running {E : ParticipantOps P F G} (net : Net E) (j : ℕ) : Bool :=
  net.attempts[j]?.any Attempt.running

inductive Label (P F G : Type) where
  /-- A task of `node` enters `run_session`. -/
  | attempt (node : ℕ) (sess : Session) (participant : P)
      (finish : AppState → F → G → Except String AppState)
  /-- The recipient's `dkg_round` records the `i`-th message. -/
  | record (i : ℕ)
  /-- Attempt `j` looks at its barrier. -/
  | check (j : ℕ)
  /-- The deadline of attempt `j` passes with the barrier closed. -/
  | timeout (j : ℕ)

/-- The messages a computation of the driver sends. -/
def sendsOf {E : ParticipantOps P F G} (r : Except String (Pos E × List RoundMsg)) :
    List RoundMsg :=
  match r with
  | .ok (_, sends) => sends
  | .error _ => []

def result {E : ParticipantOps P F G} : Pos E → Option (F × G)
  | .done share pk => some (share, pk)
  | _ => none

/-- What the caller of a completed `run_session` leaves of the node's state. -/
def Attempt.finished {E : ParticipantOps P F G} (a : Attempt E) (st : AppState) (r : F × G) :
    AppState :=
  match a.finish st r.1 r.2 with
  | .ok st' => st'
  | .error _ => st

/-- Attempt `j` goes on with the result of a computation. A completed session drops the node's
    buffers. -/
def Net.settle {E : ParticipantOps P F G} (net : Net E) (j : ℕ) (a : Attempt E)
    (r : Except String (Pos E × List RoundMsg)) : Net E :=
  let next := { net with
    attempts := net.attempts.set j { a with pos := settledPos r }
    flight := net.flight ++ (sendsOf r).map (j, ·) }
  match result (settledPos r) with
  | some out => { next with
      buffers := Function.update net.buffers a.node ∅
      app := Function.update net.app a.node (a.finished (net.app a.node) out) }
  | none => next

/-- The round-1 p2p payload is decrypted before it is buffered. -/
def receiveP2p (decrypt : Bytes → Except String Bytes) (p2p : Bytes) : Except String Bytes :=
  if p2p.isEmpty then .ok [] else decrypt p2p

theorem settle_attempts {E : ParticipantOps P F G} (net : Net E) (j : ℕ) (a : Attempt E)
    (r : Except String (Pos E × List RoundMsg)) :
    (net.settle j a r).attempts = net.attempts.set j { a with pos := settledPos r } := by
  unfold Net.settle
  dsimp only
  split
  · rfl
  · rfl

section Step

variable (E : ParticipantOps P F G) (S : Secp Sig) (decrypt : ℕ → Bytes → Except String Bytes)
  (sessionId : String)

/-- What the barrier of an attempt opens with. -/
def Net.opens {E : ParticipantOps P F G} (net : Net E) (a : Attempt E) :
    Option (List (ℕ × Tagged)) :=
  a.pos.awaiting.bind fun k => (net.buffers a.node).awaitRound k a.sess.expected

def Net.consumption {E : ParticipantOps P F G} (net : Net E) (j : ℕ) (a : Attempt E)
    (m : ℕ × Tagged) : Consumed :=
  ⟨j, a.begun, m.2.2.attempt, m.2.2.recorded, !net.running m.2.2.attempt⟩

/-- One step of the nodes. -/
def step (net : Net E) : Label P F G → Option (Net E)
  | .attempt node sess participant finish =>
    if sess.sessionId = sessionId then
      let r := start E S sess participant
      some { net with
        attempts := net.attempts ++ [⟨node, sess, participant, finish, settledPos r, net.time⟩]
        flight := net.flight ++ (sendsOf r).map (net.attempts.length, ·)
        time := net.time + 1 }
    else none
  | .record i =>
    match net.flight[i]? with
    | some (j, msg) =>
      match receiveP2p (decrypt msg.recipient) msg.p2p with
      | .ok p2p =>
        some { net with
          buffers := Function.update net.buffers msg.recipient
            ((net.buffers msg.recipient).record msg.round msg.fromIndex
              ((msg.broadcast, p2p), ⟨j, net.time⟩))
          time := net.time + 1 }
      | .error _ => none
    | none => none
  | .check j =>
    match net.attempts[j]? with
    | some a =>
      match net.opens a with
      | some msgs =>
        let r := resume E a.sess (E.getId a.participant) (msgs.map fun m => (m.1, m.2.1)) a.pos
        some { net.settle j a r with
          time := net.time + 1
          consumed := msgs.map (net.consumption j a) ++ net.consumed }
      | none => some net
    | none => none
  | .timeout j =>
    match net.attempts[j]? with
    | some a =>
      match a.pos.awaiting with
      | some k =>
        if (net.opens a).isSome then some net
        else some { net with
          attempts := net.attempts.set j { a with pos := .failed ("DKG session '" ++ sessionId ++
            "' round " ++ toString k ++ " timed out waiting for peers") }
          time := net.time + 1 }
      | none => some net
    | none => none

-- ════════════════════════════════════════════════════════════════════════
-- Who takes part
-- ════════════════════════════════════════════════════════════════════════

/-- The participants the nodes have entered the session with. -/
def Net.parts {E : ParticipantOps P F G} (net : Net E) : List (ℕ × P) :=
  net.attempts.map fun a => (a.node, a.participant)

variable {E S decrypt sessionId} in
theorem parts_set {net : Net E} {j : ℕ} {a a' : Attempt E} (hj : net.attempts[j]? = some a)
    (hnode : a'.node = a.node) (hparticipant : a'.participant = a.participant) :
    (net.attempts.set j a').map (fun a => (a.node, a.participant)) = net.parts := by
  obtain ⟨hlt, rfl⟩ := List.getElem?_eq_some_iff.mp hj
  have hparts : j < net.parts.length := by rwa [Net.parts, List.length_map]
  have hsame : (net.attempts[j].node, net.attempts[j].participant) = net.parts[j] := by
    simp [Net.parts]
  rw [List.map_set, hnode, hparticipant, hsame]
  exact List.set_getElem_self _

variable {E S decrypt sessionId} in
/-- Only a new attempt adds a participant. -/
theorem step_parts {net net' : Net E} {l : Label P F G}
    (h : step E S decrypt sessionId net l = some net') : net'.parts = net.parts ∨
      ∃ node sess participant finish, l = .attempt node sess participant finish ∧
        net'.parts = net.parts ++ [(node, participant)] := by
  cases l with
  | attempt node sess participant finish =>
    simp only [step] at h
    split at h
    · cases h
      refine .inr ⟨node, sess, participant, finish, rfl, ?_⟩
      rw [Net.parts, List.map_append]
      rfl
    · cases h
  | record i =>
    simp only [step] at h
    split at h
    · split at h
      · cases h
        exact .inl rfl
      · cases h
    · cases h
  | check j =>
    simp only [step] at h
    split at h
    · next a hj =>
      split at h
      · cases h
        left
        rw [Net.parts, settle_attempts]
        exact parts_set hj rfl rfl
      · cases h
        exact .inl rfl
    · cases h
  | timeout j =>
    simp only [step] at h
    split at h
    · next a hj =>
      split at h
      · split at h
        · cases h
          exact .inl rfl
        · cases h
          exact .inl (parts_set hj rfl rfl)
      · cases h
        exact .inl rfl
    · cases h

-- ════════════════════════════════════════════════════════════════════════
-- Residue
-- ════════════════════════════════════════════════════════════════════════

/-- A message in the buffers of the attempt's node that is not of a round it has consumed. -/
def Net.Ahead {E : ParticipantOps P F G} (net : Net E) (a : Attempt E) (msg : Tagged) : Prop :=
  ∃ k round sender, a.pos.awaiting = some k ∧ k ≤ round ∧
    (net.buffers a.node).lookup (round, sender) = some msg

/-- Messages that wait to be consumed do not outlive their attempts: an attempt begins on a buffer
    that holds messages of running attempts only, and when an attempt ends, no running attempt
    still has ahead of it a message of it from before its own beginning. -/
def NoLeftovers (net : Net E) (l : Label P F G) : Prop :=
  (∀ node sess participant finish, l = .attempt node sess participant finish →
    ∀ key msg, (net.buffers node).lookup key = some msg → net.running msg.2.attempt = true) ∧
  ∀ net' j, step E S decrypt sessionId net l = some net' → net.running j = true →
    net'.running j = false → ∀ a ∈ net.attempts, ∀ msg, net.Ahead a msg → msg.2.attempt = j →
      a.begun ≤ msg.2.recorded

variable {E S decrypt sessionId} {net : Net E}

structure Inv (net : Net E) : Prop where
  begun : ∀ a ∈ net.attempts, a.begun ≤ net.time
  /-- What an attempt has ahead of it from before it began is of running attempts. -/
  kept : ∀ a ∈ net.attempts, ∀ msg, net.Ahead a msg → msg.2.recorded < a.begun →
    net.running msg.2.attempt = true
  logged : ∀ c ∈ net.consumed, c.sourceEnded = true → c.begun ≤ c.recorded

theorem inv_init (app : ℕ → AppState) : Inv (.init E app) where
  begun _ h := by cases h
  kept _ h := by cases h
  logged _ h := by cases h

theorem running_set {j : ℕ} {a : Attempt E} (hj : net.attempts[j]? = some a) (a' : Attempt E)
    {net' : Net E} (hattempts : net'.attempts = net.attempts.set j a') (s : ℕ) :
    net'.running s = if s = j then a'.running else net.running s := by
  have hlt : j < net.attempts.length := (List.getElem?_eq_some_iff.mp hj).1
  unfold Net.running
  rw [hattempts]
  by_cases hs : s = j
  · rw [if_pos hs, hs, List.getElem?_set_self hlt, Option.any_some]
  · rw [if_neg hs, List.getElem?_set_ne fun hjs => hs hjs.symm]

theorem running_of_mem {j : ℕ} {a : Attempt E} (hj : net.attempts[j]? = some a) :
    net.running j = a.running := by
  rw [Net.running, hj, Option.any_some]

/-- A running attempt goes on or ends. -/
theorem Inv.advance (h : Inv net) {j : ℕ} {a a' : Attempt E} {net' : Net E}
    (hj : net.attempts[j]? = some a)
    (hpos : ∀ k', a'.pos.awaiting = some k' → ∃ k, a.pos.awaiting = some k ∧ k ≤ k')
    (hattempts : net'.attempts = net.attempts.set j a') (hnode : a'.node = a.node)
    (hbegun : a'.begun = a.begun)
    (hbuffers : ∀ n key msg, (net'.buffers n).lookup key = some msg →
      (net.buffers n).lookup key = some msg)
    (htime : net.time ≤ net'.time)
    (hlogged : ∀ c ∈ net'.consumed, c.sourceEnded = true → c.begun ≤ c.recorded)
    (hended : net'.running j = false → ∀ b ∈ net.attempts, ∀ msg, net.Ahead b msg →
      msg.2.attempt = j → b.begun ≤ msg.2.recorded) : Inv net' := by
  have hmem : a ∈ net.attempts := List.mem_of_getElem? hj
  refine ⟨?_, ?_, hlogged⟩
  · intro b hb
    rw [hattempts] at hb
    obtain hold | rfl := List.mem_or_eq_of_mem_set hb
    · exact (h.begun b hold).trans htime
    · rw [hbegun]
      exact (h.begun a hmem).trans htime
  · rintro b hb msg ⟨k', round, sender, hk', hround, hmsg⟩ hbefore
    rw [hattempts] at hb
    -- The attempt before the step, with the same beginning; it had the message ahead of it too.
    obtain ⟨b₀, hb₀, hahead, hbegun₀⟩ : ∃ b₀ ∈ net.attempts, net.Ahead b₀ msg ∧
        b₀.begun = b.begun := by
      obtain hold | rfl := List.mem_or_eq_of_mem_set hb
      · exact ⟨b, hold, ⟨k', round, sender, hk', hround, hbuffers _ _ msg hmsg⟩, rfl⟩
      · obtain ⟨k, hk, hle⟩ := hpos k' hk'
        refine ⟨a, hmem, ⟨k, round, sender, hk, hle.trans hround, ?_⟩, hbegun.symm⟩
        rw [← hnode]
        exact hbuffers _ _ msg hmsg
    have hsource := h.kept b₀ hb₀ msg hahead (by omega)
    cases hnow : net'.running msg.2.attempt with
    | true => rfl
    | false =>
      by_cases hs : msg.2.attempt = j
      · rw [hs] at hnow
        have hle := hended hnow b₀ hb₀ msg hahead hs
        omega
      · rw [running_set hj a' hattempts, if_neg hs, hsource] at hnow
        cases hnow

theorem Inv.attempt (h : Inv net) (a : Attempt E) (flight : List (ℕ × RoundMsg))
    (hbegun : a.begun = net.time) (hclean : ∀ key msg, (net.buffers a.node).lookup key = some msg →
      net.running msg.2.attempt = true) :
    Inv { net with attempts := net.attempts ++ [a], flight := flight, time := net.time + 1 } := by
  have hkeeps : ∀ s, net.running s = true →
      Net.running { net with
        attempts := net.attempts ++ [a], flight := flight, time := net.time + 1 } s = true := by
    intro s hs
    obtain ⟨b, hb, -⟩ := (Option.any_eq_true _ _).mp hs
    have hlt : s < net.attempts.length := (List.getElem?_eq_some_iff.mp hb).1
    rw [Net.running, List.getElem?_append_left hlt]
    exact hs
  refine ⟨?_, ?_, h.logged⟩
  · intro b hb
    obtain hold | hnew := List.mem_append.mp hb
    · exact (h.begun b hold).trans (Nat.le_succ _)
    · rw [List.mem_singleton.mp hnew, hbegun]
      exact Nat.le_succ _
  · rintro b hb msg ⟨k, round, sender, hk, hround, hmsg⟩ hbefore
    obtain hold | hnew := List.mem_append.mp hb
    · exact hkeeps _ (h.kept b hold msg ⟨k, round, sender, hk, hround, hmsg⟩ hbefore)
    · rw [List.mem_singleton.mp hnew] at hmsg
      exact hkeeps _ (hclean (round, sender) msg hmsg)

theorem Inv.record (h : Inv net) (n round sender j : ℕ) (payload : Payload) :
    Inv { net with
      buffers := Function.update net.buffers n
        ((net.buffers n).record round sender (payload, ⟨j, net.time⟩))
      time := net.time + 1 } := by
  refine ⟨fun b hb => (h.begun b hb).trans (Nat.le_succ _), ?_, h.logged⟩
  rintro b hb msg ⟨k, r, q, hk, hround, hmsg⟩ hbefore
  by_cases hn : b.node = n
  · dsimp only at hmsg
    rw [hn, Function.update_self] at hmsg
    obtain ⟨-, -, rfl⟩ | hold := DkgSession.lookup_record hmsg
    · exact absurd (h.begun b hb) (Nat.not_le_of_lt hbefore)
    · exact h.kept b hb msg ⟨k, r, q, hk, hround, hn ▸ hold⟩ hbefore
  · dsimp only at hmsg
    rw [Function.update_of_ne hn] at hmsg
    exact h.kept b hb msg ⟨k, r, q, hk, hround, hmsg⟩ hbefore

theorem settle_buffers_subset {net : Net E} {j : ℕ} {a : Attempt E}
    {r : Except String (Pos E × List RoundMsg)} {n : ℕ} {key : ℕ × ℕ} {msg : Tagged}
    (h : ((net.settle j a r).buffers n).lookup key = some msg) :
    (net.buffers n).lookup key = some msg := by
  unfold Net.settle at h
  dsimp only at h
  split at h
  · dsimp only at h
    by_cases hn : n = a.node
    · rw [hn, Function.update_self] at h
      cases h
    · rw [Function.update_of_ne hn] at h
      exact h
  · exact h

/-- An open barrier of an attempt returns messages that it has ahead of it. -/
theorem Net.opens_eq_some {a : Attempt E} {msgs : List (ℕ × Tagged)}
    (h : net.opens a = some msgs) :
    (∃ k, a.pos.awaiting = some k) ∧ ∀ m ∈ msgs, net.Ahead a m.2 := by
  obtain ⟨k, hk, hround⟩ := Option.bind_eq_some_iff.mp h
  refine ⟨⟨k, hk⟩, ?_⟩
  intro m hm
  obtain ⟨-, -, rfl⟩ := DkgSession.awaitRound_eq_some.mp hround
  exact ⟨k, k, m.1, hk, le_rfl, DkgSession.mem_roundMessages.mp hm⟩

theorem Attempt.running_of_awaiting {a : Attempt E} {k : ℕ} (hk : a.pos.awaiting = some k) :
    a.running = true := by
  rw [Attempt.running, hk]
  rfl

theorem Inv.check (h : Inv net) {j : ℕ} {a : Attempt E} {msgs : List (ℕ × Tagged)}
    (hj : net.attempts[j]? = some a) (hopens : net.opens a = some msgs) (ownId : ℕ)
    (payloads : List (ℕ × Payload))
    (hended : Net.running { net.settle j a (resume E a.sess ownId payloads a.pos) with
        time := net.time + 1
        consumed := msgs.map (net.consumption j a) ++ net.consumed } j = false →
      ∀ b ∈ net.attempts, ∀ msg, net.Ahead b msg → msg.2.attempt = j →
        b.begun ≤ msg.2.recorded) :
    Inv { net.settle j a (resume E a.sess ownId payloads a.pos) with
      time := net.time + 1
      consumed := msgs.map (net.consumption j a) ++ net.consumed } := by
  obtain ⟨⟨k, hk⟩, hmsgs⟩ := Net.opens_eq_some hopens
  have hpos : ∀ k', (settledPos (resume E a.sess ownId payloads a.pos)).awaiting = some k' →
      ∃ k, a.pos.awaiting = some k ∧ k ≤ k' := by
    intro k' hk'
    obtain ⟨-, rfl⟩ := settledPos_resume hk hk'
    exact ⟨k, hk, Nat.le_succ k⟩
  refine h.advance hj hpos (settle_attempts net j a _) rfl rfl
    (fun n key msg hmsg => settle_buffers_subset hmsg) (Nat.le_succ _) ?_ hended
  intro c hc hsource
  obtain hnew | hold := List.mem_append.mp hc
  · obtain ⟨m, hm, rfl⟩ := List.mem_map.mp hnew
    by_contra hlt
    have hkept := h.kept a (List.mem_of_getElem? hj) m.2 (hmsgs m hm) (Nat.lt_of_not_le hlt)
    simp [Net.consumption, hkept] at hsource
  · exact h.logged c hold hsource

theorem inv_step (net : Net E) (l : Label P F G) (net' : Net E) (h : Inv net)
    (hclean : NoLeftovers E S decrypt sessionId net l)
    (hs : step E S decrypt sessionId net l = some net') : Inv net' := by
  obtain ⟨hbegin, hend⟩ := hclean
  cases l with
  | attempt node sess participant finish =>
    simp only [step] at hs
    split at hs
    · cases hs
      exact h.attempt _ _ rfl (hbegin node sess participant finish rfl)
    · cases hs
  | record i =>
    simp only [step] at hs
    split at hs
    · split at hs
      · cases hs
        exact h.record ..
      · cases hs
    · cases hs
  | check j =>
    have hs' := hs
    simp only [step] at hs
    split at hs
    · next a hj =>
      split at hs
      · next msgs hopens =>
        cases hs
        obtain ⟨k, hk⟩ := (Net.opens_eq_some hopens).1
        refine h.check hj hopens _ _ (hend _ j hs' ?_)
        rw [running_of_mem hj]
        exact Attempt.running_of_awaiting hk
      · cases hs
        exact h
    · cases hs
  | timeout j =>
    have hs' := hs
    simp only [step] at hs
    split at hs
    · next a hj =>
      split at hs
      · next k hk =>
        have hrunning : a.running = true := Attempt.running_of_awaiting hk
        split at hs
        · cases hs
          exact h
        · cases hs
          refine h.advance hj ?_ rfl rfl rfl (fun _ _ _ hmsg => hmsg) (Nat.le_succ _)
            h.logged (hend _ j hs' ((running_of_mem hj).trans hrunning))
          intro k' hk'
          cases hk'
      · cases hs
        exact h
    · cases hs

/-- In a run without leftovers, no attempt consumes a message that was recorded before it began
    and whose own attempt has ended. -/
theorem no_residue {app : ℕ → AppState} {labels : List (Label P F G)}
    (hclean : Meets (step E S decrypt sessionId) (NoLeftovers E S decrypt sessionId)
      (.init E app) labels)
    (hrun : exec (step E S decrypt sessionId) (.init E app) labels = some net) :
    ∀ c ∈ net.consumed, ¬ (c.sourceEnded = true ∧ c.recorded < c.begun) := by
  have hinv : Inv net := exec_invariant_of_meets inv_step (inv_init app) hclean hrun
  rintro c hc ⟨hended, hbefore⟩
  have hle := hinv.logged c hc hended
  omega

end Step

/-- `NoLeftovers`, evaluated. -/
def noLeftoversTest (E : ParticipantOps P F G) (S : Secp Sig)
    (decrypt : ℕ → Bytes → Except String Bytes) (sessionId : String) (net : Net E)
    (l : Label P F G) : Bool :=
  (match l with
    | .attempt node _ _ _ => (net.buffers node).entries.all fun e => net.running e.2.2.attempt
    | _ => true) &&
  (step E S decrypt sessionId net l).all fun net' => (List.range net.attempts.length).all fun j =>
    !net.running j || net'.running j || net.attempts.all fun a => a.pos.awaiting.all fun k =>
      (net.buffers a.node).entries.all fun e =>
        decide (e.1.1 < k ∨ e.2.2.attempt ≠ j ∨ a.begun ≤ e.2.2.recorded)

theorem noLeftoversTest_sound {E : ParticipantOps P F G} {S : Secp Sig}
    {decrypt : ℕ → Bytes → Except String Bytes} {sessionId : String} (net : Net E)
    (l : Label P F G) (h : noLeftoversTest E S decrypt sessionId net l = true) :
    NoLeftovers E S decrypt sessionId net l := by
  obtain ⟨hbegin, hend⟩ := Bool.and_eq_true_iff.mp h
  refine ⟨?_, ?_⟩
  · rintro node sess participant finish rfl key msg hmsg
    exact List.all_eq_true.mp hbegin ⟨key, msg⟩ (AList.mem_lookup_iff.mp hmsg)
  · rintro net' j hs hrunning hended a ha msg ⟨k, round, sender, hk, hround, hmsg⟩ hsource
    obtain ⟨b, hb, -⟩ := (Option.any_eq_true _ _).mp hrunning
    have hlt : j < net.attempts.length := (List.getElem?_eq_some_iff.mp hb).1
    rw [hs, Option.all_some] at hend
    have hj := List.all_eq_true.mp hend j (List.mem_range.mpr hlt)
    simp only [hrunning, hended, Bool.not_true, Bool.false_or] at hj
    have hattempt := List.all_eq_true.mp hj a ha
    rw [hk, Option.all_some] at hattempt
    have hentry := of_decide_eq_true
      (List.all_eq_true.mp hattempt ⟨(round, sender), msg⟩ (AList.mem_lookup_iff.mp hmsg))
    rcases hentry with hconsumed | hother | hbegun
    · exact absurd hround (Nat.not_le_of_lt hconsumed)
    · exact absurd hsource hother
    · exact hbegun

section Fixtures

/-- Participants that accept everything. -/
def idOps : ParticipantOps ℕ ℕ ℕ where
  Broadcast _ := Unit
  P2p := Unit
  getId p := p
  round1 p := .ok (p, (), fun _ => some ())
  round2 p _ _ := .ok (p, ())
  round3 p _ := .ok (p, ())
  round4 p _ := .ok (p, ())
  round5 p _ := .ok p
  getSecretShare _ := some 5
  getPublicKey _ := some 7
  ser _ _ := .ok []
  de _ _ := .ok ()
  serP2p _ := .ok []
  deP2p _ := .ok ()

/-- Node `n` enters the genesis session with the other members of a committee. -/
def genesisAttempt (members : List ℕ) (n : ℕ) : Label ℕ ℕ ℕ :=
  .attempt n (probeSession "genesis:app"
    ((members.filter (· ≠ n)).map fun i => ⟨i, "http://node:4443", [4], 0⟩)) n
    fun st _ _ => .ok st

def genesisNet : Net idOps :=
  .init idOps fun _ => AppState.new ⟨"app", 2, 3, "http://node:4443", []⟩ 0

def genesisStep : Net idOps → Label ℕ ℕ ℕ → Option (Net idOps) :=
  step idOps openSecp (fun _ bytes => .ok bytes) "genesis:app"

/-- Node 2 begins after node 1's first message has come in. The session completes, at node 1
    first. -/
def lateStart : List (Label ℕ ℕ ℕ) :=
  [genesisAttempt [1, 2] 1, .record 0, genesisAttempt [1, 2] 2, .record 1, .check 0, .check 1,
    .record 2, .record 3, .check 0, .check 1, .record 4, .record 5, .check 0, .check 1, .record 6,
    .record 7, .check 0, .check 1]

theorem no_residue_lateStart : ∃ net, exec genesisStep genesisNet lateStart = some net ∧
    (net.attempts.map fun a => a.pos.outcome) = [some (.ok (5, 7)), some (.ok (5, 7))] ∧
    ⟨1, 2, 0, 1, false⟩ ∈ net.consumed ∧
    ∀ c ∈ net.consumed, ¬ (c.sourceEnded = true ∧ c.recorded < c.begun) := by
  have hclean : Meets genesisStep (NoLeftovers idOps openSecp (fun _ bytes => .ok bytes)
      "genesis:app") genesisNet lateStart :=
    meets_of_check noLeftoversTest_sound (by decide +kernel)
  obtain ⟨net, hrun, houtcomes, hmem⟩ : ∃ net, exec genesisStep genesisNet lateStart = some net ∧
      (net.attempts.map fun a => a.pos.outcome) = [some (.ok (5, 7)), some (.ok (5, 7))] ∧
      net.consumed.contains ⟨1, 2, 0, 1, false⟩ = true := ⟨_, rfl, rfl, rfl⟩
  exact ⟨net, hrun, houtcomes, List.contains_iff_mem.mp hmem, no_residue hclean hrun⟩

/-- Nodes 1 and 2 time out waiting for node 3. Node 2 tries again, and node 3 comes up. -/
def retryRun : List (Label ℕ ℕ ℕ) :=
  [genesisAttempt [1, 2, 3] 1, genesisAttempt [1, 2, 3] 2, .record 0, .timeout 0, .timeout 1,
    genesisAttempt [1, 2, 3] 2, genesisAttempt [1, 2, 3] 3, .record 7, .check 2]

/-- The retry of node 2 consumes the message of node 1's attempt that timed out. -/
theorem stale_message_consumed : ∃ net, exec genesisStep genesisNet retryRun = some net ∧
    ⟨2, 5, 0, 2, true⟩ ∈ net.consumed ∧
    ¬ ∀ c ∈ net.consumed, ¬ (c.sourceEnded = true ∧ c.recorded < c.begun) := by
  have hconsumed : ∃ net, exec genesisStep genesisNet retryRun = some net ∧
      net.consumed = [⟨2, 5, 3, 7, false⟩, ⟨2, 5, 0, 2, true⟩] := ⟨_, rfl, rfl⟩
  obtain ⟨net, hnet, hlog⟩ := hconsumed
  have hmem : ⟨2, 5, 0, 2, true⟩ ∈ net.consumed := by
    rw [hlog]
    exact List.mem_cons_of_mem _ List.mem_cons_self
  exact ⟨net, hnet, hmem, fun h => h _ hmem ⟨rfl, by decide⟩⟩

end Fixtures

end SessionNet

end KmsCluster
