import KmsCluster.Auth
import KmsCluster.Dkg

/-!
# The session driver

Model of `run_session` (`src/dkg.rs`): one participant is driven through the five rounds, over
the buffers that `dkg_round` fills. The participant comes from `gennaro-dkg` and the encoding of
its messages from `serde_bare`; they are the parameter `ParticipantOps`. Between two barriers the
driver runs without waiting for a peer, so its steps are the checks of the round barrier and the
timeouts; the inbound messages are recorded in between, in any order and from anybody.

## Main results

- `isolated_iff`: exactly when messages of unexpected senders do not influence a session.
- `stranger_fails_session`: a session that one such message makes fail.
-/

namespace KmsCluster

open Fallible Runs

/-- What `run_session` calls of a gennaro participant and of `serde_bare`. `Broadcast k` is the
    broadcast data of round `k`. -/
structure ParticipantOps (P F G : Type) where
  Broadcast : ℕ → Type
  P2p : Type
  getId : P → ℕ
  round1 : P → Except String (P × Broadcast 1 × (ℕ → Option P2p))
  round2 : P → (ℕ → Option (Broadcast 1)) → (ℕ → Option P2p) → Except String (P × Broadcast 2)
  round3 : P → (ℕ → Option (Broadcast 2)) → Except String (P × Broadcast 3)
  round4 : P → (ℕ → Option (Broadcast 3)) → Except String (P × Broadcast 4)
  round5 : P → (ℕ → Option (Broadcast 4)) → Except String P
  getSecretShare : P → Option F
  getPublicKey : P → Option G
  ser : (k : ℕ) → Broadcast k → Except String Bytes
  de : (k : ℕ) → Bytes → Except String (Broadcast k)
  serP2p : P2p → Except String Bytes
  deP2p : Bytes → Except String P2p

namespace DkgDriver

/-- A buffered message: the broadcast and the decrypted p2p bytes. -/
abbrev Payload := Bytes × Bytes

/-- The arguments of a session, with the outcomes of `sign_request` by round and what the ECIES
    encryption to each peer draws. -/
structure Session where
  sessionId : String
  peers : List SessionPeer
  signRequest : ℕ → Except String Bytes
  randomness : ℕ → Bytes

def Session.expected (sess : Session) : List ℕ := sess.peers.map (·.id)

/-- A message on its way to a peer. -/
structure RoundMsg where
  recipient : ℕ
  round : ℕ
  fromIndex : ℕ
  broadcast : Bytes
  p2p : Bytes

/-- `broadcast_round`: one message for every peer. -/
def broadcastRound (sess : Session) (round ownId : ℕ) (broadcast : Bytes)
    (p2pPerPeer : ℕ → Option Bytes) : Except String (List RoundMsg) := do
  let _ ← sess.signRequest round
  return sess.peers.map fun peer =>
    ⟨peer.id, round, ownId, broadcast, (p2pPerPeer peer.id).getD []⟩

/-- Decode the broadcasts of a round into the map that already holds `map`. -/
def insertAll {α : Type} (de : Bytes → Except String α) :
    (ℕ → Option α) → List (ℕ × Payload) → Except String (ℕ → Option α)
  | map, [] => .ok map
  | map, (sender, bcast, _) :: rest => do
    let data ← (de bcast).mapError ("dkg deserialize failed: " ++ ·)
    insertAll de (Function.update map sender (some data)) rest

/-- Decode round 1, which also carries the p2p shares. -/
def insertRound1 {α β : Type} (de : Bytes → Except String α) (deP2p : Bytes → Except String β) :
    (ℕ → Option α) → (ℕ → Option β) → List (ℕ × Payload) →
      Except String ((ℕ → Option α) × (ℕ → Option β))
  | bmap, pmap, [] => .ok (bmap, pmap)
  | bmap, pmap, (sender, bcast, p2p) :: rest => do
    let data ← (de bcast).mapError ("dkg deserialize failed: " ++ ·)
    let share ← (deP2p p2p).mapError ("dkg deserialize failed: " ++ ·)
    insertRound1 de deP2p (Function.update bmap sender (some data))
      (Function.update pmap sender (some share)) rest

variable {P F G Sig : Type}

/-- Where the driver waits, or how it ended. From round 2 on it holds its own broadcast. -/
inductive Pos (E : ParticipantOps P F G) where
  | round1 (p : P)
  | round2 (p : P) (own : E.Broadcast 2)
  | round3 (p : P) (own : E.Broadcast 3)
  | round4 (p : P) (own : E.Broadcast 4)
  | done (share : F) (pk : G)
  | failed (error : String)

variable (E : ParticipantOps P F G) (S : Secp Sig) (sess : Session)

/-- The share for each peer, encrypted to that peer's public key. -/
def encryptP2p (p2p : ℕ → Option E.P2p) :
    (ℕ → Option Bytes) → List SessionPeer → Except String (ℕ → Option Bytes)
  | enc, [] => .ok enc
  | enc, peer :: rest => do
    let share ← okOr (p2p peer.id) ("missing round1 p2p for peer " ++ toString peer.id)
    let bytes ← (E.serP2p share).mapError ("dkg serialize failed: " ++ ·)
    let ciphertext ← (S.encrypt (sess.randomness peer.id) peer.pubkey bytes).mapError fun e =>
      "round1 p2p ecies for peer " ++ toString peer.id ++ ": " ++
        KmsError.display (.cryptoError ("ECIES encrypt failed: " ++ e))
    encryptP2p p2p (Function.update enc peer.id (some ciphertext)) rest

/-- Round 1 up to its barrier. -/
def start (p : P) : Except String (Pos E × List RoundMsg) := do
  let (p', b1, p2p1) ← (E.round1 p).mapError ("round1: " ++ ·)
  let bytes ← (E.ser 1 b1).mapError ("dkg serialize failed: " ++ ·)
  let enc ← encryptP2p E S sess p2p1 (fun _ => none) sess.peers
  let sends ← broadcastRound sess 1 (E.getId p) bytes enc
  return (.round1 p', sends)

/-- Rounds 2 to 4 up to their barriers: serialize and send the own broadcast. -/
def sendRound (k ownId : ℕ) (b : E.Broadcast k) : Except String (List RoundMsg) := do
  let bytes ← (E.ser k b).mapError ("dkg serialize failed: " ++ ·)
  broadcastRound sess k ownId bytes fun _ => none

/-- Into round `k`: compute its broadcast from the decoded map of the round before, send it and
    wait. -/
def nextRound {M : Type} (k ownId : ℕ) (decoded : Except String M)
    (round : M → Except String (P × E.Broadcast k)) (wait : P → E.Broadcast k → Pos E) :
    Except String (Pos E × List RoundMsg) := do
  let map ← decoded
  let (p, b) ← (round map).mapError ("round" ++ toString k ++ ": " ++ ·)
  let sends ← sendRound E sess k ownId b
  return (wait p b, sends)

/-- The map of round `k` starts with the own broadcast, which a message may replace. -/
def decodeRound (k ownId : ℕ) (own : E.Broadcast k) (msgs : List (ℕ × Payload)) :
    Except String (ℕ → Option (E.Broadcast k)) :=
  insertAll (E.de k) (Function.update (fun _ => none) ownId (some own)) msgs

/-- Round 5 and the results. -/
def lastRound (p : P) (decoded : Except String (ℕ → Option (E.Broadcast 4))) :
    Except String (Pos E × List RoundMsg) := do
  let map ← decoded
  let p ← (E.round5 p map).mapError ("round5: " ++ ·)
  let share ← okOr (E.getSecretShare p) "no secret share after round5"
  let pk ← okOr (E.getPublicKey p) "no public key after round5"
  return (.done share pk, [])

/-- From a barrier that opened with `msgs` to the next one, or to the end. -/
def resume (ownId : ℕ) (msgs : List (ℕ × Payload)) :
    Pos E → Except String (Pos E × List RoundMsg)
  | .round1 p =>
    nextRound E sess 2 ownId
      (insertRound1 (E.de 1) E.deP2p (fun _ => none) (fun _ => none) msgs)
      (fun maps => E.round2 p maps.1 maps.2) .round2
  | .round2 p own =>
    nextRound E sess 3 ownId (decodeRound E 2 ownId own msgs) (E.round3 p) .round3
  | .round3 p own =>
    nextRound E sess 4 ownId (decodeRound E 3 ownId own msgs) (E.round4 p) .round4
  | .round4 p own => lastRound E p (decodeRound E 4 ownId own msgs)
  | pos => .ok (pos, [])

/-- The round whose barrier the driver waits at. -/
def Pos.awaiting {E : ParticipantOps P F G} : Pos E → Option ℕ
  | .round1 _ => some 1
  | .round2 _ _ => some 2
  | .round3 _ _ => some 3
  | .round4 _ _ => some 4
  | .done _ _ | .failed _ => none

/-- What `run_session` has returned. -/
def Pos.outcome {E : ParticipantOps P F G} : Pos E → Option (Except String (F × G))
  | .done share pk => some (.ok (share, pk))
  | .failed error => some (.error error)
  | _ => none

structure State (E : ParticipantOps P F G) where
  buffers : DkgSession Payload
  pos : Pos E
  sent : List RoundMsg

/-- Go on with the result of a computation of the driver. A completed session drops its buffers,
    a failed one leaves them. -/
def State.settle {E : ParticipantOps P F G} (s : State E)
    (r : Except String (Pos E × List RoundMsg)) : State E :=
  match r with
  | .ok (.done share pk, sends) => ⟨∅, .done share pk, s.sent ++ sends⟩
  | .ok (pos, sends) => ⟨s.buffers, pos, s.sent ++ sends⟩
  | .error e => ⟨s.buffers, .failed e, s.sent⟩

inductive Label where
  /-- `dkg_round` records a message of this session. -/
  | record (round sender : ℕ) (payload : Payload)
  /-- The driver looks at its barrier. -/
  | check
  /-- The round's deadline passes with the barrier closed. -/
  | timeout

/-- One step of the session. -/
def step (ownId : ℕ) (s : State E) : Label → State E
  | .record round sender payload => { s with buffers := s.buffers.record round sender payload }
  | .check =>
    match s.pos.awaiting.bind fun k => s.buffers.awaitRound k sess.expected with
    | some msgs => s.settle (resume E sess ownId msgs s.pos)
    | none => s
  | .timeout =>
    match s.pos.awaiting with
    | some k =>
      if (s.buffers.awaitRound k sess.expected).isSome then s
      else { s with pos := .failed ("DKG session '" ++ sess.sessionId ++ "' round " ++ toString k ++
        " timed out waiting for peers") }
    | none => s

/-- `run_session` over buffers that already hold `buffers` when it starts. -/
def runSession (p : P) (buffers : DkgSession Payload) (labels : List Label) : State E :=
  labels.foldl (step E sess (E.getId p))
    (State.settle ⟨buffers, .round1 p, []⟩ (start E S sess p))

-- ════════════════════════════════════════════════════════════════════════
-- What round 1 sends
-- ════════════════════════════════════════════════════════════════════════

/-- A ciphertext of round 1 is encrypted to the key of a peer with that id. -/
def EncryptedTo (S : Secp Sig) (peers : List SessionPeer) (id : ℕ) (ciphertext : Bytes) : Prop :=
  ∃ peer ∈ peers, peer.id = id ∧ ∃ randomness share,
    S.encrypt randomness peer.pubkey share = .ok ciphertext

theorem EncryptedTo.cons {S : Secp Sig} {peers : List SessionPeer} {id : ℕ} {ciphertext : Bytes}
    (h : EncryptedTo S peers id ciphertext) (peer : SessionPeer) :
    EncryptedTo S (peer :: peers) id ciphertext := by
  obtain ⟨peer', hmem, hid, henc⟩ := h
  exact ⟨peer', List.mem_cons_of_mem _ hmem, hid, henc⟩

variable {E S sess} in
theorem encryptP2p_eq_ok {p2p : ℕ → Option E.P2p} {peers : List SessionPeer} :
    ∀ {enc enc' : ℕ → Option Bytes}, encryptP2p E S sess p2p enc peers = .ok enc' →
      (∀ id, enc' id = enc id ∨ ∃ c, enc' id = some c ∧ EncryptedTo S peers id c) ∧
        ∀ peer ∈ peers, ∃ c, enc' peer.id = some c ∧ EncryptedTo S peers peer.id c := by
  induction peers with
  | nil =>
    intro enc enc' h
    cases h
    exact ⟨fun id => .inl rfl, fun peer hpeer => by cases hpeer⟩
  | cons peer rest ih =>
    intro enc enc' h
    obtain ⟨share, -, h⟩ := bind_eq_ok.mp h
    obtain ⟨bytes, -, h⟩ := bind_eq_ok.mp h
    obtain ⟨ciphertext, hciphertext, h⟩ := bind_eq_ok.mp h
    obtain ⟨hids, hrest⟩ := ih h
    have hhere : EncryptedTo S (peer :: rest) peer.id ciphertext :=
      ⟨peer, List.mem_cons_self, rfl, sess.randomness peer.id, bytes,
        mapError_eq_ok.mp hciphertext⟩
    have hfirst : ∃ c, enc' peer.id = some c ∧ EncryptedTo S (peer :: rest) peer.id c := by
      obtain hkept | ⟨c, hc, henc⟩ := hids peer.id
      · rw [Function.update_self] at hkept
        exact ⟨ciphertext, hkept, hhere⟩
      · exact ⟨c, hc, henc.cons peer⟩
    refine ⟨fun id => ?_, fun q hq => ?_⟩
    · by_cases hid : id = peer.id
      · subst hid
        exact .inr hfirst
      · obtain hkept | ⟨c, hc, henc⟩ := hids id
        · rw [Function.update_of_ne hid] at hkept
          exact .inl hkept
        · exact .inr ⟨c, hc, henc.cons peer⟩
    · cases hq with
      | head => exact hfirst
      | tail _ hq =>
        obtain ⟨c, hc, henc⟩ := hrest q hq
        exact ⟨c, hc, henc.cons peer⟩

variable {E S sess} in
/-- Every message of round 1 carries a share encrypted to a peer with its recipient's id. -/
theorem start_sends {p : P} {pos : Pos E} {sends : List RoundMsg}
    (h : start E S sess p = .ok (pos, sends)) {msg : RoundMsg} (hmsg : msg ∈ sends) :
    EncryptedTo S sess.peers msg.recipient msg.p2p := by
  obtain ⟨first, -, h⟩ := bind_eq_ok.mp h
  obtain ⟨bytes, -, h⟩ := bind_eq_ok.mp h
  obtain ⟨enc, henc, h⟩ := bind_eq_ok.mp h
  obtain ⟨sends', hsends, h⟩ := bind_eq_ok.mp h
  cases h
  obtain ⟨_, -, hsends⟩ := bind_eq_ok.mp hsends
  cases hsends
  obtain ⟨peer, hpeer, rfl⟩ := List.mem_map.mp hmsg
  obtain ⟨c, hc, hto⟩ := (encryptP2p_eq_ok henc).2 peer hpeer
  show EncryptedTo S sess.peers peer.id ((enc peer.id).getD [])
  rw [hc]
  exact hto

-- ════════════════════════════════════════════════════════════════════════
-- Senders the session does not expect
-- ════════════════════════════════════════════════════════════════════════

/-- The buffers without the messages of unexpected senders. -/
def dropStrangers (expected : List ℕ) (buffers : DkgSession Payload) : DkgSession Payload :=
  AssocMap.retain (fun key _ => decide (key.2 ∈ expected)) buffers

/-- The label records no message of an unexpected sender. -/
def Label.expectedOnly (expected : List ℕ) : Label → Bool
  | .record _ sender _ => decide (sender ∈ expected)
  | _ => true

/-- The barriers of a session, whatever its participant computes: the round that is awaited (5
    after the last barrier, 0 after a timeout) over the buffers. -/
structure Barriers where
  buffers : DkgSession Payload
  round : ℕ

def Barriers.awaiting (b : Barriers) : Option ℕ :=
  if 1 ≤ b.round ∧ b.round ≤ 4 then some b.round else none

/-- The messages the awaited barrier opens with, when it is open. -/
def Barriers.opens (expected : List ℕ) (b : Barriers) : Option (List (ℕ × Payload)) :=
  b.awaiting.bind fun k => b.buffers.awaitRound k expected

def Barriers.step (expected : List ℕ) (b : Barriers) : Label → Barriers
  | .record round sender payload => { b with buffers := b.buffers.record round sender payload }
  | .check =>
    match b.opens expected with
    | some _ => ⟨if b.round = 4 then ∅ else b.buffers, b.round + 1⟩
    | none => b
  | .timeout =>
    match b.awaiting with
    | some _ => if (b.opens expected).isSome then b else { b with round := 0 }
    | none => b

/-- A check that finds its barrier open finds messages of expected senders only; so does a deadline
    in a session that expects nobody, whose barriers only strangers open. -/
def OpensClean (expected : List ℕ) (b : Barriers) (l : Label) : Prop :=
  l = .check ∨ l = .timeout ∧ expected = [] →
    ∀ msgs, b.opens expected = some msgs → ∀ m ∈ msgs, m.1 ∈ expected

/-- Every barrier of the session opens on messages of expected senders only. -/
def Undisturbed (expected : List ℕ) (buffers : DkgSession Payload) (labels : List Label) : Prop :=
  Meets (fun b l => some (Barriers.step expected b l)) (OpensClean expected) ⟨buffers, 1⟩ labels

/-- The session ends the same without the messages of unexpected senders, whatever participant it
    drives. -/
def Isolated (sessionId : String) (peers : List SessionPeer) (buffers : DkgSession Payload)
    (labels : List Label) : Prop :=
  ∀ (P F G Sig : Type) (E : ParticipantOps P F G) (S : Secp Sig)
    (signRequest : ℕ → Except String Bytes) (randomness : ℕ → Bytes) (p : P),
    let sess : Session := ⟨sessionId, peers, signRequest, randomness⟩
    (runSession E S sess p buffers labels).pos.outcome =
      (runSession E S sess p (dropStrangers sess.expected buffers)
        (labels.filter (Label.expectedOnly sess.expected))).pos.outcome

/-- Recording commutes with dropping the strangers; a stranger's message is dropped. -/
theorem dropStrangers_record (expected : List ℕ) (buffers : DkgSession Payload)
    (round sender : ℕ) (payload : Payload) :
    dropStrangers expected (buffers.record round sender payload) =
      if sender ∈ expected then (dropStrangers expected buffers).record round sender payload
      else dropStrangers expected buffers := by
  have hretain := AssocMap.retain_insert (fun key : ℕ × ℕ => decide (key.2 ∈ expected))
    (round, sender) payload buffers
  simp only [decide_eq_true_eq] at hretain
  exact hretain

theorem roundMessages_dropStrangers (expected : List ℕ) (buffers : DkgSession Payload) (k : ℕ) :
    (dropStrangers expected buffers).roundMessages k =
      (buffers.roundMessages k).filter fun m => m.1 ∈ expected := by
  show ((buffers.entries.filter _).filterMap _) = (buffers.entries.filterMap _).filter _
  generalize buffers.entries = entries
  induction entries with
  | nil => rfl
  | cons e entries ih =>
    by_cases hround : e.1.1 = k
    · by_cases hsender : e.1.2 ∈ expected
      · simpa [hround, hsender] using ih
      · simpa [hround, hsender] using ih
    · by_cases hsender : e.1.2 ∈ expected
      · simpa [hround, hsender] using ih
      · simpa [hround, hsender] using ih

/-- The barrier waits for the expected senders only; what it returns holds the others too, and
    they are enough when nobody is expected. -/
theorem awaitRound_dropStrangers (expected : List ℕ) (buffers : DkgSession Payload) (k : ℕ) :
    (dropStrangers expected buffers).awaitRound k expected =
      ((buffers.awaitRound k expected).map fun msgs =>
        msgs.filter fun m => m.1 ∈ expected).filter fun msgs => decide (msgs ≠ []) := by
  have hlookup : ∀ id ∈ expected,
      ((dropStrangers expected buffers).lookup (k, id)).isSome =
        (buffers.lookup (k, id)).isSome := by
    intro id hid
    rw [Bool.eq_iff_iff, Option.isSome_iff_exists, Option.isSome_iff_exists]
    constructor
    · rintro ⟨msg, hmsg⟩
      exact ⟨msg, (AssocMap.lookup_retain.mp hmsg).1⟩
    · rintro ⟨msg, hmsg⟩
      exact ⟨msg, AssocMap.lookup_retain.mpr ⟨hmsg, decide_eq_true hid⟩⟩
  have hall : (expected.all fun id => ((dropStrangers expected buffers).lookup (k, id)).isSome) =
      expected.all fun id => (buffers.lookup (k, id)).isSome := by
    rw [Bool.eq_iff_iff, List.all_eq_true, List.all_eq_true]
    constructor
    · intro h id hid
      exact (hlookup id hid).symm.trans (h id hid)
    · intro h id hid
      exact (hlookup id hid).trans (h id hid)
  simp only [DkgSession.awaitRound, hall, roundMessages_dropStrangers]
  by_cases hround : buffers.roundMessages k = []
  · simp [hround]
  · rw [if_neg hround]
    split
    · next hstrangers =>
      split
      · rw [Option.map_some, hstrangers]
        rfl
      · rfl
    · next hexpected =>
      split
      · rw [Option.map_some, Option.filter_some, if_pos (decide_eq_true hexpected)]
      · rfl

/-- An open barrier that somebody is expected at opens without the strangers too. -/
theorem isSome_awaitRound_dropStrangers {expected : List ℕ} (hexpected : expected ≠ [])
    (buffers : DkgSession Payload) (k : ℕ) :
    ((dropStrangers expected buffers).awaitRound k expected).isSome =
      (buffers.awaitRound k expected).isSome := by
  rw [awaitRound_dropStrangers]
  cases hmsgs : buffers.awaitRound k expected with
  | none => rfl
  | some msgs =>
    obtain ⟨id, hid⟩ := List.exists_mem_of_ne_nil expected hexpected
    obtain ⟨msg, hmsg⟩ := DkgSession.awaitRound_expected hmsgs hid
    have hkept : (msgs.filter fun m => m.1 ∈ expected) ≠ [] :=
      List.ne_nil_of_mem (List.mem_filter.mpr ⟨hmsg, decide_eq_true hid⟩)
    rw [Option.map_some, Option.filter_some, if_pos (decide_eq_true hkept)]
    rfl

-- ════════════════════════════════════════════════════════════════════════
-- Two runs side by side
-- ════════════════════════════════════════════════════════════════════════

variable {E S sess}

section StepEquations

variable {ownId k : ℕ} {s : State E}

theorem step_check_ended (h : s.pos.awaiting = none) : step E sess ownId s .check = s := by
  simp [step, h]

theorem step_check_closed (hk : s.pos.awaiting = some k)
    (hclosed : s.buffers.awaitRound k sess.expected = none) :
    step E sess ownId s .check = s := by
  simp [step, hk, hclosed]

theorem step_check_open (hk : s.pos.awaiting = some k) {msgs : List (ℕ × Payload)}
    (hopen : s.buffers.awaitRound k sess.expected = some msgs) :
    step E sess ownId s .check = s.settle (resume E sess ownId msgs s.pos) := by
  simp [step, hk, hopen]

theorem step_timeout_ended (h : s.pos.awaiting = none) : step E sess ownId s .timeout = s := by
  simp [step, h]

theorem step_timeout_open (hk : s.pos.awaiting = some k)
    (hopen : (s.buffers.awaitRound k sess.expected).isSome = true) :
    step E sess ownId s .timeout = s := by
  simp [step, hk, hopen]

theorem step_timeout_closed (hk : s.pos.awaiting = some k)
    (hclosed : (s.buffers.awaitRound k sess.expected).isSome = false) :
    (step E sess ownId s .timeout).pos = .failed ("DKG session '" ++ sess.sessionId ++
      "' round " ++ toString k ++ " timed out waiting for peers") := by
  simp [step, hk, hclosed]

end StepEquations

theorem nextRound_eq_ok {M : Type} {k ownId : ℕ} {decoded : Except String M}
    {round : M → Except String (P × E.Broadcast k)} {wait : P → E.Broadcast k → Pos E}
    {pos : Pos E} {sends : List RoundMsg}
    (h : nextRound E sess k ownId decoded round wait = .ok (pos, sends)) :
    ∃ p b, pos = wait p b := by
  obtain ⟨map, -, h⟩ := bind_eq_ok.mp h
  obtain ⟨⟨p, b⟩, -, h⟩ := bind_eq_ok.mp h
  obtain ⟨sends', -, h⟩ := bind_eq_ok.mp h
  cases h
  exact ⟨p, b, rfl⟩

theorem lastRound_eq_ok {p : P} {decoded : Except String (ℕ → Option (E.Broadcast 4))}
    {pos : Pos E} {sends : List RoundMsg} (h : lastRound E p decoded = .ok (pos, sends)) :
    ∃ share pk, pos = .done share pk := by
  obtain ⟨map, -, h⟩ := bind_eq_ok.mp h
  obtain ⟨p', -, h⟩ := bind_eq_ok.mp h
  obtain ⟨share, -, h⟩ := bind_eq_ok.mp h
  obtain ⟨pk, -, h⟩ := bind_eq_ok.mp h
  cases h
  exact ⟨share, pk, rfl⟩

/-- Past its barrier the driver waits at the next one, or it is done. -/
theorem resume_awaiting {ownId : ℕ} {msgs : List (ℕ × Payload)} {pos pos' : Pos E}
    {sends : List RoundMsg} {k : ℕ} (hpos : pos.awaiting = some k)
    (h : resume E sess ownId msgs pos = .ok (pos', sends)) :
    pos'.awaiting = if k = 4 then none else some (k + 1) := by
  cases pos with
  | round1 p =>
    cases hpos
    obtain ⟨p', b, rfl⟩ := nextRound_eq_ok h
    rfl
  | round2 p own =>
    cases hpos
    obtain ⟨p', b, rfl⟩ := nextRound_eq_ok h
    rfl
  | round3 p own =>
    cases hpos
    obtain ⟨p', b, rfl⟩ := nextRound_eq_ok h
    rfl
  | round4 p own =>
    cases hpos
    obtain ⟨share, pk, rfl⟩ := lastRound_eq_ok h
    rfl
  | done share pk => cases hpos
  | failed error => cases hpos

theorem resume_ne_failed {ownId : ℕ} {msgs : List (ℕ × Payload)} {pos pos' : Pos E}
    {sends : List RoundMsg} {k : ℕ} (hpos : pos.awaiting = some k)
    (h : resume E sess ownId msgs pos = .ok (pos', sends)) (e : String) : pos' ≠ .failed e := by
  intro hfailed
  have hnext := resume_awaiting hpos h
  rw [hfailed] at hnext
  split at hnext
  · next hlast =>
    subst hlast
    cases pos with
    | round4 p own =>
      obtain ⟨share, pk, hdone⟩ := lastRound_eq_ok h
      cases hfailed.symm.trans hdone
    | round1 p => cases hpos
    | round2 p own => cases hpos
    | round3 p own => cases hpos
    | done share pk => cases hpos
    | failed error => cases hpos
  · cases hnext

theorem start_awaiting {p : P} {pos : Pos E} {sends : List RoundMsg}
    (h : start E S sess p = .ok (pos, sends)) : pos.awaiting = some 1 := by
  obtain ⟨first, -, h⟩ := bind_eq_ok.mp h
  obtain ⟨bytes, -, h⟩ := bind_eq_ok.mp h
  obtain ⟨enc, -, h⟩ := bind_eq_ok.mp h
  obtain ⟨sends', -, h⟩ := bind_eq_ok.mp h
  cases h
  rfl

/-- The position a computation of the driver ends in. -/
def settledPos (r : Except String (Pos E × List RoundMsg)) : Pos E :=
  match r with
  | .ok (pos, _) => pos
  | .error e => .failed e

theorem settle_pos (s : State E) (r : Except String (Pos E × List RoundMsg)) :
    (s.settle r).pos = settledPos r := by
  match r with
  | .ok (.done _ _, _) | .ok (.failed _, _) | .error _ => rfl
  | .ok (.round1 _, _) | .ok (.round2 _ _, _) | .ok (.round3 _ _, _) | .ok (.round4 _ _, _) => rfl

theorem settle_buffers (s : State E) {r : Except String (Pos E × List RoundMsg)} {k : ℕ}
    (h : (settledPos r).awaiting = some k) : (s.settle r).buffers = s.buffers := by
  match r with
  | .ok (.done _ _, _) | .ok (.failed _, _) | .error _ => cases h
  | .ok (.round1 _, _) | .ok (.round2 _ _, _) | .ok (.round3 _ _, _) | .ok (.round4 _ _, _) => rfl

theorem settle_buffers_cases (s : State E) (r : Except String (Pos E × List RoundMsg)) :
    (s.settle r).buffers = s.buffers ∨ (s.settle r).buffers = ∅ := by
  match r with
  | .ok (.done _ _, _) => exact .inr rfl
  | .ok (.failed _, _) | .error _ => exact .inl rfl
  | .ok (.round1 _, _) | .ok (.round2 _ _, _) | .ok (.round3 _ _, _) | .ok (.round4 _ _, _) =>
    exact .inl rfl

theorem settledPos_resume {ownId : ℕ} {msgs : List (ℕ × Payload)} {pos : Pos E} {k k' : ℕ}
    (hpos : pos.awaiting = some k)
    (h : (settledPos (resume E sess ownId msgs pos)).awaiting = some k') : k ≠ 4 ∧ k' = k + 1 := by
  cases hr : resume E sess ownId msgs pos with
  | error e =>
    rw [hr] at h
    cases h
  | ok r =>
    rw [hr] at h
    have hnext := resume_awaiting hpos hr
    rw [show r.1.awaiting = some k' from h] at hnext
    split at hnext
    · cases hnext
    · next hk => exact ⟨hk, Option.some.inj hnext⟩

theorem awaiting_le {pos : Pos E} {k : ℕ} (h : pos.awaiting = some k) : 1 ≤ k ∧ k ≤ 4 := by
  cases pos with
  | done share pk => cases h
  | failed error => cases h
  | round1 p => cases h; decide
  | round2 p own => cases h; decide
  | round3 p own => cases h; decide
  | round4 p own => cases h; decide

/-- The run, the run without the strangers' messages and the barriers are in step. -/
structure InStep (expected : List ℕ) (s s' : State E) (b : Barriers) : Prop where
  pos : s'.pos = s.pos
  live : ∀ k, s.pos.awaiting = some k →
    s'.buffers = dropStrangers expected s.buffers ∧ b.buffers = s.buffers ∧ b.round = k

/-- A step of the run without the strangers' messages. -/
def quietStep (sess : Session) (ownId : ℕ) (s : State E) (l : Label) : State E :=
  if l.expectedOnly sess.expected then step E sess ownId s l else s

theorem Barriers.awaiting_of_round {b : Barriers} (h : 1 ≤ b.round ∧ b.round ≤ 4) :
    b.awaiting = some b.round := if_pos h

/-- The barrier in sight of both the driver and the barriers. -/
theorem InStep.opens {s s' : State E} {b : Barriers} (h : InStep sess.expected s s' b) {k : ℕ}
    (hk : s.pos.awaiting = some k) :
    b.awaiting = some k ∧ b.opens sess.expected = s.buffers.awaitRound k sess.expected := by
  obtain ⟨-, hbuffers, hround⟩ := h.live k hk
  have hawaiting : b.awaiting = some k := by
    rw [Barriers.awaiting_of_round (hround ▸ awaiting_le hk), hround]
  refine ⟨hawaiting, ?_⟩
  simp only [Barriers.opens, hawaiting, Option.bind_some, hbuffers]

theorem InStep.record {s s' : State E} {b : Barriers} (h : InStep sess.expected s s' b)
    (ownId round sender : ℕ) (payload : Payload) :
    InStep sess.expected (step E sess ownId s (.record round sender payload))
      (quietStep sess ownId s' (.record round sender payload))
      (b.step sess.expected (.record round sender payload)) := by
  have hpos : (quietStep sess ownId s' (.record round sender payload)).pos = s'.pos := by
    unfold quietStep
    split
    · rfl
    · rfl
  refine ⟨hpos.trans h.pos, ?_⟩
  intro k hk
  obtain ⟨hdrop, hbuffers, hround⟩ := h.live k hk
  refine ⟨?_, ?_, hround⟩
  · show _ = dropStrangers sess.expected (s.buffers.record round sender payload)
    rw [dropStrangers_record]
    by_cases hsender : sender ∈ sess.expected
    · simp [quietStep, Label.expectedOnly, hsender, step, hdrop]
    · simp [quietStep, Label.expectedOnly, hsender, hdrop]
  · show b.buffers.record round sender payload = s.buffers.record round sender payload
    rw [hbuffers]

theorem InStep.check {s s' : State E} {b : Barriers} (h : InStep sess.expected s s' b) (ownId : ℕ)
    (hclean : OpensClean sess.expected b .check) :
    InStep sess.expected (step E sess ownId s .check) (step E sess ownId s' .check)
      (b.step sess.expected .check) := by
  cases hawaiting : s.pos.awaiting with
  | none =>
    rw [step_check_ended hawaiting, step_check_ended (h.pos ▸ hawaiting)]
    exact ⟨h.pos, fun k hk => by rw [hawaiting] at hk; cases hk⟩
  | some k =>
    obtain ⟨hb, hopens⟩ := h.opens hawaiting
    obtain ⟨hdrop, hbuffers, hround⟩ := h.live k hawaiting
    have hawaiting' : s'.pos.awaiting = some k := h.pos ▸ hawaiting
    have hdropped : s'.buffers.awaitRound k sess.expected =
        ((s.buffers.awaitRound k sess.expected).map fun msgs =>
          msgs.filter fun m => m.1 ∈ sess.expected).filter fun msgs => decide (msgs ≠ []) := by
      rw [hdrop, awaitRound_dropStrangers]
    cases hround' : s.buffers.awaitRound k sess.expected with
    | none =>
      rw [hround'] at hdropped hopens
      have hsameb : b.step sess.expected .check = b := by simp [Barriers.step, hopens]
      rw [step_check_closed hawaiting hround', step_check_closed hawaiting' hdropped, hsameb]
      exact h
    | some msgs =>
      rw [hround'] at hdropped hopens
      -- The barrier opens on expected senders only, so both runs read the same messages.
      have hfilter : (msgs.filter fun m => m.1 ∈ sess.expected) = msgs := by
        rw [List.filter_eq_self]
        intro m hm
        exact decide_eq_true (hclean (.inl rfl) msgs hopens m hm)
      have hsome : msgs ≠ [] := by
        obtain ⟨hround, -, rfl⟩ := DkgSession.awaitRound_eq_some.mp hround'
        exact hround
      rw [Option.map_some, hfilter, Option.filter_some, if_pos (decide_eq_true hsome)] at hdropped
      have hsb : b.step sess.expected .check = ⟨if k = 4 then ∅ else b.buffers, k + 1⟩ := by
        simp [Barriers.step, hopens, hround]
      rw [step_check_open hawaiting hround', step_check_open hawaiting' hdropped, hsb, h.pos]
      refine ⟨by rw [settle_pos, settle_pos], ?_⟩
      intro k' hk'
      rw [settle_pos] at hk'
      obtain ⟨hne, rfl⟩ := settledPos_resume hawaiting hk'
      rw [settle_buffers s hk', settle_buffers s' hk', if_neg hne]
      exact ⟨hdrop, hbuffers, rfl⟩

/-- A deadline passes at a barrier that is open, or closed, to both runs. -/
theorem InStep.open_iff {s s' : State E} {b : Barriers} (h : InStep sess.expected s s' b) {k : ℕ}
    (hk : s.pos.awaiting = some k) (hclean : OpensClean sess.expected b .timeout) :
    (s'.buffers.awaitRound k sess.expected).isSome =
      (s.buffers.awaitRound k sess.expected).isSome := by
  obtain ⟨hdrop, -, -⟩ := h.live k hk
  rw [hdrop]
  by_cases hexpected : sess.expected = []
  · cases hmsgs : s.buffers.awaitRound k sess.expected with
    | none =>
      rw [awaitRound_dropStrangers, hmsgs]
      rfl
    | some msgs =>
      obtain ⟨hround, -, rfl⟩ := DkgSession.awaitRound_eq_some.mp hmsgs
      obtain ⟨m, hm⟩ := List.exists_mem_of_ne_nil _ hround
      have hmem := hclean (.inr ⟨rfl, hexpected⟩) _ ((h.opens hk).2.trans hmsgs) m hm
      rw [hexpected] at hmem
      cases hmem
  · exact isSome_awaitRound_dropStrangers hexpected s.buffers k

theorem InStep.timeout {s s' : State E} {b : Barriers} (h : InStep sess.expected s s' b)
    (ownId : ℕ) (hclean : OpensClean sess.expected b .timeout) :
    InStep sess.expected (step E sess ownId s .timeout) (step E sess ownId s' .timeout)
      (b.step sess.expected .timeout) := by
  cases hawaiting : s.pos.awaiting with
  | none =>
    rw [step_timeout_ended hawaiting, step_timeout_ended (h.pos ▸ hawaiting)]
    exact ⟨h.pos, fun k hk => by rw [hawaiting] at hk; cases hk⟩
  | some k =>
    obtain ⟨hb, hopens⟩ := h.opens hawaiting
    have hawaiting' : s'.pos.awaiting = some k := h.pos ▸ hawaiting
    have hdropped := h.open_iff hawaiting hclean
    cases hopen : (s.buffers.awaitRound k sess.expected).isSome with
    | true =>
      have hsameb : b.step sess.expected .timeout = b := by
        simp [Barriers.step, hb, hopens, hopen]
      rw [step_timeout_open hawaiting hopen, step_timeout_open hawaiting' (hdropped.trans hopen),
        hsameb]
      exact h
    | false =>
      refine ⟨?_, ?_⟩
      · rw [step_timeout_closed hawaiting hopen,
          step_timeout_closed hawaiting' (hdropped.trans hopen)]
      · intro k' hk'
        rw [step_timeout_closed hawaiting hopen] at hk'
        cases hk'

theorem InStep.step {s s' : State E} {b : Barriers} (h : InStep sess.expected s s' b) (ownId : ℕ)
    {l : Label} (hclean : OpensClean sess.expected b l) :
    InStep sess.expected (step E sess ownId s l) (quietStep sess ownId s' l)
      (b.step sess.expected l) := by
  cases l with
  | record round sender payload => exact h.record ownId round sender payload
  | check => exact h.check ownId hclean
  | timeout => exact h.timeout ownId hclean

theorem InStep.run {ownId : ℕ} {labels : List Label} : ∀ {s s' : State E} {b : Barriers},
    InStep sess.expected s s' b →
    Meets (fun b l => some (Barriers.step sess.expected b l)) (OpensClean sess.expected) b labels →
    InStep sess.expected (labels.foldl (DkgDriver.step E sess ownId) s)
      ((labels.filter (Label.expectedOnly sess.expected)).foldl (DkgDriver.step E sess ownId) s')
      (labels.foldl (Barriers.step sess.expected) b) := by
  induction labels with
  | nil =>
    intro s s' b h _
    exact h
  | cons l labels ih =>
    intro s s' b h hmeets
    have hnext := ih (h.step ownId hmeets.1) (hmeets.2 _ rfl)
    cases hl : l.expectedOnly sess.expected with
    | true =>
      rw [List.filter_cons_of_pos hl]
      simpa [quietStep, hl] using hnext
    | false =>
      rw [List.filter_cons_of_neg (by simp [hl])]
      simpa [quietStep, hl] using hnext

theorem inStep_start (p : P) (buffers : DkgSession Payload) :
    InStep sess.expected (State.settle ⟨buffers, .round1 p, []⟩ (start E S sess p))
      (State.settle ⟨dropStrangers sess.expected buffers, .round1 p, []⟩ (start E S sess p))
      ⟨buffers, 1⟩ := by
  refine ⟨by rw [settle_pos, settle_pos], ?_⟩
  intro k hk
  rw [settle_pos] at hk
  rw [settle_buffers _ hk, settle_buffers _ hk]
  refine ⟨rfl, rfl, ?_⟩
  cases hr : start E S sess p with
  | error e =>
    rw [hr] at hk
    cases hk
  | ok r =>
    rw [hr] at hk
    have hfirst := start_awaiting hr
    exact Option.some.inj (hfirst.symm.trans hk)

-- ════════════════════════════════════════════════════════════════════════
-- A participant that notices a stranger
-- ════════════════════════════════════════════════════════════════════════

/-- A participant, itself not `stranger`, that fails as soon as the map it is given holds data of
    `stranger`. -/
def probe (stranger : ℕ) : ParticipantOps Unit Unit Unit where
  Broadcast _ := Unit
  P2p := Unit
  getId _ := stranger + 1
  round1 _ := .ok ((), (), fun _ => some ())
  round2 _ bmap _ := if (bmap stranger).isSome then .error "stranger" else .ok ((), ())
  round3 _ bmap := if (bmap stranger).isSome then .error "stranger" else .ok ((), ())
  round4 _ bmap := if (bmap stranger).isSome then .error "stranger" else .ok ((), ())
  round5 _ bmap := if (bmap stranger).isSome then .error "stranger" else .ok ()
  getSecretShare _ := some ()
  getPublicKey _ := some ()
  ser _ _ := .ok []
  de _ _ := .ok ()
  serP2p _ := .ok []
  deP2p _ := .ok ()

/-- Curve operations under which every encryption succeeds. -/
def openSecp : Secp Unit where
  keccak256 := id
  fromSlice _ := .ok ()
  recoverFromPrehash _ _ _ := .ok []
  encrypt _ _ _ := .ok []

def probeSession (sessionId : String) (peers : List SessionPeer) : Session :=
  ⟨sessionId, peers, fun _ => .ok [], fun _ => []⟩

/-- A sender is heard of in the first message or in the rest. -/
theorem heard_cons {α : Type} (data : α) (stranger : ℕ) (m : ℕ × Payload)
    (msgs : List (ℕ × Payload)) (map : ℕ → Option α) :
    (if stranger ∈ msgs.map Prod.fst then some data
      else Function.update map m.1 (some data) stranger) =
      if stranger ∈ (m :: msgs).map Prod.fst then some data else map stranger := by
  by_cases hlater : stranger ∈ msgs.map Prod.fst
  · rw [if_pos hlater, if_pos]
    exact List.mem_cons_of_mem _ hlater
  · by_cases hhere : stranger = m.1
    · subst hhere
      rw [if_neg hlater, Function.update_self, if_pos]
      exact List.mem_cons_self
    · rw [if_neg hlater, Function.update_of_ne hhere, if_neg]
      rw [List.map_cons, List.mem_cons, not_or]
      exact ⟨hhere, hlater⟩

theorem insertAll_probe {α : Type} (data : α) (stranger : ℕ) (msgs : List (ℕ × Payload)) :
    ∀ map : ℕ → Option α, ∃ map', insertAll (fun _ => .ok data) map msgs = .ok map' ∧
      map' stranger = if stranger ∈ msgs.map Prod.fst then some data else map stranger := by
  induction msgs with
  | nil =>
    intro map
    exact ⟨map, rfl, rfl⟩
  | cons m msgs ih =>
    intro map
    obtain ⟨map', hmap', heq⟩ := ih (Function.update map m.1 (some data))
    exact ⟨map', hmap', heq.trans (heard_cons data stranger m msgs map)⟩

theorem insertRound1_probe {α β : Type} (data : α) (share : β) (stranger : ℕ)
    (msgs : List (ℕ × Payload)) : ∀ (bmap : ℕ → Option α) (pmap : ℕ → Option β),
    ∃ bmap' pmap', insertRound1 (fun _ => .ok data) (fun _ => .ok share) bmap pmap msgs =
        .ok (bmap', pmap') ∧
      bmap' stranger = if stranger ∈ msgs.map Prod.fst then some data else bmap stranger := by
  induction msgs with
  | nil =>
    intro bmap pmap
    exact ⟨bmap, pmap, rfl, rfl⟩
  | cons m msgs ih =>
    intro bmap pmap
    obtain ⟨bmap', pmap', hmaps, heq⟩ := ih (Function.update bmap m.1 (some data))
      (Function.update pmap m.1 (some share))
    exact ⟨bmap', pmap', hmaps, heq.trans (heard_cons data stranger m msgs bmap)⟩

section Probe

variable {sessionId : String} {peers : List SessionPeer} {stranger : ℕ}

/-- The probe's computation of a round: it fails on a map that holds the stranger. -/
theorem nextRound_probe {M : Type} {k : ℕ} {decoded : Except String M} {map : M}
    {round : M → Except String (Unit × (probe stranger).Broadcast k)} {heard : Bool}
    {wait : Unit → (probe stranger).Broadcast k → Pos (probe stranger)}
    (hdecoded : decoded = .ok map)
    (hround : round map = if heard then .error "stranger" else .ok ((), ())) :
    if heard then
      ∃ e, nextRound (probe stranger) (probeSession sessionId peers) k (stranger + 1) decoded round
        wait = .error e ∧ e.toList.head? = some 'r'
    else ∃ r, nextRound (probe stranger) (probeSession sessionId peers) k (stranger + 1) decoded
      round wait = .ok r := by
  subst hdecoded
  cases heard with
  | true =>
    rw [if_pos rfl] at hround ⊢
    refine ⟨"round" ++ toString k ++ ": " ++ "stranger", ?_, by simp⟩
    simp only [nextRound, ok_bind, hround]
    rfl
  | false =>
    rw [if_neg (by simp)] at hround ⊢
    refine ⟨(wait () (), peers.map fun peer => ⟨peer.id, k, stranger + 1, [], []⟩), ?_⟩
    simp only [nextRound, ok_bind, hround]
    rfl

/-- What the probe hears of in rounds 2 to 4. -/
theorem decodeRound_probe (k : ℕ) (own : (probe stranger).Broadcast k)
    (msgs : List (ℕ × Payload)) : ∃ map,
    decodeRound (probe stranger) k (stranger + 1) own msgs = .ok map ∧
      (map stranger).isSome = decide (stranger ∈ msgs.map Prod.fst) := by
  obtain ⟨map, hmap, heq⟩ := insertAll_probe () stranger msgs
    (Function.update (fun _ => none) (stranger + 1) (some own))
  refine ⟨map, hmap, ?_⟩
  rw [show map stranger = _ from heq, Function.update_of_ne (by omega)]
  split
  · next hheard =>
    rw [decide_eq_true hheard]
    rfl
  · next hheard =>
    rw [decide_eq_false hheard]
    rfl

/-- The probe goes on as long as it does not hear of the stranger, and fails when it does. -/
theorem resume_probe (sessionId : String) (peers : List SessionPeer) (msgs : List (ℕ × Payload))
    {pos : Pos (probe stranger)} {k : ℕ} (hpos : pos.awaiting = some k) :
    if decide (stranger ∈ msgs.map Prod.fst) then
      ∃ e, resume (probe stranger) (probeSession sessionId peers) (stranger + 1) msgs pos =
        .error e ∧ e.toList.head? = some 'r'
    else ∃ r, resume (probe stranger) (probeSession sessionId peers) (stranger + 1) msgs pos =
      .ok r := by
  cases pos with
  | round1 p =>
    obtain ⟨bmap, pmap, hmaps, heq⟩ :=
      insertRound1_probe () () stranger msgs (fun _ => none) (fun _ => none)
    refine nextRound_probe hmaps ?_
    show (if (bmap stranger).isSome then _ else _) = _
    rw [heq]
    split
    · next hheard =>
      rw [decide_eq_true hheard]
      rfl
    · next hheard =>
      rw [decide_eq_false hheard]
      rfl
  | round2 p own =>
    obtain ⟨map, hmap, hheard⟩ := decodeRound_probe 2 own msgs
    refine nextRound_probe hmap ?_
    rw [← hheard]
    rfl
  | round3 p own =>
    obtain ⟨map, hmap, hheard⟩ := decodeRound_probe 3 own msgs
    refine nextRound_probe hmap ?_
    rw [← hheard]
    rfl
  | round4 p own =>
    obtain ⟨map, hmap, hheard⟩ := decodeRound_probe 4 own msgs
    have hresume : resume (probe stranger) (probeSession sessionId peers) (stranger + 1) msgs
        (.round4 p own) = lastRound (probe stranger) p (.ok map) :=
      congrArg (lastRound (probe stranger) p) hmap
    rw [hresume, ← hheard]
    cases hsome : (map stranger).isSome with
    | true =>
      have hround : (probe stranger).round5 p map = .error "stranger" := if_pos hsome
      rw [if_pos rfl]
      refine ⟨"round5: stranger", ?_, by decide⟩
      simp only [lastRound, ok_bind, hround]
      rfl
    | false =>
      have hround : (probe stranger).round5 p map = .ok () :=
        if_neg (Bool.eq_false_iff.mp hsome)
      rw [if_neg (by simp)]
      refine ⟨(.done () (), []), ?_⟩
      simp only [lastRound, ok_bind, hround]
      rfl
  | done share pk => cases hpos
  | failed error => cases hpos

/-- The probe is in step with the barriers as long as they open clean. -/
structure Probing (s : State (probe stranger)) (b : Barriers) : Prop where
  awaiting : s.pos.awaiting = b.awaiting
  buffers : ∀ k, b.awaiting = some k → b.buffers = s.buffers

theorem Barriers.round_of_awaiting {b : Barriers} {k : ℕ} (h : b.awaiting = some k) :
    b.round = k ∧ 1 ≤ k ∧ k ≤ 4 := by
  unfold Barriers.awaiting at h
  split at h
  · next hround =>
    cases h
    exact ⟨rfl, hround⟩
  · cases h

theorem Probing.opens {s : State (probe stranger)} {b : Barriers} (h : Probing s b)
    (expected : List ℕ) :
    b.opens expected = s.pos.awaiting.bind fun k => s.buffers.awaitRound k expected := by
  rw [h.awaiting]
  cases hawaiting : b.awaiting with
  | none => simp [Barriers.opens, hawaiting]
  | some k => simp [Barriers.opens, hawaiting, h.buffers k hawaiting]

/-- The driver's step at its barrier, read off the barriers. -/
theorem Probing.step_check {s : State (probe stranger)} {b : Barriers} (h : Probing s b) :
    step (probe stranger) (probeSession sessionId peers) (stranger + 1) s .check =
      match b.opens (peers.map (·.id)) with
      | some msgs =>
        s.settle (resume (probe stranger) (probeSession sessionId peers) (stranger + 1) msgs s.pos)
      | none => s := by
  rw [h.opens (peers.map (·.id))]
  rfl

theorem Probing.check {s : State (probe stranger)} {b : Barriers} (h : Probing s b)
    (hstranger : stranger ∉ peers.map (·.id)) (hclean : OpensClean (peers.map (·.id)) b .check) :
    Probing (step (probe stranger) (probeSession sessionId peers) (stranger + 1) s .check)
      (b.step (peers.map (·.id)) .check) := by
  rw [h.step_check]
  cases hmsgs : b.opens (peers.map (·.id)) with
  | none =>
    have hsame : b.step (peers.map (·.id)) .check = b := by simp [Barriers.step, hmsgs]
    rw [hsame]
    exact h
  | some msgs =>
    obtain ⟨k, hk, -⟩ := Option.bind_eq_some_iff.mp hmsgs
    obtain ⟨hround, hle⟩ := Barriers.round_of_awaiting hk
    have hheard : stranger ∉ msgs.map Prod.fst := by
      intro hmem
      obtain ⟨m, hm, rfl⟩ := List.mem_map.mp hmem
      exact hstranger (hclean (.inl rfl) msgs hmsgs m hm)
    have hprobe := resume_probe sessionId peers msgs (h.awaiting.trans hk)
    rw [if_neg (by simpa using hheard)] at hprobe
    obtain ⟨⟨pos, sends⟩, hresume⟩ := hprobe
    have hnext := resume_awaiting (h.awaiting.trans hk) hresume
    have hsb : b.step (peers.map (·.id)) .check = ⟨if k = 4 then ∅ else b.buffers, k + 1⟩ := by
      simp [Barriers.step, hmsgs, hround]
    rw [hsb]
    show Probing (s.settle (resume _ _ _ msgs s.pos)) _
    rw [hresume]
    by_cases hlast : k = 4
    · subst hlast
      rw [if_pos rfl] at hnext
      refine ⟨?_, fun k' hk' => by cases hk'⟩
      rw [settle_pos]
      exact hnext
    · rw [if_neg hlast] at hnext ⊢
      have hawaiting : Barriers.awaiting ⟨b.buffers, k + 1⟩ = some (k + 1) :=
        if_pos ⟨by simp, by show k + 1 ≤ 4; omega⟩
      refine ⟨?_, fun k' hk' => ?_⟩
      · rw [settle_pos, hawaiting]
        exact hnext
      · have hsettled : (settledPos (.ok (pos, sends))).awaiting = some (k + 1) := hnext
        rw [settle_buffers s hsettled]
        exact h.buffers k hk

theorem Probing.timeout {s : State (probe stranger)} {b : Barriers} (h : Probing s b) :
    Probing (step (probe stranger) (probeSession sessionId peers) (stranger + 1) s .timeout)
      (b.step (peers.map (·.id)) .timeout) := by
  cases hawaiting : b.awaiting with
  | none =>
    have hsameb : b.step (peers.map (·.id)) .timeout = b := by simp [Barriers.step, hawaiting]
    rw [step_timeout_ended (h.awaiting.trans hawaiting), hsameb]
    exact h
  | some k =>
    have hopens : b.opens (peers.map (·.id)) = s.buffers.awaitRound k (peers.map (·.id)) := by
      simp [Barriers.opens, hawaiting, h.buffers k hawaiting]
    cases hopen : (s.buffers.awaitRound k (peers.map (·.id))).isSome with
    | true =>
      have hsame : step (probe stranger) (probeSession sessionId peers) (stranger + 1) s .timeout =
          s := step_timeout_open (h.awaiting.trans hawaiting) hopen
      have hsameb : b.step (peers.map (·.id)) .timeout = b := by
        simp [Barriers.step, hawaiting, hopens, hopen]
      rw [hsame, hsameb]
      exact h
    | false =>
      have hfailed : (step (probe stranger) (probeSession sessionId peers) (stranger + 1) s
          .timeout).pos = .failed _ := step_timeout_closed (h.awaiting.trans hawaiting) hopen
      have hsb : b.step (peers.map (·.id)) .timeout = ⟨b.buffers, 0⟩ := by
        simp [Barriers.step, hawaiting, hopens, hopen]
      rw [hsb]
      refine ⟨?_, fun k' hk' => by cases hk'⟩
      rw [hfailed]
      rfl

theorem Probing.step {s : State (probe stranger)} {b : Barriers} (h : Probing s b)
    (hstranger : stranger ∉ peers.map (·.id)) {l : Label}
    (hclean : OpensClean (peers.map (·.id)) b l) :
    Probing (DkgDriver.step (probe stranger) (probeSession sessionId peers) (stranger + 1) s l)
      (b.step (peers.map (·.id)) l) := by
  cases l with
  | record round sender payload =>
    refine ⟨h.awaiting, fun k hk => ?_⟩
    show b.buffers.record round sender payload = s.buffers.record round sender payload
    rw [h.buffers k hk]
  | check => exact h.check hstranger hclean
  | timeout => exact h.timeout

theorem Probing.run (sessionId : String) (hstranger : stranger ∉ peers.map (·.id))
    {labels : List Label} :
    ∀ {s : State (probe stranger)} {b b' : Barriers}, Probing s b →
    Meets (fun b l => some (Barriers.step (peers.map (·.id)) b l)) (OpensClean (peers.map (·.id)))
      b labels →
    exec (fun b l => some (Barriers.step (peers.map (·.id)) b l)) b labels = some b' →
    Probing (labels.foldl
      (DkgDriver.step (probe stranger) (probeSession sessionId peers) (stranger + 1)) s) b' := by
  induction labels with
  | nil =>
    intro s b b' h _ hrun
    cases hrun
    exact h
  | cons l labels ih =>
    intro s b b' h hmeets hrun
    obtain ⟨m, hm, hrest⟩ := exec_cons_eq_some.mp hrun
    cases hm
    exact ih (h.step hstranger hmeets.1) (hmeets.2 _ rfl) hrest

/-- The probe starts. -/
theorem start_probe (stranger : ℕ) (sessionId : String) (peers : List SessionPeer) :
    ∃ sends, start (probe stranger) openSecp (probeSession sessionId peers) () =
      .ok (.round1 (), sends) := by
  have henc : ∀ (rest : List SessionPeer) (enc : ℕ → Option Bytes), ∃ enc',
      encryptP2p (probe stranger) openSecp (probeSession sessionId peers) (fun _ => some ()) enc
        rest = .ok enc' := by
    intro rest
    induction rest with
    | nil =>
      intro enc
      exact ⟨enc, rfl⟩
    | cons peer rest ih =>
      intro enc
      exact ih (Function.update enc peer.id (some []))
  obtain ⟨enc, henc⟩ := henc peers fun _ => none
  refine ⟨peers.map fun peer => ⟨peer.id, 1, stranger + 1, [], (enc peer.id).getD []⟩, ?_⟩
  show (do
    let enc ← encryptP2p (probe stranger) openSecp (probeSession sessionId peers)
      (fun _ => some ()) (fun _ => none) peers
    let sends ← broadcastRound (probeSession sessionId peers) 1 (stranger + 1) [] enc
    return (Pos.round1 (E := probe stranger) (), sends) : Except String _) = _
  rw [henc]
  rfl

/-- A session that has ended stays as it ended. -/
theorem foldl_failed (ownId : ℕ) {e : String} (labels : List Label) : ∀ {s : State E},
    s.pos = .failed e → (labels.foldl (DkgDriver.step E sess ownId) s).pos = .failed e := by
  induction labels with
  | nil =>
    intro s h
    exact h
  | cons l labels ih =>
    intro s h
    apply ih
    have hended : s.pos.awaiting = none := by
      rw [h]
      rfl
    cases l with
    | record round sender payload => exact h
    | check =>
      rw [step_check_ended hended]
      exact h
    | timeout =>
      rw [step_timeout_ended hended]
      exact h

/-- A run of the probe without strangers: the buffers hold none, and it can only time out. -/
structure Quiet (expected : List ℕ) (s : State (probe stranger)) : Prop where
  buffers : dropStrangers expected s.buffers = s.buffers
  error : ∀ e, s.pos = .failed e → e.toList.head? = some 'D'

theorem Quiet.check {s : State (probe stranger)} (h : Quiet (peers.map (·.id)) s)
    (hstranger : stranger ∉ peers.map (·.id)) : Quiet (peers.map (·.id))
      (step (probe stranger) (probeSession sessionId peers) (stranger + 1) s .check) := by
  cases hawaiting : s.pos.awaiting with
  | none =>
    rw [step_check_ended hawaiting]
    exact h
  | some k =>
    cases hmsgs : s.buffers.awaitRound k (peers.map (·.id)) with
    | none =>
      have hsame : step (probe stranger) (probeSession sessionId peers) (stranger + 1) s .check =
          s := step_check_closed hawaiting hmsgs
      rw [hsame]
      exact h
    | some msgs =>
      have hheard : stranger ∉ msgs.map Prod.fst := by
        intro hmem
        obtain ⟨m, hm, rfl⟩ := List.mem_map.mp hmem
        obtain ⟨-, -, rfl⟩ := DkgSession.awaitRound_eq_some.mp hmsgs
        rw [← h.buffers, roundMessages_dropStrangers, List.mem_filter] at hm
        exact hstranger (of_decide_eq_true hm.2)
      have hprobe := resume_probe sessionId peers msgs hawaiting
      rw [if_neg (by simpa using hheard)] at hprobe
      obtain ⟨⟨pos, sends⟩, hresume⟩ := hprobe
      have hs : step (probe stranger) (probeSession sessionId peers) (stranger + 1) s .check =
          s.settle (resume (probe stranger) (probeSession sessionId peers) (stranger + 1) msgs
            s.pos) := step_check_open hawaiting hmsgs
      rw [hs, hresume]
      refine ⟨?_, fun e he => ?_⟩
      · obtain hkept | hdropped := settle_buffers_cases s (.ok (pos, sends))
        · rw [hkept]
          exact h.buffers
        · rw [hdropped]
          rfl
      · rw [settle_pos] at he
        exact absurd he (resume_ne_failed hawaiting hresume e)

theorem Quiet.step {s : State (probe stranger)} (h : Quiet (peers.map (·.id)) s)
    (hstranger : stranger ∉ peers.map (·.id)) {l : Label}
    (hl : l.expectedOnly (peers.map (·.id)) = true) : Quiet (peers.map (·.id))
      (DkgDriver.step (probe stranger) (probeSession sessionId peers) (stranger + 1) s l) := by
  cases l with
  | record round sender payload =>
    refine ⟨?_, h.error⟩
    show dropStrangers _ (s.buffers.record round sender payload) = _
    rw [dropStrangers_record, if_pos (of_decide_eq_true hl), h.buffers]
    rfl
  | check => exact h.check hstranger
  | timeout =>
    simp only [DkgDriver.step]
    split
    · split
      · exact h
      · refine ⟨h.buffers, fun e he => ?_⟩
        cases he
        simp
    · exact h

theorem Quiet.run (sessionId : String) (hstranger : stranger ∉ peers.map (·.id))
    (labels : List Label) :
    ∀ {s : State (probe stranger)}, Quiet (peers.map (·.id)) s → Quiet (peers.map (·.id))
      ((labels.filter (Label.expectedOnly (peers.map (·.id)))).foldl
        (DkgDriver.step (probe stranger) (probeSession sessionId peers) (stranger + 1)) s) := by
  induction labels with
  | nil =>
    intro s h
    exact h
  | cons l labels ih =>
    intro s h
    cases hl : l.expectedOnly (peers.map (·.id)) with
    | true =>
      rw [List.filter_cons_of_pos hl]
      exact ih (h.step hstranger hl)
    | false =>
      rw [List.filter_cons_of_neg (by simp [hl])]
      exact ih h

/-- A barrier that opens on a stranger's message makes the probe of that stranger fail. -/
theorem Probing.disturbed (sessionId : String) {s : State (probe stranger)} {b : Barriers}
    (h : Probing s b) {msgs : List (ℕ × Payload)} (hopens : b.opens (peers.map (·.id)) = some msgs)
    (hheard : stranger ∈ msgs.map Prod.fst) :
    ∃ e, (DkgDriver.step (probe stranger) (probeSession sessionId peers) (stranger + 1) s
      .check).pos = .failed e ∧ e.toList.head? = some 'r' := by
  obtain ⟨k, hk, -⟩ := Option.bind_eq_some_iff.mp hopens
  have hprobe := resume_probe sessionId peers msgs (h.awaiting.trans hk)
  rw [if_pos (decide_eq_true hheard)] at hprobe
  obtain ⟨e, hresume, hhead⟩ := hprobe
  refine ⟨e, ?_, hhead⟩
  rw [h.step_check, hopens]
  show (s.settle (resume _ _ _ msgs s.pos)).pos = _
  rw [hresume]
  rfl

theorem Pos.outcome_eq_error {pos : Pos E} {e : String} (h : pos.outcome = some (.error e)) :
    pos = .failed e := by
  cases pos with
  | failed error =>
    cases h
    rfl
  | done share pk => cases h
  | round1 p => cases h
  | round2 p own => cases h
  | round3 p own => cases h
  | round4 p own => cases h

/-- A session that drives the probe. -/
def probeRun (stranger : ℕ) (sessionId : String) (peers : List SessionPeer)
    (buffers : DkgSession Payload) (labels : List Label) : State (probe stranger) :=
  runSession (probe stranger) openSecp (probeSession sessionId peers) () buffers labels

theorem probeRun_append (stranger : ℕ) (sessionId : String) (peers : List SessionPeer)
    (buffers : DkgSession Payload) (pre labels : List Label) :
    probeRun stranger sessionId peers buffers (pre ++ labels) =
      labels.foldl (DkgDriver.step (probe stranger) (probeSession sessionId peers) (stranger + 1))
        (probeRun stranger sessionId peers buffers pre) :=
  List.foldl_append

/-- The probe waits at a barrier that the stranger's message is at and that is open, or it has
    failed there. -/
def Caught (peers : List SessionPeer) (s : State (probe stranger)) : Prop :=
  (∃ k msgs, s.pos.awaiting = some k ∧
    s.buffers.awaitRound k (peers.map (·.id)) = some msgs ∧ stranger ∈ msgs.map Prod.fst) ∨
    ∃ e, s.pos = .failed e ∧ e.toList.head? = some 'r'

theorem Caught.step (sessionId : String) {s : State (probe stranger)} (h : Caught peers s)
    (l : Label) : Caught peers
      (DkgDriver.step (probe stranger) (probeSession sessionId peers) (stranger + 1) s l) := by
  rcases h with ⟨k, msgs, hk, hopen, hheard⟩ | ⟨e, hfailed, hhead⟩
  · have hopen' : s.buffers.awaitRound k (probeSession sessionId peers).expected = some msgs :=
      hopen
    cases l with
    | record round sender payload =>
      obtain ⟨msgs', hmore, hkept⟩ := DkgSession.awaitRound_record hopen round sender payload
      exact .inl ⟨k, msgs', hk, hmore, hkept _ hheard⟩
    | check =>
      have hprobe := resume_probe sessionId peers msgs hk
      rw [if_pos (decide_eq_true hheard)] at hprobe
      obtain ⟨e, hresume, hhead⟩ := hprobe
      refine .inr ⟨e, ?_, hhead⟩
      rw [step_check_open hk hopen', hresume]
      rfl
    | timeout =>
      rw [step_timeout_open hk (by rw [hopen']; rfl)]
      exact .inl ⟨k, msgs, hk, hopen, hheard⟩
  · exact .inr ⟨e, foldl_failed (stranger + 1) [l] hfailed, hhead⟩

theorem Caught.run (sessionId : String) (labels : List Label) :
    ∀ {s : State (probe stranger)}, Caught peers s → Caught peers (labels.foldl
      (DkgDriver.step (probe stranger) (probeSession sessionId peers) (stranger + 1)) s) := by
  induction labels with
  | nil =>
    intro s h
    exact h
  | cons l labels ih =>
    intro s h
    exact ih (h.step sessionId l)

section Disturbed

variable {buffers : DkgSession Payload} {pre : List Label} {b : Barriers}
  {msgs : List (ℕ × Payload)}

theorem probeRun_probing (sessionId : String) (hstranger : stranger ∉ peers.map (·.id))
    (hmeets : Meets (fun b l => some (Barriers.step (peers.map (·.id)) b l))
      (OpensClean (peers.map (·.id))) ⟨buffers, 1⟩ pre)
    (hexec : exec (fun b l => some (Barriers.step (peers.map (·.id)) b l)) ⟨buffers, 1⟩ pre =
      some b) : Probing (probeRun stranger sessionId peers buffers pre) b := by
  obtain ⟨sends, hstart⟩ := start_probe stranger sessionId peers
  have hbegin : Probing (State.settle ⟨buffers, .round1 (), []⟩
      (start (probe stranger) openSecp (probeSession sessionId peers) ())) ⟨buffers, 1⟩ := by
    rw [hstart]
    exact ⟨rfl, fun _ _ => rfl⟩
  exact hbegin.run sessionId hstranger hmeets hexec

theorem probeRun_disturbed (sessionId : String)
    (hprobing : Probing (probeRun stranger sessionId peers buffers pre) b)
    (hopens : b.opens (peers.map (·.id)) = some msgs) (hheard : stranger ∈ msgs.map Prod.fst)
    (post : List Label) :
    ∃ e, (probeRun stranger sessionId peers buffers (pre ++ .check :: post)).pos = .failed e ∧
      e.toList.head? = some 'r' := by
  obtain ⟨e, hfailed, hhead⟩ := hprobing.disturbed sessionId hopens hheard
  refine ⟨e, ?_, hhead⟩
  rw [probeRun_append]
  exact foldl_failed (stranger + 1) post hfailed

/-- With the stranger's message a deadline passes at an open barrier. -/
theorem probeRun_caught (sessionId : String)
    (hprobing : Probing (probeRun stranger sessionId peers buffers pre) b)
    (hopens : b.opens (peers.map (·.id)) = some msgs) (hheard : stranger ∈ msgs.map Prod.fst)
    (post : List Label) {e : String}
    (h : (probeRun stranger sessionId peers buffers (pre ++ .timeout :: post)).pos = .failed e) :
    e.toList.head? = some 'r' := by
  rw [hprobing.opens, Option.bind_eq_some_iff] at hopens
  obtain ⟨k, hk, hopen⟩ := hopens
  have hcaught := Caught.run sessionId (.timeout :: post) (.inl ⟨k, msgs, hk, hopen, hheard⟩)
  rw [← probeRun_append] at hcaught
  rcases hcaught with ⟨k', -, hk', -⟩ | ⟨e', hfailed, hhead⟩
  · rw [h] at hk'
    cases hk'
  · cases hfailed.symm.trans h
    exact hhead

/-- Without it nothing opens a barrier of a session that expects nobody. -/
theorem probeRun_expired (sessionId : String)
    (hprobing : Probing (probeRun stranger sessionId peers buffers pre) b)
    (hmeets : Meets (fun b l => some (Barriers.step (peers.map (·.id)) b l))
      (OpensClean (peers.map (·.id))) ⟨buffers, 1⟩ pre)
    (hopens : b.opens (peers.map (·.id)) = some msgs) (hnobody : peers.map (·.id) = [])
    (post : List Label) :
    ∃ e, (probeRun stranger sessionId peers (dropStrangers (peers.map (·.id)) buffers)
        ((pre ++ .timeout :: post).filter (Label.expectedOnly (peers.map (·.id))))).pos =
      .failed e ∧ e.toList.head? = some 'D' := by
  have hinStep : InStep (probeSession sessionId peers).expected
      (probeRun stranger sessionId peers buffers pre)
      (probeRun stranger sessionId peers (dropStrangers (peers.map (·.id)) buffers)
        (pre.filter (Label.expectedOnly (peers.map (·.id))))) _ :=
    InStep.run (inStep_start () buffers) hmeets
  rw [hprobing.opens, Option.bind_eq_some_iff] at hopens
  obtain ⟨k, hk, -⟩ := hopens
  obtain ⟨hdrop, -, -⟩ := hinStep.live k hk
  have hnone : (probeSession sessionId peers).expected = [] := hnobody
  have hclosed : ((probeRun stranger sessionId peers (dropStrangers (peers.map (·.id)) buffers)
      (pre.filter (Label.expectedOnly (peers.map (·.id))))).buffers.awaitRound k
        (probeSession sessionId peers).expected).isSome = false := by
    rw [hdrop, awaitRound_dropStrangers, hnone]
    cases (probeRun stranger sessionId peers buffers pre).buffers.awaitRound k [] with
    | none => rfl
    | some msgs => simp
  rw [List.filter_append, List.filter_cons_of_pos rfl, probeRun_append, List.foldl_cons]
  refine ⟨_, foldl_failed (stranger + 1) _ (step_timeout_closed (hinStep.pos ▸ hk) hclosed), ?_⟩
  simp

end Disturbed

theorem probeRun_quiet (sessionId : String) (hstranger : stranger ∉ peers.map (·.id))
    (buffers : DkgSession Payload) (labels : List Label) {e : String}
    (h : (probeRun stranger sessionId peers (dropStrangers (peers.map (·.id)) buffers)
      (labels.filter (Label.expectedOnly (peers.map (·.id))))).pos = .failed e) :
    e.toList.head? = some 'D' := by
  obtain ⟨sends, hstart⟩ := start_probe stranger sessionId peers
  have hbegin : Quiet (peers.map (·.id)) (State.settle
      ⟨dropStrangers (peers.map (·.id)) buffers, .round1 (), []⟩
      (start (probe stranger) openSecp (probeSession sessionId peers) ())) := by
    rw [hstart]
    refine ⟨?_, fun e he => by cases he⟩
    apply AList.ext
    exact List.filter_filter.trans (by simp only [Bool.and_self]; rfl)
  exact (hbegin.run sessionId hstranger labels).error e h

end Probe

-- ════════════════════════════════════════════════════════════════════════
-- When strangers do not matter
-- ════════════════════════════════════════════════════════════════════════

theorem isolated_of_undisturbed {sessionId : String} {peers : List SessionPeer}
    {buffers : DkgSession Payload} {labels : List Label}
    (h : Undisturbed (peers.map (·.id)) buffers labels) :
    Isolated sessionId peers buffers labels := by
  intro P F G Sig E S signRequest randomness p sess
  have hstart : InStep sess.expected
      (State.settle ⟨buffers, .round1 p, []⟩ (start E S sess p))
      (State.settle ⟨dropStrangers sess.expected buffers, .round1 p, []⟩ (start E S sess p))
      ⟨buffers, 1⟩ := inStep_start p buffers
  exact congrArg Pos.outcome (hstart.run h).pos.symm

theorem undisturbed_of_isolated {sessionId : String} {peers : List SessionPeer}
    {buffers : DkgSession Payload} {labels : List Label}
    (h : Isolated sessionId peers buffers labels) :
    Undisturbed (peers.map (·.id)) buffers labels := by
  by_contra hnot
  -- The first barrier that opens on a stranger's message, and that stranger.
  obtain ⟨pre, l, post, b, rfl, hmeets, hexec, hviolated⟩ := exists_of_not_meets hnot
  simp only [OpensClean, not_forall] at hviolated
  obtain ⟨hlooks, msgs, hopens, m, hm, hstranger⟩ := hviolated
  have hsame := h Unit Unit Unit Unit (probe m.1) openSecp (fun _ => .ok []) (fun _ => []) ()
  have hheard : m.1 ∈ msgs.map Prod.fst := List.mem_map_of_mem hm
  have hprobing := probeRun_probing sessionId hstranger hmeets hexec
  obtain rfl | ⟨rfl, hnobody⟩ := hlooks
  · obtain ⟨e, hfailed, hhead⟩ :=
      probeRun_disturbed sessionId hprobing hopens hheard post
    have houtcome : (probeRun m.1 sessionId peers buffers (pre ++ .check :: post)).pos.outcome =
        some (.error e) := by
      rw [hfailed]
      rfl
    have hquiet := probeRun_quiet sessionId hstranger buffers (pre ++ .check :: post)
      (Pos.outcome_eq_error (hsame.symm.trans houtcome))
    rw [hhead] at hquiet
    cases hquiet
  · -- nobody is expected: the barrier is open to the run with the stranger alone
    obtain ⟨e, hfailed, hhead⟩ :=
      probeRun_expired sessionId hprobing hmeets hopens hnobody post
    have houtcome : (probeRun m.1 sessionId peers (dropStrangers (peers.map (·.id)) buffers)
        ((pre ++ .timeout :: post).filter
          (Label.expectedOnly (peers.map (·.id))))).pos.outcome = some (.error e) := by
      rw [hfailed]
      rfl
    have hcaught := probeRun_caught sessionId hprobing hopens hheard post
      (Pos.outcome_eq_error (hsame.trans houtcome))
    rw [hhead] at hcaught
    cases hcaught

/-- A session is not influenced by the messages of unexpected senders, whatever participant it
    drives, exactly when each of its barriers opens on messages of expected senders only. -/
theorem isolated_iff (sessionId : String) (peers : List SessionPeer)
    (buffers : DkgSession Payload) (labels : List Label) :
    Isolated sessionId peers buffers labels ↔
      Undisturbed (peers.map (·.id)) buffers labels :=
  ⟨undisturbed_of_isolated, isolated_of_undisturbed⟩

/-- Participant 1 of a session whose messages are the single byte 0. -/
def byteOps : ParticipantOps Unit ℕ ℕ where
  Broadcast _ := Unit
  P2p := Unit
  getId _ := 1
  round1 _ := .ok ((), (), fun _ => some ())
  round2 _ _ _ := .ok ((), ())
  round3 _ _ := .ok ((), ())
  round4 _ _ := .ok ((), ())
  round5 _ _ := .ok ()
  getSecretShare _ := some 5
  getPublicKey _ := some 7
  ser _ _ := .ok [0]
  de _ bytes := if bytes = [0] then .ok () else .error "end of file"
  serP2p _ := .ok [0]
  deP2p bytes := if bytes = [0] then .ok () else .error "end of file"

/-- Peer 2 sends its rounds; somebody sends an empty round-1 message as participant 9. -/
def strayLabels : List Label :=
  [.record 1 9 ([], []), .record 1 2 ([0], [0]), .check, .record 2 2 ([0], []), .check,
    .record 3 2 ([0], []), .check, .record 4 2 ([0], []), .check]

/-- The stray message makes the session fail that completes without it. -/
theorem stranger_fails_session :
    let sess := probeSession "genesis:app" [⟨2, "http://b:4443", [2], 0⟩]
    (runSession byteOps openSecp sess () ∅ strayLabels).pos.outcome =
        some (.error "dkg deserialize failed: end of file") ∧
      (runSession byteOps openSecp sess () (dropStrangers sess.expected ∅)
        (strayLabels.filter (Label.expectedOnly sess.expected))).pos.outcome = some (.ok (5, 7)) ∧
      ¬ ∀ sessionId peers buffers labels, Isolated sessionId peers buffers labels := by
  intro sess
  have hstray : (runSession byteOps openSecp sess () ∅ strayLabels).pos.outcome =
      some (.error "dkg deserialize failed: end of file") := by decide +kernel
  have hclean : (runSession byteOps openSecp sess () (dropStrangers sess.expected ∅)
      (strayLabels.filter (Label.expectedOnly sess.expected))).pos.outcome =
        some (.ok (5, 7)) := by decide +kernel
  refine ⟨hstray, hclean, fun h => ?_⟩
  have hsame := h "genesis:app" [⟨2, "http://b:4443", [2], 0⟩] ∅ strayLabels Unit ℕ ℕ Unit byteOps
    openSecp (fun _ => .ok []) (fun _ => []) ()
  cases (hstray.symm.trans hsame).trans hclean

end DkgDriver

end KmsCluster
