import KmsCluster.Lib.Correspondence
import KmsCluster.PeerCalls

/-!
# Answers over an open network

Nodes call each other over a network that anybody controls: requests and answers are altered,
replayed and invented, and a handler answers whoever brings metadata that it accepts. Each node
signs with its key, and a log keeps what the nodes did. Here is also the dealer's bootstrap,
`init_start_node` (`src/init.rs`), whose shares are what `RequestShard` hands out. The code has it
beside the distributed genesis, which is what a node's `main` runs; what else gives a node its share
is any share.

Keys are taken to be safe: a signature that checks out under the address of an honest node is that
node's, and the nodes that are registered and attested are honest.

## Main results

- `accepted_genuine`: where an accepted partial comes from.
- `joined_dealt`: where the share of a node that joined comes from.
- `bootstrap_consistent`: the shares of a cluster that was bootstrapped.
-/

namespace KmsCluster.ResponseNet

open Correspondence Fallible PeerCalls Polynomial Runs

section Dealer

variable {F G₁ G₂ R : Type} (B : Blsful F G₁ G₂)
  (split : R → ℕ → ℕ → Except String (List (SecretKeyShare F)))

/-- `split_master`: `split` stands for `blsful`, with the randomness of a fresh master. -/
def splitMaster (r : R) (threshold total : ℕ) : Except String (List (SecretKeyShare F)) :=
  (split r threshold total).mapError ("master split failed: " ++ ·)

/-- `init_start_node`: the own shard, and the shards to hand out. -/
def initStartNode (r : R) (threshold total : ℕ) :
    Except String (ShardState × List (ℕ × Bytes)) := do
  let shares ← splitMaster split r threshold total
  let shards := shares.zipIdx.map fun (share, i) => (i + 1, shareToBytes B share)
  let (ownIndex, ownBytes) ← okOr shards.head? "split produced no shards"
  return (⟨ownIndex, ownBytes, Process.genesisEpoch⟩, shards)

end Dealer

-- ════════════════════════════════════════════════════════════════════════
-- Nodes and events
-- ════════════════════════════════════════════════════════════════════════

/-- The calls for which a node signs requests. -/
inductive Method where
  | getDprfPartial
  | requestShard
  | gossip
  | dkgRound
  | startReshare
  deriving DecidableEq

def Method.name : Method → String
  | getDprfPartial => "GetDprfPartial"
  | requestShard => "RequestShard"
  | gossip => "Gossip"
  | dkgRound => "DkgRound"
  | startReshare => "StartReshare"

/-- What all nodes share, and their keys. -/
structure Setup (F R Sig : Type) where
  crypto : PeerCrypto Sig
  honest : Address → Prop
  keyOf : Address → NodeKey
  pubkeyOf : Address → Bytes
  appId : String
  config : ServerConfig
  threshold : ℕ
  totalNodes : ℕ
  split : R → ℕ → ℕ → Except String (List (SecretKeyShare F))

structure NodeState where
  shard : Option ShardState
  pendingShards : Option (List (ℕ × Bytes))

/-- A request at a node, with the state that the node is in. -/
structure Call where
  server : Server
  env : CallEnv
  metadata : Metadata

def Call.address (call : Call) : Address := call.server.key.ethAddress

inductive Event where
  /-- A node signs a request. -/
  | requested (c : Address) (method : Method) (timestamp : ℤ)
  /-- `GetDprfPartial` is answered. -/
  | served (call : Call) (appId : String) (material : Bytes) (resp : EncryptedPartial)
  /-- `GetShardContribution` is answered. -/
  | contributed (call : Call) (resp : EncryptedShard)
  /-- `RequestShard` is answered with a shard. -/
  | assigned (call : Call) (resp : EncryptedShard)
  /-- `get_dprf_partial` returns. -/
  | accepted (c : Address) (reply : ℕ × Bytes × ℕ)
  /-- `join_cluster` stores a shard. -/
  | joined (c : Address) (shard : ShardState)
  | dealt (q : Address) (shards : List (ℕ × Bytes))

structure State where
  nodes : Address → NodeState
  /-- What happened, the last first. -/
  log : List Event

inductive Label (R : Type) where
  | request (c : Address) (method : Method) (timestamp : ℤ)
  | dprf (q : Address) (env : CallEnv) (metadata : Metadata) (appId : String) (material : Bytes)
  | contribution (q : Address) (env : CallEnv) (metadata : Metadata)
  | assign (q : Address) (env : CallEnv) (metadata : Metadata)
  | accept (c : Address) (lookups : Lookups) (answer : Answer EncryptedPartial)
  | join (c : Address) (lookups : Lookups) (timestamp : ℤ)
      (calls : List (String × Answer EncryptedShard))
  | bootstrap (q : Address) (r : R)
  /-- The node stores a share from elsewhere. -/
  | adopt (q : Address) (shardIndex : UInt32) (shardBytes : Bytes) (epoch : UInt64)
  | restart (q : Address)

def State.init : State := ⟨fun _ => ⟨none, none⟩, []⟩

def State.record (s : State) (event : Event) : State := { s with log := event :: s.log }

def State.setNode (s : State) (q : Address) (node : NodeState) : State :=
  { s with nodes := Function.update s.nodes q node }

section System

variable {F G₁ G₂ R Sig : Type}

def Setup.server (setup : Setup F R Sig) (q : Address) (node : NodeState) : Server :=
  ⟨setup.keyOf q, setup.appId, setup.config, node.shard, node.pendingShards⟩

/-- A request reaches `q`. -/
def Setup.call (setup : Setup F R Sig) (s : State) (q : Address) (env : CallEnv)
    (metadata : Metadata) : Call :=
  ⟨setup.server q (s.nodes q), env, metadata⟩

variable (B : Blsful F G₁ G₂) (setup : Setup F R Sig)

def step (s : State) : Label R → Option State
  | .request c method timestamp =>
    match signRequest setup.crypto (setup.keyOf c).privateKey method.name timestamp with
    | .ok _ => some (s.record (.requested c method timestamp))
    | .error _ => some s
  | .dprf q env metadata appId material =>
    let call := setup.call s q env metadata
    match getDprfPartialHandler B setup.crypto call.server env metadata appId material with
    | .ok resp => some (s.record (.served call appId material resp))
    | .error _ => some s
  | .contribution q env metadata =>
    let call := setup.call s q env metadata
    match getShardContributionHandler setup.crypto call.server env metadata with
    | .ok resp => some (s.record (.contributed call resp))
    | .error _ => some s
  | .assign q env metadata =>
    let call := setup.call s q env metadata
    match requestShardHandler setup.crypto call.server env metadata with
    | .ok resp => some (s.record (.assigned call resp))
    | .error _ => some s
  | .accept c lookups answer =>
    match acceptPartial setup.crypto (setup.keyOf c) lookups answer with
    | .ok reply => some (s.record (.accepted c reply))
    | .error _ => some s
  | .join c lookups timestamp calls =>
    match joinCluster setup.crypto (setup.keyOf c) lookups timestamp calls with
    | .ok (.joined shard) =>
      some ((s.setNode c { s.nodes c with shard := some shard }).record (.joined c shard))
    | _ => some s
  | .bootstrap q r =>
    match initStartNode B setup.split r setup.threshold setup.totalNodes with
    | .ok (own, shards) => some ((s.setNode q ⟨some own, some shards⟩).record (.dealt q shards))
    | .error _ => some s
  | .adopt q shardIndex shardBytes epoch =>
    let shard := ⟨shardIndex.toNat, shardBytes, epoch.toNat⟩
    some (s.setNode q { s.nodes q with shard := some shard })
  | .restart q => some (s.setNode q ⟨none, none⟩)

end System

section Keys

variable {F R Sig : Type}

/-- The texts that a node signs for an event: requests and responses. -/
def Event.Signs (S : PeerCrypto Sig) (c : Address) (msg : Bytes) : Event → Prop
  | requested c' method timestamp => c' = c ∧ signRequestMsg method.name timestamp = msg
  | served call _ _ resp => call.address = c ∧ ∃ ctx,
    call.server.authenticate S call.env call.metadata "GetDprfPartial" = .ok ctx ∧
      (Response.dprfPartial ctx.callerEthAddr resp.shardIndex resp.epoch resp.ciphertext).msg = msg
  | contributed call resp => call.address = c ∧ ∃ ctx,
    call.server.authenticate S call.env call.metadata "GetShardContribution" = .ok ctx ∧
      (Response.shard .getShardContribution ctx.callerEthAddr resp.shardIndex resp.ciphertext).msg =
        msg
  | assigned call resp => call.address = c ∧ ∃ ctx,
    call.server.authenticate S call.env call.metadata "RequestShard" = .ok ctx ∧
      (Response.shard .requestShard ctx.callerEthAddr resp.shardIndex resp.ciphertext).msg = msg
  | _ => False

/-- The message and signature of a request. -/
def requestChecks (method : Method) (metadata : Metadata) : List (Bytes × Bytes) :=
  match parseMetadata metadata with
  | .ok (sig, timestamp) => [(signRequestMsg method.name timestamp, sig)]
  | .error _ => []

def partialChecks (c : Address) : Answer EncryptedPartial → List (Bytes × Bytes)
  | .response resp =>
    [(dprfPartialSigningMsg c resp.shardIndex resp.epoch resp.ciphertext, resp.signature)]
  | _ => []

def shardChecks (c : Address) : Answer EncryptedShard → List (Bytes × Bytes)
  | .response resp =>
    [(shardSigningMsg "RequestShard" c resp.shardIndex resp.ciphertext, resp.signature)]
  | _ => []

/-- The messages and signatures that a step looks at. -/
def Label.checks : Label R → List (Bytes × Bytes)
  | .dprf _ _ metadata _ _ => requestChecks .getDprfPartial metadata
  | .assign _ _ metadata => requestChecks .requestShard metadata
  | .accept c _ answer => partialChecks c answer
  | .join c _ _ calls => calls.flatMap fun call => shardChecks c call.2
  | _ => []

/-- What a client is told of the nodes that answer it. -/
def Label.lookups : Label R → List Lookups
  | .accept _ lookups _ => [lookups]
  | .join _ lookups _ _ => [lookups]
  | _ => []

/-- A key that is recovered to the address of an honest node is the key of that node, which has
    signed the message. -/
def Setup.Unforged (setup : Setup F R Sig) (log : List Event) (msg sig : Bytes) : Prop :=
  ∀ pubkey, recoverPubkey setup.crypto.toSecp msg sig = .ok pubkey →
    let c := ethAddressFromPubkey setup.crypto.toSecp pubkey
    setup.honest c → pubkey = setup.pubkeyOf c ∧ ∃ event ∈ log, event.Signs setup.crypto c msg

/-- Who is registered and attested is honest. -/
def Setup.Trusted (setup : Setup F R Sig) (lookups : Lookups) : Prop :=
  ∀ q nodes, lookups.nodeListFor q = .ok nodes → q ∈ nodes → lookups.requireVerified q = .ok () →
    setup.honest q

def Setup.SafeKeys (setup : Setup F R Sig) (s : State) (l : Label R) : Prop :=
  (∀ check ∈ l.checks, setup.Unforged s.log check.1 check.2) ∧
    ∀ lookups ∈ l.lookups, setup.Trusted lookups

/-- What the code relies on of `k256`, `ecies` and `blsful`. -/
structure Setup.Lawful [Field F] (setup : Setup F R Sig) : Prop where
  address : ∀ c, (setup.keyOf c).ethAddress = c
  keys : ∀ c, setup.honest c → KeyPair setup.crypto (setup.keyOf c) (setup.pubkeyOf c)
  split : ∀ r threshold total shares, setup.split r threshold total = .ok shares →
    ∃ f : F[X], f.degree < threshold ∧
      shares = (List.range total).map fun i => ⟨(i + 1 : ℕ), f.eval ((i + 1 : ℕ) : F)⟩
  totalNodes_lt : setup.totalNodes < 2 ^ 32

end Keys

section Signatures

variable {F R Sig : Type} {S : PeerCrypto Sig} {event : Event} {c : Address}

theorem Method.colon_not_mem (method : Method) : 0x3A ∉ utf8 method.name := by
  cases method <;> decide

theorem Method.name_inj {method method' : Method} (h : method.name = method'.name) :
    method = method' := by
  revert h
  cases method <;> cases method' <;> decide

theorem toDigits_inj {m n : ℕ} (h : Nat.toDigits 10 m = Nat.toDigits 10 n) : m = n := by
  rw [← Nat.ofDigitChars_ten_toDigits (n := m), h, Nat.ofDigitChars_ten_toDigits]

theorem minus_cons_ne_toDigits (digits : List Char) (n : ℕ) :
    '-' :: digits ≠ Nat.toDigits 10 n := by
  intro h
  have hminus : '-' ∈ Nat.toDigits 10 n := h ▸ List.mem_cons_self
  exact absurd (Nat.isDigit_of_mem_toDigits (by norm_num) le_rfl hminus) (by decide)

theorem toString_inj {x y : ℤ} (h : toString x = toString y) : x = y := by
  have hnat (n : ℕ) : (toString (Int.ofNat n)).toList = Nat.toDigits 10 n := Nat.toList_repr
  have hneg (n : ℕ) : (toString (Int.negSucc n)).toList = '-' :: Nat.toDigits 10 (n + 1) := by
    show ("-" ++ Nat.repr (n + 1)).toList = _
    rw [String.toList_append, Nat.toList_repr]
    rfl
  have hlist := congrArg String.toList h
  cases x with
  | ofNat m =>
    cases y with
    | ofNat n =>
      rw [hnat, hnat] at hlist
      rw [toDigits_inj hlist]
    | negSucc n =>
      rw [hnat, hneg] at hlist
      exact absurd hlist.symm (minus_cons_ne_toDigits _ _)
  | negSucc m =>
    cases y with
    | ofNat n =>
      rw [hneg, hnat] at hlist
      exact absurd hlist (minus_cons_ne_toDigits _ _)
    | negSucc n =>
      rw [hneg, hneg] at hlist
      rw [Nat.succ.inj (toDigits_inj (List.cons.inj hlist).2)]

/-- A request message shows its method and timestamp. -/
theorem signRequestMsg_inj {method method' : Method} {timestamp timestamp' : ℤ}
    (h : signRequestMsg method.name timestamp = signRequestMsg method'.name timestamp') :
    method = method' ∧ timestamp = timestamp' := by
  have hcolon : utf8 ":" = [0x3A] := by decide
  simp only [signRequestMsg, utf8_append, List.append_assoc] at h
  have hrest := List.append_cancel_left h
  rw [← List.append_assoc, ← List.append_assoc, hcolon] at hrest
  obtain ⟨hname, htime⟩ := Encoding.SelfDelimiting.terminated 0x3A _ _ method.colon_not_mem
    method'.colon_not_mem _ _ hrest
  exact ⟨Method.name_inj (utf8_inj hname), toString_inj (utf8_inj htime)⟩

theorem eq_requested_of_signs {method : Method} {timestamp : ℤ}
    (h : event.Signs S c (signRequestMsg method.name timestamp)) :
    event = .requested c method timestamp := by
  cases event with
  | requested c' method' timestamp' =>
    obtain ⟨rfl, hmsg⟩ := h
    obtain ⟨rfl, rfl⟩ := signRequestMsg_inj hmsg
    rfl
  | served call appId material resp =>
    obtain ⟨-, ctx, -, hmsg⟩ := h
    exact absurd hmsg (Response.msg_ne_signRequestMsg _ _ _)
  | contributed call resp =>
    obtain ⟨-, ctx, -, hmsg⟩ := h
    exact absurd hmsg (Response.msg_ne_signRequestMsg _ _ _)
  | assigned call resp =>
    obtain ⟨-, ctx, -, hmsg⟩ := h
    exact absurd hmsg (Response.msg_ne_signRequestMsg _ _ _)
  | accepted c' reply => exact h.elim
  | joined c' shard => exact h.elim
  | dealt q shards => exact h.elim

/-- The signer answered this caller with this ciphertext. -/
theorem served_of_signs {caller : Address} {shardIndex : UInt32} {epoch : UInt64}
    {ciphertext : Bytes}
    (h : event.Signs S c (dprfPartialSigningMsg caller shardIndex epoch ciphertext)) :
    ∃ call appId material resp ctx, event = .served call appId material resp ∧
      call.address = c ∧
      call.server.authenticate S call.env call.metadata "GetDprfPartial" = .ok ctx ∧
      ctx.callerEthAddr = caller ∧ resp.shardIndex = shardIndex ∧ resp.epoch = epoch ∧
      resp.ciphertext = ciphertext := by
  have hmsg : dprfPartialSigningMsg caller shardIndex epoch ciphertext =
      (Response.dprfPartial caller shardIndex epoch ciphertext).msg := rfl
  rw [hmsg] at h
  cases event with
  | requested c' method timestamp => exact absurd h.2.symm (Response.msg_ne_signRequestMsg _ _ _)
  | served call appId material resp =>
    obtain ⟨hc, ctx, hauth, hresponse⟩ := h
    obtain ⟨rfl, rfl, rfl, rfl⟩ := Response.dprfPartial.inj (Response.msg_inj hresponse)
    exact ⟨call, appId, material, resp, ctx, rfl, hc, hauth, rfl, rfl, rfl, rfl⟩
  | contributed call resp =>
    obtain ⟨-, ctx, -, hresponse⟩ := h
    cases Response.msg_inj hresponse
  | assigned call resp =>
    obtain ⟨-, ctx, -, hresponse⟩ := h
    cases Response.msg_inj hresponse
  | accepted c' reply => exact h.elim
  | joined c' shard => exact h.elim
  | dealt q shards => exact h.elim

/-- The signer assigned this caller a shard with this ciphertext. -/
theorem assigned_of_signs {caller : Address} {shardIndex : UInt32} {ciphertext : Bytes}
    (h : event.Signs S c (shardSigningMsg "RequestShard" caller shardIndex ciphertext)) :
    ∃ call resp ctx, event = .assigned call resp ∧ call.address = c ∧
      call.server.authenticate S call.env call.metadata "RequestShard" = .ok ctx ∧
      ctx.callerEthAddr = caller ∧ resp.shardIndex = shardIndex ∧
      resp.ciphertext = ciphertext := by
  have hmsg : shardSigningMsg "RequestShard" caller shardIndex ciphertext =
      (Response.shard .requestShard caller shardIndex ciphertext).msg := rfl
  rw [hmsg] at h
  cases event with
  | requested c' method timestamp => exact absurd h.2.symm (Response.msg_ne_signRequestMsg _ _ _)
  | served call appId material resp =>
    obtain ⟨-, ctx, -, hresponse⟩ := h
    cases Response.msg_inj hresponse
  | contributed call resp =>
    obtain ⟨-, ctx, -, hresponse⟩ := h
    cases Response.msg_inj hresponse
  | assigned call resp =>
    obtain ⟨hc, ctx, hauth, hresponse⟩ := h
    obtain ⟨-, rfl, rfl, rfl⟩ := Response.shard.inj (Response.msg_inj hresponse)
    exact ⟨call, resp, ctx, rfl, hc, hauth, rfl, rfl, rfl⟩
  | accepted c' reply => exact h.elim
  | joined c' shard => exact h.elim
  | dealt q shards => exact h.elim

end Signatures

section Needs

variable {F G₁ G₂ R Sig : Type} (B : Blsful F G₁ G₂) (setup : Setup F R Sig)

/-- The handler took the request for one of `ctx`, and answered it with `plaintext`. An honest
    caller has asked before, in the node's time window, and the answer is encrypted to its key. -/
structure Answers (call : Call) (method : Method) (ctx : AuthContext)
    (plaintext ciphertext : Bytes) (earlier : List Event) : Prop where
  authenticated : call.server.authenticate setup.crypto call.env call.metadata method.name = .ok ctx
  encrypted : setup.crypto.encrypt call.env.randomness ctx.callerPubkey plaintext = .ok ciphertext
  asked : setup.honest ctx.callerEthAddr → ctx.callerPubkey = setup.pubkeyOf ctx.callerEthAddr ∧
    ∃ timestamp, .requested ctx.callerEthAddr method timestamp ∈ earlier ∧
      tooFarFromNow call.env.now timestamp call.server.config.timestampToleranceSecs = false

/-- What must have happened before an event. -/
def Needs : Event → List Event → Prop
  | .served call appId material resp, earlier => ∃ ctx bytes,
    Answers setup call .getDprfPartial ctx bytes resp.ciphertext earlier ∧
      getDprfPartial B call.server.shard appId material =
        .ok (resp.shardIndex.toNat, bytes, resp.epoch.toNat)
  | .assigned call resp, earlier => ∃ ctx shards bytes,
    Answers setup call .requestShard ctx bytes resp.ciphertext earlier ∧
      .dealt call.address shards ∈ earlier ∧
      assignedShard shards call.env.nodeList ctx.callerEthAddr = .ok (resp.shardIndex.toNat, bytes)
  | .accepted c reply, earlier => setup.honest c → ∃ call appId material resp ctx,
    .served call appId material resp ∈ earlier ∧ setup.honest call.address ∧
      call.server.authenticate setup.crypto call.env call.metadata "GetDprfPartial" = .ok ctx ∧
      ctx.callerEthAddr = c ∧
      setup.crypto.decrypt (setup.keyOf c).privateKey resp.ciphertext = .ok reply.2.1 ∧
      reply.1 = resp.shardIndex.toNat ∧ reply.2.2 = resp.epoch.toNat
  | .joined c shard, earlier => setup.honest c → ∃ call resp ctx,
    .assigned call resp ∈ earlier ∧ setup.honest call.address ∧
      call.server.authenticate setup.crypto call.env call.metadata "RequestShard" = .ok ctx ∧
      ctx.callerEthAddr = c ∧
      setup.crypto.decrypt (setup.keyOf c).privateKey resp.ciphertext = .ok shard.shardBytes ∧
      shard.shardIndex = resp.shardIndex.toNat ∧ shard.epoch = Process.genesisEpoch
  | _, _ => True

/-- The log is justified, and what a node holds fits its types and was dealt. -/
structure Inv (s : State) : Prop where
  justified : Justified (Needs B setup) s.log
  shard : ∀ q shard, (s.nodes q).shard = some shard →
    shard.shardIndex < 2 ^ 32 ∧ shard.epoch < 2 ^ 64
  pending : ∀ q shards, (s.nodes q).pendingShards = some shards →
    .dealt q shards ∈ s.log ∧ ∀ p ∈ shards, p.1 < 2 ^ 32

theorem inv_init : Inv B setup State.init where
  justified := trivial
  shard _ _ h := nomatch h
  pending _ _ h := nomatch h

variable {B setup} {s : State}

theorem Inv.record (h : Inv B setup s) {event : Event} (hneeds : Needs B setup event s.log) :
    Inv B setup (s.record event) where
  justified := ⟨hneeds, h.justified⟩
  shard := h.shard
  pending q shards hpending :=
    ⟨List.mem_cons_of_mem _ (h.pending q shards hpending).1, (h.pending q shards hpending).2⟩

/-- A node changes, maybe in the step that is recorded. -/
theorem Inv.setNode (h : Inv B setup s) {q : Address} {node : NodeState}
    (hshard : ∀ shard, node.shard = some shard → shard.shardIndex < 2 ^ 32 ∧ shard.epoch < 2 ^ 64)
    (hpending : ∀ shards, node.pendingShards = some shards →
      .dealt q shards ∈ s.log ∧ ∀ p ∈ shards, p.1 < 2 ^ 32) : Inv B setup (s.setNode q node) where
  justified := h.justified
  shard p shard hp := by
    by_cases hpq : p = q
    · subst hpq
      exact hshard shard (by simpa [State.setNode] using hp)
    · exact h.shard p shard (by simpa [State.setNode, hpq] using hp)
  pending p shards hp := by
    by_cases hpq : p = q
    · subst hpq
      exact hpending shards (by simpa [State.setNode] using hp)
    · exact h.pending p shards (by simpa [State.setNode, hpq] using hp)

theorem mem_requestChecks {method : Method} {metadata : Metadata} {sig : Bytes} {timestamp : ℤ}
    (h : parseMetadata metadata = .ok (sig, timestamp)) :
    (signRequestMsg method.name timestamp, sig) ∈ requestChecks method metadata := by
  rw [requestChecks, h]
  exact List.mem_singleton_self _

/-- Who is authenticated as an honest node has asked, if the signature is not forged. -/
theorem answers_of_unforged {call : Call} {method : Method} {ctx : AuthContext}
    {plaintext ciphertext : Bytes} {log : List Event}
    (hunforged : ∀ check ∈ requestChecks method call.metadata,
      setup.Unforged log check.1 check.2)
    (hauth : call.server.authenticate setup.crypto call.env call.metadata method.name = .ok ctx)
    (hencrypt : setup.crypto.encrypt call.env.randomness ctx.callerPubkey plaintext =
      .ok ciphertext) : Answers setup call method ctx plaintext ciphertext log where
  authenticated := hauth
  encrypted := hencrypt
  asked hhonest := by
    obtain ⟨sig, timestamp, hparse, hfresh, hrecover, haddr⟩ := Server.authenticate_eq_ok hauth
    obtain ⟨hpubkey, event, hevent, hsigns⟩ :=
      hunforged _ (mem_requestChecks hparse) _ hrecover (haddr ▸ hhonest)
    obtain rfl := eq_requested_of_signs hsigns
    rw [← haddr] at hpubkey hevent
    exact ⟨hpubkey, timestamp, hevent, hfresh⟩

theorem assignedShard_mem {shards : List (ℕ × Bytes)} {nodeList : Except KmsError (List Address)}
    {c : Address} {p : ℕ × Bytes} (h : assignedShard shards nodeList c = .ok p) : p ∈ shards := by
  obtain ⟨nodes, -, h⟩ := bind_eq_ok.mp h
  obtain ⟨position, -, h⟩ := bind_eq_ok.mp h
  exact List.mem_of_getElem? (okOr_eq_ok.mp h)

end Needs

section Steps

variable {F G₁ G₂ R Sig : Type} {B : Blsful F G₁ G₂} {setup : Setup F R Sig} {s s' : State}

theorem getDprfPartial_eq_ok {shard : Option ShardState} {appId : String} {material : Bytes}
    {index epoch : ℕ} {bytes : Bytes}
    (h : getDprfPartial B shard appId material = .ok (index, bytes, epoch)) :
    ∃ own, shard = some own ∧ own.shardIndex = index ∧ own.epoch = epoch := by
  obtain ⟨own, hown, h⟩ := bind_eq_ok.mp h
  obtain ⟨_, -, h⟩ := bind_eq_ok.mp h
  obtain ⟨_, -, h⟩ := bind_eq_ok.mp h
  cases h
  exact ⟨own, okOr_eq_ok.mp hown, rfl, rfl⟩

theorem Inv.needs_served (h : Inv B setup s) {q : Address} {env : CallEnv} {metadata : Metadata}
    {appId : String} {material : Bytes} {resp : EncryptedPartial}
    (hunforged : ∀ check ∈ requestChecks .getDprfPartial metadata,
      setup.Unforged s.log check.1 check.2)
    (hresp : getDprfPartialHandler B setup.crypto (setup.server q (s.nodes q)) env metadata appId
      material = .ok resp) :
    Needs B setup (.served (setup.call s q env metadata) appId material resp) s.log := by
  obtain ⟨ctx, index, bytes, epoch, hauth, hpartial, hindex, hepoch, hencrypt⟩ :=
    getDprfPartialHandler_eq_ok hresp
  obtain ⟨own, hown, rfl, rfl⟩ := getDprfPartial_eq_ok hpartial
  obtain ⟨hindex_lt, hepoch_lt⟩ := h.shard q own hown
  refine ⟨ctx, bytes, answers_of_unforged hunforged hauth hencrypt, ?_⟩
  rw [hindex, hepoch, UInt32.toNat_ofNat_of_lt' hindex_lt, UInt64.toNat_ofNat_of_lt' hepoch_lt]
  exact hpartial

theorem Inv.needs_assigned (h : Inv B setup s) (haddr : ∀ c, (setup.keyOf c).ethAddress = c)
    {q : Address} {env : CallEnv} {metadata : Metadata} {resp : EncryptedShard}
    (hunforged : ∀ check ∈ requestChecks .requestShard metadata,
      setup.Unforged s.log check.1 check.2)
    (hresp : requestShardHandler setup.crypto (setup.server q (s.nodes q)) env metadata =
      .ok resp) :
    Needs B setup (.assigned (setup.call s q env metadata) resp) s.log := by
  obtain ⟨ctx, shards, index, bytes, hauth, hpending, hassigned, hindex, hencrypt⟩ :=
    requestShardHandler_eq_ok hresp
  obtain ⟨hdealt, hlt⟩ := h.pending q shards hpending
  have hself : (setup.call s q env metadata).address = q := haddr q
  refine ⟨ctx, shards, bytes, answers_of_unforged hunforged hauth hencrypt, ?_, ?_⟩
  · rw [hself]
    exact hdealt
  rw [hindex, UInt32.toNat_ofNat_of_lt' (hlt _ (assignedShard_mem hassigned))]
  exact hassigned

/-- Behind an answer that checks out is an honest node that signed it. -/
theorem signed_of_verified {log : List Event} {lookups : Lookups} {message sig : Bytes}
    (hunforged : setup.Unforged log message sig) (htrusted : setup.Trusted lookups)
    (h : verifyClusterResponse setup.crypto lookups message sig = .ok ()) :
    ∃ q, setup.honest q ∧ ∃ event ∈ log, event.Signs setup.crypto q message := by
  obtain ⟨pubkey, nodes, hrecover, hnodes, hmem, hverified⟩ := verifyClusterResponse_eq_ok h
  have hhonest := htrusted _ nodes hnodes hmem hverified
  exact ⟨_, hhonest, (hunforged pubkey hrecover hhonest).2⟩

theorem needs_accepted (haddr : ∀ c, (setup.keyOf c).ethAddress = c) {c : Address}
    {lookups : Lookups} {answer : Answer EncryptedPartial} {reply : ℕ × Bytes × ℕ}
    (hsafe : setup.SafeKeys s (.accept c lookups answer))
    (hreply : acceptPartial setup.crypto (setup.keyOf c) lookups answer = .ok reply) :
    Needs B setup (.accepted c reply) s.log := by
  intro hhonest
  obtain ⟨resp, rfl, hverify, hdecrypt, hindex, hepoch⟩ := acceptPartial_eq_ok hreply
  rw [haddr] at hverify
  obtain ⟨q, hq, event, hevent, hsigns⟩ := signed_of_verified
    (hsafe.1 _ (List.mem_singleton_self _)) (hsafe.2 _ (List.mem_singleton_self _)) hverify
  obtain ⟨call, appId, material, resp', ctx, rfl, rfl, hauth, hcaller, hindex', hepoch',
    hciphertext⟩ := served_of_signs hsigns
  refine ⟨call, appId, material, resp', ctx, hevent, hq, hauth, hcaller, ?_, ?_, ?_⟩
  · rw [hciphertext]
    exact hdecrypt
  · rw [hindex']
    exact hindex
  · rw [hepoch']
    exact hepoch

theorem needs_joined (haddr : ∀ c, (setup.keyOf c).ethAddress = c) {c : Address}
    {lookups : Lookups} {timestamp : ℤ} {calls : List (String × Answer EncryptedShard)}
    {shard : ShardState} (hsafe : setup.SafeKeys s (.join c lookups timestamp calls))
    (hjoined : joinCluster setup.crypto (setup.keyOf c) lookups timestamp calls =
      .ok (.joined shard)) : Needs B setup (.joined c shard) s.log := by
  intro hhonest
  obtain ⟨⟨seedUrl, answer⟩, hcall, hshard⟩ := joinCluster_eq_joined hjoined
  obtain ⟨resp, rfl, hverify, hdecrypt, hindex, hepoch⟩ := requestShardFromPeer_eq_ok hshard
  rw [haddr] at hverify
  have hcheck : (shardSigningMsg "RequestShard" c resp.shardIndex resp.ciphertext,
      resp.signature) ∈ Label.checks (R := R) (.join c lookups timestamp calls) :=
    List.mem_flatMap.mpr ⟨_, hcall, List.mem_singleton_self _⟩
  obtain ⟨q, hq, event, hevent, hsigns⟩ := signed_of_verified (hsafe.1 _ hcheck)
    (hsafe.2 _ (List.mem_singleton_self _)) hverify
  obtain ⟨call, resp', ctx, rfl, rfl, hauth, hcaller, hindex', hciphertext⟩ :=
    assigned_of_signs hsigns
  refine ⟨call, resp', ctx, hevent, hq, hauth, hcaller, ?_, ?_, hepoch⟩
  · rw [hciphertext]
    exact hdecrypt
  · rw [hindex']
    exact hindex

/-- The shards of a dealer, and its own among them. -/
theorem initStartNode_eq_ok {split : R → ℕ → ℕ → Except String (List (SecretKeyShare F))} {r : R}
    {threshold total : ℕ} {own : ShardState} {shards : List (ℕ × Bytes)}
    (h : initStartNode B split r threshold total = .ok (own, shards)) : ∃ shares,
      split r threshold total = .ok shares ∧
      shards = shares.zipIdx.map (fun (share, i) => (i + 1, shareToBytes B share)) ∧
      shards.head? = some (own.shardIndex, own.shardBytes) ∧
      own.epoch = Process.genesisEpoch := by
  obtain ⟨shares, hsplit, h⟩ := bind_eq_ok.mp h
  obtain ⟨⟨ownIndex, ownBytes⟩, hhead, h⟩ := bind_eq_ok.mp h
  cases h
  exact ⟨shares, mapError_eq_ok.mp hsplit, rfl, okOr_eq_ok.mp hhead, rfl⟩

variable [Field F]

/-- The shard at a position is the polynomial's value there. -/
theorem Setup.Lawful.dealt (hlaw : setup.Lawful) {r : R} {own : ShardState}
    {shards : List (ℕ × Bytes)}
    (h : initStartNode B setup.split r setup.threshold setup.totalNodes = .ok (own, shards)) :
    ∃ f : F[X], f.degree < setup.threshold ∧
      shards = (List.range setup.totalNodes).map (fun i =>
        (i + 1, shareToBytes B ⟨(i + 1 : ℕ), f.eval ((i + 1 : ℕ) : F)⟩)) ∧
      own = ⟨1, shareToBytes B ⟨(1 : ℕ), f.eval ((1 : ℕ) : F)⟩, Process.genesisEpoch⟩ := by
  obtain ⟨shares, hsplit, rfl, hhead, hepoch⟩ := initStartNode_eq_ok h
  obtain ⟨f, hdegree, rfl⟩ := hlaw.split _ _ _ _ hsplit
  have hshards : ((List.range setup.totalNodes).map fun i =>
      (⟨(i + 1 : ℕ), f.eval ((i + 1 : ℕ) : F)⟩ : SecretKeyShare F)).zipIdx.map
        (fun (share, i) => (i + 1, shareToBytes B share)) =
      (List.range setup.totalNodes).map fun i =>
        (i + 1, shareToBytes B ⟨(i + 1 : ℕ), f.eval ((i + 1 : ℕ) : F)⟩) := by
    apply List.ext_getElem
    · simp
    · intro i hi hi'
      simp
  refine ⟨f, hdegree, hshards, ?_⟩
  rw [hshards] at hhead
  cases htotal : setup.totalNodes with
  | zero =>
    rw [htotal] at hhead
    cases hhead
  | succ n =>
    rw [htotal, List.range_succ_eq_map] at hhead
    obtain ⟨ownIndex, ownBytes, ownEpoch⟩ := own
    cases hhead
    cases hepoch
    rfl

/-- A node joins: what it stores fits the types of the wire. -/
theorem Inv.step_join (h : Inv B setup s) (hlaw : setup.Lawful) {c : Address} {lookups : Lookups}
    {timestamp : ℤ} {calls : List (String × Answer EncryptedShard)}
    (hsafe : setup.SafeKeys s (.join c lookups timestamp calls : Label R))
    (hstep : step B setup s (.join c lookups timestamp calls) = some s') : Inv B setup s' := by
  simp only [ResponseNet.step] at hstep
  split at hstep
  · next shard hjoined =>
    cases hstep
    obtain ⟨⟨seedUrl, answer⟩, -, hshard⟩ := joinCluster_eq_joined hjoined
    obtain ⟨resp, -, -, -, hindex, hepoch⟩ := requestShardFromPeer_eq_ok hshard
    have hstored : Inv B setup (s.setNode c { s.nodes c with shard := some shard }) := by
      refine h.setNode (fun shard' hshard' => ?_) (h.pending c)
      cases hshard'
      rw [hindex, hepoch]
      exact ⟨resp.shardIndex.toNat_lt, by decide⟩
    exact hstored.record (needs_joined hlaw.address hsafe hjoined)
  · cases hstep
    exact h

/-- A node deals: its own share and those to hand out fit the types of the wire. -/
theorem Inv.step_bootstrap (h : Inv B setup s) (hlaw : setup.Lawful) {q : Address} {r : R}
    (hstep : step B setup s (.bootstrap q r) = some s') : Inv B setup s' := by
  simp only [ResponseNet.step] at hstep
  split at hstep
  · next own shards hdeal =>
    cases hstep
    obtain ⟨f, -, hshards, hown⟩ := hlaw.dealt hdeal
    have hrecorded : Inv B setup (s.record (.dealt q shards)) := h.record trivial
    refine hrecorded.setNode ?_ ?_
    · intro shard hshard
      cases hshard
      rw [hown]
      exact ⟨by norm_num, by norm_num [Process.genesisEpoch]⟩
    · intro shards' hshards'
      cases hshards'
      refine ⟨List.mem_cons_self, fun p hp => ?_⟩
      rw [hshards] at hp
      obtain ⟨i, hi, rfl⟩ := List.mem_map.mp hp
      have htotal := hlaw.totalNodes_lt
      have hlt := List.mem_range.mp hi
      show i + 1 < 2 ^ 32
      omega
  · cases hstep
    exact h

theorem Inv.step (h : Inv B setup s) (hlaw : setup.Lawful) {l : Label R}
    (hsafe : setup.SafeKeys s l) (hstep : step B setup s l = some s') : Inv B setup s' := by
  cases l with
  | request c method timestamp =>
    simp only [ResponseNet.step] at hstep
    split at hstep
    · cases hstep
      exact h.record trivial
    · cases hstep
      exact h
  | dprf q env metadata appId material =>
    simp only [ResponseNet.step] at hstep
    split at hstep
    · next resp hresp =>
      cases hstep
      exact h.record (h.needs_served hsafe.1 hresp)
    · cases hstep
      exact h
  | contribution q env metadata =>
    simp only [ResponseNet.step] at hstep
    split at hstep
    · cases hstep
      exact h.record trivial
    · cases hstep
      exact h
  | assign q env metadata =>
    simp only [ResponseNet.step] at hstep
    split at hstep
    · next resp hresp =>
      cases hstep
      exact h.record (h.needs_assigned hlaw.address hsafe.1 hresp)
    · cases hstep
      exact h
  | accept c lookups answer =>
    simp only [ResponseNet.step] at hstep
    split at hstep
    · next reply hreply =>
      cases hstep
      exact h.record (needs_accepted hlaw.address hsafe hreply)
    · cases hstep
      exact h
  | join c lookups timestamp calls => exact h.step_join hlaw hsafe hstep
  | bootstrap q r => exact h.step_bootstrap hlaw hstep
  | adopt q shardIndex shardBytes epoch =>
    cases hstep
    refine h.setNode ?_ (h.pending q)
    intro shard hshard
    cases hshard
    exact ⟨shardIndex.toNat_lt, epoch.toNat_lt⟩
  | restart q =>
    cases hstep
    exact h.setNode (fun _ hshard => nomatch hshard) fun _ hpending => nomatch hpending

/-- What happened in a run with safe keys is justified. -/
theorem inv_run (hlaw : setup.Lawful) {labels : List (Label R)}
    (hrun : exec (ResponseNet.step B setup) State.init labels = some s)
    (hsafe : Meets (ResponseNet.step B setup) setup.SafeKeys State.init labels) :
    Inv B setup s :=
  exec_invariant_of_meets (fun _ _ _ h hsafe hstep => h.step hlaw hsafe hstep)
    (inv_init B setup) hsafe hrun

end Steps

section TwoNodes

/-- The master 5, on a line. -/
def lineSplit (_ : Unit) (threshold total : ℕ) : Except String (List (SecretKeyShare Scalar)) :=
  if 2 ≤ threshold then
    .ok ((List.range total).map fun i => ⟨(i + 1 : ℕ), (5 + (i + 1) : ℕ)⟩)
  else .error "threshold too small"

def addrOf (b : UInt8) : Address := (byteKey b).ethAddress

def twoSetup : Setup Scalar Unit Bytes where
  crypto := byteKeys
  honest c := c ∈ twoNodes
  keyOf c := ⟨if c = addrOf 2 then [2] else [1], c⟩
  pubkeyOf c := AppKey.point (if c = addrOf 2 then 2 else 1)
  appId := "kms"
  config := ⟨300⟩
  threshold := 2
  totalNodes := 2
  split := lineSplit

theorem twoSetup_lawful : twoSetup.Lawful where
  address _ := rfl
  keys c hc := by
    rcases List.mem_cons.mp hc with rfl | hc
    · exact byteKeys_keyPair 1
    · obtain rfl := List.mem_singleton.mp hc
      exact byteKeys_keyPair 2
  split r threshold total shares h := by
    have h : lineSplit r threshold total = .ok shares := h
    unfold lineSplit at h
    split at h
    · next hthreshold =>
      refine ⟨X + C 5, ?_, ?_⟩
      · rw [degree_X_add_C]
        exact_mod_cast hthreshold
      · cases h
        simp [add_comm]
    · cases h
  totalNodes_lt := by decide

theorem twoSetup_trusted : twoSetup.Trusted (byteEnv twoNodes).toLookups := by
  intro q nodes hnodes hq _
  cases hnodes
  exact hq

def signatureOf (b : UInt8) : Bytes := List.replicate 64 b ++ [0]

theorem unforged_of_signs {b : UInt8} {event : Event} {msg : Bytes} {log : List Event}
    (hpubkey : twoSetup.pubkeyOf (addrOf b) = AppKey.point b) (hevent : event ∈ log)
    (hsigns : event.Signs byteKeys (addrOf b) msg) :
    twoSetup.Unforged log msg (signatureOf b) := by
  obtain ⟨sig, hsig, -, hrecover⟩ := (byteKeys_keyPair b).exists_sign msg
  cases hsig
  intro pubkey hok c _
  obtain rfl := Except.ok.inj (hrecover.symm.trans hok)
  exact ⟨hpubkey.symm, event, hevent, hsigns⟩

theorem requestChecks_two {method : Method} {b : UInt8} {check : Bytes × Bytes}
    (h : check ∈ requestChecks method (requestMetadata (signatureOf b) 0)) :
    check = (signRequestMsg method.name 0, signatureOf b) := by
  have hlength : (signatureOf b).length = 65 := by simp [signatureOf]
  have hparse : parseMetadata (requestMetadata (signatureOf b) 0) = .ok (signatureOf b, 0) :=
    parseMetadata_requestMetadata hlength ⟨by norm_num, by norm_num⟩
  rw [requestChecks, hparse] at h
  exact List.mem_singleton.mp h

theorem verifyClusterResponse_two (msg : Bytes) :
    verifyClusterResponse byteKeys (byteEnv twoNodes).toLookups msg (signatureOf 2) = .ok () := by
  have hsigner : recoverSignerAddress byteKeys msg (signatureOf 2) = .ok (addrOf 2) :=
    (byteKeys_keyPair 2).recoverSignerAddress_eq rfl
  simp only [verifyClusterResponse, hsigner, ok_bind]
  rfl

-- Node 1 deals, and node 2 joins.

def dealtTwo : List (ℕ × Bytes) :=
  [(1, (lineShard 1 1).shardBytes), (2, (lineShard 2 1).shardBytes)]

def serverOne : Server := byteServer 1 (some (lineShard 1 1)) (some dealtTwo)

def answerTwo : EncryptedShard := ⟨2 :: (lineShard 2 1).shardBytes, 2, signatureOf 1⟩

def dealt : State :=
  (State.init.setNode (addrOf 1) ⟨some (lineShard 1 1), some dealtTwo⟩).record
    (.dealt (addrOf 1) dealtTwo)

def asked : State := dealt.record (.requested (addrOf 2) .requestShard 0)

def assigned : State :=
  asked.record (.assigned ⟨serverOne, byteEnv twoNodes, requestMetadata (signatureOf 2) 0⟩
    answerTwo)

def joined : State :=
  (assigned.setNode (addrOf 2) ⟨some (lineShard 2 1), none⟩).record
    (.joined (addrOf 2) (lineShard 2 1))

def joinRun : List (Label Unit) :=
  [.bootstrap (addrOf 1) (), .request (addrOf 2) .requestShard 0,
    .assign (addrOf 1) (byteEnv twoNodes) (requestMetadata (signatureOf 2) 0),
    .join (addrOf 2) (byteEnv twoNodes).toLookups 0 [("http://1", .response answerTwo)]]

theorem authenticate_serverOne : serverOne.authenticate byteKeys (byteEnv twoNodes)
    (requestMetadata (signatureOf 2) 0) "RequestShard" = .ok ⟨AppKey.point 2, addrOf 2⟩ :=
  (bytePeers (List.mem_cons_of_mem _ List.mem_cons_self) List.mem_cons_self).authenticate_eq
    (signRequest_byteKey 2 _ 0)

theorem step_assigned : step scalarBlsful twoSetup asked
    (.assign (addrOf 1) (byteEnv twoNodes) (requestMetadata (signatureOf 2) 0)) =
      some assigned := by
  have hanswer : requestShardHandler twoSetup.crypto
      (twoSetup.server (addrOf 1) (asked.nodes (addrOf 1))) (byteEnv twoNodes)
      (requestMetadata (signatureOf 2) 0) = .ok answerTwo := by
    show requestShardHandler byteKeys serverOne _ _ = _
    rw [requestShardHandler, authenticate_serverOne]
    rfl
  simp only [step, Setup.call, hanswer]
  rfl

theorem joinRun_exec : exec (step scalarBlsful twoSetup) State.init joinRun = some joined := by
  have hdealt : exec (step scalarBlsful twoSetup) State.init (joinRun.take 2) = some asked := rfl
  have hrest : exec (step scalarBlsful twoSetup) asked (joinRun.drop 2) = some joined :=
    exec_cons_eq_some.mpr ⟨assigned, step_assigned, rfl⟩
  rw [← List.take_append_drop 2 joinRun, exec_append, hdealt, Option.bind_some, hrest]

theorem joinRun_safeKeys :
    Meets (step scalarBlsful twoSetup) twoSetup.SafeKeys State.init joinRun := by
  refine Meets.cons ⟨nofun, nofun⟩ rfl (Meets.cons ⟨nofun, nofun⟩ rfl
    (Meets.cons (m := assigned) ⟨?_, nofun⟩ step_assigned ⟨⟨?_, ?_⟩, fun _ _ => trivial⟩))
  · intro check hcheck
    rw [@requestChecks_two .requestShard 2 check hcheck]
    exact unforged_of_signs rfl List.mem_cons_self ⟨rfl, rfl⟩
  · intro check hcheck
    obtain rfl := List.mem_singleton.mp hcheck
    exact unforged_of_signs rfl List.mem_cons_self ⟨rfl, _, authenticate_serverOne, rfl⟩
  · intro lookups hlookups
    obtain rfl := List.mem_singleton.mp hlookups
    exact twoSetup_trusted

-- Then node 1 asks node 2 for a partial, `bytes`.

def serverTwo : Server := byteServer 2 (some (lineShard 2 1)) none

def answerOne (bytes : Bytes) : EncryptedPartial := ⟨1 :: bytes, 2, 1, signatureOf 2⟩

def derivationAsked : State := joined.record (.requested (addrOf 1) .getDprfPartial 0)

def served (bytes : Bytes) : State :=
  derivationAsked.record (.served ⟨serverTwo, byteEnv twoNodes,
    requestMetadata (signatureOf 1) 0⟩ "app" [7] (answerOne bytes))

def deriveRun (bytes : Bytes) : List (Label Unit) :=
  [.request (addrOf 1) .getDprfPartial 0,
    .dprf (addrOf 2) (byteEnv twoNodes) (requestMetadata (signatureOf 1) 0) "app" [7],
    .accept (addrOf 1) (byteEnv twoNodes).toLookups (.response (answerOne bytes))]

theorem authenticate_serverTwo : serverTwo.authenticate byteKeys (byteEnv twoNodes)
    (requestMetadata (signatureOf 1) 0) "GetDprfPartial" = .ok ⟨AppKey.point 1, addrOf 1⟩ :=
  (bytePeers List.mem_cons_self (List.mem_cons_of_mem _ List.mem_cons_self)).authenticate_eq
    (signRequest_byteKey 1 _ 0)

theorem exists_served : ∃ bytes, step scalarBlsful twoSetup derivationAsked
    (.dprf (addrOf 2) (byteEnv twoNodes) (requestMetadata (signatureOf 1) 0) "app" [7]) =
      some (served bytes) := by
  let bytes := partialToBytes scalarBlsful (partialAt scalarBlsful (C 5 + C ((1 : ℕ) : Scalar) * X)
    (dprfMessage "app" [7]) 2)
  have hanswer : getDprfPartialHandler scalarBlsful twoSetup.crypto
      (twoSetup.server (addrOf 2) (derivationAsked.nodes (addrOf 2))) (byteEnv twoNodes)
      (requestMetadata (signatureOf 1) 0) "app" [7] = .ok (answerOne bytes) := by
    show getDprfPartialHandler scalarBlsful byteKeys serverTwo _ _ _ _ = _
    obtain ⟨share, hshare, hpartial⟩ :=
      (lineShard_onPolynomial (i := 2) 1 (by norm_num)).dprfPartial_eq scalarBlsful_lawful
        (dprfMessage "app" [7])
    rw [getDprfPartialHandler, authenticate_serverTwo]
    simp only [ok_bind, serverTwo, byteServer, okOr_some, hshare, hpartial, mapError_ok]
    rfl
  refine ⟨bytes, ?_⟩
  simp only [step, Setup.call, hanswer]
  rfl

variable {bytes : Bytes} (hserved : step scalarBlsful twoSetup derivationAsked
  (.dprf (addrOf 2) (byteEnv twoNodes) (requestMetadata (signatureOf 1) 0) "app" [7]) =
    some (served bytes))

include hserved

theorem deriveRun_exec : exec (step scalarBlsful twoSetup) State.init (joinRun ++ deriveRun bytes) =
    some ((served bytes).record (.accepted (addrOf 1) (2, bytes, 1))) := by
  have haccept : acceptPartial twoSetup.crypto (twoSetup.keyOf (addrOf 1))
      (byteEnv twoNodes).toLookups (.response (answerOne bytes)) = .ok (2, bytes, 1) := by
    show acceptPartial byteKeys _ _ _ = _
    simp only [acceptPartial, answerOne, verifyClusterResponse_two]
    rfl
  rw [exec_append, joinRun_exec, Option.bind_some]
  refine exec_cons_eq_some.mpr ⟨derivationAsked, rfl, exec_cons_eq_some.mpr ⟨_, hserved, ?_⟩⟩
  simp only [exec, step, haccept, Option.bind_some]

theorem deriveRun_safeKeys : Meets (step scalarBlsful twoSetup) twoSetup.SafeKeys State.init
    (joinRun ++ deriveRun bytes) := by
  refine (meets_append _ _).mpr ⟨joinRun_safeKeys, fun m hm => ?_⟩
  obtain rfl := Option.some.inj (joinRun_exec.symm.trans hm)
  refine Meets.cons ⟨nofun, nofun⟩ rfl (Meets.cons ⟨?_, nofun⟩ hserved
    ⟨⟨?_, ?_⟩, fun _ _ => trivial⟩)
  · intro check hcheck
    rw [@requestChecks_two .getDprfPartial 1 check hcheck]
    exact unforged_of_signs rfl List.mem_cons_self ⟨rfl, rfl⟩
  · intro check hcheck
    obtain rfl := List.mem_singleton.mp hcheck
    exact unforged_of_signs rfl List.mem_cons_self ⟨rfl, _, authenticate_serverTwo, rfl⟩
  · intro lookups hlookups
    obtain rfl := List.mem_singleton.mp hlookups
    exact twoSetup_trusted

end TwoNodes

section Origins

variable {F G₁ G₂ R Sig : Type} [Field F] {B : Blsful F G₁ G₂} {setup : Setup F R Sig} {s : State}

/-- In every run over an open network with safe keys, a partial that an honest node accepts for
    somebody's is what an honest node made of the share it held when it answered; it answered a
    request of the node that accepts, signed in the time window. Whether that was a request for the
    same app id and material is not said. -/
theorem accepted_genuine (hlaw : setup.Lawful) (labels : List (Label R))
    (hrun : exec (ResponseNet.step B setup) State.init labels = some s)
    (hsafe : Meets (ResponseNet.step B setup) setup.SafeKeys State.init labels) {c : Address}
    (hc : setup.honest c) {reply : ℕ × Bytes × ℕ} {earlier : List Event}
    (haccepted : (.accepted c reply :: earlier) <:+ s.log) :
    ∃ call appId material resp earliest,
      (.served call appId material resp :: earliest) <:+ earlier ∧ setup.honest call.address ∧
      getDprfPartial B call.server.shard appId material = .ok reply ∧
      ∃ timestamp, .requested c .getDprfPartial timestamp ∈ earliest ∧
        tooFarFromNow call.env.now timestamp call.server.config.timestampToleranceSecs = false := by
  have hjustified := (inv_run hlaw hrun hsafe).justified
  obtain ⟨call, appId, material, resp, ctx, hserved, hq, hauth, rfl, hdecrypt, hindex, hepoch⟩ :=
    hjustified.of_suffix haccepted hc
  have hbefore : Justified (Needs B setup) earlier :=
    hjustified.suffix ((List.suffix_cons _ _).trans haccepted)
  obtain ⟨earliest, hsuffix, ctx', bytes, hanswers, hpartial⟩ := hbefore.exists_earlier hserved
  obtain rfl := Except.ok.inj (hauth.symm.trans hanswers.authenticated)
  obtain ⟨hpubkey, hasked⟩ := hanswers.asked hc
  have hencrypted := hanswers.encrypted
  rw [hpubkey] at hencrypted
  -- The ciphertext was made for the key of the node that accepts it.
  have hbytes := (hlaw.keys _ hc).decrypt _ _ _ hencrypted
  obtain rfl := Except.ok.inj (hbytes.symm.trans hdecrypt)
  obtain ⟨index, bytes, epoch⟩ := reply
  cases hindex
  cases hepoch
  exact ⟨call, appId, material, resp, earliest, hsuffix, hq, hpartial, hasked⟩

/-- Node 1 accepts the partial of node 2. -/
theorem accepted_genuine_two : ∃ (s : State) (reply : ℕ × Bytes × ℕ) (call : Call)
    (appId : String) (material : Bytes),
    exec (step scalarBlsful twoSetup) State.init (joinRun ++ deriveRun reply.2.1) = some s ∧
    .accepted (addrOf 1) reply ∈ s.log ∧ twoSetup.honest call.address ∧
    getDprfPartial scalarBlsful call.server.shard appId material = .ok reply := by
  obtain ⟨bytes, hserved⟩ := exists_served
  obtain ⟨call, appId, material, resp, earliest, -, hq, hpartial, -⟩ :=
    accepted_genuine twoSetup_lawful _ (deriveRun_exec hserved) (deriveRun_safeKeys hserved)
      (c := addrOf 1) List.mem_cons_self List.suffix_rfl
  exact ⟨_, _, call, appId, material, deriveRun_exec hserved, List.mem_cons_self, hq, hpartial⟩

/-- Where the share comes from that an honest node stores when it joins. -/
theorem origin_of_joined (hlaw : setup.Lawful) {log : List Event} {c : Address}
    {shard : ShardState} (hjustified : Justified (Needs B setup) log)
    (hneeds : Needs B setup (.joined c shard) log) (hc : setup.honest c) :
    ∃ call resp earlier shards, (.assigned call resp :: earlier) <:+ log ∧
      setup.honest call.address ∧ .dealt call.address shards ∈ earlier ∧
      assignedShard shards call.env.nodeList c = .ok (shard.shardIndex, shard.shardBytes) ∧
      shard.epoch = Process.genesisEpoch ∧
      ∃ timestamp, .requested c .requestShard timestamp ∈ earlier ∧
        tooFarFromNow call.env.now timestamp call.server.config.timestampToleranceSecs = false := by
  obtain ⟨call, resp, ctx, hassigned, hq, hauth, rfl, hdecrypt, hindex, hepoch⟩ := hneeds hc
  obtain ⟨earlier, hsuffix, ctx', shards, bytes, hanswers, hdealt, hposition⟩ :=
    hjustified.exists_earlier hassigned
  obtain rfl := Except.ok.inj (hauth.symm.trans hanswers.authenticated)
  obtain ⟨hpubkey, hasked⟩ := hanswers.asked hc
  have hencrypted := hanswers.encrypted
  rw [hpubkey] at hencrypted
  have hbytes := (hlaw.keys _ hc).decrypt _ _ _ hencrypted
  obtain rfl := Except.ok.inj (hbytes.symm.trans hdecrypt)
  rw [← hindex] at hposition
  exact ⟨call, resp, earlier, shards, hsuffix, hq, hdealt, hposition, hepoch, hasked⟩

/-- In every such run, the share of an honest node that joined was dealt by an honest node, which
    assigned it by the position of the joining node in a nodeList, on that node's request. -/
theorem joined_dealt (hlaw : setup.Lawful) (labels : List (Label R))
    (hrun : exec (ResponseNet.step B setup) State.init labels = some s)
    (hsafe : Meets (ResponseNet.step B setup) setup.SafeKeys State.init labels) {c : Address}
    (hc : setup.honest c) {shard : ShardState} {earlier : List Event}
    (hjoined : (.joined c shard :: earlier) <:+ s.log) :
    ∃ call resp earliest shards, (.assigned call resp :: earliest) <:+ earlier ∧
      setup.honest call.address ∧ .dealt call.address shards ∈ earliest ∧
      assignedShard shards call.env.nodeList c = .ok (shard.shardIndex, shard.shardBytes) ∧
      shard.epoch = Process.genesisEpoch ∧
      ∃ timestamp, .requested c .requestShard timestamp ∈ earliest ∧
        tooFarFromNow call.env.now timestamp call.server.config.timestampToleranceSecs = false := by
  have hjustified := (inv_run hlaw hrun hsafe).justified
  exact origin_of_joined hlaw (hjustified.suffix ((List.suffix_cons _ _).trans hjoined))
    (hjustified.of_suffix hjoined) hc

/-- Node 2 joins with a share of node 1's. -/
theorem joined_dealt_two : ∃ (call : Call) (shards : List (ℕ × Bytes)),
    twoSetup.honest call.address ∧ .dealt call.address shards ∈ joined.log ∧
    assignedShard shards call.env.nodeList (addrOf 2) =
      .ok ((lineShard 2 1).shardIndex, (lineShard 2 1).shardBytes) := by
  obtain ⟨call, resp, earliest, shards, hsuffix, hq, hdealt, hshard, -⟩ :=
    joined_dealt twoSetup_lawful _ joinRun_exec joinRun_safeKeys (c := addrOf 2)
      (List.mem_cons_of_mem _ List.mem_cons_self) List.suffix_rfl
  exact ⟨call, shards, hq,
    List.mem_cons_of_mem _ (hsuffix.subset (List.mem_cons_of_mem _ hdealt)), hshard⟩

end Origins

section Bootstrap

variable {F G₁ G₂ R Sig : Type} [Field F] {B : Blsful F G₁ G₂} {setup : Setup F R Sig}
  {s s' : State} {dealer : Address} {nodeList : List Address}

/-- One node deals, once; all dealers see one nodeList, and no share comes from elsewhere. -/
def Bootstraps (dealer : Address) (nodeList : List Address) (s : State) : Label R → Prop
  | .bootstrap q _ => q = dealer ∧ ∀ q' shards, .dealt q' shards ∉ s.log
  | .assign _ env _ => ∀ nodes, env.nodeList = .ok nodes → nodes = nodeList
  | .adopt _ _ _ _ => False
  | _ => True

/-- The shards of a polynomial. -/
def dealtShards (B : Blsful F G₁ G₂) (f : F[X]) (total : ℕ) : List (ℕ × Bytes) :=
  (List.range total).map fun i => (i + 1, shareToBytes B ⟨(i + 1 : ℕ), f.eval ((i + 1 : ℕ) : F)⟩)

/-- The place of a node whose share has this index. -/
def Placed (dealer : Address) (nodeList : List Address) (c : Address) (index : ℕ) : Prop :=
  c = dealer ∧ index = 1 ∨ ∃ i, nodeList.findIdx? (· == c) = some i ∧ index = i + 1

/-- All shares are the dealer's, at their places. -/
structure Bootstrapped (B : Blsful F G₁ G₂) (setup : Setup F R Sig) (dealer : Address)
    (nodeList : List Address) (s : State) : Prop where
  dealt : ∀ q shards, .dealt q shards ∈ s.log → q = dealer ∧
    ∃ f : F[X], f.degree < setup.threshold ∧ shards = dealtShards B f setup.totalNodes
  once : ∀ q shards q' shards', .dealt q shards ∈ s.log → .dealt q' shards' ∈ s.log →
    shards = shards'
  listed : ∀ call resp, .assigned call resp ∈ s.log →
    ∀ nodes, call.env.nodeList = .ok nodes → nodes = nodeList
  held : ∀ c, setup.honest c → ∀ shard, (s.nodes c).shard = some shard →
    ∃ shards, .dealt dealer shards ∈ s.log ∧ (shard.shardIndex, shard.shardBytes) ∈ shards ∧
      Placed dealer nodeList c shard.shardIndex ∧ shard.epoch = Process.genesisEpoch

theorem bootstrapped_init : Bootstrapped B setup dealer nodeList State.init where
  dealt _ _ h := nomatch h
  once _ _ _ _ h := nomatch h
  listed _ _ h := nomatch h
  held _ _ _ h := nomatch h

/-- An event that deals and assigns nothing. -/
theorem Bootstrapped.record (h : Bootstrapped B setup dealer nodeList s) {event : Event}
    (hdealt : ∀ q shards, event ≠ .dealt q shards)
    (hassigned : ∀ call resp, event = .assigned call resp →
      ∀ nodes, call.env.nodeList = .ok nodes → nodes = nodeList) :
    Bootstrapped B setup dealer nodeList (s.record event) := by
  have hold : ∀ {q shards}, .dealt q shards ∈ (s.record event).log → .dealt q shards ∈ s.log := by
    intro q shards hmem
    rcases List.mem_cons.mp hmem with rfl | hmem
    · exact absurd rfl (hdealt q shards)
    · exact hmem
  refine ⟨fun q shards hmem => h.dealt q shards (hold hmem),
    fun q shards q' shards' hmem hmem' => h.once q shards q' shards' (hold hmem) (hold hmem'),
    fun call resp hmem => ?_, fun c hc shard hshard => ?_⟩
  · rcases List.mem_cons.mp hmem with rfl | hmem
    · exact hassigned call resp rfl
    · exact h.listed call resp hmem
  · obtain ⟨shards, hmem, hheld⟩ := h.held c hc shard hshard
    exact ⟨shards, List.mem_cons_of_mem _ hmem, hheld⟩

/-- A node changes and has a share of the dealer's, if any. -/
theorem Bootstrapped.setNode (h : Bootstrapped B setup dealer nodeList s) {q : Address}
    {node : NodeState} (hheld : setup.honest q → ∀ shard, node.shard = some shard →
      ∃ shards, .dealt dealer shards ∈ s.log ∧ (shard.shardIndex, shard.shardBytes) ∈ shards ∧
        Placed dealer nodeList q shard.shardIndex ∧ shard.epoch = Process.genesisEpoch) :
    Bootstrapped B setup dealer nodeList (s.setNode q node) where
  dealt := h.dealt
  once := h.once
  listed := h.listed
  held c hc shard hshard := by
    by_cases hcq : c = q
    · subst hcq
      exact hheld hc shard (by simpa [State.setNode] using hshard)
    · exact h.held c hc shard (by simpa [State.setNode, hcq] using hshard)

/-- What is assigned stands at the caller's place. -/
theorem placed_of_assigned {total : ℕ} {f : F[X]} {c : Address} {p : ℕ × Bytes}
    (h : assignedShard (dealtShards B f total) (.ok nodeList) c = .ok p) :
    Placed dealer nodeList c p.1 := by
  obtain ⟨nodes, hnodes, h⟩ := bind_eq_ok.mp h
  cases hnodes
  obtain ⟨i, hi, h⟩ := bind_eq_ok.mp h
  have hget := okOr_eq_ok.mp h
  rw [dealtShards, List.getElem?_map, Option.map_eq_some_iff] at hget
  obtain ⟨j, hj, rfl⟩ := hget
  obtain ⟨hlt, hrange⟩ := List.getElem?_eq_some_iff.mp hj
  rw [List.getElem_range] at hrange
  exact .inr ⟨i, okOr_eq_ok.mp hi, by rw [hrange]⟩

/-- A node joins: its share was dealt by the dealer, and assigned by the one nodeList. -/
theorem Bootstrapped.step_join (h : Bootstrapped B setup dealer nodeList s) (hinv : Inv B setup s)
    (hlaw : setup.Lawful) {c : Address} {lookups : Lookups} {timestamp : ℤ}
    {calls : List (String × Answer EncryptedShard)}
    (hsafe : setup.SafeKeys s (.join c lookups timestamp calls : Label R))
    (hstep : step B setup s (.join c lookups timestamp calls) = some s') :
    Bootstrapped B setup dealer nodeList s' := by
  simp only [ResponseNet.step] at hstep
  split at hstep
  · next shard hjoined =>
    cases hstep
    have hneeds : Needs B setup (.joined c shard) s.log := needs_joined hlaw.address hsafe hjoined
    have hstored : Bootstrapped B setup dealer nodeList
        (s.setNode c { s.nodes c with shard := some shard }) := by
      refine h.setNode fun hc shard' hshard' => ?_
      cases hshard'
      obtain ⟨call, resp, earlier, shards, hsuffix, -, hdealt, hposition, hepoch, -⟩ :=
        origin_of_joined hlaw hinv.justified hneeds hc
      have hmem : .dealt call.address shards ∈ s.log :=
        hsuffix.subset (List.mem_cons_of_mem _ hdealt)
      have hcall : .assigned call resp ∈ s.log := hsuffix.subset List.mem_cons_self
      obtain ⟨hdealer, f, -, rfl⟩ := h.dealt _ _ hmem
      obtain ⟨nodes, hnodes, -⟩ := bind_eq_ok.mp hposition
      have hnodes' := mapError_eq_ok.mp hnodes
      obtain rfl := h.listed call resp hcall nodes hnodes'
      refine ⟨_, hdealer ▸ hmem, assignedShard_mem hposition, ?_, hepoch⟩
      rw [hnodes'] at hposition
      exact placed_of_assigned hposition
    exact hstored.record (fun _ _ he => nomatch he) fun _ _ he => nomatch he
  · cases hstep
    exact h

/-- The one deal: nobody has had a share before. -/
theorem Bootstrapped.step_bootstrap (h : Bootstrapped B setup dealer nodeList s)
    (hlaw : setup.Lawful) {q : Address} {r : R}
    (hboot : Bootstraps dealer nodeList s (.bootstrap q r : Label R))
    (hstep : step B setup s (.bootstrap q r) = some s') :
    Bootstrapped B setup dealer nodeList s' := by
  simp only [ResponseNet.step] at hstep
  split at hstep
  · next own shards hdeal =>
    cases hstep
    obtain ⟨rfl, hnone⟩ := hboot
    obtain ⟨f, hdegree, hshards, hown⟩ := hlaw.dealt hdeal
    have honly : ∀ {q' shards'}, .dealt q' shards' ∈ (s.record (.dealt q shards)).log →
        q' = q ∧ shards' = shards := by
      intro q' shards' hmem
      rcases List.mem_cons.mp hmem with heq | hmem
      · cases heq
        exact ⟨rfl, rfl⟩
      · exact absurd hmem (hnone q' shards')
    have hrecorded : Bootstrapped B setup q nodeList (s.record (.dealt q shards)) := by
      refine ⟨fun q' shards' hmem => ?_, fun q₁ shards₁ q₂ shards₂ h₁ h₂ => ?_,
        fun call resp hmem => ?_, fun c hc shard hshard => ?_⟩
      · obtain ⟨rfl, rfl⟩ := honly hmem
        exact ⟨rfl, f, hdegree, hshards⟩
      · rw [(honly h₁).2, (honly h₂).2]
      · rcases List.mem_cons.mp hmem with heq | hmem
        · cases heq
        · exact h.listed call resp hmem
      · obtain ⟨shards', hmem, -⟩ := h.held c hc shard hshard
        exact absurd hmem (hnone _ _)
    refine hrecorded.setNode fun _ shard hshard => ?_
    cases hshard
    obtain ⟨shares, -, -, hhead, -⟩ := initStartNode_eq_ok hdeal
    refine ⟨shards, List.mem_cons_self, List.mem_of_mem_head? hhead, .inl ⟨rfl, ?_⟩, ?_⟩
    · rw [hown]
    · rw [hown]
  · cases hstep
    exact h

theorem Bootstrapped.step (h : Bootstrapped B setup dealer nodeList s) (hinv : Inv B setup s)
    (hlaw : setup.Lawful) {l : Label R} (hsafe : setup.SafeKeys s l)
    (hboot : Bootstraps dealer nodeList s l) (hstep : step B setup s l = some s') :
    Bootstrapped B setup dealer nodeList s' := by
  cases l with
  | request c method timestamp =>
    simp only [ResponseNet.step] at hstep
    split at hstep
    · cases hstep
      exact h.record (fun _ _ he => nomatch he) fun _ _ he => nomatch he
    · cases hstep
      exact h
  | dprf q env metadata appId material =>
    simp only [ResponseNet.step] at hstep
    split at hstep
    · cases hstep
      exact h.record (fun _ _ he => nomatch he) fun _ _ he => nomatch he
    · cases hstep
      exact h
  | contribution q env metadata =>
    simp only [ResponseNet.step] at hstep
    split at hstep
    · cases hstep
      exact h.record (fun _ _ he => nomatch he) fun _ _ he => nomatch he
    · cases hstep
      exact h
  | assign q env metadata =>
    simp only [ResponseNet.step] at hstep
    split at hstep
    · cases hstep
      refine h.record (fun _ _ he => nomatch he) fun call resp he => ?_
      cases he
      exact hboot
    · cases hstep
      exact h
  | accept c lookups answer =>
    simp only [ResponseNet.step] at hstep
    split at hstep
    · cases hstep
      exact h.record (fun _ _ he => nomatch he) fun _ _ he => nomatch he
    · cases hstep
      exact h
  | join c lookups timestamp calls => exact h.step_join hinv hlaw hsafe hstep
  | bootstrap q r => exact h.step_bootstrap hlaw hboot hstep
  | adopt q shardIndex shardBytes epoch => exact hboot.elim
  | restart q =>
    cases hstep
    exact h.setNode fun _ _ hshard => nomatch hshard

/-- Nodes at one place are one, or the dealer and the first of the list. -/
theorem Placed.unique {c c' : Address} {index : ℕ} (h : Placed dealer nodeList c index)
    (h' : Placed dealer nodeList c' index) : c = c' ∨
      (c = dealer ∧ nodeList.head? = some c') ∨ (c' = dealer ∧ nodeList.head? = some c) := by
  have hat : ∀ {a i}, nodeList.findIdx? (· == a) = some i → nodeList[i]? = some a := by
    intro a i hi
    obtain ⟨hlt, heq, -⟩ := List.findIdx?_eq_some_iff_getElem.mp hi
    rw [List.getElem?_eq_getElem hlt, beq_iff_eq.mp heq]
  rcases h with ⟨rfl, rfl⟩ | ⟨i, hi, rfl⟩
  · rcases h' with ⟨rfl, -⟩ | ⟨j, hj, hindex⟩
    · exact .inl rfl
    · obtain rfl : j = 0 := by omega
      exact .inr (.inl ⟨rfl, by rw [List.head?_eq_getElem?]; exact hat hj⟩)
  · rcases h' with ⟨rfl, hindex⟩ | ⟨j, hj, hindex⟩
    · obtain rfl : i = 0 := by omega
      exact .inr (.inr ⟨rfl, by rw [List.head?_eq_getElem?]; exact hat hi⟩)
    · obtain rfl : j = i := by omega
      exact .inl (Option.some.inj ((hat hi).symm.trans (hat hj)))

/-- In every run in which one node deals once and all share of what it dealt, over an open network
    with safe keys: the honest nodes hold shares of one polynomial of degree below the threshold,
    each at the index of its place in the nodeList, the dealer at index 1. Two of them have the same
    index only if one is the dealer and the other one stands first in the nodeList. -/
theorem bootstrap_consistent (hlaw : setup.Lawful) (labels : List (Label R))
    (hrun : exec (ResponseNet.step B setup) State.init labels = some s)
    (hsafe : Meets (ResponseNet.step B setup) setup.SafeKeys State.init labels)
    (hboot : Meets (ResponseNet.step B setup) (Bootstraps dealer nodeList) State.init labels) :
    (∃ f : F[X], f.degree < setup.threshold ∧ ∀ c, setup.honest c → ∀ shard,
      (s.nodes c).shard = some shard → Placed dealer nodeList c shard.shardIndex ∧
        shard = ⟨shard.shardIndex, shareToBytes B ⟨(shard.shardIndex : ℕ),
          f.eval (shard.shardIndex : F)⟩, Process.genesisEpoch⟩) ∧
    ∀ c c', setup.honest c → setup.honest c' → c ≠ c' → ∀ shard shard',
      (s.nodes c).shard = some shard → (s.nodes c').shard = some shard' →
      shard.shardIndex = shard'.shardIndex →
        (c = dealer ∧ nodeList.head? = some c') ∨ (c' = dealer ∧ nodeList.head? = some c) := by
  have hboth : Inv B setup s ∧ Bootstrapped B setup dealer nodeList s :=
    exec_invariant_of_meets (I := fun s => Inv B setup s ∧ Bootstrapped B setup dealer nodeList s)
      (fun _ _ _ h hl hstep =>
        ⟨h.1.step hlaw hl.1 hstep, h.2.step h.1 hlaw hl.1 hl.2 hstep⟩)
      ⟨inv_init B setup, bootstrapped_init⟩ (hsafe.and hboot) hrun
  obtain ⟨-, h⟩ := hboth
  refine ⟨?_, fun c c' hc hc' hne shard shard' hshard hshard' hindex => ?_⟩
  · by_cases hdealt : ∃ shards, .dealt dealer shards ∈ s.log
    · obtain ⟨shards, hmem⟩ := hdealt
      obtain ⟨-, f, hdegree, hshards⟩ := h.dealt _ _ hmem
      refine ⟨f, hdegree, fun c hc shard hshard => ?_⟩
      obtain ⟨shards', hmem', hin, hplaced, hepoch⟩ := h.held c hc shard hshard
      refine ⟨hplaced, ?_⟩
      rw [h.once _ _ _ _ hmem' hmem, hshards] at hin
      obtain ⟨i, -, hi⟩ := List.mem_map.mp hin
      obtain ⟨index, bytes, epoch⟩ := shard
      cases hi
      cases hepoch
      rfl
    · refine ⟨0, ?_, fun c hc shard hshard => ?_⟩
      · rw [degree_zero]
        exact WithBot.bot_lt_coe _
      · obtain ⟨shards, hmem, -⟩ := h.held c hc shard hshard
        exact absurd ⟨shards, hmem⟩ hdealt
  · obtain ⟨-, -, -, hplaced, -⟩ := h.held c hc shard hshard
    obtain ⟨-, -, -, hplaced', -⟩ := h.held c' hc' shard' hshard'
    rw [← hindex] at hplaced'
    exact (hplaced.unique hplaced').resolve_left hne

theorem joinRun_bootstraps :
    Meets (step scalarBlsful twoSetup) (Bootstraps (addrOf 1) twoNodes) State.init joinRun := by
  refine Meets.cons ⟨rfl, nofun⟩ rfl (Meets.cons trivial rfl
    (Meets.cons (m := assigned) ?_ step_assigned ⟨trivial, fun _ _ => trivial⟩))
  intro nodes hnodes
  exact (Except.ok.inj hnodes).symm

theorem bootstrap_consistent_two : ∃ s,
    exec (step scalarBlsful twoSetup) State.init joinRun = some s ∧
      (s.nodes (addrOf 2)).shard = some (lineShard 2 1) ∧
      Placed (addrOf 1) twoNodes (addrOf 2) 2 := by
  obtain ⟨⟨f, -, hheld⟩, -⟩ := bootstrap_consistent twoSetup_lawful _ joinRun_exec joinRun_safeKeys
    joinRun_bootstraps
  exact ⟨joined, joinRun_exec, rfl, (hheld (addrOf 2) (List.mem_cons_of_mem _ List.mem_cons_self)
    _ rfl).1⟩

end Bootstrap

end KmsCluster.ResponseNet
