import KmsCluster.DkgDriver
import KmsCluster.Gossip
import KmsCluster.Lib.Runs

/-!
# Runs of a node's gossip

The peer table over whole runs of one node (`src/grpc.rs`): authenticated `Gossip` requests come
in, gossip rounds push to their targets one after the other, pushes are answered with any entries
or fail, and other tasks store shares in between.

## Main results

- `peer_keys_bound`: as long as relays carry the right keys, the table binds each address to its
  key, and a round-1 share is encrypted to the key of its participant only.
- `foreign_key_encrypts_share`: a relayed entry that hands a participant's share to another key.
- `liveness_direct`: as long as no two addresses share a url that answers, `last_seen` is the time
  of a direct contact and a stopped node expires.
- `stopped_node_live`: a stopped node that an answer of its successor keeps alive.
-/

namespace KmsCluster

namespace GossipRun

open Fallible Runs

/-- A node, the targets its gossip round still has to push to, and which node it was in direct
    contact with at which clock reading. -/
structure State where
  app : AppState
  targets : List String
  contacts : List (Address × ℤ)

def State.table (s : State) : PeerTable := s.app.peerTable

def State.setTable (s : State) (table : PeerTable) : State :=
  { s with app := { s.app with peerTable := table } }

inductive Label where
  /-- A `Gossip` request comes in, with the answers its authentication gets. -/
  | gossip (metadata : Metadata) (authNow : ℤ)
      (nodeList : Address → Except KmsError (List Address))
      (requireVerified : Address → Except String Unit) (selfInfo : Option NodeInfo) (now : ℤ)
  /-- A gossip round begins; the targets come in any order. -/
  | startRound (order : List String)
  /-- The next target answers the push. `owner` is the node that listens there, if one does. -/
  | answered (owner : Option Address) (received : List NodeInfo) (now : ℤ)
  | pushFailed
  /-- Another task stores a share. -/
  | storeShare (shard : Option ShardState) (groupPubkey : Option Bytes)

section Step

variable {Sig : Type} (S : Secp Sig) (server : ServerConfig)

/-- One step of the node's gossip. -/
def step (s : State) : Label → Option State
  | .gossip metadata authNow nodeList requireVerified selfInfo now =>
    match authenticate S server s.app.config.appId authNow nodeList requireVerified metadata
        "Gossip" with
    | .ok ctx =>
      let table := gossipHandler s.table ctx.callerEthAddr ctx.callerPubkey selfInfo now
      some { s.setTable table with contacts := (ctx.callerEthAddr, now) :: s.contacts }
    | .error _ => some s
  | .startRound order =>
    if s.app.config.selfUrl ≠ "" ∧ s.targets = [] ∧ order.isPerm (gossipTargets s.app) then
      some { s with targets := order }
    else none
  | .answered owner received now =>
    match s.targets with
    | target :: rest =>
      let table := mergeReply s.app.config.selfUrl s.table target received now
      some { s.setTable table with
        targets := rest
        contacts := owner.toList.map (·, now) ++ s.contacts }
    | [] => none
  | .pushFailed =>
    match s.targets with
    | _ :: rest => some { s with targets := rest }
    | [] => none
  | .storeShare shard groupPubkey =>
    some { s with app := { s.app with shard := shard, groupPubkey := groupPubkey } }

/-- A node that has just started. -/
def State.init (config : Config) (ethAddress : Address) : State :=
  ⟨AppState.new config ethAddress, [], []⟩

/-- What a step can do to the table and the contacts. -/
theorem step_cases {s s' : State} {l : Label} (h : step S server s l = some s') :
    (s'.table = s.table ∧ s'.contacts = s.contacts) ∨
      (∃ pubkey selfInfo now,
        s'.table = gossipHandler s.table (ethAddressFromPubkey S pubkey) pubkey selfInfo now ∧
        s'.contacts = (ethAddressFromPubkey S pubkey, now) :: s.contacts) ∨
      ∃ owner received now target rest, l = .answered owner received now ∧
        s.targets = target :: rest ∧
        s'.table = mergeReply s.app.config.selfUrl s.table target received now ∧
        s'.contacts = owner.toList.map (·, now) ++ s.contacts := by
  cases l with
  | gossip metadata authNow nodeList requireVerified selfInfo now =>
    simp only [step] at h
    split at h
    · next ctx hctx =>
      cases h
      obtain ⟨haddr, -⟩ := authenticate_eq_ok S hctx
      refine .inr (.inl ⟨ctx.callerPubkey, selfInfo, now, ?_, ?_⟩)
      · rw [← haddr]
        rfl
      · rw [← haddr]
    · cases h
      exact .inl ⟨rfl, rfl⟩
  | startRound order =>
    simp only [step] at h
    split at h
    · cases h
      exact .inl ⟨rfl, rfl⟩
    · cases h
  | answered owner received now =>
    simp only [step] at h
    split at h
    · next target rest htargets =>
      cases h
      exact .inr (.inr ⟨owner, received, now, target, rest, rfl, htargets, rfl, rfl⟩)
    · cases h
  | pushFailed =>
    simp only [step] at h
    split at h
    · cases h
      exact .inl ⟨rfl, rfl⟩
    · cases h
  | storeShare shard groupPubkey =>
    cases h
    exact .inl ⟨rfl, rfl⟩

-- ════════════════════════════════════════════════════════════════════════
-- Keys
-- ════════════════════════════════════════════════════════════════════════

/-- An entry with a key has the key of its address. -/
def KeyBound (addr : Address) (e : PeerInfo) : Prop :=
  e.pubkey ≠ [] → ethAddressFromPubkey S e.pubkey = addr

/-- The entries an answer relays, as far as they are taken in with a key, have the key of their
    address. -/
def RelaysBound (s : State) (l : Label) : Prop :=
  ∀ owner received now, l = .answered owner received now → ∀ peer ∈ received, ∀ addr,
    peer.Taken s.app.config.selfUrl addr → peer.pubkey ≠ [] →
      ethAddressFromPubkey S peer.pubkey = addr

/-- The p2p payload of a message is encrypted to the key of the on-chain address at its
    recipient's position. -/
def ToOnChainKey (nodeList : List Address) (msg : DkgDriver.RoundMsg) : Prop :=
  ∃ pubkey randomness share, S.encrypt randomness pubkey share = .ok msg.p2p ∧
    nodeList[msg.recipient - 1]? = some (ethAddressFromPubkey S pubkey)

/-- Every round-1 message of a session with these peers carries a share encrypted that way. -/
def SharesBound (nodeList : List Address) (peers : List SessionPeer) : Prop :=
  ∀ (P F G : Type) (E : ParticipantOps P F G) (sess : DkgDriver.Session) (p : P)
    (pos : DkgDriver.Pos E) (sends : List DkgDriver.RoundMsg), sess.peers = peers →
    DkgDriver.start E S sess p = .ok (pos, sends) → ∀ msg ∈ sends, ToOnChainKey S nodeList msg

variable {S server}

theorem keyBound_relay {addr : Address} {e : PeerInfo} (h : KeyBound S addr e) {peer : NodeInfo}
    (hpeer : peer.pubkey ≠ [] → ethAddressFromPubkey S peer.pubkey = addr) :
    KeyBound S addr (e.relay peer) := by
  unfold KeyBound PeerInfo.relay
  dsimp only
  split
  · exact h
  · exact hpeer

theorem keys_step (s : State) (l : Label) (s' : State) (h : s.table.All (KeyBound S))
    (hrelays : RelaysBound S s l) (hs : step S server s l = some s') :
    s'.table.All (KeyBound S) := by
  obtain ⟨htable, -⟩ | ⟨pubkey, selfInfo, now, htable, -⟩ |
    ⟨owner, received, now, target, rest, rfl, -, htable, -⟩ := step_cases S server hs
  · rw [htable]
    exact h
  · rw [htable]
    exact h.gossipHandler fun info _ _ _ => rfl
  · rw [htable]
    refine h.mergeReply (fun addr e _ he _ => he) ?_ ?_
    · intro peer hpeer addr e htaken he
      exact keyBound_relay he (hrelays owner received now rfl peer hpeer addr htaken)
    · intro peer hpeer addr htaken
      exact hrelays owner received now rfl peer hpeer addr htaken

/-- The session peers resolved from a bound table have the keys of their positions. -/
def PeersBound (S : Secp Sig) (nodeList : List Address) (peers : List SessionPeer) : Prop :=
  ∀ peer ∈ peers, nodeList[peer.id - 1]? = some (ethAddressFromPubkey S peer.pubkey)

theorem peersBound_assembled {st : AppState} (h : st.peerTable.All (KeyBound S))
    {nodeList : List Address} {now : ℤ} {m : Membership}
    (hm : assembleParticipants st (.ok nodeList) now = .ok (some m)) :
    PeersBound S nodeList m.peers := by
  intro peer hpeer
  obtain ⟨members, hmembers, -, -, hpeers, -⟩ := assembleParticipants_eq_some hm
  cases hmembers
  rw [hpeers] at hpeer
  obtain ⟨⟨addr, id⟩, hmem, hdisc⟩ := List.mem_filterMap.mp hpeer
  obtain ⟨info, hinfo, hkey, -, rfl⟩ := discovered_eq_some.mp hdisc
  rw [h addr info hinfo hkey]
  exact (mem_otherMembers.mp hmem).2.1

theorem resolvePeer_eq_ok {table : PeerTable} {nodeList : List Address} {id : ℕ}
    {peer : SessionPeer} (h : resolvePeer table nodeList id = .ok peer) :
    ∃ addr info, nodeList[id - 1]? = some addr ∧ table.lookup addr = some info ∧
      info.pubkey ≠ [] ∧ peer = ⟨id, info.grpcUrl, info.pubkey, info.epoch⟩ := by
  obtain ⟨addr, haddr, h⟩ := bind_eq_ok.mp h
  obtain ⟨info, hinfo, h⟩ := bind_eq_ok.mp h
  obtain ⟨_, hkey, h⟩ := bind_eq_ok.mp h
  cases h
  exact ⟨addr, info, okOr_eq_ok.mp haddr, okOr_eq_ok.mp hinfo, ensure_eq_ok.mp hkey, rfl⟩

theorem peersBound_resolved {table : PeerTable} (h : table.All (KeyBound S))
    {nodeList : List Address} {ids : List ℕ} {ownId : ℕ} {peers : List SessionPeer}
    (hpeers : resolvePeers table nodeList ids ownId = .ok peers) : PeersBound S nodeList peers := by
  intro peer hpeer
  obtain ⟨id, -, hid⟩ := exists_of_mem_mapM hpeers peer hpeer
  obtain ⟨addr, info, haddr, hinfo, hkey, rfl⟩ := resolvePeer_eq_ok hid
  rw [h addr info hinfo hkey]
  exact haddr

theorem sharesBound_of_peersBound {nodeList : List Address} {peers : List SessionPeer}
    (h : PeersBound S nodeList peers) : SharesBound S nodeList peers := by
  intro P F G E sess p pos sends hsess hstart msg hmsg
  obtain ⟨peer, hpeer, hid, randomness, share, henc⟩ := DkgDriver.start_sends hstart hmsg
  refine ⟨peer.pubkey, randomness, share, henc, ?_⟩
  rw [← hid]
  exact h peer (hsess ▸ hpeer)

/-- In a run whose relayed entries carry the right keys, every key in the table is the one of its
    address, and the sessions the node starts from it encrypt each round-1 share to the key of the
    on-chain address at its participant's position. -/
theorem peer_keys_bound {config : Config} {ethAddress : Address} {labels : List Label} {s : State}
    (hrelays : Meets (step S server) (RelaysBound S) (.init config ethAddress) labels)
    (hrun : exec (step S server) (.init config ethAddress) labels = some s) :
    s.table.All (KeyBound S) ∧
      (∀ nodeList now m, assembleParticipants s.app (.ok nodeList) now = .ok (some m) →
        SharesBound S nodeList m.peers) ∧
      ∀ nodeList ids ownId peers, resolvePeers s.table nodeList ids ownId = .ok peers →
        SharesBound S nodeList peers := by
  have hkeys : s.table.All (KeyBound S) :=
    exec_invariant_of_meets keys_step PeerTable.all_empty hrelays hrun
  refine ⟨hkeys, ?_, ?_⟩
  · intro nodeList now m hm
    exact sharesBound_of_peersBound (peersBound_assembled hkeys hm)
  · intro nodeList ids ownId peers hpeers
    exact sharesBound_of_peersBound (peersBound_resolved hkeys hpeers)

end Step

section Keys

/-- A hash that leaves its input as it is, and a ciphertext that shows the key it is for. -/
def plainSecp : Secp Unit where
  keccak256 := id
  fromSlice _ := .ok ()
  recoverFromPrehash _ _ _ := .ok []
  encrypt _ key share := .ok (key ++ share)

/-- The key of address `n` under `plainSecp`. -/
def plainKey (n : UInt8) : Bytes := 4 :: (List.replicate 12 0 ++ [n])

def nodeConfig : Config := ⟨"app", 2, 2, "http://a:4443", ["http://seed:4443"]⟩

/-- The seed relays an entry of address 2 with the key of address `n`; address 2 then answers a
    push. -/
def relayRun (n : UInt8) : List Label :=
  [.startRound ["http://seed:4443"],
    .answered (some 3) [⟨"http://b:4443", some 2, plainKey n, 0, []⟩] 1000,
    .startRound ["http://b:4443"], .answered (some 2) [] 1030]

/-- `RelaysBound`, evaluated on a label. -/
def relaysBoundTest : Label → Bool
  | .answered _ received _ => received.all fun peer => peer.ethAddr.all fun addr =>
      peer.pubkey.isEmpty || decide (ethAddressFromPubkey plainSecp peer.pubkey = addr)
  | _ => true

theorem relaysBoundTest_sound (s : State) (l : Label) (h : relaysBoundTest l = true) :
    RelaysBound plainSecp s l := by
  rintro owner received now rfl peer hpeer addr ⟨-, -, haddr⟩ hkey
  have hentry := List.all_eq_true.mp h peer hpeer
  rw [haddr, Option.all_some, Bool.or_eq_true, List.isEmpty_iff] at hentry
  exact of_decide_eq_true (hentry.resolve_left hkey)

theorem peer_keys_bound_relayed : ∃ s, exec (step plainSecp ⟨60⟩) (.init nodeConfig 1)
      (relayRun 2) = some s ∧ s.table.keys = [2] ∧ s.table.All (KeyBound plainSecp) := by
  have hrelays : Meets (step plainSecp ⟨60⟩) (RelaysBound plainSecp) (.init nodeConfig 1)
      (relayRun 2) := by
    apply meets_of_check (g := fun _ l => relaysBoundTest l) relaysBoundTest_sound
    rfl
  exact ⟨_, rfl, rfl, (peer_keys_bound hrelays rfl).1⟩

/-- An entry for address 2 with the key of address 9: the share of participant 2 is encrypted to
    that key. -/
theorem foreign_key_encrypts_share : ∃ s m pos, exec (step plainSecp ⟨60⟩) (.init nodeConfig 1)
      (relayRun 9) = some s ∧ ¬ s.table.All (KeyBound plainSecp) ∧
    assembleParticipants s.app (.ok [1, 2]) 1040 = .ok (some m) ∧
    DkgDriver.start DkgDriver.byteOps plainSecp
      (DkgDriver.probeSession "genesis:app" m.peers) () =
        .ok (pos, [⟨2, 1, 1, [0], plainKey 9 ++ [0]⟩]) ∧
    ethAddressFromPubkey plainSecp (plainKey 9) ≠ 2 := by
  refine ⟨_, _, _, rfl, ?_, rfl, rfl, by decide⟩
  intro hall
  have hbound := hall 2 _ rfl (by decide)
  revert hbound
  decide

end Keys

section Liveness

variable {Sig : Type} {S : Secp Sig} {server : ServerConfig}

/-- `last_seen` is 0 or the time of a direct contact with the address. -/
def Evidenced (contacts : List (Address × ℤ)) (addr : Address) (e : PeerInfo) : Prop :=
  e.lastSeen = 0 ∨ (addr, e.lastSeen) ∈ contacts

/-- When a push is answered, the entries with the target's url are of the node that answered. -/
def AnsweredByOwner (s : State) (l : Label) : Prop :=
  ∀ owner received now target rest, l = .answered owner received now →
    s.targets = target :: rest → ∀ addr e, s.table.lookup addr = some e → e.grpcUrl = target →
      owner = some addr

theorem Evidenced.mono {contacts contacts' : List (Address × ℤ)} (h : contacts ⊆ contacts')
    {addr : Address} {e : PeerInfo} (he : Evidenced contacts addr e) : Evidenced contacts' addr e :=
  he.imp_right fun hmem => h hmem

theorem evidenced_step (s : State) (l : Label) (s' : State)
    (h : s.table.All (Evidenced s.contacts)) (howner : AnsweredByOwner s l)
    (hs : step S server s l = some s') : s'.table.All (Evidenced s'.contacts) := by
  obtain ⟨htable, hcontacts⟩ | ⟨pubkey, selfInfo, now, htable, hcontacts⟩ |
    ⟨owner, received, now, target, rest, rfl, htargets, htable, hcontacts⟩ :=
      step_cases S server hs
  · rw [htable, hcontacts]
    exact h
  · rw [htable, hcontacts]
    have hold : s.table.All (Evidenced ((ethAddressFromPubkey S pubkey, now) :: s.contacts)) :=
      fun addr e he => (h addr e he).mono (List.subset_cons_self _ _)
    exact hold.gossipHandler fun info _ _ => .inr List.mem_cons_self
  · rw [htable, hcontacts]
    have hold : s.table.All (Evidenced (owner.toList.map (·, now) ++ s.contacts)) :=
      fun addr e he => (h addr e he).mono (List.subset_append_right _ _)
    refine hold.mergeReply ?_ (fun peer _ addr e _ he => he) fun peer _ addr _ => .inl rfl
    intro addr e he _ hurl
    have hanswer := howner owner received now target rest rfl htargets addr e he hurl
    subst hanswer
    exact .inr (List.mem_append_left _ List.mem_cons_self)

/-- A node in no contact after `T` is not live once the window has passed. -/
theorem isLive_of_evidenced {contacts : List (Address × ℤ)} {addr : Address} {e : PeerInfo}
    (h : Evidenced contacts addr e) {T now : ℤ} (hT : 0 ≤ T)
    (hstopped : ∀ t, (addr, t) ∈ contacts → t ≤ T) (hnow : T + peerLivenessWindowSecs < now) :
    e.isLive now = false := by
  have hseen : e.lastSeen ≤ T := by
    obtain hzero | hmem := h
    · rw [hzero]
      exact hT
    · exact hstopped _ hmem
  rw [PeerInfo.isLive, decide_eq_false_iff_not]
  omega

/-- In a run whose answered urls are each known of the node that answers only, an entry's
    `last_seen` is 0 or the time of a direct contact with its address, and a node that stopped at
    `T` (in Unix seconds) is not live after the window. -/
theorem liveness_direct {config : Config} {ethAddress : Address} {labels : List Label} {s : State}
    (howner : Meets (step S server) AnsweredByOwner (.init config ethAddress) labels)
    (hrun : exec (step S server) (.init config ethAddress) labels = some s) :
    ∀ addr e, s.table.lookup addr = some e →
      (e.lastSeen = 0 ∨ (addr, e.lastSeen) ∈ s.contacts) ∧
      ∀ T now : ℤ, 0 ≤ T → (∀ t, (addr, t) ∈ s.contacts → t ≤ T) →
        T + peerLivenessWindowSecs < now → e.isLive now = false := by
  have hall : s.table.All (Evidenced s.contacts) :=
    exec_invariant_of_meets (I := fun s => s.table.All (Evidenced s.contacts)) evidenced_step
      PeerTable.all_empty howner hrun
  intro addr e he
  refine ⟨hall addr e he, ?_⟩
  intro T now hT hstopped hnow
  exact isLive_of_evidenced (hall addr e he) hT hstopped hnow

/-- `AnsweredByOwner`, evaluated. -/
def answeredByOwnerTest (s : State) : Label → Bool
  | .answered owner _ _ => s.table.entries.all fun entry =>
      decide (some entry.2.grpcUrl ≠ s.targets.head?) || decide (owner = some entry.1)
  | _ => true

theorem answeredByOwnerTest_sound (s : State) (l : Label) (h : answeredByOwnerTest s l = true) :
    AnsweredByOwner s l := by
  rintro owner received now target rest rfl htargets addr e he rfl
  have hentry := List.all_eq_true.mp h ⟨addr, e⟩ (AList.mem_lookup_iff.mp he)
  rw [htargets, Bool.or_eq_true] at hentry
  exact of_decide_eq_true (hentry.resolve_left (by simp))

theorem liveness_direct_relayed : ∃ s e, exec (step plainSecp ⟨60⟩) (.init nodeConfig 1)
      (relayRun 2) = some s ∧ s.table.lookup 2 = some e ∧ s.contacts = [(2, 1030), (3, 1000)] ∧
    e.lastSeen = 1030 ∧ e.isLive 1121 = false := by
  have howner : Meets (step plainSecp ⟨60⟩) AnsweredByOwner (.init nodeConfig 1) (relayRun 2) := by
    apply meets_of_check answeredByOwnerTest_sound
    rfl
  refine ⟨_, _, rfl, rfl, rfl, rfl, ?_⟩
  apply (liveness_direct howner rfl 2 _ rfl).2 1030 1121 (by decide) _ (by decide)
  intro t ht
  have hcontact : ((2 : Address), t) ∈ [((2 : Address), (1030 : ℤ)), (3, 1000)] := ht
  simp at hcontact
  omega

/-- Address 4 runs at the url that address 2 had. -/
def successorRun : List Label :=
  [.startRound ["http://seed:4443"],
    .answered (some 3) [⟨"http://b:4443", some 2, plainKey 2, 0, []⟩,
      ⟨"http://b:4443", some 4, plainKey 4, 0, []⟩] 1000,
    .startRound ["http://b:4443", "http://b:4443"], .answered (some 4) [] 1030]

/-- An answer of address 4 counts as contact with address 2, of which there never was any. -/
theorem stopped_node_live : ∃ s e, exec (step plainSecp ⟨60⟩) (.init nodeConfig 1)
      successorRun = some s ∧ s.table.lookup 2 = some e ∧ s.contacts = [(4, 1030), (3, 1000)] ∧
    ¬ Evidenced s.contacts 2 e ∧ e.isLive 1100 = true := by
  refine ⟨_, _, rfl, rfl, rfl, ?_, rfl⟩
  intro h
  have hevidence : (1030 : ℤ) = 0 ∨
      ((2 : Address), (1030 : ℤ)) ∈ [((4 : Address), (1030 : ℤ)), (3, 1000)] := h
  revert hevidence
  decide

end Liveness

end GossipRun

end KmsCluster
