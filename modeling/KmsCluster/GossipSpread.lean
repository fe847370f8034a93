import KmsCluster.GossipNet

/-!
# How gossip spreads

A cluster of honest nodes in which nothing fails: every push reaches the node that listens at its
url and is answered. Nodes know each other by entries of their peer tables, and what a node knows
it never forgets. A node asks its seeds only as long as its table is empty, so a node that is
pushed to before its first round may never ask them. All nodes have one seed in common, the hub.

## Main results

- `Sane.step`: entries, pushes and answers name nodes by their own urls and keys.
- `Spread.step`: whoever is known of anywhere has been in touch with the hub, or with a node that
  has, or has a push to it under way.
-/

namespace KmsCluster.GossipNet

open Runs

/-- The nodes, their configurations and keys, and the seed they have in common. -/
structure Setup (pubkey : Address → Bytes) where
  nodes : List Address
  config : Address → Config
  hub : Address
  hub_mem : hub ∈ nodes
  url_ne : ∀ a ∈ nodes, (config a).selfUrl ≠ ""
  url_inj : ∀ a ∈ nodes, ∀ b ∈ nodes, (config a).selfUrl = (config b).selfUrl → a = b
  seeds : ∀ a ∈ nodes, ∀ url ∈ (config a).seeds, ∃ b ∈ nodes, url = (config b).selfUrl
  hub_seed : ∀ a ∈ nodes, a ≠ hub → (config hub).selfUrl ∈ (config a).seeds
  pubkey_ne : ∀ a ∈ nodes, pubkey a ≠ []

section Steps

variable {pubkey : Address → Bytes} (C : Setup pubkey) {net net' : Net} {l : Label}

def Setup.url (a : Address) : String := (C.config a).selfUrl

/-- Nothing fails: only members act, pushes go to whoever listens at their url, and the round waits
    for the answer. -/
def Smooth (net : Net) : Label → Prop
  | .restart _ _ => False
  | .pushFailed _ => False
  | .giveUp _ => False
  | .startRound a _ => a ∈ C.nodes
  | .push a b => b ∈ C.nodes ∧ (net.node a).targets.head? = some (C.url b)
  | _ => True

/-- `a` has an entry for `p`. -/
def Net.Knows (net : Net) (a p : Address) : Prop := ∃ e, (net.node a).table.lookup p = some e

/-- The label writes the table of `a`. -/
def Writes (net : Net) (a : Address) : Label → Prop
  | .enter i _ => ∃ push, net.pushes[i]? = some push ∧ push.recipient = a
  | .merge b _ => b = a
  | _ => False

/-- The label starts a round of `a`. -/
def Starts (a : Address) : Label → Prop
  | .startRound b _ => b = a
  | _ => False

/-- What becomes of a table. -/
inductive TableMoves (pubkey : Address → Bytes) (net : Net) (l : Label) (a : Address) :
    PeerTable → Prop
  | same (hl : ¬Writes net a l) : TableMoves pubkey net l a (net.node a).table
  | enter {i : ℕ} {now : ℤ} {push : Push} (hl : l = .enter i now)
      (hpush : net.pushes[i]? = some push) (ha : push.recipient = a) :
      TableMoves pubkey net l a (gossipHandler (net.node a).table push.sender (pubkey push.sender)
        (some push.info) now)
  | merge {i : ℕ} {now : ℤ} {push : Push} {peers : List NodeInfo} (hl : l = .merge a now)
      (hwaiting : (net.node a).waiting = some i) (hpush : net.pushes[i]? = some push)
      (hstage : net.stage i = .answered peers) :
      TableMoves pubkey net l a (mergeReply (net.node a).app.config.selfUrl (net.node a).table
        push.target peers now)

/-- What becomes of a round, its targets and the push it waits for, among the pushes so far. -/
inductive RoundMoves (net : Net) (l : Label) (pushes : List Push) (a : Address) (node : Node) : Prop
  | same (hl : ¬Starts a l) (hinfo : node.info = (net.node a).info)
      (htargets : node.targets = (net.node a).targets)
      (hwaiting : node.waiting = (net.node a).waiting)
  | start {order : List String} (hl : l = .startRound a order)
      (hidle : (net.node a).targets = []) (hfree : (net.node a).waiting = none)
      (hperm : order.Perm (gossipTargets (net.node a).app))
      (hinfo : node.info = (net.node a).app.selfInfo) (htargets : node.targets = order)
      (hwaiting : node.waiting = none)
  | push {b : Address} {rest : List String} (hl : l = .push a b) (hb : b ∈ C.nodes)
      (hold : (net.node a).targets = C.url b :: rest) (hfree : (net.node a).waiting = none)
      (hinfo : node.info = (net.node a).info) (htargets : node.targets = rest)
      (hwaiting : node.waiting = some net.pushes.length)
      (hpushes : pushes =
        net.pushes ++ [⟨a, (net.node a).process, b, C.url b, (net.node a).info⟩])
  | merge {i : ℕ} {now : ℤ} {push : Push} {peers : List NodeInfo} (hl : l = .merge a now)
      (hold : (net.node a).waiting = some i) (hpush : net.pushes[i]? = some push)
      (hstage : net.stage i = .answered peers) (hinfo : node.info = (net.node a).info)
      (htargets : node.targets = (net.node a).targets) (hwaiting : node.waiting = none)

/-- What becomes of the pushes. -/
inductive PushMoves (net : Net) (l : Label) : List Push → Prop
  | same : PushMoves net l net.pushes
  | new {a b : Address} {rest : List String} (hl : l = .push a b) (hb : b ∈ C.nodes)
      (hold : (net.node a).targets = C.url b :: rest) :
      PushMoves net l
        (net.pushes ++ [⟨a, (net.node a).process, b, C.url b, (net.node a).info⟩])

/-- What becomes of the stage of push `i`. -/
inductive StageMoves (net : Net) (l : Label) (i : ℕ) : Stage → Prop
  | same : StageMoves net l i (net.stage i)
  | entered {now : ℤ} {push : Push} {process : ℕ} (hl : l = .enter i now)
      (hpush : net.pushes[i]? = some push) (hsent : net.stage i = .sent) :
      StageMoves net l i (.entered process)
  | answered {push : Push} {process : ℕ} (hl : l = .answer i) (hpush : net.pushes[i]? = some push)
      (hentered : net.stage i = .entered process) :
      StageMoves net l i (.answered (knownPeers (net.node push.recipient).table))

/-- Everything a smooth step does. -/
structure Goes (net : Net) (l : Label) (net' : Net) : Prop where
  config : ∀ a, (net'.node a).app.config = (net.node a).app.config
  address : ∀ a, (net'.node a).app.ethAddress = (net.node a).app.ethAddress
  table : ∀ a, TableMoves pubkey net l a (net'.node a).table
  round : ∀ a, RoundMoves C net l net'.pushes a (net'.node a)
  pushes : PushMoves C net l net'.pushes
  stage : ∀ i, StageMoves net l i (net'.stage i)

variable {C}

theorem goes_setNode {a : Address} {n : Node} {pushes : List Push}
    (hconfig : n.app.config = (net.node a).app.config)
    (haddress : n.app.ethAddress = (net.node a).app.ethAddress)
    (htable : TableMoves pubkey net l a n.table)
    (hothers : ∀ b, b ≠ a → ¬Writes net b l ∧ ¬Starts b l)
    (hround : RoundMoves C net l pushes a n) (hpushes : PushMoves C net l pushes)
    {heard : List (Address × Address × ℕ)} {stage : ℕ → Stage}
    (hstage : ∀ i, StageMoves net l i (stage i)) :
    Goes C net l ⟨Function.update net.node a n, pushes, stage, heard⟩ := by
  refine ⟨fun b => ?_, fun b => ?_, fun b => ?_, fun b => ?_, hpushes, hstage⟩
  all_goals
    dsimp only
    by_cases hb : b = a
    · subst hb
      rw [Function.update_self]
      assumption
    · rw [Function.update_of_ne hb]
      try first
        | exact .same (hothers b hb).1
        | exact .same (hothers b hb).2 rfl rfl rfl

theorem stageMoves_update {i : ℕ} {stage : Stage} (h : StageMoves net l i stage) (j : ℕ) :
    StageMoves net l j (Function.update net.stage i stage j) := by
  by_cases hj : j = i
  · subst hj
    rwa [Function.update_self]
  · rw [Function.update_of_ne hj]
    exact .same

theorem goes_of_step (hsmooth : Smooth C net l) (h : step pubkey net l = some net') :
    Goes C net l net' := by
  have hsame : ∀ i, StageMoves net l i (net.stage i) := fun _ => .same
  cases l with
  | restart a config => exact hsmooth.elim
  | pushFailed a => exact hsmooth.elim
  | giveUp a => exact hsmooth.elim
  | storeShare a shard groupPubkey =>
    cases h
    apply goes_setNode
    · rfl
    · rfl
    · exact .same id
    · exact fun _ _ => ⟨id, id⟩
    · exact .same id rfl rfl rfl
    · exact .same
    · exact hsame
  | startRound a order =>
    simp only [step] at h
    split at h
    · next hguard =>
      cases h
      obtain ⟨-, hidle, hfree, hperm⟩ := hguard
      apply goes_setNode
      · rfl
      · rfl
      · exact .same id
      · exact fun b hb => ⟨id, fun hl => hb hl.symm⟩
      · exact .start rfl hidle hfree (List.isPerm_iff.mp hperm) rfl rfl hfree
      · exact .same
      · exact hsame
    · cases h
  | push a b =>
    simp only [step] at h
    split at h
    · next target rest htargets hfree =>
      cases h
      obtain ⟨hb, hhead⟩ := hsmooth
      rw [htargets, List.head?_cons, Option.some.injEq] at hhead
      subst hhead
      apply goes_setNode
      · rfl
      · rfl
      · exact .same id
      · exact fun _ _ => ⟨id, id⟩
      · exact .push rfl hb htargets hfree rfl rfl rfl rfl
      · exact .new rfl hb htargets
      · exact hsame
    · cases h
  | enter i now =>
    simp only [step] at h
    split at h
    · next push hpush hsent =>
      cases h
      apply goes_setNode
      · rfl
      · rfl
      · exact .enter rfl hpush rfl
      · refine fun b hb => ⟨?_, id⟩
        rintro ⟨push', hpush', hrecipient⟩
        obtain rfl : push' = push := Option.some.inj (hpush'.symm.trans hpush)
        exact hb hrecipient.symm
      · exact .same id rfl rfl rfl
      · exact .same
      · exact stageMoves_update (.entered rfl hpush hsent)
    · cases h
  | answer i =>
    simp only [step] at h
    split at h
    · next push process hpush hentered =>
      split at h
      · cases h
        exact ⟨fun _ => rfl, fun _ => rfl, fun _ => .same id, fun _ => .same id rfl rfl rfl, .same,
          stageMoves_update (.answered rfl hpush hentered)⟩
      · cases h
    · cases h
  | merge a now =>
    simp only [step] at h
    split at h
    · next i hwaiting =>
      split at h
      · next push peers hpush hstage =>
        cases h
        apply goes_setNode
        · rfl
        · rfl
        · exact .merge rfl hwaiting hpush hstage
        · exact fun b hb => ⟨fun hl => hb hl.symm, id⟩
        · exact .merge rfl hwaiting hpush hstage rfl rfl rfl
        · exact .same
        · exact hsame
      · cases h
    · cases h

-- ════════════════════════════════════════════════════════════════════════
-- Who is who
-- ════════════════════════════════════════════════════════════════════════

variable (C) in
/-- An entry at `a` names another member by its own url and key. -/
def Own (a p : Address) (e : PeerInfo) : Prop :=
  p ∈ C.nodes ∧ p ≠ a ∧ e.grpcUrl = C.url p ∧ e.pubkey = pubkey p

variable (C) in
/-- What an answer says of a member. -/
def NodeInfo.OwnOf (peer : NodeInfo) (p : Address) : Prop :=
  p ∈ C.nodes ∧ peer.ethAddr = some p ∧ peer.grpcUrl = C.url p ∧ peer.pubkey = pubkey p

variable (C) in
structure PushOk (push : Push) : Prop where
  sender : push.sender ∈ C.nodes
  recipient : push.recipient ∈ C.nodes
  other : push.recipient ≠ push.sender
  target : push.target = C.url push.recipient
  url : push.info.grpcUrl = C.url push.sender

variable (C) in
structure Sane (net : Net) : Prop where
  config : ∀ a, (net.node a).app.config = C.config a
  address : ∀ a, (net.node a).app.ethAddress = a
  table : ∀ a, (net.node a).table.All (Own C a)
  targets : ∀ a, ∀ url ∈ (net.node a).targets, a ∈ C.nodes ∧
    (net.node a).info.grpcUrl = C.url a ∧ ∃ p ∈ C.nodes, p ≠ a ∧ url = C.url p
  pushes : ∀ push ∈ net.pushes, PushOk C push
  answer : ∀ i peers, net.stage i = .answered peers → ∀ peer ∈ peers, ∃ p, NodeInfo.OwnOf C peer p
  entered : ∀ i push, net.pushes[i]? = some push → net.stage i ≠ .sent →
    net.Knows push.recipient push.sender
  waiting : ∀ a i, (net.node a).waiting = some i →
    ∃ push, net.pushes[i]? = some push ∧ push.sender = a
  later : ∀ i, net.pushes.length ≤ i → net.stage i = .sent

theorem sane_init : Sane C (.init C.config) where
  config _ := rfl
  address _ := rfl
  table _ := PeerTable.all_empty
  targets _ _ h := by cases h
  pushes _ h := by cases h
  answer _ _ h := by cases h
  entered _ _ h := by cases h
  waiting _ _ h := by cases h
  later _ _ := rfl

/-- Pushes stay where they are. -/
theorem PushMoves.getElem? {pushes : List Push} (h : PushMoves C net l pushes) {i : ℕ} {push : Push}
    (hpush : net.pushes[i]? = some push) : pushes[i]? = some push := by
  cases h with
  | same => exact hpush
  | new => rw [List.getElem?_append_left (List.getElem?_eq_some_iff.mp hpush).1, hpush]

theorem PushMoves.old {pushes : List Push} (h : PushMoves C net l pushes) {i : ℕ} {push : Push}
    (hpush : pushes[i]? = some push) (hlt : i < net.pushes.length) :
    net.pushes[i]? = some push := by
  cases h with
  | same => exact hpush
  | new => rwa [List.getElem?_append_left hlt] at hpush

/-- No table forgets a peer. -/
theorem TableMoves.knows {a : Address} {table : PeerTable} (h : TableMoves pubkey net l a table)
    {p : Address} (hp : net.Knows a p) : ∃ e, table.lookup p = some e := by
  obtain ⟨e, he⟩ := hp
  cases h with
  | same => exact ⟨e, he⟩
  | @enter _ _ push =>
    unfold gossipHandler
    dsimp only
    split
    · by_cases hsender : p = push.sender
      · exact hsender ▸ ⟨_, AList.lookup_insert _⟩
      · exact ⟨e, by rw [AList.lookup_insert_ne hsender, he]⟩
    · exact ⟨e, he⟩
  | merge =>
    obtain ⟨e', he', -⟩ := mergeReply_epoch_le he
    exact ⟨e', he'⟩

theorem Goes.knows (h : Goes C net l net') {a p : Address} (hp : net.Knows a p) :
    net'.Knows a p := (h.table a).knows hp

theorem entry_of_mem_knownPeers {table : PeerTable} {peer : NodeInfo}
    (h : peer ∈ knownPeers table) : ∃ p e, table.lookup p = some e ∧
      peer = ⟨e.grpcUrl, some p, e.pubkey, e.epoch, e.groupPubkey⟩ := by
  obtain ⟨⟨p, e⟩, hmem, rfl⟩ := List.mem_map.mp h
  exact ⟨p, e, AList.mem_lookup_iff.mpr hmem, rfl⟩

theorem Sane.table_step (h : Sane C net) (hgoes : Goes C net l net') (a : Address) :
    (net'.node a).table.All (Own C a) := by
  have hmoves := hgoes.table a
  generalize (net'.node a).table = table at hmoves
  cases hmoves with
  | same _ => exact h.table a
  | enter _ hpush ha =>
    have hok := h.pushes _ (List.mem_of_getElem? hpush)
    refine (h.table a).gossipHandler fun info hinfo _ => ?_
    cases hinfo
    exact ⟨hok.sender, fun heq => hok.other (ha.trans heq.symm), hok.url, rfl⟩
  | merge _ _ _ hstage =>
    have hother : ∀ {peer : NodeInfo} {p q : Address}, NodeInfo.OwnOf C peer p →
        peer.Taken (net.node a).app.config.selfUrl q → p = q ∧ q ≠ a := by
      intro peer p q howns htaken
      obtain rfl : p = q := Option.some.inj (howns.2.1.symm.trans htaken.2.2)
      refine ⟨rfl, fun hpa => htaken.1 ?_⟩
      rw [howns.2.2.1, hpa, h.config a]
      rfl
    refine (h.table a).mergeReply (fun _ _ _ he _ => he) ?_ ?_
    · intro peer hpeer q e htaken he
      obtain ⟨p, howns⟩ := h.answer _ _ hstage peer hpeer
      obtain ⟨rfl, -⟩ := hother howns htaken
      refine ⟨he.1, he.2.1, howns.2.2.1, ?_⟩
      unfold PeerInfo.relay
      dsimp only
      split
      · exact he.2.2.2
      · exact howns.2.2.2
    · intro peer hpeer q htaken
      obtain ⟨p, howns⟩ := h.answer _ _ hstage peer hpeer
      obtain ⟨rfl, hne⟩ := hother howns htaken
      exact ⟨howns.1, hne, howns.2.2.1, howns.2.2.2⟩

/-- A round pushes to the urls of other members. -/
theorem Sane.gossipTargets (h : Sane C net) {a : Address} (ha : a ∈ C.nodes) {url : String}
    (hurl : url ∈ gossipTargets (net.node a).app) : ∃ p ∈ C.nodes, p ≠ a ∧ url = C.url p := by
  unfold KmsCluster.gossipTargets at hurl
  obtain ⟨hmem, hne⟩ := List.mem_filter.mp hurl
  have hself : url ≠ C.url a := by
    have hconfig := h.config a
    simp only [hconfig, decide_eq_true_eq] at hne
    exact hne
  have hmember : ∃ p ∈ C.nodes, url = C.url p := by
    split at hmem
    · rw [h.config a] at hmem
      exact C.seeds a ha url hmem
    · obtain ⟨⟨p, e⟩, hentry, rfl⟩ := List.mem_map.mp hmem
      have hown := h.table a p e (AList.mem_lookup_iff.mpr hentry)
      exact ⟨p, hown.1, hown.2.2.1⟩
  obtain ⟨p, hp, rfl⟩ := hmember
  exact ⟨p, hp, fun heq => hself (heq ▸ rfl), rfl⟩

theorem PushMoves.length_le {pushes : List Push} (h : PushMoves C net l pushes) :
    net.pushes.length ≤ pushes.length := by
  cases h with
  | same => exact le_rfl
  | new => exact List.length_append ▸ Nat.le_add_right _ _

/-- A push that has come anywhere is not new. -/
theorem Sane.old_of_stage (h : Sane C net) (hgoes : Goes C net l net') {i : ℕ} {push : Push}
    (hpush : net'.pushes[i]? = some push) (hstage : net.stage i ≠ .sent) :
    net.pushes[i]? = some push :=
  hgoes.pushes.old hpush (Nat.lt_of_not_le fun hle => hstage (h.later i hle))

/-- Whoever pushes becomes known. -/
theorem Sane.enter_knows (h : Sane C net) (hgoes : Goes C net l net') {i : ℕ} {now : ℤ}
    {push : Push} (hl : l = .enter i now) (hpush : net.pushes[i]? = some push) :
    net'.Knows push.recipient push.sender := by
  have hok := h.pushes push (List.mem_of_getElem? hpush)
  have hmoves := hgoes.table push.recipient
  unfold Net.Knows
  generalize (net'.node push.recipient).table = table at hmoves ⊢
  cases hmoves with
  | same hquiet => exact absurd (hl ▸ ⟨push, hpush, rfl⟩) hquiet
  | @enter j now' push' hl' hpush' =>
    cases hl.symm.trans hl'
    obtain rfl : push' = push := Option.some.inj (hpush'.symm.trans hpush)
    have hurl : push'.info.grpcUrl ≠ "" := hok.url ▸ C.url_ne _ hok.sender
    exact ⟨_, by rw [lookup_gossipHandler hurl, if_pos rfl]⟩
  | merge hl' => cases hl.symm.trans hl'

theorem Sane.step (h : Sane C net) (hsmooth : Smooth C net l) (hgoes : Goes C net l net') :
    Sane C net' := by
  refine ⟨fun a => (hgoes.config a).trans (h.config a),
    fun a => (hgoes.address a).trans (h.address a), h.table_step hgoes, ?_, ?_, ?_, ?_, ?_, ?_⟩
  · intro a url hurl
    cases hgoes.round a with
    | same _ hinfo htargets => exact hinfo ▸ h.targets a url (htargets ▸ hurl)
    | push _ _ hold _ hinfo htargets =>
      refine hinfo ▸ h.targets a url ?_
      rw [hold]
      exact List.mem_cons_of_mem _ (htargets ▸ hurl)
    | merge _ _ _ _ hinfo htargets => exact hinfo ▸ h.targets a url (htargets ▸ hurl)
    | start hl _ _ hperm hinfo htargets =>
      subst hl
      refine ⟨hsmooth, ?_, h.gossipTargets hsmooth (hperm.subset (htargets ▸ hurl))⟩
      rw [hinfo, AppState.selfInfo, h.config a]
      rfl
  · intro push hpush
    have hmoves := hgoes.pushes
    generalize net'.pushes = pushes at hmoves hpush
    cases hmoves with
    | same => exact h.pushes push hpush
    | @new a b _ _ hb hold =>
      rcases List.mem_append.mp hpush with hmem | hnew
      · exact h.pushes push hmem
      · rw [List.mem_singleton.mp hnew]
        obtain ⟨ha, hinfo, p, hp, hne, hurl⟩ :=
          h.targets a (C.url b) (by rw [hold]; exact List.mem_cons_self)
        obtain rfl := C.url_inj b hb p hp hurl
        exact ⟨ha, hb, hne, rfl, hinfo⟩
  · intro i peers hstage peer hpeer
    have hmoves := hgoes.stage i
    rw [hstage] at hmoves
    generalize hstage' : Stage.answered peers = stage at hmoves
    cases hmoves with
    | same => exact h.answer i peers hstage'.symm peer hpeer
    | entered => cases hstage'
    | answered =>
      cases hstage'
      obtain ⟨p, e, he, rfl⟩ := entry_of_mem_knownPeers hpeer
      have hown := h.table _ p e he
      exact ⟨p, hown.1, rfl, hown.2.2⟩
  · intro i push hpush hstage
    have hmoves := hgoes.stage i
    generalize net'.stage i = stage at hmoves hstage
    cases hmoves with
    | same => exact hgoes.knows (h.entered i push (h.old_of_stage hgoes hpush hstage) hstage)
    | answered _ hold hentered =>
      obtain rfl := Option.some.inj ((hgoes.pushes.getElem? hold).symm.trans hpush)
      exact hgoes.knows (h.entered i _ hold (by rw [hentered]; exact Stage.noConfusion))
    | @entered now push' process hl hold hsent =>
      obtain rfl := Option.some.inj ((hgoes.pushes.getElem? hold).symm.trans hpush)
      exact h.enter_knows hgoes hl hold
  · intro a i hwaiting
    cases hgoes.round a with
    | same _ _ _ hsame =>
      obtain ⟨push, hpush, hsender⟩ := h.waiting a i (hsame ▸ hwaiting)
      exact ⟨push, hgoes.pushes.getElem? hpush, hsender⟩
    | start _ _ _ _ _ _ hnone =>
      rw [hnone] at hwaiting
      cases hwaiting
    | merge _ _ _ _ _ _ hnone =>
      rw [hnone] at hwaiting
      cases hwaiting
    | push _ _ _ _ _ _ hnew hpushes =>
      rw [hnew] at hwaiting
      cases hwaiting
      exact ⟨_, by rw [hpushes, List.getElem?_concat_length], rfl⟩
  · intro i hi
    have hold : net.pushes.length ≤ i := hgoes.pushes.length_le.trans hi
    have hnone : net.pushes[i]? = none := List.getElem?_eq_none hold
    have hmoves := hgoes.stage i
    generalize net'.stage i = stage at hmoves
    cases hmoves with
    | same => exact h.later i hold
    | entered _ hpush =>
      rw [hnone] at hpush
      cases hpush
    | answered _ hpush =>
      rw [hnone] at hpush
      cases hpush

-- ════════════════════════════════════════════════════════════════════════
-- In touch with the hub
-- ════════════════════════════════════════════════════════════════════════

variable (C) in
/-- The round of `a` still has to push to `b`, or waits for its answer. -/
def Reaching (net : Net) (a b : Address) : Prop :=
  C.url b ∈ (net.node a).targets ∨ ∃ i push, (net.node a).waiting = some i ∧
    net.pushes[i]? = some push ∧ push.recipient = b

variable (C) in
/-- `a` is the hub, known to it, or about to push to it. -/
def NearHub (net : Net) (a : Address) : Prop :=
  a = C.hub ∨ net.Knows C.hub a ∨ Reaching C net a C.hub

variable (C) in
/-- So is `a` or somebody it knows. -/
def Started (net : Net) (a : Address) : Prop :=
  NearHub C net a ∨ ∃ b, net.Knows a b ∧ NearHub C net b

/-- The label merges the answer of `b` at `a`, which waits for push `i`. -/
def Merges (net : Net) (l : Label) (a b : Address) (i : ℕ) (now : ℤ) : Prop :=
  l = .merge a now ∧ (net.node a).waiting = some i ∧
    ∃ push peers, net.pushes[i]? = some push ∧ push.recipient = b ∧ net.stage i = .answered peers

/-- A push under way stays so until its answer is merged. -/
theorem Reaching.moves (hgoes : Goes C net l net') {a b : Address} (hb : b ∈ C.nodes)
    (hreach : Reaching C net a b) : Reaching C net' a b ∨ ∃ i now, Merges net l a b i now := by
  cases hgoes.round a with
  | same _ _ htargets hwaiting =>
    left
    rcases hreach with hmem | ⟨i, push, hi, hpush, hrecipient⟩
    · exact .inl (htargets ▸ hmem)
    · exact .inr ⟨i, push, hwaiting ▸ hi, hgoes.pushes.getElem? hpush, hrecipient⟩
  | start _ hidle hfree =>
    rcases hreach with hmem | ⟨i, _, hi, -⟩
    · rw [hidle] at hmem
      cases hmem
    · rw [hfree] at hi
      cases hi
  | @push b' rest _ hb' hold hfree _ htargets hwaiting hpushes =>
    left
    rcases hreach with hmem | ⟨i, _, hi, -⟩
    · rw [hold] at hmem
      rcases List.mem_cons.mp hmem with hhead | htail
      · obtain rfl := C.url_inj b hb b' hb' hhead
        exact .inr ⟨_, _, hwaiting, by rw [hpushes, List.getElem?_concat_length], rfl⟩
      · exact .inl (htargets ▸ htail)
    · rw [hfree] at hi
      cases hi
  | @merge i now _ peers hl hold _ hstage _ htargets _ =>
    rcases hreach with hmem | ⟨i', push, hi, hpush, hrecipient⟩
    · exact .inl (.inl (htargets ▸ hmem))
    · cases hi.symm.trans hold
      exact .inr ⟨i, now, hl, hold, push, peers, hpush, hrecipient, hstage⟩

/-- By then its recipient knows the sender. -/
theorem Reaching.step (h : Sane C net) (hgoes : Goes C net l net') {a b : Address}
    (hb : b ∈ C.nodes) (hreach : Reaching C net a b) : Reaching C net' a b ∨ net'.Knows b a := by
  refine (hreach.moves hgoes hb).imp_right ?_
  rintro ⟨i, now, -, hwaiting, push, peers, hpush, rfl, hstage⟩
  obtain ⟨push', hpush', rfl⟩ := h.waiting a i hwaiting
  cases Option.some.inj (hpush'.symm.trans hpush)
  exact hgoes.knows (h.entered i _ hpush (by rw [hstage]; exact Stage.noConfusion))

theorem NearHub.step (h : Sane C net) (hgoes : Goes C net l net') {a : Address}
    (hnear : NearHub C net a) : NearHub C net' a := by
  rcases hnear with hhub | hknown | hreach
  · exact .inl hhub
  · exact .inr (.inl (hgoes.knows hknown))
  · exact .inr (hreach.step h hgoes C.hub_mem).symm

theorem Started.step (h : Sane C net) (hgoes : Goes C net l net') {a : Address}
    (hstarted : Started C net a) : Started C net' a := by
  rcases hstarted with hnear | ⟨b, hb, hnear⟩
  · exact .inl (hnear.step h hgoes)
  · exact .inr ⟨b, hgoes.knows hb, hnear.step h hgoes⟩

variable (C) in
/-- Whoever is known of, or pushes, has started. Whoever is pushed to by a node that is not near
    the hub has started before. -/
structure Spread (net : Net) : Prop where
  knows : ∀ a p, net.Knows a p → Started C net a ∧ Started C net p
  answer : ∀ i peers, net.stage i = .answered peers → ∀ peer ∈ peers, ∀ p,
    peer.ethAddr = some p → Started C net p
  targets : ∀ a, ∀ p ∈ C.nodes, C.url p ∈ (net.node a).targets →
    Started C net a ∧ (NearHub C net a ∨ Started C net p)
  pushes : ∀ push ∈ net.pushes,
    Started C net push.sender ∧ (NearHub C net push.sender ∨ Started C net push.recipient)

theorem spread_init : Spread C (.init C.config) where
  knows _ _ h := by
    obtain ⟨e, he⟩ := h
    cases he
  answer _ _ h := by cases h
  targets _ _ _ h := by cases h
  pushes _ h := by cases h

/-- A merge brings entries from the table and from the answer only. -/
theorem mergeReply_source {selfUrl target : String} {table : PeerTable} {received : List NodeInfo}
    {now : ℤ} {p : Address} {e : PeerInfo}
    (h : (mergeReply selfUrl table target received now).lookup p = some e) :
    (∃ e', table.lookup p = some e') ∨ ∃ peer ∈ received, peer.ethAddr = some p := by
  have hall : PeerTable.All (fun q _ => (∃ e', table.lookup q = some e') ∨
      ∃ peer ∈ received, peer.ethAddr = some q) (mergeReply selfUrl table target received now) :=
    PeerTable.All.mergeReply (fun q e he => .inl ⟨e, he⟩) (fun _ _ _ h _ => h)
      (fun _ _ _ _ _ h => h) (fun peer hpeer q htaken => .inr ⟨peer, hpeer, htaken.2.2⟩)
  exact hall p e h

/-- A round that starts is a sign of having started. -/
theorem Spread.start (hsane : Sane C net) (h : Spread C net) {a : Address} (ha : a ∈ C.nodes)
    {order : List String} (hperm : order.Perm (KmsCluster.gossipTargets (net.node a).app))
    (htargets : (net'.node a).targets = order) :
    NearHub C net' a ∨ (Started C net a ∧
      ∀ p ∈ C.nodes, C.url p ∈ order → Started C net p) := by
  by_cases hempty : (net.node a).app.peerTable.entries = []
  · left
    by_cases hhub : a = C.hub
    · exact .inl hhub
    · right; right; left
      rw [htargets, hperm.mem_iff, gossipTargets, hempty, hsane.config a]
      refine List.mem_filter.mpr ⟨C.hub_seed a ha hhub, ?_⟩
      refine decide_eq_true fun hself => hhub ?_
      exact (C.url_inj _ C.hub_mem _ ha hself).symm
  · right
    have hentry : ∀ u ∈ order, ∃ p e, (net.node a).table.lookup p = some e ∧ u = e.grpcUrl := by
      intro u hu
      rw [hperm.mem_iff, gossipTargets] at hu
      have hmem := (List.mem_filter.mp hu).1
      rw [if_neg (by simpa using hempty)] at hmem
      obtain ⟨⟨p, e⟩, hpe, rfl⟩ := List.mem_map.mp hmem
      exact ⟨p, e, AList.mem_lookup_iff.mpr hpe, rfl⟩
    obtain ⟨⟨p, e⟩, hpe⟩ := List.exists_mem_of_ne_nil _ hempty
    refine ⟨(h.knows a p ⟨e, AList.mem_lookup_iff.mpr hpe⟩).1, fun q hq hu => ?_⟩
    obtain ⟨p', e', he', hurl⟩ := hentry _ hu
    have hown := hsane.table a p' e' he'
    obtain rfl := C.url_inj q hq p' hown.1 (hurl.trans hown.2.2.1)
    exact (h.knows a q ⟨e', he'⟩).2

theorem Spread.step (hsane : Sane C net) (h : Spread C net) (hsmooth : Smooth C net l)
    (hgoes : Goes C net l net') : Spread C net' := by
  have hstarted : ∀ {a}, Started C net a → Started C net' a := fun hs => hs.step hsane hgoes
  have hnear : ∀ {a}, NearHub C net a → NearHub C net' a := fun hn => hn.step hsane hgoes
  refine ⟨?_, ?_, ?_, ?_⟩
  · intro a p hp
    have hmoves := hgoes.table a
    obtain ⟨e, he⟩ := hp
    generalize htable : (net'.node a).table = table at hmoves he
    cases hmoves with
    | same => exact ⟨hstarted (h.knows a p ⟨e, he⟩).1, hstarted (h.knows a p ⟨e, he⟩).2⟩
    | @enter i now push hl hpush ha =>
      have hmem := List.mem_of_getElem? hpush
      obtain ⟨hsender, hor⟩ := h.pushes push hmem
      have hknows : net'.Knows a push.sender := ha ▸ hsane.enter_knows hgoes hl hpush
      have hrecipient : Started C net' a := by
        rcases hor with hn | hs
        · exact .inr ⟨push.sender, hknows, hnear hn⟩
        · exact ha ▸ hstarted hs
      refine ⟨hrecipient, ?_⟩
      have hurl : push.info.grpcUrl ≠ "" :=
        (hsane.pushes push hmem).url ▸ C.url_ne _ (hsane.pushes push hmem).sender
      rw [lookup_gossipHandler hurl] at he
      split at he
      · next hp => exact hp ▸ hstarted hsender
      · exact hstarted (h.knows a p ⟨e, he⟩).2
    | @merge i now push peers _ hwaiting hpush hstage =>
      obtain ⟨push', hpush', rfl⟩ := hsane.waiting a i hwaiting
      obtain rfl := Option.some.inj (hpush'.symm.trans hpush)
      have hknown := hsane.entered i push' hpush (by rw [hstage]; exact Stage.noConfusion)
      refine ⟨hstarted (h.knows _ _ hknown).2, ?_⟩
      rcases mergeReply_source he with ⟨e', he'⟩ | ⟨peer, hpeer, haddr⟩
      · exact hstarted (h.knows _ p ⟨e', he'⟩).2
      · exact hstarted (h.answer i peers hstage peer hpeer p haddr)
  · intro i peers hstage peer hpeer p hp
    have hmoves := hgoes.stage i
    rw [hstage] at hmoves
    generalize hstage' : Stage.answered peers = stage at hmoves
    cases hmoves with
    | same => exact hstarted (h.answer i peers hstage'.symm peer hpeer p hp)
    | entered => cases hstage'
    | @answered push process hl hpush _ =>
      cases hstage'
      obtain ⟨q, e, he, rfl⟩ := entry_of_mem_knownPeers hpeer
      cases Option.some.inj hp
      exact hstarted (h.knows _ p ⟨e, he⟩).2
  · intro a p hp hurl
    have hold : C.url p ∈ (net.node a).targets →
        Started C net' a ∧ (NearHub C net' a ∨ Started C net' p) := fun hmem =>
      ⟨hstarted (h.targets a p hp hmem).1, (h.targets a p hp hmem).2.imp hnear hstarted⟩
    cases hgoes.round a with
    | same _ _ htargets => exact hold (htargets ▸ hurl)
    | push _ _ hbefore _ _ htargets =>
      refine hold ?_
      rw [hbefore]
      exact List.mem_cons_of_mem _ (htargets ▸ hurl)
    | merge _ _ _ _ _ htargets => exact hold (htargets ▸ hurl)
    | start hl _ _ hperm _ htargets =>
      subst hl
      rcases h.start hsane hsmooth hperm htargets with hn | ⟨hs, hall⟩
      · exact ⟨.inl hn, .inl hn⟩
      · exact ⟨hstarted hs, .inr (hstarted (hall p hp (htargets ▸ hurl)))⟩
  · intro push hpush
    have hold : push ∈ net.pushes → Started C net' push.sender ∧
        (NearHub C net' push.sender ∨ Started C net' push.recipient) := fun hmem =>
      ⟨hstarted (h.pushes push hmem).1, (h.pushes push hmem).2.imp hnear hstarted⟩
    have hmoves := hgoes.pushes
    generalize net'.pushes = pushes at hmoves hpush
    cases hmoves with
    | same => exact hold hpush
    | @new a b _ _ hb hbefore =>
      rcases List.mem_append.mp hpush with hmem | hnew
      · exact hold hmem
      · rw [List.mem_singleton.mp hnew]
        obtain ⟨hs, hor⟩ := h.targets a b hb (by rw [hbefore]; exact List.mem_cons_self)
        exact ⟨hstarted hs, hor.imp hnear hstarted⟩

end Steps

end KmsCluster.GossipNet
