import KmsCluster.GossipNet

/-!
# A changed URL

A node `x` of the network comes back under a new URL and pushes it to the others (`src/grpc.rs`).
A push replaces the URL in the recipient's table, but so does every relayed entry: an answer that
another node computed from its own table brings the old URL back. What can be said is what the old
URL needs to survive a moment: a table that still has it, or a message that was under way.

## Main results

- `url_not_reverted_iff`: after a given moment, no table has the old URL exactly when none has it
  at that moment and no message of that moment brings it.
- `old_url_returns`: it comes back after every node has heard the new one.
-/

namespace KmsCluster

namespace GossipNet

open Runs

/-- No table has `x` at the URL `u`. -/
def Net.Forgot (net : Net) (x : Address) (u : String) : Prop :=
  ∀ a e, (net.node a).table.lookup x = some e → e.grpcUrl ≠ u

/-- `a` has received a direct push of `x` that carries the URL `u`. -/
def Net.HeardAt (net : Net) (a x : Address) (u : String) : Prop :=
  ∃ i push, net.pushes[i]? = some push ∧ net.stage i ≠ .sent ∧ push.recipient = a ∧
    push.sender = x ∧ push.info.grpcUrl = u

/-- Nothing that was under way in `net₀` brings the URL `u` of `x` into a table: no answer that had
    been computed, and no push that had been sent. -/
def NoOldUrl (net₀ : Net) (x : Address) (u : String) (net : Net) : Label → Prop
  | .merge a _ => ∀ i peers, (net.node a).waiting = some i → net₀.stage i = .answered peers →
      ∀ peer ∈ peers, peer.Taken (net.node a).app.config.selfUrl x → peer.grpcUrl ≠ u
  | .enter i _ => ∀ push, net₀.pushes[i]? = some push → push.sender = x → push.info.grpcUrl ≠ u
  | _ => True

-- ════════════════════════════════════════════════════════════════════════
-- Where URLs come from
-- ════════════════════════════════════════════════════════════════════════

/-- What nodes push of themselves and answer of others. -/
structure Urls (net : Net) : Prop where
  info : ∀ a, (net.node a).info.grpcUrl = (net.node a).app.config.selfUrl
  targets : ∀ a, (net.node a).targets ≠ [] → (net.node a).app.config.selfUrl ≠ ""
  push : ∀ push ∈ net.pushes, push.info.grpcUrl ≠ ""
  answer : ∀ i peers, net.stage i = .answered peers → ∃ table, peers = knownPeers table

section
variable {pubkey : Address → Bytes} {net net' : Net}

theorem urls_init (config : Address → Config) : Urls (.init config) where
  info _ := rfl
  targets _ h := absurd rfl h
  push _ h := by cases h
  answer _ _ h := by cases h

/-- A step that changes one node and no message. -/
theorem Urls.setNode (h : Urls net) {a : Address} {n : Node}
    (hinfo : n.info.grpcUrl = n.app.config.selfUrl)
    (htargets : n.targets ≠ [] → n.app.config.selfUrl ≠ "") : Urls (net.setNode a n) := by
  refine ⟨?_, ?_, h.push, h.answer⟩
  · intro b
    by_cases hb : b = a
    · rw [hb, setNode_self]
      exact hinfo
    · rw [setNode_of_ne net n hb]
      exact h.info b
  · intro b
    by_cases hb : b = a
    · rw [hb, setNode_self]
      exact htargets
    · rw [setNode_of_ne net n hb]
      exact h.targets b

theorem Urls.setStage (h : Urls net) {i : ℕ} {stage : Stage}
    (hstage : ∀ peers, stage = .answered peers → ∃ table, peers = knownPeers table) :
    Urls (net.setStage i stage) := by
  refine ⟨h.info, h.targets, h.push, ?_⟩
  intro j peers hj
  by_cases hji : j = i
  · subst hji
    exact hstage peers ((Function.update_self ..).symm.trans hj)
  · exact h.answer j peers ((Function.update_of_ne hji ..).symm.trans hj)

theorem urls_step (l : Label) (h : Urls net) (hstep : step pubkey net l = some net') :
    Urls net' := by
  cases moves_of_step pubkey hstep with
  | restart a config => exact h.setNode rfl (fun hne => absurd rfl hne)
  | storeShare a shard groupPubkey => exact h.setNode (h.info a) (h.targets a)
  | startRound a order hurl => exact h.setNode rfl (fun _ => hurl)
  | push a b target rest htargets =>
    have hurl : (net.node a).app.config.selfUrl ≠ "" :=
      h.targets a (by rw [htargets]; exact List.cons_ne_nil _ _)
    have hnode : Urls (net.setNode a { net.node a with
        targets := rest, waiting := some net.pushes.length }) :=
      h.setNode (h.info a) (fun _ => hurl)
    refine ⟨hnode.info, hnode.targets, ?_, hnode.answer⟩
    intro push hpush
    rcases List.mem_append.mp hpush with hold | hnew
    · exact h.push push hold
    · rw [List.mem_singleton.mp hnew]
      show (net.node a).info.grpcUrl ≠ ""
      rw [h.info a]
      exact hurl
  | idle a l targets waiting hsub =>
    refine h.setNode (h.info a) (fun hne => h.targets a ?_)
    intro hnil
    rw [hnil] at hsub
    exact hne (List.subset_nil.mp hsub)
  | enter i now push hpush =>
    have hnode : Urls (net.setNode push.recipient ((net.node push.recipient).setTable
        (gossipHandler (net.node push.recipient).table push.sender (pubkey push.sender)
          (some push.info) now))) := h.setNode (h.info _) (h.targets _)
    have hstage : Urls ((net.setNode push.recipient _).setStage i
      (.entered (net.node push.recipient).process)) := hnode.setStage nofun
    exact ⟨hstage.info, hstage.targets, hstage.push, hstage.answer⟩
  | answer i push hpush =>
    refine h.setStage ?_
    intro peers heq
    cases heq
    exact ⟨_, rfl⟩
  | merge a now i push peers hwaiting hpush hstage =>
    exact h.setNode (h.info a) (h.targets a)

-- ════════════════════════════════════════════════════════════════════════
-- What the old URL needs to survive
-- ════════════════════════════════════════════════════════════════════════

/-- What does not bring the URL `u` of `x` back is everything that was made after `net₀`. -/
structure Clean (net₀ : Net) (x : Address) (u : String) (net : Net) : Prop where
  forgot : net.Forgot x u
  self : (net.node x).app.config.selfUrl ≠ u
  push : ∀ (i : ℕ) (push : Push), net.pushes[i]? = some push →
    net₀.pushes[i]? = some push ∨ (push.sender = x → push.info.grpcUrl ≠ u)
  answer : ∀ i peers, net.stage i = .answered peers → net₀.stage i = .answered peers ∨
    ∀ peer ∈ peers, peer.ethAddr = some x → peer.grpcUrl ≠ u

variable {net₀ : Net} {x : Address} {u : String}

theorem mem_knownPeers {table : PeerTable} {peer : NodeInfo} : peer ∈ knownPeers table ↔
    ∃ addr e, table.lookup addr = some e ∧
      peer = ⟨e.grpcUrl, some addr, e.pubkey, e.epoch, e.groupPubkey⟩ := by
  unfold knownPeers
  rw [List.mem_map]
  constructor
  · rintro ⟨⟨addr, e⟩, hmem, rfl⟩
    exact ⟨addr, e, AList.mem_lookup_iff.mpr hmem, rfl⟩
  · rintro ⟨addr, e, hlookup, rfl⟩
    exact ⟨⟨addr, e⟩, AList.mem_lookup_iff.mp hlookup, rfl⟩

theorem Clean.setNode (h : Clean net₀ x u net) {a : Address} {n : Node}
    (htable : ∀ e, n.table.lookup x = some e → e.grpcUrl ≠ u)
    (hself : a = x → n.app.config.selfUrl ≠ u) : Clean net₀ x u (net.setNode a n) := by
  refine ⟨?_, ?_, h.push, h.answer⟩
  · intro b e he
    by_cases hb : b = a
    · rw [hb, setNode_self] at he
      exact htable e he
    · rw [setNode_of_ne net n hb] at he
      exact h.forgot b e he
  · by_cases hx : x = a
    · rw [hx, setNode_self]
      exact hself hx.symm
    · rw [setNode_of_ne net n hx]
      exact h.self

theorem Clean.setStage (h : Clean net₀ x u net) {i : ℕ} {stage : Stage}
    (hstage : ∀ peers, stage = .answered peers →
      ∀ peer ∈ peers, peer.ethAddr = some x → peer.grpcUrl ≠ u) :
    Clean net₀ x u (net.setStage i stage) := by
  refine ⟨h.forgot, h.self, h.push, ?_⟩
  intro j peers hj
  by_cases hji : j = i
  · subst hji
    exact .inr (hstage peers ((Function.update_self ..).symm.trans hj))
  · exact h.answer j peers ((Function.update_of_ne hji ..).symm.trans hj)

/-- A table that takes in nothing of the old URL stays without it. -/
theorem forgot_mergeReply {selfUrl target : String} {table : PeerTable} {peers : List NodeInfo}
    {now : ℤ} (htable : ∀ e, table.lookup x = some e → e.grpcUrl ≠ u)
    (hpeers : ∀ peer ∈ peers, peer.Taken selfUrl x → peer.grpcUrl ≠ u) {e : PeerInfo}
    (he : (mergeReply selfUrl table target peers now).lookup x = some e) : e.grpcUrl ≠ u := by
  have hall : PeerTable.All (fun addr e => addr = x → e.grpcUrl ≠ u)
      (mergeReply selfUrl table target peers now) := by
    refine PeerTable.All.mergeReply ?_ ?_ ?_ ?_
    · intro addr e he hx
      exact htable e (hx ▸ he)
    · intro addr e _ hQ _
      exact hQ
    · intro peer hpeer addr e htaken _ hx
      exact hpeers peer hpeer (hx ▸ htaken)
    · intro peer hpeer addr htaken hx
      exact hpeers peer hpeer (hx ▸ htaken)
  exact hall x e he rfl

theorem Clean.step (h : Clean net₀ x u net) (hurls : Urls net) {l : Label}
    (hmeets : NoOldUrl net₀ x u net l) (hkeeps : ∀ c, l = .restart x c → c.selfUrl ≠ u)
    (hstep : step pubkey net l = some net') : Clean net₀ x u net' := by
  cases moves_of_step pubkey hstep with
  | restart a config =>
    refine h.setNode nofun ?_
    rintro rfl
    exact hkeeps config rfl
  | storeShare a shard groupPubkey =>
    exact h.setNode (h.forgot a) (fun ha => ha ▸ h.self)
  | startRound a order hurl =>
    exact h.setNode (h.forgot a) (fun ha => ha ▸ h.self)
  | push a b target rest htargets =>
    have hnode : Clean net₀ x u (net.setNode a { net.node a with
        targets := rest, waiting := some net.pushes.length }) :=
      h.setNode (h.forgot a) (fun ha => ha ▸ h.self)
    refine ⟨hnode.forgot, hnode.self, ?_, hnode.answer⟩
    intro i push hpush
    by_cases hi : i < net.pushes.length
    · rw [List.getElem?_append_left hi] at hpush
      exact h.push i push hpush
    · right
      intro hx
      rw [List.getElem?_append_right (not_lt.mp hi)] at hpush
      obtain rfl := List.mem_singleton.mp (List.mem_of_getElem? hpush)
      show (net.node a).info.grpcUrl ≠ u
      rw [hurls.info a, show a = x from hx]
      exact h.self
  | idle a l targets waiting hsub =>
    exact h.setNode (h.forgot a) (fun ha => ha ▸ h.self)
  | enter i now push hpush =>
    have hnot : push.sender = x → push.info.grpcUrl ≠ u := by
      rcases h.push i push hpush with hold | hnew
      · exact hmeets push hold
      · exact hnew
    have hnode : Clean net₀ x u (net.setNode push.recipient
        ((net.node push.recipient).setTable (gossipHandler (net.node push.recipient).table
          push.sender (pubkey push.sender) (some push.info) now))) := by
      refine h.setNode (fun e he => ?_) (fun ha => ha ▸ h.self)
      have hurl := hurls.push push (List.mem_of_getElem? hpush)
      rw [Node.setTable, Node.table, lookup_gossipHandler hurl] at he
      split at he
      · next hx =>
        cases he
        exact hnot hx.symm
      · exact h.forgot _ e he
    have hstage : Clean net₀ x u ((net.setNode push.recipient _).setStage i
      (.entered (net.node push.recipient).process)) := hnode.setStage nofun
    exact ⟨hstage.forgot, hstage.self, hstage.push, hstage.answer⟩
  | answer i push hpush =>
    refine h.setStage ?_
    rintro peers heq peer hpeer hx
    cases heq
    obtain ⟨addr, e, he, rfl⟩ := mem_knownPeers.mp hpeer
    cases hx
    exact h.forgot _ e he
  | merge a now i push peers hwaiting hpush hstage =>
    refine h.setNode (fun e he => ?_) (fun ha => ha ▸ h.self)
    refine forgot_mergeReply (h.forgot a) ?_ he
    intro peer hpeer htaken
    rcases h.answer i peers hstage with hold | hnew
    · exact hmeets i peers hwaiting hold peer hpeer htaken
    · exact hnew peer hpeer htaken.2.2

/-- What was sent and answered in `net₀` still is. -/
structure Later (net₀ net : Net) : Prop where
  push : ∀ (i : ℕ) (push : Push), net₀.pushes[i]? = some push → net.pushes[i]? = some push
  answer : ∀ i peers, net₀.stage i = .answered peers → net.stage i = .answered peers

theorem Later.setStage (h : Later net₀ net) {i : ℕ} {stage : Stage}
    (hopen : ∀ peers, net.stage i ≠ .answered peers) : Later net₀ (net.setStage i stage) := by
  refine ⟨h.push, ?_⟩
  intro j peers hj
  have hanswered := h.answer j peers hj
  have hji : j ≠ i := by
    rintro rfl
    exact hopen peers hanswered
  exact (Function.update_of_ne hji ..).trans hanswered

theorem later_step (l : Label) (h : Later net₀ net) (hstep : step pubkey net l = some net') :
    Later net₀ net' := by
  cases l with
  | restart | storeShare | giveUp =>
    cases hstep
    exact ⟨h.push, h.answer⟩
  | startRound a order =>
    simp only [step] at hstep
    split at hstep
    · cases hstep
      exact ⟨h.push, h.answer⟩
    · cases hstep
  | push a b =>
    simp only [step] at hstep
    split at hstep
    · cases hstep
      refine ⟨?_, h.answer⟩
      intro i push hpush
      have hold := h.push i push hpush
      have hi : i < net.pushes.length := (List.getElem?_eq_some_iff.mp hold).1
      exact (List.getElem?_append_left hi).trans hold
    · cases hstep
  | pushFailed a =>
    simp only [step] at hstep
    split at hstep
    · cases hstep
      exact ⟨h.push, h.answer⟩
    · cases hstep
  | enter i now =>
    simp only [step] at hstep
    split at hstep
    · next push hpush hsent =>
      cases hstep
      have hstage : Later net₀ (net.setStage i
          (.entered (net.node push.recipient).process)) := by
        refine h.setStage ?_
        intro peers hanswered
        cases hsent.symm.trans hanswered
      exact ⟨hstage.push, hstage.answer⟩
    · cases hstep
  | answer i =>
    simp only [step] at hstep
    split at hstep
    · next push process hpush hentered =>
      split at hstep
      · cases hstep
        refine h.setStage ?_
        intro peers hanswered
        cases hentered.symm.trans hanswered
      · cases hstep
    · cases hstep
  | merge a now =>
    simp only [step] at hstep
    split at hstep
    · split at hstep
      · cases hstep
        exact ⟨h.push, h.answer⟩
      · cases hstep
    · cases hstep

/-- Merging an answer that has `x` at `u`, and at no other URL, leaves it there. -/
theorem url_foldl_mergePeer {selfUrl : String} (peers : List NodeInfo) :
    ∀ {table : PeerTable}, (∀ peer ∈ peers, peer.Taken selfUrl x → peer.grpcUrl = u) →
      (∃ peer ∈ peers, peer.Taken selfUrl x) ∨ (∃ e, table.lookup x = some e ∧ e.grpcUrl = u) →
      ∃ e, (peers.foldl (mergePeer selfUrl) table).lookup x = some e ∧ e.grpcUrl = u := by
  induction peers with
  | nil =>
    rintro table - (⟨peer, hpeer, -⟩ | h)
    · cases hpeer
    · exact h
  | cons peer rest ih =>
    intro table hsame h
    refine ih (fun p hp => hsame p (List.mem_cons_of_mem _ hp)) ?_
    have hmerged : peer.Taken selfUrl x →
        ∃ e, (mergePeer selfUrl table peer).lookup x = some e ∧ e.grpcUrl = u := by
      intro htaken
      have hurl := hsame peer List.mem_cons_self htaken
      unfold mergePeer
      rw [if_neg (not_or.mpr ⟨htaken.1, htaken.2.1⟩), htaken.2.2]
      refine ⟨_, AList.lookup_insert _, ?_⟩
      cases table.lookup x with
      | none => exact hurl
      | some e => exact hurl
    by_cases htaken : peer.Taken selfUrl x
    · exact .inr (hmerged htaken)
    · rcases h with ⟨p, hp, hp'⟩ | ⟨e, he, hurl⟩
      · rcases List.mem_cons.mp hp with rfl | hp
        · exact absurd hp' htaken
        · exact .inl ⟨p, hp, hp'⟩
      · right
        refine ⟨e, ?_, hurl⟩
        unfold mergePeer
        split
        · exact he
        · next hnot =>
          rw [not_or] at hnot
          split
          · next addr haddr =>
            have hne : x ≠ addr := by
              rintro rfl
              exact htaken ⟨hnot.1, hnot.2, haddr⟩
            exact (AList.lookup_insert_ne hne).trans he
          · exact he

/-- A step that does not meet `NoOldUrl` brings the old URL back. -/
theorem not_forgot_of_not_noOldUrl (hlater : Later net₀ net) (hurls : Urls net) {l : Label}
    (hnot : ¬ NoOldUrl net₀ x u net l) (hstep : step pubkey net l = some net') :
    ¬ net'.Forgot x u := by
  cases l with
  | restart | storeShare | startRound | push | pushFailed | answer | giveUp =>
    exact absurd trivial hnot
  | enter i now =>
    simp only [NoOldUrl, not_forall] at hnot
    obtain ⟨push, hold, hx, hurl⟩ := hnot
    have hpush := hlater.push i push hold
    have hne := hurls.push push (List.mem_of_getElem? hpush)
    intro hforgot
    simp only [step, hpush] at hstep
    split at hstep
    · next push' _ heq _ =>
      cases heq
      cases hstep
      refine hforgot push.recipient ⟨push.info.grpcUrl, now, pubkey push.sender, push.info.epoch,
        push.info.groupPubkey⟩ ?_ (not_not.mp hurl)
      show AList.lookup x (Function.update net.node push.recipient _ push.recipient).table = _
      rw [Function.update_self, Node.setTable, Node.table, lookup_gossipHandler hne,
        if_pos hx.symm]
    · cases hstep
  | merge a now =>
    simp only [NoOldUrl, not_forall] at hnot
    obtain ⟨i, peers, hwaiting, hold, peer, hpeer, htaken, hurl⟩ := hnot
    have hstage := hlater.answer i peers hold
    obtain ⟨table, rfl⟩ := hurls.answer i peers hstage
    -- an answer has one entry for each address
    have hsame : ∀ p ∈ knownPeers table, p.Taken (net.node a).app.config.selfUrl x →
        p.grpcUrl = u := by
      intro p hp hp'
      obtain ⟨addr, e, he, rfl⟩ := mem_knownPeers.mp hp
      obtain ⟨addr', e', he', rfl⟩ := mem_knownPeers.mp hpeer
      cases hp'.2.2
      cases htaken.2.2
      cases he.symm.trans he'
      exact not_not.mp hurl
    intro hforgot
    simp only [step, hwaiting] at hstep
    split at hstep
    · next push peers hpush hanswered =>
      cases hstage.symm.trans hanswered
      cases hstep
      have hmerged : ∃ e, (mergeReply (net.node a).app.config.selfUrl (net.node a).table push.target
          (knownPeers table) now).lookup x = some e ∧ e.grpcUrl = u :=
        url_foldl_mergePeer _ hsame (.inl ⟨peer, hpeer, htaken⟩)
      obtain ⟨e, he, hurl'⟩ := hmerged
      refine hforgot a e ?_ hurl'
      rw [setNode_self]
      exact he
    · cases hstep

end

/-- From a state that a run reached and in which `x` has another URL than `u`, in every run in
    which it does not take `u` up again: no table has `x` at `u` in any state, from the first on,
    exactly when none has it in the first and nothing that is under way there brings it. So it is
    also from the moment on when every other node has heard the new URL from `x` itself. -/
theorem url_not_reverted_iff {pubkey : Address → Bytes} {config : Address → Config}
    {before after : List Label} {net₀ net : Net}
    (hreach : exec (step pubkey) (.init config) before = some net₀) {x : Address} {u : String}
    (hself : (net₀.node x).app.config.selfUrl ≠ u)
    (hkeeps : ∀ c, .restart x c ∈ after → c.selfUrl ≠ u)
    (hrun : exec (step pubkey) net₀ after = some net) :
    (∀ pre net', pre <+: after → exec (step pubkey) net₀ pre = some net' → net'.Forgot x u) ↔
      net₀.Forgot x u ∧ Meets (step pubkey) (NoOldUrl net₀ x u) net₀ after := by
  have hurls : Urls net₀ :=
    exec_invariant (fun net l net' => urls_step l) (urls_init config) hreach
  constructor
  · intro hforgot
    refine ⟨hforgot [] net₀ (List.nil_prefix) rfl, ?_⟩
    by_contra hnot
    obtain ⟨pre, l, post, m, m', rfl, hpre, hm', -, hviolated⟩ :=
      exists_step_of_not_meets hrun hnot
    have hlater : Later net₀ m :=
      exec_invariant (fun net l net' => later_step l) ⟨fun _ _ h => h, fun _ _ h => h⟩ hpre
    have hurls : Urls m := exec_invariant (fun net l net' => urls_step l) hurls hpre
    refine not_forgot_of_not_noOldUrl hlater hurls hviolated hm' (hforgot (pre ++ [l]) m' ?_ ?_)
    · exact ⟨post, by simp⟩
    · rw [exec_append, hpre, Option.bind_some]
      exact exec_cons_eq_some.mpr ⟨m', hm', rfl⟩
  · rintro ⟨hforgot, hmeets⟩ pre net' ⟨post, rfl⟩ hpre
    have hmeets := ((meets_append pre post).mp hmeets).1
    have hrestarts : ∀ l ∈ pre, ∀ c, l = .restart x c → c.selfUrl ≠ u := by
      rintro l hl c rfl
      exact hkeeps c (List.mem_append_left _ hl)
    have hclean₀ : Clean net₀ x u net₀ :=
      ⟨hforgot, hself, fun _ _ h => .inl h, fun _ _ h => .inl h⟩
    have hclean : Urls net' ∧ Clean net₀ x u net' := by
      refine exec_invariant_of_meets (I := fun net => Urls net ∧ Clean net₀ x u net) ?_
        ⟨hurls, hclean₀⟩ (hmeets.and (meets_of_forall hrestarts net₀)) hpre
      rintro net l net' ⟨hurls, hclean⟩ ⟨hmeets, hkeeps⟩ hstep
      exact ⟨urls_step l hurls hstep, hclean.step hurls hmeets hkeeps hstep⟩
    exact hclean.2.forgot

/-- Evaluates `NoOldUrl`, of every relayed entry. -/
def noOldUrlTest (net₀ : Net) (x : Address) (u : String) (net : Net) : Label → Bool
  | .merge a _ => (net.node a).waiting.all fun i =>
      match net₀.stage i with
      | .answered peers => peers.all fun peer => decide (peer.ethAddr = some x → peer.grpcUrl ≠ u)
      | _ => true
  | .enter i _ => net₀.pushes[i]?.all fun push => decide (push.sender = x → push.info.grpcUrl ≠ u)
  | _ => true

theorem noOldUrlTest_sound {net₀ : Net} {x : Address} {u : String} (net : Net) (l : Label)
    (h : noOldUrlTest net₀ x u net l = true) : NoOldUrl net₀ x u net l := by
  cases l with
  | merge a now =>
    intro i peers hwaiting hstage peer hpeer htaken
    simp only [noOldUrlTest, hwaiting, Option.all_some, hstage] at h
    exact of_decide_eq_true (List.all_eq_true.mp h peer hpeer) htaken.2.2
  | enter i now =>
    intro push hpush
    simp only [noOldUrlTest, hpush, Option.all_some] at h
    exact of_decide_eq_true h
  | restart | storeShare | startRound | push | pushFailed | answer | giveUp => trivial

/-- Node 1 with a new URL. -/
def movedConfig : Config := { netConfig 1 with selfUrl := "http://a:5443" }

/-- Node 3 makes itself known to node 2, and node 1 makes itself known to both. -/
def knownRun : List Label :=
  [.startRound 3 ["http://b:4443", "http://a:4443"], .push 3 2, .enter 0 1000, .giveUp 3,
    .pushFailed 3, .startRound 1 ["http://b:4443", "http://c:4443"], .push 1 2, .enter 1 1001,
    .giveUp 1, .push 1 3, .enter 2 1002]

/-- Node 1 comes back under a new URL and pushes it to both. -/
def movedRun : List Label :=
  [.restart 1 movedConfig, .startRound 1 ["http://b:4443", "http://c:4443", "http://a:4443"],
    .push 1 2, .enter 3 1010, .giveUp 1, .push 1 3, .enter 4 1011]

/-- Node 2 asks node 3 for its peers. -/
def askedRun : List Label :=
  [.startRound 2 ["http://c:4443", "http://a:5443"], .push 2 3, .enter 5 1012, .answer 5,
    .merge 2 1013]

/-- Nodes 2 and 3 know node 1 under its old URL, and both have heard the new one before they gossip
    with each other. -/
theorem url_not_reverted_heard : ∃ m net₀ net e e',
    exec (step fun _ => [4]) (.init netConfig) knownRun = some m ∧
    (m.node 2).table.lookup 1 = some e ∧ e.grpcUrl = "http://a:4443" ∧
    (m.node 3).table.lookup 1 = some e' ∧ e'.grpcUrl = "http://a:4443" ∧
    exec (step fun _ => [4]) m movedRun = some net₀ ∧ net₀.HeardAt 2 1 "http://a:5443" ∧
    net₀.HeardAt 3 1 "http://a:5443" ∧ exec (step fun _ => [4]) net₀ askedRun = some net ∧
    net.Forgot 1 "http://a:4443" := by
  obtain ⟨m, net₀, net, e, e', hknown, htwo, hold, hthree, hold', hmoved, hheard, hheard', hrun,
      hcheck, hself, htables, hothers⟩ : ∃ m net₀ net e e',
      exec (step fun _ => [4]) (.init netConfig) knownRun = some m ∧
      (m.node 2).table.lookup 1 = some e ∧ e.grpcUrl = "http://a:4443" ∧
      (m.node 3).table.lookup 1 = some e' ∧ e'.grpcUrl = "http://a:4443" ∧
      exec (step fun _ => [4]) m movedRun = some net₀ ∧ net₀.HeardAt 2 1 "http://a:5443" ∧
      net₀.HeardAt 3 1 "http://a:5443" ∧ exec (step fun _ => [4]) net₀ askedRun = some net ∧
      check (step fun _ => [4]) (noOldUrlTest net₀ 1 "http://a:4443") net₀ askedRun = true ∧
      (net₀.node 1).app.config.selfUrl = "http://a:5443" ∧
      ([1, 2, 3].all fun a => ((net₀.node a).table.lookup 1).all fun e =>
        e.grpcUrl != "http://a:4443") = true ∧
      ∀ a, a ≠ 1 → a ≠ 2 → a ≠ 3 → (net₀.node a).table = ∅ := by
    refine ⟨_, _, _, _, _, rfl, rfl, rfl, rfl, rfl, rfl, ⟨3, _, rfl, nofun, rfl, rfl, rfl⟩,
      ⟨4, _, rfl, nofun, rfl, rfl, rfl⟩, rfl, rfl, rfl, rfl, ?_⟩
    intro a hone htwo hthree
    simp only [Net.setNode, Net.setStage, Function.update_of_ne hone, Function.update_of_ne htwo,
      Function.update_of_ne hthree]
    rfl
  have hforgot : net₀.Forgot 1 "http://a:4443" := by
    intro a e he
    by_cases ha : a ∈ [1, 2, 3]
    · have hnew := List.all_eq_true.mp htables a ha
      rw [he] at hnew
      exact bne_iff_ne.mp hnew
    · simp only [List.mem_cons, List.not_mem_nil, or_false, not_or] at ha
      rw [hothers a ha.1 ha.2.1 ha.2.2] at he
      cases he
  have hreach : exec (step fun _ => [4]) (.init netConfig) (knownRun ++ movedRun) = some net₀ := by
    rw [exec_append, hknown]
    exact hmoved
  have hkeeps : ∀ c, .restart 1 c ∈ askedRun → c.selfUrl ≠ "http://a:4443" := by
    intro c hc
    simp [askedRun] at hc
  have hself : (net₀.node 1).app.config.selfUrl ≠ "http://a:4443" := by
    rw [hself]
    decide
  have hnever := (url_not_reverted_iff hreach hself hkeeps hrun).mpr
    ⟨hforgot, meets_of_check noOldUrlTest_sound hcheck⟩
  exact ⟨m, net₀, net, e, e', hknown, htwo, hold, hthree, hold', hmoved, hheard, hheard', hrun,
    hnever askedRun net (List.prefix_refl _) hrun⟩

/-- Node 1 comes back under a new URL and pushes it to node 2; node 2 asks node 3 before node 1 has
    pushed the new URL to node 3 as well. -/
def relayedRun : List Label :=
  knownRun ++ [.restart 1 movedConfig,
    .startRound 1 ["http://b:4443", "http://c:4443", "http://a:4443"], .push 1 2, .enter 3 1010,
    .giveUp 1, .startRound 2 ["http://c:4443", "http://a:5443"], .push 2 3, .enter 4 1011,
    .answer 4, .merge 2 1012, .push 1 3, .enter 5 1013]

/-- Every other node has received a push of node 1 that carries its new URL, and then node 3, which
    has it, asks node 2 and takes the old one from its answer. -/
theorem old_url_returns : ∃ net₀ net e e',
    exec (step fun _ => [4]) (.init netConfig) relayedRun = some net₀ ∧
    net₀.HeardAt 2 1 "http://a:5443" ∧ net₀.HeardAt 3 1 "http://a:5443" ∧
    (net₀.node 3).table.lookup 1 = some e ∧ e.grpcUrl = "http://a:5443" ∧
    exec (step fun _ => [4]) net₀ [.startRound 3 ["http://b:4443", "http://a:5443"], .push 3 2,
      .enter 6 1014, .answer 6, .merge 3 1015] = some net ∧
    (net.node 3).table.lookup 1 = some e' ∧ e'.grpcUrl = "http://a:4443" :=
  ⟨_, _, _, _, rfl, ⟨3, _, rfl, nofun, rfl, rfl, rfl⟩, ⟨5, _, rfl, nofun, rfl, rfl, rfl⟩, rfl, rfl,
    rfl, rfl, rfl⟩

end GossipNet

end KmsCluster
