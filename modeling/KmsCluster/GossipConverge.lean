import KmsCluster.GossipSpread

/-!
# Gossip converges

While nothing fails, a few rounds of everyone are enough for everyone to be known to everyone and in
direct contact, however the rounds interleave. A round of a node is over when it starts the next
one, and what it learns from an answer is what its peer knew when it answered.

## Main results

- `knows_back`, `knows_via`, `seen_of_knows`: what one round of everyone brings about.
- `gossip_converges`: after six rounds of everyone, every node assembles all members of any nodeList
  as discovered and live.
-/

namespace KmsCluster.GossipNet

open Fallible Runs

variable {pubkey : Address → Bytes} {C : Setup pubkey} {net net' : Net} {l : Label}

variable (C) in
/-- Every node starts a round, and then every node starts another one. -/
def FullRound (labels : List Label) : Prop :=
  ∃ first second, labels = first ++ second ∧ ∀ a ∈ C.nodes,
    (∃ l ∈ first, Starts a l) ∧ ∃ l ∈ second, Starts a l

variable (C) in
/-- The labels have `n` rounds of everyone, one after the other. -/
def Rounds : ℕ → List Label → Prop
  | 0, _ => True
  | n + 1, labels => ∃ round rest, labels = round ++ rest ∧ FullRound C round ∧ Rounds n rest

/-- Clock readings start at `T`. -/
def ClockFrom (T : ℤ) : Label → Prop
  | .enter _ now => T ≤ now
  | .merge _ now => T ≤ now
  | _ => True

variable (C) in
structure Good (net : Net) : Prop where
  sane : Sane C net
  spread : Spread C net

theorem Good.step (h : Good C net) (hsmooth : Smooth C net l)
    (hstep : GossipNet.step pubkey net l = some net') : Good C net' := by
  have hgoes := goes_of_step hsmooth hstep
  exact ⟨h.sane.step hsmooth hgoes, h.spread.step h.sane hsmooth hgoes⟩

variable (C) in
/-- A run in which nothing fails. -/
structure SmoothRun (net : Net) (labels : List Label) (net' : Net) : Prop where
  good : Good C net
  smooth : Meets (step pubkey) (Smooth C) net labels
  run : exec (step pubkey) net labels = some net'

theorem SmoothRun.split {first second : List Label} (h : SmoothRun C net (first ++ second) net') :
    ∃ mid, SmoothRun C net first mid ∧ SmoothRun C mid second net' := by
  obtain ⟨hgood, hsmooth, hrun⟩ := h
  rw [exec_append, Option.bind_eq_some_iff] at hrun
  obtain ⟨mid, hfirst, hsecond⟩ := hrun
  obtain ⟨hsmoothFirst, hsmoothSecond⟩ := (meets_append first second).mp hsmooth
  have hgoodMid : Good C mid :=
    exec_invariant_of_meets (fun _ _ _ h hl hs => h.step hl hs) hgood hsmoothFirst hfirst
  exact ⟨mid, ⟨hgood, hsmoothFirst, hfirst⟩, ⟨hgoodMid, hsmoothSecond mid hfirst, hsecond⟩⟩

theorem SmoothRun.knows {labels : List Label} (h : SmoothRun C net labels net') {a p : Address}
    (hp : net.Knows a p) : net'.Knows a p :=
  exec_invariant_of_meets (I := fun net => net.Knows a p)
    (fun _ _ _ hp hl hs => (goes_of_step hl hs).knows hp) hp h.smooth h.run

-- ════════════════════════════════════════════════════════════════════════
-- What one round brings about
-- ════════════════════════════════════════════════════════════════════════

/-- A node that starts a round has none under way, and is to push to all it knows. -/
theorem targets_of_start (h : Good C net) (hgoes : Goes C net l net') {a b : Address}
    (ha : a ∈ C.nodes) (hstart : Starts a l) (hab : net.Knows a b) :
    ((net.node a).targets = [] ∧ (net.node a).waiting = none) ∧
      C.url b ∈ (net'.node a).targets := by
  cases hgoes.round a with
  | same hl => exact absurd hstart hl
  | push hl =>
    subst hl
    exact hstart.elim
  | merge hl =>
    subst hl
    exact hstart.elim
  | start _ hidle hfree hperm _ htargets =>
    refine ⟨⟨hidle, hfree⟩, ?_⟩
    obtain ⟨e, he⟩ := hab
    have hmem : (⟨b, e⟩ : Sigma fun _ : Address => PeerInfo) ∈ (net.node a).app.peerTable.entries :=
      AList.mem_lookup_iff.mp he
    have hown := h.sane.table a b e he
    have hurl : C.url b ∈ (net.node a).app.peerTable.entries.map fun e => e.2.grpcUrl :=
      List.mem_map.mpr ⟨⟨b, e⟩, hmem, hown.2.2.1⟩
    rw [htargets, hperm.mem_iff, gossipTargets]
    refine List.mem_filter.mpr ⟨?_, decide_eq_true ?_⟩
    · rw [if_neg (by simpa using List.ne_nil_of_mem hmem)]
      exact hurl
    · rw [h.sane.config a]
      exact fun heq => hown.2.1 (C.url_inj b hown.1 a ha heq)

theorem not_reaching_of_idle {a b : Address} (htargets : (net.node a).targets = [])
    (hwaiting : (net.node a).waiting = none) : ¬Reaching C net a b := by
  rintro (hmem | ⟨i, _, hi, -⟩)
  · rw [htargets] at hmem
    cases hmem
  · rw [hwaiting] at hi
    cases hi

/-- Whoever `a` knows gets to know `a`. -/
theorem knows_back {round : List Label} (h : SmoothRun C net round net')
    (hround : FullRound C round) {a b : Address} (ha : a ∈ C.nodes) (hab : net.Knows a b) :
    net'.Knows b a := by
  obtain ⟨first, second, rfl, hall⟩ := hround
  obtain ⟨e, he⟩ := hab
  have hb : b ∈ C.nodes := (h.good.sane.table a b e he).1
  refine exec_of_marks (I := fun net => Good C net ∧ net.Knows a b)
    (P := fun net => Reaching C net a b) (Q := fun net => net.Knows b a)
    ?_ ?_ ?_ ?_ ?_ (hall a ha).1 (hall a ha).2 ⟨h.good, e, he⟩ h.smooth h.run
  · exact fun _ _ _ hI hl hs => ⟨hI.1.step hl hs, (goes_of_step hl hs).knows hI.2⟩
  · exact fun _ _ _ _ hl hs hdone => (goes_of_step hl hs).knows hdone
  · exact fun _ _ _ hI hl hs hreach => hreach.step hI.1.sane (goes_of_step hl hs) hb
  · exact fun _ _ _ hI hl hs hstart =>
      .inl (.inl (targets_of_start hI.1 (goes_of_step hl hs) ha hstart hI.2).2)
  · intro _ _ _ hI hl hs hstart
    obtain ⟨⟨htargets, hwaiting⟩, -⟩ := targets_of_start hI.1 (goes_of_step hl hs) ha hstart hI.2
    exact not_reaching_of_idle htargets hwaiting

variable (C) in
/-- The round of `a` still has to push to `b`, or waits for an answer of `b` that names `p` once it
    is there. -/
def Asking (net : Net) (a b p : Address) : Prop :=
  C.url b ∈ (net.node a).targets ∨ ∃ i push, (net.node a).waiting = some i ∧
    net.pushes[i]? = some push ∧ push.recipient = b ∧
    ∀ peers, net.stage i = .answered peers → ∃ peer ∈ peers, NodeInfo.OwnOf C peer p

theorem Asking.reaching {a b p : Address} (h : Asking C net a b p) : Reaching C net a b :=
  h.imp_right fun ⟨i, push, hi, hpush, hrecipient, _⟩ => ⟨i, push, hi, hpush, hrecipient⟩

/-- An answer that is read now names whoever the node knows. -/
theorem answer_names (h : Good C net) (hgoes : Goes C net l net') {i : ℕ} {push : Push}
    (hpush : net.pushes[i]? = some push) {p : Address} (hbp : net.Knows push.recipient p)
    (hold : ∀ peers, net.stage i = .answered peers → ∃ peer ∈ peers, NodeInfo.OwnOf C peer p)
    {peers : List NodeInfo} (hstage : net'.stage i = .answered peers) :
    ∃ peer ∈ peers, NodeInfo.OwnOf C peer p := by
  have hmoves := hgoes.stage i
  rw [hstage] at hmoves
  generalize hstage' : Stage.answered peers = stage at hmoves
  cases hmoves with
  | same => exact hold peers hstage'.symm
  | entered => cases hstage'
  | @answered push' _ _ hpush' _ =>
    cases hstage'
    obtain rfl := Option.some.inj (hpush'.symm.trans hpush)
    obtain ⟨e, he⟩ := hbp
    have hown := h.sane.table push'.recipient p e he
    have hentry : (⟨p, e⟩ : Sigma fun _ : Address => PeerInfo) ∈
        (net.node push'.recipient).table.entries := AList.mem_lookup_iff.mp he
    exact ⟨_, List.mem_map.mpr ⟨_, hentry, rfl⟩, hown.1, rfl, hown.2.2⟩

theorem Asking.step (h : Good C net) (hgoes : Goes C net l net') {a b p : Address}
    (ha : a ∈ C.nodes) (hb : b ∈ C.nodes) (hp : p ∈ C.nodes) (hpa : p ≠ a) (hbp : net.Knows b p)
    (hask : Asking C net a b p) : Asking C net' a b p ∨ net'.Knows a p := by
  cases hgoes.round a with
  | same _ _ htargets hwaiting =>
    left
    rcases hask with hmem | ⟨i, push, hi, hpush, rfl, hnames⟩
    · exact .inl (htargets ▸ hmem)
    · exact .inr ⟨i, push, hwaiting ▸ hi, hgoes.pushes.getElem? hpush, rfl,
        fun peers hstage => answer_names h hgoes hpush hbp hnames hstage⟩
  | start _ hidle hfree => exact absurd hask.reaching (not_reaching_of_idle hidle hfree)
  | @push b' rest hl hb' hold hfree _ htargets hwaiting hpushes =>
    left
    rcases hask with hmem | ⟨i, _, hi, -⟩
    · rw [hold] at hmem
      rcases List.mem_cons.mp hmem with hhead | htail
      · obtain rfl := C.url_inj b hb b' hb' hhead
        refine .inr ⟨_, _, hwaiting, by rw [hpushes, List.getElem?_concat_length], rfl, ?_⟩
        intro peers hstage
        -- The push has only just been sent.
        have hmoves := hgoes.stage net.pushes.length
        rw [hstage] at hmoves
        generalize hstage' : Stage.answered peers = stage at hmoves
        cases hmoves with
        | same =>
          rw [h.sane.later _ le_rfl] at hstage'
          cases hstage'
        | entered => cases hstage'
        | answered hl' => cases hl.symm.trans hl'
      · exact .inl (htargets ▸ htail)
    · rw [hfree] at hi
      cases hi
  | @merge i now push peers hl hold hpush hstage _ htargets _ =>
    rcases hask with hmem | ⟨i', push', hi, hpush', -, hnames⟩
    · exact .inl (.inl (htargets ▸ hmem))
    · right
      cases hi.symm.trans hold
      obtain ⟨peer, hpeer, howns⟩ := hnames peers hstage
      have hmoves := hgoes.table a
      unfold Net.Knows
      generalize (net'.node a).table = table at hmoves ⊢
      cases hmoves with
      | same hquiet => exact absurd (hl ▸ rfl) hquiet
      | enter hl' => cases hl.symm.trans hl'
      | @merge i' now' push'' peers' _ hwaiting _ hstage' =>
        cases hwaiting.symm.trans hold
        cases hstage'.symm.trans hstage
        have htaken : peer.Taken (net.node a).app.config.selfUrl p := by
          refine ⟨?_, howns.2.2.1 ▸ C.url_ne p hp, howns.2.1⟩
          rw [howns.2.2.1, h.sane.config a]
          exact fun heq => hpa (C.url_inj p hp a ha heq)
        obtain ⟨e, he, -⟩ := mergeReply_taken hpeer htaken
        exact ⟨e, he⟩

/-- From whoever `a` knows, it learns whom they know. -/
theorem knows_via {round : List Label} (h : SmoothRun C net round net') (hround : FullRound C round)
    {a b p : Address} (ha : a ∈ C.nodes) (hab : net.Knows a b) (hbp : net.Knows b p)
    (hpa : p ≠ a) : net'.Knows a p := by
  obtain ⟨first, second, rfl, hall⟩ := hround
  obtain ⟨e, he⟩ := hab
  obtain ⟨e', he'⟩ := hbp
  have hb : b ∈ C.nodes := (h.good.sane.table a b e he).1
  have hp : p ∈ C.nodes := (h.good.sane.table b p e' he').1
  refine exec_of_marks (I := fun net => Good C net ∧ net.Knows a b ∧ net.Knows b p)
    (P := fun net => Asking C net a b p) (Q := fun net => net.Knows a p)
    ?_ ?_ ?_ ?_ ?_ (hall a ha).1 (hall a ha).2 ⟨h.good, ⟨e, he⟩, ⟨e', he'⟩⟩ h.smooth h.run
  · intro _ _ _ hI hl hs
    have hgoes := goes_of_step hl hs
    exact ⟨hI.1.step hl hs, hgoes.knows hI.2.1, hgoes.knows hI.2.2⟩
  · exact fun _ _ _ _ hl hs hdone => (goes_of_step hl hs).knows hdone
  · exact fun _ _ _ hI hl hs hask =>
      hask.step hI.1 (goes_of_step hl hs) ha hb hp hpa hI.2.2
  · exact fun _ _ _ hI hl hs hstart =>
      .inl (.inl (targets_of_start hI.1 (goes_of_step hl hs) ha hstart hI.2.1).2)
  · intro _ _ _ hI hl hs hstart hask
    obtain ⟨⟨htargets, hwaiting⟩, -⟩ :=
      targets_of_start hI.1 (goes_of_step hl hs) ha hstart hI.2.1
    exact not_reaching_of_idle htargets hwaiting hask.reaching

/-- `a` has been in direct contact with `b` at `T` or later. -/
def Net.Seen (net : Net) (T : ℤ) (a b : Address) : Prop :=
  ∃ e, (net.node a).table.lookup b = some e ∧ T ≤ e.lastSeen

theorem seen_mergeReply {selfUrl target : String} {table : PeerTable} {received : List NodeInfo}
    {now T : ℤ} {b : Address} {e : PeerInfo} (he : table.lookup b = some e) (hnow : T ≤ now)
    (h : T ≤ e.lastSeen ∨ e.grpcUrl = target) :
    ∃ e', (mergeReply selfUrl table target received now).lookup b = some e' ∧ T ≤ e'.lastSeen := by
  have hmarked : (markSeen table target now).lookup b =
      some (if e.grpcUrl = target then { e with lastSeen := now } else e) := by
    rw [lookup_markSeen, he]
    rfl
  obtain ⟨e', he', -, hseen⟩ := lookup_foldl_mergePeer received hmarked
  refine ⟨e', he', ?_⟩
  rw [hseen]
  split
  · exact hnow
  · next hurl => exact h.resolve_right hurl

theorem Net.Seen.step (h : Good C net) (hgoes : Goes C net l net') {T : ℤ} (hclock : ClockFrom T l)
    {a b : Address} (hseen : net.Seen T a b) : net'.Seen T a b := by
  obtain ⟨e, he, hle⟩ := hseen
  have hmoves := hgoes.table a
  unfold Net.Seen
  generalize (net'.node a).table = table at hmoves ⊢
  cases hmoves with
  | same => exact ⟨e, he, hle⟩
  | @enter i now push hl hpush =>
    subst hl
    have hok := h.sane.pushes push (List.mem_of_getElem? hpush)
    have hurl : push.info.grpcUrl ≠ "" := hok.url ▸ C.url_ne _ hok.sender
    rw [lookup_gossipHandler hurl]
    split
    · exact ⟨_, rfl, hclock⟩
    · exact ⟨e, he, hle⟩
  | merge hl =>
    subst hl
    exact seen_mergeReply he hclock (.inl hle)

theorem Reaching.seen (h : Good C net) (hgoes : Goes C net l net') {T : ℤ} (hclock : ClockFrom T l)
    {a b : Address} (hab : net.Knows a b) (hreach : Reaching C net a b) :
    Reaching C net' a b ∨ net'.Seen T a b := by
  obtain ⟨e, he⟩ := hab
  have hown := h.sane.table a b e he
  refine (hreach.moves hgoes hown.1).imp_right ?_
  rintro ⟨i, now, hl, hwaiting, push, peers, hpush, hrecipient, hstage⟩
  subst hl
  have hmoves := hgoes.table a
  unfold Net.Seen
  generalize (net'.node a).table = table at hmoves ⊢
  cases hmoves with
  | same hquiet => exact absurd rfl hquiet
  | enter hl' => cases hl'
  | @merge i' now' push' peers' hl' hwaiting' hpush' _ =>
    cases hl'
    cases hwaiting'.symm.trans hwaiting
    obtain rfl := Option.some.inj (hpush'.symm.trans hpush)
    refine seen_mergeReply he hclock (.inr ?_)
    rw [hown.2.2.1, (h.sane.pushes push' (List.mem_of_getElem? hpush)).target, hrecipient]

/-- A node has direct contact with all it knows. -/
theorem seen_of_knows {round : List Label} (h : SmoothRun C net round net')
    (hround : FullRound C round) {T : ℤ} (hclock : ∀ l ∈ round, ClockFrom T l) {a b : Address}
    (ha : a ∈ C.nodes) (hab : net.Knows a b) : net'.Seen T a b := by
  obtain ⟨first, second, rfl, hall⟩ := hround
  refine exec_of_marks (I := fun net => Good C net ∧ net.Knows a b)
    (P := fun net => Reaching C net a b) (Q := fun net => net.Seen T a b) ?_ ?_ ?_ ?_ ?_
    (hall a ha).1 (hall a ha).2 ⟨h.good, hab⟩ (h.smooth.and (meets_of_forall hclock net)) h.run
  · exact fun _ _ _ hI hl hs => ⟨hI.1.step hl.1 hs, (goes_of_step hl.1 hs).knows hI.2⟩
  · exact fun _ _ _ hI hl hs hdone => hdone.step hI.1 (goes_of_step hl.1 hs) hl.2
  · exact fun _ _ _ hI hl hs hreach => hreach.seen hI.1 (goes_of_step hl.1 hs) hl.2 hI.2
  · exact fun _ _ _ hI hl hs hstart =>
      .inl (.inl (targets_of_start hI.1 (goes_of_step hl.1 hs) ha hstart hI.2).2)
  · intro _ _ _ hI hl hs hstart
    obtain ⟨⟨htargets, hwaiting⟩, -⟩ := targets_of_start hI.1 (goes_of_step hl.1 hs) ha hstart hI.2
    exact not_reaching_of_idle htargets hwaiting

-- ════════════════════════════════════════════════════════════════════════
-- Everyone knows everyone
-- ════════════════════════════════════════════════════════════════════════

variable (C) in
/-- The hub knows `a`, or somebody whom `a` knows. -/
def Linked (net : Net) (a : Address) : Prop :=
  a = C.hub ∨ net.Knows C.hub a ∨ ∃ b, net.Knows a b ∧ (b = C.hub ∨ net.Knows C.hub b)

/-- Once everybody has started a round, everybody has started. -/
theorem started_of_starts {labels : List Label} (h : SmoothRun C net labels net') {a : Address}
    (ha : a ∈ C.nodes) (hstart : ∃ l ∈ labels, Starts a l) : Started C net' a := by
  refine exec_of_mark (I := Good C) (Q := fun net => Started C net a) ?_ ?_ ?_ hstart h.good
    h.smooth h.run
  · exact fun _ _ _ hI hl hs => hI.step hl hs
  · exact fun _ _ _ hI hl hs hstarted => hstarted.step hI.sane (goes_of_step hl hs)
  · intro net l net' hI hl hs hstart
    have hgoes := goes_of_step hl hs
    cases hgoes.round a with
    | same hquiet => exact absurd hstart hquiet
    | push hl' =>
      subst hl'
      exact hstart.elim
    | merge hl' =>
      subst hl'
      exact hstart.elim
    | start hl' _ _ hperm _ htargets =>
      rcases hI.spread.start hI.sane ha hperm htargets with hnear | ⟨hstarted, -⟩
      · exact .inl hnear
      · exact hstarted.step hI.sane hgoes

/-- A node that is near the hub is known to it when its next round starts. -/
theorem known_of_nearHub {labels : List Label} (h : SmoothRun C net labels net') {a : Address}
    (hstart : ∃ l ∈ labels, Starts a l) (hnear : NearHub C net a) :
    a = C.hub ∨ net'.Knows C.hub a := by
  refine or_iff_not_imp_left.mpr fun hhub => ?_
  refine exec_of_mark (I := fun net => Good C net ∧ NearHub C net a)
    (Q := fun net => net.Knows C.hub a) ?_ ?_ ?_ hstart ⟨h.good, hnear⟩ h.smooth h.run
  · exact fun _ _ _ hI hl hs => ⟨hI.1.step hl hs, hI.2.step hI.1.sane (goes_of_step hl hs)⟩
  · exact fun _ _ _ _ hl hs hknows => (goes_of_step hl hs).knows hknows
  · intro net l net' hI hl hs hstart
    have hgoes := goes_of_step hl hs
    rcases hI.2 with heq | hknows | hreach
    · exact absurd heq hhub
    · exact hgoes.knows hknows
    · cases hgoes.round a with
      | same hquiet => exact absurd hstart hquiet
      | push hl' =>
        subst hl'
        exact hstart.elim
      | merge hl' =>
        subst hl'
        exact hstart.elim
      | start _ hidle hfree => exact absurd hreach (not_reaching_of_idle hidle hfree)

theorem linked_of_round {round : List Label} (h : SmoothRun C net round net')
    (hround : FullRound C round) {a : Address} (ha : a ∈ C.nodes) : Linked C net' a := by
  obtain ⟨first, second, rfl, hall⟩ := hround
  obtain ⟨mid, hfirst, hsecond⟩ := h.split
  rcases started_of_starts hfirst ha (hall a ha).1 with hnear | ⟨b, hab, hnear⟩
  · rcases known_of_nearHub hsecond (hall a ha).2 hnear with hhub | hknown
    · exact .inl hhub
    · exact .inr (.inl hknown)
  · obtain ⟨e, he⟩ := hab
    have hb : b ∈ C.nodes := (hsecond.good.sane.table a b e he).1
    exact .inr (.inr ⟨b, hsecond.knows ⟨e, he⟩, known_of_nearHub hsecond (hall b hb).2 hnear⟩)

/-- After five rounds everyone knows everyone. -/
theorem knows_all {labels : List Label} (h : SmoothRun C net labels net')
    (hrounds : Rounds C 5 labels) {a p : Address} (ha : a ∈ C.nodes) (hp : p ∈ C.nodes)
    (hpa : p ≠ a) : net'.Knows a p := by
  obtain ⟨r₁, rest₁, rfl, h₁, r₂, rest₂, rfl, h₂, r₃, rest₃, rfl, h₃, r₄, rest₄, rfl, h₄, r₅, rest₅,
    rfl, h₅, -⟩ := hrounds
  obtain ⟨n₁, hr₁, h⟩ := h.split
  obtain ⟨n₂, hr₂, h⟩ := h.split
  obtain ⟨n₃, hr₃, h⟩ := h.split
  obtain ⟨n₄, hr₄, h⟩ := h.split
  obtain ⟨n₅, hr₅, h⟩ := h.split
  have hhub : ∀ q ∈ C.nodes, q ≠ C.hub → n₃.Knows C.hub q := by
    intro q hq hne
    rcases linked_of_round hr₁ h₁ hq with heq | hknown | ⟨b, hqb, hb⟩
    · exact absurd heq hne
    · exact hr₃.knows (hr₂.knows hknown)
    · have hback := knows_back hr₂ h₂ hq hqb
      rcases hb with rfl | hb
      · exact hr₃.knows hback
      · exact knows_via hr₃ h₃ C.hub_mem (hr₂.knows hb) hback hne
  have hback : ∀ q ∈ C.nodes, q ≠ C.hub → n₄.Knows q C.hub := fun q hq hne =>
    knows_back hr₄ h₄ C.hub_mem (hhub q hq hne)
  apply h.knows
  by_cases hahub : a = C.hub
  · subst hahub
    exact hr₅.knows (hr₄.knows (hhub p hp hpa))
  · by_cases hphub : p = C.hub
    · subst hphub
      exact hr₅.knows (hback a ha hahub)
    · exact knows_via hr₅ h₅ ha (hback a ha hahub) (hr₄.knows (hhub p hp hphub)) hpa

theorem exists_positionOf {nodeList : List Address} {a : Address} (h : a ∈ nodeList) :
    ∃ id, positionOf nodeList a = some id := by
  unfold positionOf
  cases hindex : nodeList.findIdx? (· == a) with
  | some i => exact ⟨i + 1, rfl⟩
  | none =>
    have hnone := List.findIdx?_eq_none_iff.mp hindex a h
    rw [beq_self_eq_true] at hnone
    cases hnone

/-- With live entries for all other members, a node assembles them all. -/
theorem assemble_of_seen (h : Sane C net) {T now : ℤ} (hnow : now ≤ T + peerLivenessWindowSecs)
    {a : Address} (hseen : ∀ p ∈ C.nodes, p ≠ a → net.Seen T a p) {nodeList : List Address}
    (hnodes : ∀ p ∈ nodeList, p ∈ C.nodes) (hnodup : nodeList.Nodup) (hmem : a ∈ nodeList)
    (hlen : (C.config a).totalNodes ≤ nodeList.length) :
    ∃ m, assembleParticipants (net.node a).app (.ok nodeList) now = .ok (some m) ∧
      m.allDiscovered = true ∧ ∀ peer ∈ m.peers, ∃ p, nodeList[peer.id - 1]? = some p ∧
        peer.grpcUrl = C.url p ∧ peer.pubkey = pubkey p := by
  obtain ⟨ownId, hposition⟩ := exists_positionOf hmem
  obtain ⟨hown, howner⟩ := positionOf_eq_some hposition
  have hothers : ∀ member ∈ otherMembers nodeList ownId, ∃ peer,
      discovered (net.node a).app.peerTable now member = some peer ∧
      nodeList[peer.id - 1]? = some member.1 ∧ peer.grpcUrl = C.url member.1 ∧
      peer.pubkey = pubkey member.1 := by
    rintro ⟨p, id⟩ hmember
    obtain ⟨hpos, hp, hne⟩ := mem_otherMembers.mp hmember
    have hpmem : p ∈ C.nodes := hnodes p (List.mem_of_getElem? hp)
    have hpa : p ≠ a := by
      rintro rfl
      have hlt := (List.getElem?_eq_some_iff.mp hp).1
      have hsame := (List.getElem?_inj hlt hnodup).mp (hp.trans howner.symm)
      omega
    obtain ⟨e, he, hlast⟩ := hseen p hpmem hpa
    have hown := h.table a p e he
    refine ⟨⟨id, e.grpcUrl, e.pubkey, e.epoch⟩, discovered_eq_some.mpr ⟨e, he, ?_, ?_, rfl⟩, hp,
      hown.2.2⟩
    · rw [hown.2.2.2]
      exact C.pubkey_ne p hpmem
    · exact decide_eq_true (by omega)
  have hassemble : assembleParticipants (net.node a).app (.ok nodeList) now = .ok (some
      ⟨ownId, (otherMembers nodeList ownId).filterMap (discovered (net.node a).app.peerTable now),
        (net.node a).app.config.threshold, (net.node a).app.config.totalNodes,
        (otherMembers nodeList ownId).all fun member =>
          (discovered (net.node a).app.peerTable now member).isSome⟩) := by
    have hlong : ¬nodeList.length < (net.node a).app.config.totalNodes := by
      rw [h.config a]
      exact Nat.not_lt.mpr hlen
    simp only [assembleParticipants, mapError_ok, ok_bind, h.address a, hposition, okOr_some,
      if_neg hlong]
    rfl
  refine ⟨_, hassemble, ?_, ?_⟩
  · refine List.all_eq_true.mpr fun member hmember => ?_
    obtain ⟨peer, hpeer, -⟩ := hothers member hmember
    rw [hpeer]
    rfl
  · intro peer hpeer
    obtain ⟨member, hmember, hdisc⟩ := List.mem_filterMap.mp hpeer
    obtain ⟨peer', hpeer', hfacts⟩ := hothers member hmember
    obtain rfl := Option.some.inj (hpeer'.symm.trans hdisc)
    exact ⟨member.1, hfacts⟩

/-- From the start of the cluster, when nothing fails and everyone has gone through six rounds, the
    last of them from `T` on, every node assembles all other members of any nodeList as live, with
    their own urls and keys, until the liveness window after `T` has passed. -/
theorem gossip_converges (C : Setup pubkey) (labels last : List Label) (net : Net) (T now : ℤ)
    (hrun : exec (step pubkey) (.init C.config) (labels ++ last) = some net)
    (hsmooth : Meets (step pubkey) (Smooth C) (.init C.config) (labels ++ last))
    (hrounds : Rounds C 5 labels) (hlast : FullRound C last) (hclock : ∀ l ∈ last, ClockFrom T l)
    (hnow : now ≤ T + peerLivenessWindowSecs) (a : Address) (ha : a ∈ C.nodes)
    (nodeList : List Address) (hnodes : ∀ p ∈ nodeList, p ∈ C.nodes) (hnodup : nodeList.Nodup)
    (hmem : a ∈ nodeList) (hlen : (C.config a).totalNodes ≤ nodeList.length) :
    ∃ m, assembleParticipants (net.node a).app (.ok nodeList) now = .ok (some m) ∧
      m.allDiscovered = true ∧ ∀ peer ∈ m.peers, ∃ p, nodeList[peer.id - 1]? = some p ∧
        peer.grpcUrl = C.url p ∧ peer.pubkey = pubkey p := by
  have hwhole : SmoothRun C (.init C.config) (labels ++ last) net :=
    ⟨⟨sane_init, spread_init⟩, hsmooth, hrun⟩
  obtain ⟨mid, hfirst, hsecond⟩ := hwhole.split
  have hgood : Good C net := exec_invariant_of_meets (fun _ _ _ h hl hs => h.step hl hs)
    hsecond.good hsecond.smooth hsecond.run
  refine assemble_of_seen hgood.sane hnow (fun p hp hpa => ?_) hnodes hnodup hmem hlen
  exact seen_of_knows hsecond hlast hclock ha (knows_all hfirst hrounds ha hp hpa)

namespace ThreeNodes

def url (p : Address) : String := "node" ++ toString p.toNat

/-- Node 1 is the seed of the other two. -/
def config (p : Address) : Config := ⟨"app", 2, 3, url p, if p = 1 then [] else [url 1]⟩

theorem forall_nodes {p : Address → Prop} (h₁ : p 1) (h₂ : p 2) (h₃ : p 3) :
    ∀ a ∈ [(1 : Address), 2, 3], p a := by
  intro a ha
  simp only [List.mem_cons, List.not_mem_nil, or_false] at ha
  rcases ha with rfl | rfl | rfl
  · exact h₁
  · exact h₂
  · exact h₃

def setup : Setup fun _ => [(4 : UInt8)] where
  nodes := [1, 2, 3]
  config := config
  hub := 1
  hub_mem := List.mem_cons_self
  url_ne := forall_nodes (by decide) (by decide) (by decide)
  url_inj := forall_nodes (forall_nodes (by decide) (by decide) (by decide))
    (forall_nodes (by decide) (by decide) (by decide))
    (forall_nodes (by decide) (by decide) (by decide))
  seeds a _ u hu := by
    unfold config at hu
    dsimp only at hu
    split at hu
    · cases hu
    · exact ⟨1, List.mem_cons_self, List.mem_singleton.mp hu⟩
  hub_seed a _ hne := by
    unfold config
    rw [if_neg hne]
    exact List.mem_cons_self
  pubkey_ne _ _ := List.cons_ne_nil _ _

def next (net : Net) (l : Label) : Option Net := step (fun _ => [4]) net l

def owner (u : String) : Address := if u = url 1 then 1 else if u = url 2 then 2 else 3

/-- A whole round of `a` at one clock reading. -/
def turn (now : ℤ) (net : Net) (a : Address) : List Label :=
  let targets := gossipTargets (net.node a).app
  .startRound a targets :: (targets.zipIdx net.pushes.length).flatMap fun t =>
    [.push a (owner t.1), .enter t.2 now, .answer t.2, .merge a now]

/-- The nodes take their turns `n` times, from the clock reading `now` on. -/
def turns : ℕ → ℤ → Net → List (List Label)
  | 0, _, _ => []
  | n + 1, now, net =>
    let labels₁ := turn now net 1
    let net₁ := (exec next net labels₁).getD net
    let labels₂ := turn now net₁ 2
    let net₂ := (exec next net₁ labels₂).getD net₁
    let labels₃ := turn now net₂ 3
    let net₃ := (exec next net₂ labels₃).getD net₂
    (labels₁ ++ labels₂ ++ labels₃) :: turns n (now + 30) net₃

def windows : List (List Label) := turns 12 1000 (.init setup.config)

def startsTest (a : Address) : Label → Bool
  | .startRound b _ => b == a
  | _ => false

theorem startsTest_sound {a : Address} {labels : List Label}
    (h : labels.any (startsTest a) = true) : ∃ l ∈ labels, Starts a l := by
  obtain ⟨l, hl, htest⟩ := List.any_eq_true.mp h
  refine ⟨l, hl, ?_⟩
  cases l with
  | startRound b order => exact eq_of_beq htest
  | _ => cases htest

def fullTest (first second : List Label) : Bool :=
  setup.nodes.all fun a => first.any (startsTest a) && second.any (startsTest a)

theorem fullTest_sound {first second : List Label} (h : fullTest first second = true) :
    FullRound setup (first ++ second) := by
  refine ⟨first, second, rfl, fun a ha => ?_⟩
  have hboth := List.all_eq_true.mp h a ha
  rw [Bool.and_eq_true] at hboth
  exact ⟨startsTest_sound hboth.1, startsTest_sound hboth.2⟩

theorem Rounds.fullRound {labels : List Label} (h : Rounds setup 1 labels) :
    FullRound setup labels := by
  obtain ⟨round, rest, rfl, ⟨first, second, rfl, hall⟩, -⟩ := h
  refine ⟨first, second ++ rest, List.append_assoc _ _ _, fun a ha => ⟨(hall a ha).1, ?_⟩⟩
  obtain ⟨l, hl, hstart⟩ := (hall a ha).2
  exact ⟨l, List.mem_append_left _ hl, hstart⟩

/-- Two windows make a round. -/
def roundsTest : ℕ → List (List Label) → Bool
  | 0, _ => true
  | n + 1, first :: second :: rest => fullTest first second && roundsTest n rest
  | _ + 1, _ => false

theorem roundsTest_sound {n : ℕ} {ws : List (List Label)} (h : roundsTest n ws = true) :
    Rounds setup n ws.flatten := by
  induction n generalizing ws with
  | zero => trivial
  | succ n ih =>
    match ws, h with
    | first :: second :: rest, h =>
      rw [roundsTest, Bool.and_eq_true] at h
      refine ⟨first ++ second, rest.flatten, ?_, fullTest_sound h.1, ih h.2⟩
      rw [List.flatten_cons, List.flatten_cons, List.append_assoc]

def smoothTest (net : Net) : Label → Bool
  | .restart _ _ => false
  | .pushFailed _ => false
  | .giveUp _ => false
  | .startRound a _ => setup.nodes.contains a
  | .push a b => setup.nodes.contains b && (net.node a).targets.head? == some (url b)
  | _ => true

theorem smoothTest_sound {net : Net} {l : Label} (h : smoothTest net l = true) :
    Smooth setup net l := by
  cases l with
  | restart => cases h
  | pushFailed => cases h
  | giveUp => cases h
  | startRound a order => exact List.contains_iff_mem.mp h
  | push a b =>
    rw [smoothTest, Bool.and_eq_true] at h
    exact ⟨List.contains_iff_mem.mp h.1, eq_of_beq h.2⟩
  | _ => trivial

def clockTest (T : ℤ) : Label → Bool
  | .enter _ now => decide (T ≤ now)
  | .merge _ now => decide (T ≤ now)
  | _ => true

theorem clockTest_sound {T : ℤ} {l : Label} (h : clockTest T l = true) : ClockFrom T l := by
  cases l with
  | enter i now => exact of_decide_eq_true (p := T ≤ now) h
  | merge a now => exact of_decide_eq_true (p := T ≤ now) h
  | _ => trivial

end ThreeNodes

open ThreeNodes in
/-- Node 3 has everyone when the twelve windows are over. -/
theorem gossip_converges_three : ∃ net m,
    exec next (.init setup.config) ((windows.take 10).flatten ++ (windows.drop 10).flatten) =
      some net ∧
    assembleParticipants (net.node 3).app (.ok [3, 1, 2]) 1380 = .ok (some m) ∧
      m.allDiscovered = true := by
  have hrun : (exec next (.init setup.config)
      ((windows.take 10).flatten ++ (windows.drop 10).flatten)).isSome = true := by decide +kernel
  have hsmooth : check next smoothTest (.init setup.config)
      ((windows.take 10).flatten ++ (windows.drop 10).flatten) = true := by decide +kernel
  have hrounds : roundsTest 5 (windows.take 10) = true := by decide +kernel
  have hlast : roundsTest 1 (windows.drop 10) = true := by decide +kernel
  have hclock : (windows.drop 10).flatten.all (clockTest 1300) = true := by decide +kernel
  have hmembers : ∀ p ∈ [(3 : Address), 1, 2], p ∈ setup.nodes := by
    intro p hp
    simp only [List.mem_cons, List.not_mem_nil, or_false] at hp
    rcases hp with rfl | rfl | rfl <;> decide
  obtain ⟨net, hnet⟩ := Option.isSome_iff_exists.mp hrun
  obtain ⟨m, hm, hall, -⟩ := gossip_converges setup _ _ net 1300 1380 hnet
    (meets_of_check (fun _ _ => smoothTest_sound) hsmooth) (roundsTest_sound hrounds)
    (Rounds.fullRound (roundsTest_sound hlast))
    (fun l hl => clockTest_sound (List.all_eq_true.mp hclock l hl)) (by decide) 3
    (hmembers 3 List.mem_cons_self) [3, 1, 2] hmembers (by decide) List.mem_cons_self le_rfl
  exact ⟨net, m, hnet, hm, hall⟩

end KmsCluster.GossipNet
