import KmsCluster.ClusterShares

/-!
# Epochs and polynomials

An epoch stands for one polynomial as long as no two sessions stamp the same one. A session's epoch
is `known_epoch() + 1` at the node that starts it, and that node may never have heard of a session
that completed at a few nodes only.

## Main results

- `epoch_identifies_session`: shares of one epoch come from one session when the epoch of every
  session is unused by the time all its participants are in.
- `epoch_forks`: two sessions, one after the other, leave shares of the same epoch.
-/

namespace KmsCluster.Cluster

open Fallible Runs

section Epochs

variable {F G₁ G₂ R P : Type} [Field F] [AddCommGroup G₁] [Module F G₁]

/-- Epoch `e` is in use by session `k`: a share of it is held or sealed, or a participant that has
    everyone in may still take one. -/
inductive Claimed (s : State P) (e k : ℕ) : Prop
  | held {p : Address} {shard : ShardState} (hshard : (s.nodes p).st.shard = some shard)
      (hepoch : shard.epoch = e) (horigin : (s.nodes p).origin = k)
  | kept {p : Address} {rec : SealedShare} (hrec : rec ∈ (s.nodes p).sealedShares)
      (hepoch : rec.shard.epoch = e) (horigin : rec.origin = k)
  | pending {sess : Session P} (hsess : s.sessions[k]? = some sess) (hready : sess.ready = true)
      (hactive : sess.active = true) (hepoch : sess.req.epoch = e)

/-- When the last participant is in, nobody uses the epoch of the session. -/
def Fresh (s : State P) : Label R → Prop
  | .ready k => ∀ sess, s.sessions[k]? = some sess → ∀ j, ¬Claimed s sess.req.epoch j
  | _ => True

/-- No epoch is in use by two sessions. -/
def Distinct (s : State P) : Prop := ∀ e j k, Claimed s e j → Claimed s e k → j = k

variable {B : Blsful F G₁ G₂} {D : Gennaro F R P} {s s' : State P} {l : Label R}

omit [Field F] in
theorem active_of_running {sess : Session P} {i : ℕ} {m : Member P}
    (hi : i ∈ sess.req.participantIds) (hm : sess.members i = some m)
    (hrunning : m.running = true) : sess.active = true := by
  unfold Session.active
  rw [List.any_eq_true]
  exact ⟨i, hi, by rw [hm]; exact hrunning⟩

/-- A session comes to use an epoch only when the last participant is in. -/
theorem Claimed.back (hinv : Inv B D s) (hmoves : Moves B D s l s') {e k : ℕ}
    (h : Claimed s' e k) : Claimed s e k ∨
      (l = .ready k ∧ ∃ sess, s.sessions[k]? = some sess ∧ sess.req.epoch = e) := by
  have hcommitted : ∀ {j i : ℕ} {sess : Session P} {m : Member P}, s.sessions[j]? = some sess →
      sess.members i = some m → sess.ready = true → m.running = true →
      Claimed s sess.req.epoch j := by
    intro j i sess m hsess hm hready hrunning
    have hi := hinv.ids j sess i hsess (by simp [hm])
    exact .pending hsess hready (active_of_running hi hm hrunning) rfl
  cases h with
  | @held p shard hshard hepoch horigin =>
    left
    cases hmoves.node p with
    | kept hkept => exact .held (hkept.shard ▸ hshard) hepoch (hkept.origin ▸ horigin)
    | crashed _ hnone =>
      rw [hnone] at hshard
      cases hshard
    | reloaded hrec _ hrecShard _ hrecOrigin =>
      cases Option.some.inj (hrecShard.symm.trans hshard)
      exact .kept hrec hepoch (hrecOrigin ▸ horigin)
    | committed _ hsess hm _ hready hrunning _ _ hnew _ hnewOrigin =>
      cases Option.some.inj (hnew.symm.trans hshard)
      rw [← hepoch, ← horigin, hnewOrigin]
      exact hcommitted hsess hm hready hrunning
  | @kept p rec hrec hepoch horigin =>
    left
    cases hmoves.node p with
    | kept hkept => exact .kept (hkept.sealedShares ▸ hrec) hepoch horigin
    | crashed _ _ _ hsealed => exact .kept (hsealed ▸ hrec) hepoch horigin
    | reloaded _ _ _ _ _ hsealed => exact .kept (hsealed ▸ hrec) hepoch horigin
    | committed _ hsess hm _ hready hrunning _ _ _ _ _ hsealed =>
      rw [hsealed] at hrec
      rcases mem_addSealed hrec with ⟨hshard, -, hk⟩ | hold
      · rw [← hepoch, ← horigin, hshard, hk]
        exact hcommitted hsess hm hready hrunning
      · exact .kept hold hepoch horigin
  | @pending sess' hsess' hready hactive hepoch =>
    cases hmoves.session hsess' with
    | narrows hsess hnarrows =>
      exact .inl (.pending hsess (hnarrows.ready ▸ hready) (hnarrows.active hactive)
        (hnarrows.req ▸ hepoch))
    | opened _ hopens =>
      rw [hopens.facts.2.1] at hready
      cases hready
    | @joined _ _ _ sess _ ownId _ _ hsess _ hstart _ hfree hjoined =>
      -- With everyone in there was no place left.
      subst hjoined
      obtain ⟨_, _, hindex, -⟩ := startDealer_eq_ok hstart
      have hmem := mem_participantIds.mpr (.inl (List.mem_of_getElem? hindex))
      exact absurd hfree (hinv.full k sess hsess hready ownId hmem)
    | @becameReady sess hl hsess _ hnew =>
      subst hnew
      exact .inr ⟨hl, sess, hsess, hepoch⟩

theorem Distinct.step (hinv : Inv B D s) (h : Distinct s) (hfresh : Fresh s l)
    (hmoves : Moves B D s l s') : Distinct s' := by
  intro e j k hj hk
  rcases hj.back hinv hmoves with hj | ⟨hlj, sess, hsess, rfl⟩
  · rcases hk.back hinv hmoves with hk | ⟨hlk, sess, hsess, rfl⟩
    · exact h e j k hj hk
    · rw [hlk] at hfresh
      exact absurd hj (hfresh sess hsess j)
  · rcases hk.back hinv hmoves with hk | ⟨hlk, -⟩
    · rw [hlj] at hfresh
      exact absurd hk (hfresh sess hsess k)
    · rw [hlj, Label.ready.injEq] at hlk
      exact hlk

omit [AddCommGroup G₁] [Module F G₁] in
theorem distinct_init (g : Founding F R P D) : Distinct g.init := by
  have hzero : ∀ e k, Claimed g.init e k → k = 0 := by
    intro e k h
    cases h with
    | held hshard => cases hshard
    | kept hrec => cases hrec
    | pending hsess =>
      have hlt := (List.getElem?_eq_some_iff.mp hsess).1
      simp only [Founding.init, List.length_singleton] at hlt
      omega
  intro e j k hj hk
  rw [hzero e j hj, hzero e k hk]

/-- In every run in which a session gets its last participant only while its epoch is unused,
    shares of one epoch come from one session and lie on its polynomial. -/
theorem epoch_identifies_session (B : Blsful F G₁ G₂) (D : Gennaro F R P)
    (g : Founding F R P D) (pubkeyOf : Address → Bytes) (labels : List (Label R)) (s : State P)
    (hrun : exec (step B D pubkeyOf) g.init labels = some s)
    (hfresh : Meets (step B D pubkeyOf) Fresh g.init labels) (p q : Address)
    (sp sq : ShardState) (hp : (s.nodes p).st.shard = some sp)
    (hq : (s.nodes q).st.shard = some sq) (hepoch : sp.epoch = sq.epoch) :
    (s.nodes p).origin = (s.nodes q).origin ∧
      ∃ sess, s.sessions[(s.nodes p).origin]? = some sess ∧
        sp = sessionShard B sp.shardIndex sess.req.epoch (sess.value D (sp.shardIndex : F)) ∧
        sq = sessionShard B sq.shardIndex sess.req.epoch (sess.value D (sq.shardIndex : F)) := by
  have hboth : Inv B D s ∧ Distinct s :=
    exec_invariant_of_meets (I := fun s => Inv B D s ∧ Distinct s)
      (fun s l s' h hl hstep => by
        have hmoves := moves_of_step hstep
        exact ⟨h.1.step hmoves, h.2.step h.1 hl hmoves⟩)
      ⟨inv_init g, distinct_init g⟩ hfresh hrun
  have horigin : (s.nodes p).origin = (s.nodes q).origin :=
    hboth.2 sp.epoch _ _ (.held hp rfl rfl) (.held hq hepoch.symm rfl)
  obtain ⟨sess, hsess, -, hsp⟩ := (hboth.1.held p sp hp).session
  obtain ⟨sess', hsess', -, hsq⟩ := (hboth.1.held q sq hq).session
  rw [← horigin, hsess] at hsess'
  cases hsess'
  exact ⟨horigin, sess, hsess, hsp, hsq⟩

/-- A test for `Fresh` that looks at the log and the sessions only. -/
def freshTest (s : State P) : Label R → Bool
  | .ready k => (s.sessions[k]?).all fun sess =>
    (s.commits.all fun c =>
      (s.sessions[c.session]?).all fun used => used.req.epoch ≠ sess.req.epoch) &&
    s.sessions.all fun used => used.req.epoch ≠ sess.req.epoch ∨ ¬(used.ready ∧ used.active)
  | _ => true

omit [AddCommGroup G₁] [Module F G₁] in
theorem freshTest_sound (hinv : Inv B D s) (h : freshTest s l = true) : Fresh s l := by
  cases l with
  | ready k =>
    intro sess hsess j hclaimed
    simp only [freshTest, hsess, Option.all_some, Bool.and_eq_true, List.all_eq_true] at h
    have hused : ∀ {shard : ShardState}, ShareOf B D s shard j → shard.epoch ≠ sess.req.epoch := by
      intro shard hshare
      obtain ⟨⟨used, hsessUsed, -, hvalue⟩, c, hc, rfl⟩ := hshare
      have hne := h.1 c hc
      rw [hsessUsed, Option.all_some, decide_eq_true_eq] at hne
      rw [hvalue]
      exact hne
    cases hclaimed with
    | @held p shard hshard hepoch horigin => exact hused (horigin ▸ hinv.held p shard hshard) hepoch
    | @kept p rec hrec hepoch horigin => exact hused (horigin ▸ hinv.kept p rec hrec) hepoch
    | @pending used hsessUsed hready hactive hepoch =>
      have hne := of_decide_eq_true (h.2 used (List.mem_of_getElem? hsessUsed))
      rcases hne with hne | hnot
      · exact hne hepoch
      · exact hnot ⟨hready, hactive⟩
  | _ => trivial

/-- At most one reshare or refresh session is under way. -/
def OneActive (s : State P) : Prop :=
  (s.sessions.filter fun sess => !sess.genesis && sess.active).length ≤ 1

instance oneActiveDecidable (s : State P) : Decidable (OneActive s) :=
  inferInstanceAs (Decidable (_ ≤ _))

end Epochs

namespace FourNodes

def url (p : Address) : String := "url" ++ toString p.toNat

def nodeList : List Address := [1, 2, 3, 4]

/-- Everyone has been in touch with everyone when genesis starts. -/
def table (p : Address) : PeerTable :=
  nodeList.foldl (fun t q => if q = p then t else t.insert q ⟨url q, 1000, [4], 0, []⟩) ∅

def founding : Founding Scalar (List Scalar) (List Scalar) scalarGennaro where
  appId := "app"
  threshold := 2
  nodeList := nodeList
  config p := ⟨"app", 2, 4, url p, nodeList.map url⟩
  clock := 1000
  table := table
  participant i := [i, (2 * i : ℕ)]
  config_threshold _ := rfl
  contributes i := ⟨_, contributesPoly_cons _ [((2 * i : ℕ) : Scalar)] 1⟩

def next (s : State (List Scalar)) (l : Label (List Scalar)) : Option (State (List Scalar)) :=
  step scalarBlsful scalarGennaro (fun _ => [4]) s l

def genesis : List (Label (List Scalar)) := [1, 2, 3, 4].map fun i => .complete 0 i none

/-- `p` pushes to `q`, and the reply is lost. -/
def tell (p q : Address) : List (Label (List Scalar)) :=
  [.gossipStart p, .gossipPush p q, .gossipLost p, .gossipDone p]

/-- Node 4 restarts without its share and starts to recover from the other three. -/
def recovery : List (Label (List Scalar)) :=
  genesis ++ [.crash 4, .boot 4] ++ tell 1 4 ++ tell 2 4 ++ tell 3 4 ++
    [.assemble 4 nodeList, .recover 4 0 (url 1) [(5 : ℕ)], .join 1 1 nodeList [(6 : ℕ)],
      .join 1 2 nodeList [(7 : ℕ)], .join 1 3 nodeList [(8 : ℕ)], .ready 1]

def recovered : List (Label (List Scalar)) :=
  recovery ++ [1, 2, 3, 4].map fun i => .complete 1 i none

/-- Only node 1 gets all the last messages. It is then cut off, and node 4 tries again. -/
def forked : List (Label (List Scalar)) :=
  recovery ++ [.complete 1 1 none, .abort 1 2, .abort 1 3, .abort 1 4, .tick 100] ++
    tell 2 4 ++ tell 3 4 ++
    [.assemble 4 nodeList, .recover 4 0 (url 2) [(9 : ℕ)], .join 2 2 nodeList [(10 : ℕ)],
      .join 2 3 nodeList [(11 : ℕ)], .ready 2] ++
    [2, 3, 4].map fun i => .complete 2 i none

/-- The node holds a share of the epoch from the session. -/
def holds (s : State (List Scalar)) (p : Address) (epoch k : ℕ) : Bool :=
  (s.nodes p).st.shard.any fun shard => shard.epoch = epoch ∧ (s.nodes p).origin = k

theorem holds_shard {s : State (List Scalar)} {p : Address} {epoch k : ℕ}
    (h : holds s p epoch k = true) : ∃ shard, (s.nodes p).st.shard = some shard ∧
      shard.epoch = epoch ∧ (s.nodes p).origin = k := by
  obtain ⟨shard, hshard, htest⟩ := (Option.any_eq_true _ _).mp h
  exact ⟨shard, hshard, of_decide_eq_true htest⟩

end FourNodes

open FourNodes in
/-- Nodes 1 and 2 end up with shares of epoch 2 that come from different sessions, although the
    second session starts long after the first one is over. -/
theorem epoch_forks : ∃ labels s, exec next founding.init labels = some s ∧
    Meets next (fun s _ => OneActive s) founding.init labels ∧ OneActive s ∧
    ∃ sp sq, (s.nodes 1).st.shard = some sp ∧ (s.nodes 2).st.shard = some sq ∧
      sp.epoch = sq.epoch ∧ (s.nodes 1).origin ≠ (s.nodes 2).origin := by
  have hend : (exec next founding.init forked).any (fun s =>
      holds s 1 2 1 && holds s 2 2 2 && decide (OneActive s)) = true := by decide +kernel
  have hone : check next (fun s _ => decide (OneActive s)) founding.init forked = true := by
    decide +kernel
  obtain ⟨s, hrun, htest⟩ := (Option.any_eq_true _ _).mp hend
  simp only [Bool.and_eq_true, decide_eq_true_eq] at htest
  obtain ⟨sp, hsp, hep, hop⟩ := holds_shard htest.1.1
  obtain ⟨sq, hsq, heq, hoq⟩ := holds_shard htest.1.2
  refine ⟨forked, s, hrun, ?_, htest.2, sp, sq, hsp, hsq, hep.trans heq.symm, ?_⟩
  · exact meets_of_check (fun _ _ h => of_decide_eq_true h) hone
  · rw [hop, hoq]
    decide

open FourNodes in
/-- All four nodes complete the recovery and hold shares of one session. -/
theorem epoch_identifies_session_recovered : ∃ s, exec next founding.init recovered = some s ∧
    Meets next Fresh founding.init recovered ∧ (s.nodes 1).origin = (s.nodes 4).origin := by
  have hend : (exec next founding.init recovered).any (fun s =>
      holds s 1 2 1 && holds s 4 2 1) = true := by decide +kernel
  have htest : check next freshTest founding.init recovered = true := by decide +kernel
  have hfresh : Meets next Fresh founding.init recovered :=
    meets_of_check_of_invariant (I := Inv scalarBlsful scalarGennaro)
      (fun _ _ _ h hstep => h.step (moves_of_step hstep)) (fun _ _ h => freshTest_sound h)
      (inv_init founding) htest
  obtain ⟨s, hrun, hholds⟩ := (Option.any_eq_true _ _).mp hend
  rw [Bool.and_eq_true] at hholds
  obtain ⟨sp, hsp, hep, -⟩ := holds_shard hholds.1
  obtain ⟨sq, hsq, heq, -⟩ := holds_shard hholds.2
  exact ⟨s, hrun, hfresh, (epoch_identifies_session scalarBlsful scalarGennaro founding _ recovered
    s hrun hfresh 1 4 sp sq hsp hsq (hep.trans heq.symm)).1⟩

end KmsCluster.Cluster
