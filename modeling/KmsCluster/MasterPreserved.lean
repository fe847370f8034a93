import KmsCluster.EpochIdentity

/-!
# Resharing and the master

The group-key guard stops a session that would change the master, at the nodes that know the group
key. A node that restarts without its share knows none, and takes whatever key its session gives.
Its dealers are chosen by gossiped epochs, so they need not hold shares of one session.

## Main results

- `MasterInv.key_of_sound`: dealers with shares of one session, each at its own position, hand on
  that session's group key.
- `master_preserved`: every group key stored is the dealers' when the nodes without one only
  complete such sessions.
- `master_changes`: a recovering node stores another group key.
-/

namespace KmsCluster.Cluster

open Fallible Interpolation Polynomial Runs

/-- What the checks before a session leave of its request. -/
structure RequestOk (threshold : ℕ) (req : ReshareRequest) : Prop where
  nodup : req.dealerIds.Nodup
  bound : ∀ i ∈ req.dealerIds, i < 2 ^ 32
  recovering : req.recoveringId = 0 ∨ req.recoveringId ∉ req.dealerIds
  enough : req.recoveringId ≠ 0 → 0 < threshold ∧ threshold ≤ req.dealerIds.length

section Requests

variable {F R P : Type} {D : Gennaro F R P} {s : State P} {sess : Session P}

theorem peer_bound {st : AppState} {nodeList : List Address} {now : ℤ} {m : Membership}
    (h : assembleParticipants st (.ok nodeList) now = .ok (some m))
    (hbound : nodeList.length < 2 ^ 32) {i : ℕ} (hi : i ∈ m.peers.map (·.id)) :
    i < 2 ^ 32 ∧ i ≠ m.ownId := by
  obtain ⟨p, hp, rfl⟩ := List.mem_map.mp hi
  obtain ⟨hne, hpos, members, addr, info, hmembers, haddr, -⟩ := assembleParticipants_peer h hp
  cases hmembers
  have hlt := (List.getElem?_eq_some_iff.mp haddr).1
  exact ⟨by omega, hne⟩

theorem Opens.requestOk {t : ℕ}
    (hassembled : ∀ p, ∀ a ∈ (s.nodes p).assembled, a.config.threshold = t)
    (h : Opens D s sess) : RequestOk t sess.req := by
  cases h with
  | @recovery p a rnd req participant dealers ha hstart =>
    obtain ⟨hreq, hpos, -⟩ := startRecovery_eq_ok hstart
    obtain ⟨hdealers, hrecovering, hids, -⟩ := recoveryRequest_eq_ok hreq
    obtain ⟨rfl, henough, -⟩ := recoveryDealers_eq_ok hdealers
    obtain ⟨nodeList, config, m, hbound, st, now, hconfig, hassemble⟩ := a
    obtain ⟨-, -, -, -, -, hthreshold, -⟩ := assembleParticipants_eq_some hassemble
    have hsub : (m.leadingDealers.map (·.id)).Sublist (m.peers.map (·.id)) :=
      (leadingDealers_sublist m).map _
    have hmem : ∀ i ∈ req.dealerIds, i ∈ m.peers.map (·.id) := by
      intro i hi
      rw [hids, (List.perm_insertionSort _ _).mem_iff] at hi
      exact hsub.subset hi
    refine ⟨?_, ?_, ?_, ?_⟩
    · dsimp only
      rw [hids, (List.perm_insertionSort _ _).nodup_iff]
      exact hsub.nodup (assembleParticipants_nodup hassemble)
    · exact fun i hi => (peer_bound hassemble hbound (hmem i hi)).1
    · right
      dsimp only
      rw [hrecovering]
      exact fun hown => (peer_bound hassemble hbound (hmem _ hown)).2 rfl
    · intro _
      dsimp only
      rw [hids, List.length_insertionSort, List.length_map, ← hassembled p _ ha]
      dsimp only
      rw [← hconfig, ← hthreshold]
      exact ⟨hpos, henough⟩
  | @refresh p a req peers ha hreq =>
    obtain ⟨m, hm, -, -, -, -, hrecovering, hids, -⟩ := refreshRequest_eq_ok hreq
    obtain ⟨nodeList, config, membership, hbound, st, now, hconfig, hassemble⟩ := a
    obtain rfl : membership = m := Option.some.inj (Except.ok.inj hm)
    obtain ⟨members, hmembers, -, hposition, -⟩ := assembleParticipants_eq_some hassemble
    cases hmembers
    obtain ⟨hown, haddr⟩ := positionOf_eq_some hposition
    have hlt := (List.getElem?_eq_some_iff.mp haddr).1
    have hnew : membership.ownId ∉ membership.peers.map (·.id) :=
      fun hmem => (peer_bound hassemble hbound hmem).2 rfl
    refine ⟨?_, ?_, .inl hrecovering, fun hne => absurd hrecovering hne⟩
    · dsimp only
      rw [hids, (List.perm_insertionSort _ _).nodup_iff, List.nodup_append]
      refine ⟨assembleParticipants_nodup hassemble, List.nodup_singleton _, ?_⟩
      rintro i hi j hj rfl
      rw [List.mem_singleton] at hj
      exact hnew (hj ▸ hi)
    · intro i hi
      dsimp only at hi
      rw [hids, (List.perm_insertionSort _ _).mem_iff, List.mem_append, List.mem_singleton] at hi
      rcases hi with hi | rfl
      · exact (peer_bound hassemble hbound hi).1
      · omega

end Requests

section Master

variable {F G₁ G₂ R P : Type} [Field F] [DecidableEq F] [AddCommGroup G₁] [Module F G₁]

/-- What a member brings into its session. -/
inductive MemberOk (B : Blsful F G₁ G₂) (D : Gennaro F R P) (t : ℕ) (key : Bytes)
    (sess : Session P) (i : ℕ) (m : Member P) : Prop
  | founding {c : F} (hgenesis : sess.genesis = true) (h : ContributesPoly D m.participant t c)
  | recovering (hgenesis : sess.genesis = false) (hdealt : m.dealt = none)
      (hi : i = sess.req.recoveringId) (hne : sess.req.recoveringId ≠ 0)
      (h : ContributesPoly D m.participant t 0)
  | dealer {shard : ShardState} {j : ℕ} {secret : F} (hgenesis : sess.genesis = false)
      (hdealt : m.dealt = some (shard, j)) (hi : i ∈ sess.req.dealerIds) (hkey : m.key = some key)
      (hsecret : dealerSecret B (some shard) = .ok secret)
      (h : ContributesPoly D m.participant t
        (weight (sess.req.dealerIds.map fun d : ℕ => (d : F)) (i : F) * secret))

/-- Session `k` has everyone in and the given group key. -/
def HasKey (B : Blsful F G₁ G₂) (D : Gennaro F R P) (key : Bytes) (s : State P) (k : ℕ) : Prop :=
  ∃ sess, s.sessions[k]? = some sess ∧ sess.ready = true ∧ sess.key B D = key

/-- The one group key of the cluster, wherever a group key or a share is found. -/
structure MasterInv (B : Blsful F G₁ G₂) (D : Gennaro F R P) (t : ℕ) (key : Bytes)
    (s : State P) : Prop where
  config : ∀ p, (s.nodes p).st.config.threshold = t
  assembled : ∀ p, ∀ a ∈ (s.nodes p).assembled, a.config.threshold = t
  node : ∀ p k, (s.nodes p).st.groupPubkey = some k → k = key
  shard : ∀ p, (s.nodes p).st.shard ≠ none →
    (s.nodes p).st.groupPubkey ≠ none ∧ HasKey B D key s (s.nodes p).origin
  kept : ∀ p, ∀ rec ∈ (s.nodes p).sealedShares, rec.masterId = key ∧ HasKey B D key s rec.origin
  genesis : ∀ (k : ℕ) (sess : Session P), s.sessions[k]? = some sess → sess.genesis = true →
    sess.key B D = key
  request : ∀ (k : ℕ) (sess : Session P), s.sessions[k]? = some sess → sess.genesis = false →
    RequestOk t sess.req
  member : ∀ (k : ℕ) (sess : Session P) (i : ℕ) (m : Member P), s.sessions[k]? = some sess →
    sess.members i = some m → MemberOk B D t key sess i m
  dealt : ∀ (k : ℕ) (sess : Session P) (i : ℕ) (m : Member P) (shard : ShardState) (j : ℕ),
    s.sessions[k]? = some sess → sess.members i = some m → m.dealt = some (shard, j) →
    HasKey B D key s j
  running : ∀ (k : ℕ) (sess : Session P) (i : ℕ) (m : Member P), s.sessions[k]? = some sess →
    sess.members i = some m → m.running = true → m.dealt ≠ none →
    (s.nodes m.addr).st.groupPubkey ≠ none
  commits : ∀ c ∈ s.commits, c.key = key ∧ HasKey B D key s c.session

/-- A node without a group key completes a session only with dealers whose shares come from one
    session, each dealt at the position it was made for. -/
def Sound (s : State P) : Label R → Prop
  | .complete k i _ => ∀ sess m, s.sessions[k]? = some sess → sess.members i = some m →
    sess.genesis = false → (s.nodes m.addr).st.groupPubkey = none →
    ∃ j, ∀ d ∈ sess.req.dealerIds, ∀ md, sess.members d = some md →
      ∃ shard, md.dealt = some (shard, j) ∧ shard.shardIndex = d
  | _ => True

variable {B : Blsful F G₁ G₂} {D : Gennaro F R P} {s s' : State P} {l : Label R} {t : ℕ}
  {key : Bytes}

omit [AddCommGroup G₁] [Module F G₁] in
theorem MemberOk.contributes {sess : Session P} {i : ℕ} {m : Member P}
    (h : MemberOk B D t key sess i m) : ∃ c, ContributesPoly D m.participant t c := by
  cases h with
  | founding _ h => exact ⟨_, h⟩
  | recovering _ _ _ _ h => exact ⟨_, h⟩
  | dealer _ _ _ _ _ h => exact ⟨_, h⟩

/-- With everyone in, the value of a session is a polynomial. -/
theorem MasterInv.poly (h : MasterInv B D t key s) (hfull : Full s) {k : ℕ} {sess : Session P}
    (hsess : s.sessions[k]? = some sess) (hready : sess.ready = true) :
    ∃ f : F[X], f.degree < t ∧ ∀ x, sess.value D x = f.eval x := by
  have hpoly : ∀ i ∈ sess.req.participantIds, ∃ g : F[X], g.degree < t ∧
      g.eval 0 = (sess.members i).elim 0 (fun m => D.contribution m.participant 0) ∧
      ∀ x, (sess.members i).elim 0 (fun m => D.contribution m.participant x) = g.eval x := by
    intro i hi
    obtain ⟨m, hm⟩ := Option.ne_none_iff_exists'.mp (hfull k sess hsess hready i hi)
    obtain ⟨c, g, hdeg, -, hg⟩ := (h.member k sess i m hsess hm).contributes
    rw [hm]
    exact ⟨g, hdeg, (hg 0).symm, hg⟩
  obtain ⟨f, hdeg, -, hf⟩ := exists_poly_sum hpoly
  exact ⟨f, hdeg, hf⟩

section Lagrange

variable [AddCommGroup G₂] [Module F G₂]

/-- The secret a dealer reads from a share of a session is that session's value. -/
theorem dealerSecret_sessionShard (hB : B.Lawful) {id epoch : ℕ} {v secret : F}
    (h : dealerSecret B (some (sessionShard B id epoch v)) = .ok secret) : secret = v := by
  simp only [dealerSecret, okOr_some, ok_bind, sessionShard, hB.shareFromBytes_toBytes] at h
  exact (Except.ok.inj h).symm

/-- Dealers with shares of one session, each at the position it was made for, hand on the group
    key of that session. -/
theorem MasterInv.key_of_sound (hB : B.Lawful) (hinv : Inv B D s) (h : MasterInv B D t key s)
    {k : ℕ} {sess : Session P} (hsess : s.sessions[k]? = some sess) (hready : sess.ready = true)
    (hgenesis : sess.genesis = false) (hne : sess.req.recoveringId ≠ 0) {j : ℕ}
    (hj : ∀ d ∈ sess.req.dealerIds, ∀ md, sess.members d = some md →
      ∃ shard, md.dealt = some (shard, j) ∧ shard.shardIndex = d) : sess.key B D = key := by
  have hreq := h.request k sess hsess hgenesis
  obtain ⟨hpos, henough⟩ := hreq.enough hne
  have hfull : ∀ i ∈ sess.req.participantIds, ∃ m, sess.members i = some m :=
    fun i hi => Option.ne_none_iff_exists'.mp (hinv.full k sess hsess hready i hi)
  -- The session the dealers come from, and its polynomial.
  obtain ⟨d, hd⟩ := List.exists_mem_of_length_pos (lt_of_lt_of_le hpos henough)
  obtain ⟨md, hmd⟩ := hfull d (mem_participantIds.mpr (.inl hd))
  obtain ⟨shard, hdealt, -⟩ := hj d hd md hmd
  obtain ⟨source, hsource, hsourceReady, hsourceKey⟩ := h.dealt k sess d md shard j hsess hmd hdealt
  obtain ⟨f, hdeg, hf⟩ := h.poly hinv.full hsource hsourceReady
  have hcontributes : ∀ i ∈ sess.req.participantIds, ∃ g : F[X], g.degree < t ∧
      g.eval 0 = (if i ∈ sess.req.dealerIds then
        weight (sess.req.dealerIds.map fun d : ℕ => (d : F)) (i : F) * f.eval (i : F) else 0) ∧
      ∀ x, (sess.members i).elim 0 (fun m => D.contribution m.participant x) = g.eval x := by
    intro i hi
    obtain ⟨m, hm⟩ := hfull i hi
    rw [hm]
    cases h.member k sess i m hsess hm with
    | founding hgenesis' => rw [hgenesis] at hgenesis'; cases hgenesis'
    | recovering _ _ hi' _ hpoly =>
      rw [if_neg (hi' ▸ hreq.recovering.resolve_left hne)]
      exact hpoly
    | @dealer shard' j' secret _ hdealt' hi' _ hsecret hpoly =>
      obtain ⟨shard'', hdealt'', hindex⟩ := hj i hi' m hm
      cases hdealt'.symm.trans hdealt''
      obtain ⟨⟨source', hsource', -, hshard⟩, -⟩ := hinv.dealt k sess i m shard' j hsess hm hdealt'
      cases Option.some.inj (hsource'.symm.trans hsource)
      rw [hshard, hindex, hf] at hsecret
      rw [if_pos hi', ← dealerSecret_sessionShard hB hsecret]
      exact hpoly
  obtain ⟨f', -, hzero, hf'⟩ := exists_poly_sum hcontributes
  have hcast : (sess.req.dealerIds.map fun i : ℕ => (i : F)).Nodup :=
    hreq.nodup.map_on fun i hi j hj => hB.cast_inj i j (hreq.bound i hi) (hreq.bound j hj)
  have hlarge : f.degree < sess.req.dealerIds.length :=
    lt_of_lt_of_le hdeg (by exact_mod_cast henough)
  have hvalue : sess.value D (0 : F) = source.value D 0 := by
    calc sess.value D (0 : F) = f'.eval 0 := hf' 0
      _ = f.eval 0 := by rw [hzero, sum_constants hcast hlarge hreq.recovering]
      _ = source.value D 0 := (hf 0).symm
  rw [← hsourceKey, Session.key, hvalue, Session.key]

/-- Whoever completes a session stores the group key of the cluster. -/
theorem MasterInv.committed_key (hB : B.Lawful) (hinv : Inv B D s) (h : MasterInv B D t key s)
    {k i : ℕ} {blob : Option String} {sess : Session P} {m : Member P}
    (hsound : Sound s (.complete k i blob : Label R)) (hsess : s.sessions[k]? = some sess)
    (hm : sess.members i = some m) (hready : sess.ready = true) (hrunning : m.running = true)
    (hkeeps : sess.genesis = true ∨
      keepsGroupKey (s.nodes m.addr).st.groupPubkey (sess.key B D) = true) :
    sess.key B D = key := by
  cases hgenesis : sess.genesis with
  | true => exact h.genesis k sess hsess hgenesis
  | false =>
    cases hknown : (s.nodes m.addr).st.groupPubkey with
    | some known =>
      have hguard := hkeeps.resolve_left (by simp [hgenesis])
      rw [hknown, keepsGroupKey, Option.all_some, beq_iff_eq] at hguard
      rw [← hguard]
      exact h.node m.addr known hknown
    | none =>
      have hnone : m.dealt = none := by
        by_contra hdealt
        exact h.running k sess i m hsess hm hrunning hdealt hknown
      cases h.member k sess i m hsess hm with
      | founding hgenesis' => rw [hgenesis] at hgenesis'; cases hgenesis'
      | dealer _ hdealt => rw [hnone] at hdealt; cases hdealt
      | recovering _ _ _ hne =>
        obtain ⟨j, hj⟩ := hsound sess m hsess hm hgenesis hknown
        exact h.key_of_sound hB hinv hsess hready hgenesis hne hj

end Lagrange

omit [DecidableEq F] in
theorem HasKey.keeps {k : ℕ} (h : HasKey B D key s k) (hkeeps : Keeps D s s') :
    HasKey B D key s' k := by
  obtain ⟨sess, hsess, hready, hkey⟩ := h
  obtain ⟨sess', hsess', hready', -, hvalue⟩ := hkeeps.session k sess hsess hready
  refine ⟨sess', hsess', hready', ?_⟩
  rw [← hkey, Session.key, hvalue, Session.key]

omit [AddCommGroup G₁] [Module F G₁] in
theorem MemberOk.same {sess sess' : Session P} {i : ℕ} {m m' : Member P}
    (h : MemberOk B D t key sess i m) (hgenesis : sess'.genesis = sess.genesis)
    (hreq : sess'.req = sess.req) (hsame : SameMember m m') : MemberOk B D t key sess' i m' := by
  cases h with
  | founding hg h => exact .founding (hgenesis ▸ hg) (hsame.participant ▸ h)
  | recovering hg hdealt hi hne h =>
    exact .recovering (hgenesis ▸ hg) (hsame.dealt ▸ hdealt) (hreq ▸ hi) (hreq ▸ hne)
      (hsame.participant ▸ h)
  | dealer hg hdealt hi hkey hsecret h =>
    refine .dealer (hgenesis ▸ hg) (hsame.dealt ▸ hdealt) (hreq ▸ hi) (hsame.key ▸ hkey) hsecret ?_
    rw [hsame.participant, hreq]
    exact h

omit [AddCommGroup G₁] [Module F G₁] in
/-- The one member of a session just opened is its recovering node. -/
theorem Opens.memberOk (hD : D.Lawful)
    (hassembled : ∀ p, ∀ a ∈ (s.nodes p).assembled, a.config.threshold = t) {sess : Session P}
    (h : Opens D s sess) {i : ℕ} {m : Member P} (hm : sess.members i = some m) :
    MemberOk B D t key sess i m := by
  obtain ⟨hgenesis, -, hfacts⟩ := h.facts
  obtain ⟨hdealt, hi, hne⟩ := hfacts i m hm
  refine .recovering hgenesis hdealt hi hne ?_
  cases h with
  | refresh => cases hm
  | @recovery p a _ _ _ _ ha hstart =>
    obtain ⟨-, -, hnew⟩ := startRecovery_eq_ok hstart
    obtain ⟨st, now, hconfig, hassemble⟩ := a.source
    obtain ⟨-, -, -, -, -, hthreshold, -⟩ := assembleParticipants_eq_some hassemble
    rw [hthreshold, hconfig, hassembled p a ha] at hnew
    by_cases hown : i = a.membership.ownId
    · subst hown
      simp only [Function.update_self, Option.some.injEq] at hm
      subst hm
      exact hD.refreshNew_contributes _ _ _ _ _ hnew
    · simp [Function.update_of_ne hown] at hm

/-- What the nodes hold and have sealed after a step in which `hcommitted` holds of whoever
    completes a session. -/
theorem MasterInv.step_nodes (h : MasterInv B D t key s) (hmoves : Moves B D s l s')
    (hkeeps : Keeps D s s')
    (hcommitted : ∀ {k i : ℕ} {blob : Option String} {sess : Session P} {m : Member P},
      l = .complete k i blob → s.sessions[k]? = some sess → sess.members i = some m →
      sess.ready = true → m.running = true → (sess.genesis = true ∨
        keepsGroupKey (s.nodes m.addr).st.groupPubkey (sess.key B D) = true) →
      sess.key B D = key) (p : Address) :
    (s'.nodes p).st.config.threshold = t ∧
      (∀ k, (s'.nodes p).st.groupPubkey = some k → k = key) ∧
      ((s'.nodes p).st.shard ≠ none →
        (s'.nodes p).st.groupPubkey ≠ none ∧ HasKey B D key s' (s'.nodes p).origin) ∧
      ∀ rec ∈ (s'.nodes p).sealedShares, rec.masterId = key ∧ HasKey B D key s' rec.origin := by
  have hkept : ∀ rec ∈ (s.nodes p).sealedShares,
      rec.masterId = key ∧ HasKey B D key s' rec.origin :=
    fun rec hrec => ⟨(h.kept p rec hrec).1, (h.kept p rec hrec).2.keeps hkeeps⟩
  cases hmoves.node p with
  | kept hsame =>
    rw [hsame.config, hsame.key, hsame.shard, hsame.origin, hsame.sealedShares]
    exact ⟨h.config p, h.node p,
      fun hne => ⟨(h.shard p hne).1, (h.shard p hne).2.keeps hkeeps⟩, hkept⟩
  | crashed hconfig hshard hkey hsealed =>
    rw [hconfig, hshard, hkey, hsealed]
    exact ⟨h.config p, by simp, fun hne => absurd rfl hne, hkept⟩
  | @reloaded rec hrec hconfig hshard hkey horigin hsealed =>
    rw [hconfig, hkey, horigin, hsealed]
    refine ⟨h.config p, ?_, fun _ => ⟨by simp, (hkept rec hrec).2⟩, hkept⟩
    rintro k ⟨⟩
    exact (hkept rec hrec).1
  | @committed k i blob sess m hl hsess hm haddr hready hrunning hguard hconfig hshard hkey horigin
      hsealed =>
    subst haddr
    have hmaster : sess.key B D = key := hcommitted hl hsess hm hready hrunning hguard
    have hhas : HasKey B D key s' k :=
      HasKey.keeps ⟨sess, hsess, hready, hmaster⟩ hkeeps
    rw [hconfig, hkey, horigin, hsealed]
    refine ⟨h.config m.addr, ?_, fun _ => ⟨by simp, hhas⟩, ?_⟩
    · rintro k' ⟨⟩
      exact hmaster
    · intro rec hrec
      rcases mem_addSealed hrec with ⟨-, hmasterId, hk⟩ | hold
      · rw [hmasterId, hk]
        exact ⟨hmaster, hhas⟩
      · exact hkept rec hold

/-- What the sessions are made of after a step. -/
theorem MasterInv.step_session (hD : D.Lawful) (h : MasterInv B D t key s)
    (hmoves : Moves B D s l s') (hkeeps : Keeps D s s') {k : ℕ} {sess' : Session P}
    (hsess' : s'.sessions[k]? = some sess') :
    (sess'.genesis = true → sess'.key B D = key) ∧
      (sess'.genesis = false → RequestOk t sess'.req) ∧
      ∀ i m, sess'.members i = some m → MemberOk B D t key sess' i m ∧
        ∀ shard j, m.dealt = some (shard, j) → HasKey B D key s' j := by
  cases hmoves.session hsess' with
  | @narrows sess hsess hnarrows =>
    have hkey : sess'.key B D = sess.key B D := by rw [Session.key, hnarrows.value, Session.key]
    rw [hkey, hnarrows.genesis, hnarrows.req]
    refine ⟨h.genesis k sess hsess, h.request k sess hsess, fun i m' hm' => ?_⟩
    obtain ⟨m, hm, hsame⟩ := hnarrows.member hm'
    refine ⟨(h.member k sess i m hsess hm).same hnarrows.genesis hnarrows.req hsame, ?_⟩
    intro shard j hdealt
    exact (h.dealt k sess i m shard j hsess hm (hsame.dealt ▸ hdealt)).keeps hkeeps
  | opened _ hopens =>
    obtain ⟨hgenesis, -, hfacts⟩ := hopens.facts
    refine ⟨fun hg => ?_, fun _ => hopens.requestOk h.assembled, fun i m hm => ?_⟩
    · rw [hgenesis] at hg
      cases hg
    · refine ⟨hopens.memberOk hD h.assembled hm, fun shard j hdealt => ?_⟩
      rw [(hfacts i m hm).1] at hdealt
      cases hdealt
  | @joined p _ rnd sess shard ownId participant peers hsess hshard hstart hgenesis hfree hjoined =>
    subst hjoined
    refine ⟨fun hg => ?_, h.request k sess hsess, fun i m hm => ?_⟩
    · rw [Session.setMember, hgenesis] at hg
      cases hg
    · by_cases hi : i = ownId
      · subst hi
        simp only [Session.setMember, Function.update_self, Option.some.injEq] at hm
        subst hm
        obtain ⟨ownIndex, secret, hindex, -, hsecret, hparticipant⟩ := startDealer_eq_ok hstart
        obtain ⟨hknown, hhas⟩ := h.shard p (by simp [hshard])
        obtain ⟨known, hknown⟩ := Option.ne_none_iff_exists'.mp hknown
        rw [h.config p] at hparticipant
        rw [hshard] at hsecret
        have hcast : (sess.req.dealerIds.map fun d : ℕ => (d : F))[ownIndex]? = some (i : F) := by
          rw [List.getElem?_map, hindex]
          rfl
        refine ⟨.dealer hgenesis rfl (List.mem_of_getElem? hindex) ?_ hsecret ?_, ?_⟩
        · rw [hknown, h.node p known hknown]
        · exact hD.withSecret_contributes _ _ _ _ _ _ _ _ _ hparticipant hcast
        · rintro _ _ ⟨⟩
          exact hhas.keeps hkeeps
      · simp only [Session.setMember, Function.update_of_ne hi] at hm
        refine ⟨(h.member k sess i m hsess hm).same rfl rfl (.refl m), fun shard' j hdealt => ?_⟩
        exact (h.dealt k sess i m shard' j hsess hm hdealt).keeps hkeeps
  | @becameReady sess _ hsess _ hready =>
    subst hready
    refine ⟨h.genesis k sess hsess, h.request k sess hsess, fun i m hm => ?_⟩
    refine ⟨(h.member k sess i m hsess hm).same rfl rfl (.refl m), fun shard j hdealt => ?_⟩
    exact (h.dealt k sess i m shard j hsess hm hdealt).keeps hkeeps

omit [DecidableEq F] in
/-- A dealer that is still in its session still knows the group key it joined with. -/
theorem running_step {k : ℕ} {sess' : Session P} {i : ℕ} {m' : Member P} (hmoves : Moves B D s l s')
    (hrunning : ∀ (k : ℕ) (sess : Session P) (i : ℕ) (m : Member P), s.sessions[k]? = some sess →
      sess.members i = some m → m.running = true → m.dealt ≠ none →
      (s.nodes m.addr).st.groupPubkey ≠ none)
    (hshard : ∀ p, (s.nodes p).st.shard ≠ none → (s.nodes p).st.groupPubkey ≠ none)
    (hsess' : s'.sessions[k]? = some sess') (hm' : sess'.members i = some m')
    (hrun' : m'.running = true) (hdealt : m'.dealt ≠ none) :
    (s'.nodes m'.addr).st.groupPubkey ≠ none := by
  intro hnone
  rcases hmoves.keyless hnone with hold | hstopped
  · cases hmoves.session hsess' with
    | narrows hsess hnarrows =>
      obtain ⟨m, hm, hsame⟩ := hnarrows.member hm'
      rw [hsame.addr] at hold
      exact hrunning k _ i m hsess hm (hsame.running hrun') (hsame.dealt ▸ hdealt) hold
    | opened _ hopens => exact hdealt (hopens.facts.2.2 i m' hm').1
    | @joined p _ _ sess _ ownId _ _ hsess hshard' _ _ _ hjoined =>
      subst hjoined
      by_cases hi : i = ownId
      · subst hi
        simp only [Session.setMember, Function.update_self, Option.some.injEq] at hm'
        subst hm'
        exact hshard p (by simp [hshard']) hold
      · simp only [Session.setMember, Function.update_of_ne hi] at hm'
        exact hrunning k sess i m' hsess hm' hrun' hdealt hold
    | @becameReady sess _ hsess _ hready =>
      subst hready
      exact hrunning k sess i m' hsess hm' hrun' hdealt hold
  · rw [hstopped k sess' i m' hsess' hm' rfl] at hrun'
    cases hrun'

theorem MasterInv.step [AddCommGroup G₂] [Module F G₂] (hB : B.Lawful) (hD : D.Lawful)
    (hinv : Inv B D s) (h : MasterInv B D t key s) (hsound : Sound s l)
    (hmoves : Moves B D s l s') : MasterInv B D t key s' := by
  have hkeeps := hmoves.keeps hinv.full
  have hcommitted : ∀ {k i : ℕ} {blob : Option String} {sess : Session P} {m : Member P},
      l = .complete k i blob → s.sessions[k]? = some sess → sess.members i = some m →
      sess.ready = true → m.running = true → (sess.genesis = true ∨
        keepsGroupKey (s.nodes m.addr).st.groupPubkey (sess.key B D) = true) →
      sess.key B D = key := by
    rintro k i blob sess m rfl hsess hm hready hrunning hguard
    exact h.committed_key hB hinv hsound hsess hm hready hrunning hguard
  have hnodes := h.step_nodes hmoves hkeeps hcommitted
  have hsessions := fun (k : ℕ) (sess' : Session P) (hsess' : s'.sessions[k]? = some sess') =>
    h.step_session hD hmoves hkeeps hsess'
  refine ⟨fun p => (hnodes p).1, ?_, fun p => (hnodes p).2.1, fun p => (hnodes p).2.2.1,
    fun p => (hnodes p).2.2.2, fun k sess hsess => (hsessions k sess hsess).1,
    fun k sess hsess => (hsessions k sess hsess).2.1,
    fun k sess i m hsess hm => ((hsessions k sess hsess).2.2 i m hm).1,
    fun k sess i m shard j hsess hm => ((hsessions k sess hsess).2.2 i m hm).2 shard j, ?_, ?_⟩
  · intro p a ha
    rcases hmoves.assembled ha with hold | hconfig
    · exact h.assembled p a hold
    · rw [hconfig]
      exact h.config p
  · intro k sess i m hsess hm hrunning hdealt
    exact running_step hmoves h.running (fun p hne => (h.shard p hne).1) hsess hm hrunning hdealt
  · intro c hc
    have hold : c ∈ s.commits → c.key = key ∧ HasKey B D key s' c.session :=
      fun hold => ⟨(h.commits c hold).1, (h.commits c hold).2.keeps hkeeps⟩
    cases hmoves with
    | quiet _ _ hcommits => exact hold (hcommits ▸ hc)
    | opens _ _ _ hcommits => exact hold (hcommits ▸ hc)
    | stops _ _ _ _ hcommits => exact hold (hcommits ▸ hc)
    | @commits _ _ _ sess _ _ hsess hm hready hrunning hguard =>
      rcases List.mem_cons.mp hc with rfl | hmem
      · have hkey := hcommitted rfl hsess hm hready hrunning hguard
        exact ⟨hkey, HasKey.keeps ⟨sess, hsess, hready, hkey⟩ hkeeps⟩
      · exact hold hmem
    | _ => exact hold hc

theorem master_init (g : Founding F R P D) :
    MasterInv B D g.threshold (g.session.key B D) g.init := by
  have hsession : ∀ {k : ℕ} {sess : Session P}, g.init.sessions[k]? = some sess →
      sess = g.session := fun hsess => List.mem_singleton.mp (List.mem_of_getElem? hsess)
  have hmember : ∀ {i : ℕ} {m : Member P}, g.session.members i = some m →
      m.participant = g.participant i ∧ m.dealt = none := by
    intro i m hm
    simp only [Founding.session] at hm
    split at hm
    · cases hm
    · obtain ⟨addr, -, rfl⟩ := Option.map_eq_some_iff.mp hm
      exact ⟨rfl, rfl⟩
  refine ⟨fun p => g.config_threshold p, ?_, ?_, fun p hne => absurd rfl hne, ?_, ?_, ?_, ?_, ?_,
    ?_, ?_⟩
  · intro p a ha
    cases ha
  · intro p k hk
    cases hk
  · intro p rec hrec
    cases hrec
  · intro k sess hsess _
    rw [hsession hsess]
  · intro k sess hsess hgenesis
    rw [hsession hsess] at hgenesis
    cases hgenesis
  · intro k sess i m hsess hm
    cases hsession hsess
    obtain ⟨c, hc⟩ := g.contributes i
    exact .founding rfl ((hmember hm).1 ▸ hc)
  · intro k sess i m shard j hsess hm hdealt
    cases hsession hsess
    rw [(hmember hm).2] at hdealt
    cases hdealt
  · intro k sess i m hsess hm _ hdealt
    cases hsession hsess
    exact absurd (hmember hm).2 hdealt
  · intro c hc
    cases hc

/-- In every run in which a node without a group key only completes sessions whose dealers hold
    shares of one session at their own positions, every node that completes a reshare or a refresh
    stores the group key that all its dealers knew when they joined. -/
theorem master_preserved [AddCommGroup G₂] [Module F G₂] (hB : B.Lawful) (hD : D.Lawful)
    (g : Founding F R P D) (pubkeyOf : Address → Bytes) (labels : List (Label R)) (s : State P)
    (hrun : exec (step B D pubkeyOf) g.init labels = some s)
    (hsound : Meets (step B D pubkeyOf) Sound g.init labels) :
    ∀ c ∈ s.commits, ∀ sess, s.sessions[c.session]? = some sess → sess.genesis = false →
      ∀ d ∈ sess.req.dealerIds, ∃ md, sess.members d = some md ∧ md.key = some c.key := by
  obtain ⟨hinv, hmaster⟩ : Inv B D s ∧ MasterInv B D g.threshold (g.session.key B D) s :=
    exec_invariant_of_meets
      (I := fun s => Inv B D s ∧ MasterInv B D g.threshold (g.session.key B D) s)
      (fun s l s' h hl hstep => by
        have hmoves := moves_of_step hstep
        exact ⟨h.1.step hmoves, h.2.step hB hD h.1 hl hmoves⟩)
      ⟨inv_init g, master_init g⟩ hsound hrun
  intro c hc sess hsess hgenesis d hd
  obtain ⟨hkey, sess', hsess', hready, -⟩ := hmaster.commits c hc
  cases Option.some.inj (hsess'.symm.trans hsess)
  have hin := hinv.full _ sess hsess hready d (mem_participantIds.mpr (.inl hd))
  obtain ⟨md, hmd⟩ := Option.ne_none_iff_exists'.mp hin
  refine ⟨md, hmd, ?_⟩
  cases hmaster.member _ sess d md hsess hmd with
  | founding hgenesis' =>
    rw [hgenesis] at hgenesis'
    cases hgenesis'
  | recovering _ _ hi hne =>
    -- The recovering node is not among the dealers.
    have hreq := hmaster.request _ sess hsess hgenesis
    exact absurd (hi ▸ hd) (hreq.recovering.resolve_left hne)
  | dealer _ _ _ hdealerKey => rw [hdealerKey, hkey]

/-- A test for `Sound`. -/
def soundTest (s : State P) : Label R → Bool
  | .complete k i _ => (s.sessions[k]?).all fun sess => (sess.members i).all fun m =>
    sess.genesis || (s.nodes m.addr).st.groupPubkey.isSome ||
      (List.range s.sessions.length).any fun j => sess.req.dealerIds.all fun d =>
        (sess.members d).all fun md =>
          md.dealt.any fun dealt => dealt.2 = j ∧ dealt.1.shardIndex = d
  | _ => true

theorem soundTest_sound (h : soundTest s l = true) : Sound s l := by
  cases l with
  | complete k i blob =>
    intro sess m hsess hm hgenesis hnone
    simp only [soundTest, hsess, hm, hgenesis, hnone, Option.all_some, Option.isSome_none,
      Bool.false_or, List.any_eq_true] at h
    obtain ⟨j, -, hj⟩ := h
    refine ⟨j, fun d hd md hmd => ?_⟩
    have hd' := List.all_eq_true.mp hj d hd
    rw [hmd, Option.all_some, Option.any_eq_true] at hd'
    obtain ⟨⟨shard, j'⟩, hdealt, htest⟩ := hd'
    obtain ⟨rfl, hindex⟩ := of_decide_eq_true htest
    exact ⟨shard, hdealt, hindex⟩
  | _ => trivial

end Master

open FourNodes in
/-- Node 4 recovers from the other three and stores the group key they have. -/
theorem master_preserved_recovered : ∃ s, exec next founding.init recovered = some s ∧
    ∃ c ∈ s.commits, c.addr = 4 ∧ c.session = 1 ∧
      ∃ sess, s.sessions[1]? = some sess ∧ sess.req.dealerIds = [1, 2, 3] ∧
        ∀ d ∈ sess.req.dealerIds, ∃ md, sess.members d = some md ∧ md.key = some c.key := by
  have hend : (exec next founding.init recovered).any (fun s =>
      (s.commits.any fun c => c.addr = 4 ∧ c.session = 1) &&
      (s.sessions[1]?).any fun sess => sess.genesis = false ∧ sess.req.dealerIds = [1, 2, 3]) =
      true := by decide +kernel
  have htest : check next soundTest founding.init recovered = true := by decide +kernel
  obtain ⟨s, hrun, hfinal⟩ := (Option.any_eq_true _ _).mp hend
  rw [Bool.and_eq_true, List.any_eq_true] at hfinal
  obtain ⟨⟨c, hc, hcommit⟩, hsession⟩ := hfinal
  obtain ⟨sess, hsess, hfacts⟩ := (Option.any_eq_true _ _).mp hsession
  obtain ⟨haddr, hk⟩ := of_decide_eq_true hcommit
  obtain ⟨hgenesis, hids⟩ := of_decide_eq_true hfacts
  refine ⟨s, hrun, c, hc, haddr, hk, sess, hsess, hids, ?_⟩
  exact master_preserved scalarBlsful_lawful scalarGennaro_lawful founding _ recovered s hrun
    (meets_of_check (fun _ _ => soundTest_sound) htest) c hc sess (hk ▸ hsess) hgenesis

namespace FourNodes

/-- `p` pushes to `q` and takes in the reply. -/
def ask (p q : Address) : List (Label (List Scalar)) :=
  [.gossipStart p, .gossipPush p q, .gossipMerge p, .gossipDone p]

/-- A recovery of node 3 reaches epoch 2 at nodes 2 and 3 only. Node 4, which has restarted, is told
    by node 1 that node 2 is at epoch 1, and by node 2 that node 3 is at epoch 2. It does not hear
    node 3, and recovers into epoch 3 from nodes 1 and 2. -/
def mixed : List (Label (List Scalar)) :=
  genesis ++ tell 2 1 ++ [.crash 3, .boot 3] ++ tell 1 3 ++ tell 2 3 ++ tell 4 3 ++
    [.assemble 3 nodeList, .recover 3 0 (url 1) [(5 : ℕ)], .join 1 1 nodeList [(6 : ℕ)],
      .join 1 2 nodeList [(7 : ℕ)], .join 1 4 nodeList [(8 : ℕ)], .ready 1,
      .complete 1 2 none, .complete 1 3 none, .abort 1 1, .abort 1 4] ++
    tell 3 2 ++ [.crash 4, .boot 4] ++ tell 1 4 ++ ask 4 1 ++ ask 4 2 ++
    [.assemble 4 nodeList, .recover 4 0 (url 1) [(9 : ℕ)], .join 2 1 nodeList [(10 : ℕ)],
      .join 2 2 nodeList [(11 : ℕ)], .ready 2, .complete 2 4 none]

end FourNodes

open FourNodes in
/-- Node 4 ends up with a group key that neither of its dealers has. -/
theorem master_changes : ∃ labels s, exec next founding.init labels = some s ∧
    ∃ c ∈ s.commits, (s.nodes c.addr).st.groupPubkey = some c.key ∧
      ∃ sess, s.sessions[c.session]? = some sess ∧ sess.genesis = false ∧
        ∃ d ∈ sess.req.dealerIds, ∃ md, sess.members d = some md ∧ md.key ≠ some c.key := by
  have hend : (exec next founding.init mixed).any (fun s => s.commits.any fun c =>
      decide ((s.nodes c.addr).st.groupPubkey = some c.key) &&
      (s.sessions[c.session]?).any fun sess => !sess.genesis &&
        sess.req.dealerIds.any fun d => (sess.members d).any fun md => md.key ≠ some c.key) =
      true := by decide +kernel
  obtain ⟨s, hrun, hfinal⟩ := (Option.any_eq_true _ _).mp hend
  obtain ⟨c, hc, hcommit⟩ := List.any_eq_true.mp hfinal
  rw [Bool.and_eq_true, decide_eq_true_eq] at hcommit
  obtain ⟨sess, hsess, hfacts⟩ := (Option.any_eq_true _ _).mp hcommit.2
  rw [Bool.and_eq_true, Bool.not_eq_true', List.any_eq_true] at hfacts
  obtain ⟨hgenesis, d, hd, hdealer⟩ := hfacts
  obtain ⟨md, hmd, hne⟩ := (Option.any_eq_true _ _).mp hdealer
  exact ⟨mixed, s, hrun, c, hc, hcommit.1, sess, hsess, hgenesis, d, hd, md, hmd,
    of_decide_eq_true hne⟩

end KmsCluster.Cluster
