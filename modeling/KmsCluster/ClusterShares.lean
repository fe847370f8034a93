import KmsCluster.Cluster

/-!
# Where the shares come from

How sessions and nodes change from step to step, and the invariant that ties them together: every
share that is held, sealed or dealt is the value of a session, and that session's value is fixed
once all participants are in.

## Main results

- `Moves.node`, `Moves.session`: what a step can do to one node and to one session.
- `inv_run`: every share comes from a session.
-/

namespace KmsCluster.Cluster

open Fallible Runs

/-- The member is the same; it may have left the session. -/
structure SameMember {P : Type} (m m' : Member P) : Prop where
  addr : m'.addr = m.addr
  participant : m'.participant = m.participant
  dealt : m'.dealt = m.dealt
  key : m'.key = m.key
  running : m'.running = true → m.running = true

theorem SameMember.refl {P : Type} (m : Member P) : SameMember m m := ⟨rfl, rfl, rfl, rfl, id⟩

/-- The session is the same; some members may have left. -/
structure Narrows {P : Type} (sess sess' : Session P) : Prop where
  genesis : sess'.genesis = sess.genesis
  req : sess'.req = sess.req
  ready : sess'.ready = sess.ready
  members : ∀ i, Option.Rel SameMember (sess.members i) (sess'.members i)

section Sessions

variable {F R P : Type} [Field F] {D : Gennaro F R P} {s s' : State P} {sess sess' : Session P}

omit [Field F] in
theorem rel_refl (o : Option (Member P)) : Option.Rel SameMember o o := by
  cases o with
  | none => exact .none
  | some m => exact .some (.refl m)

theorem Narrows.refl (sess : Session P) : Narrows sess sess := ⟨rfl, rfl, rfl, fun _ => rel_refl _⟩

theorem narrows_stop (sess : Session P) (p : Address) : Narrows sess (sess.stop p) := by
  refine ⟨rfl, rfl, rfl, fun i => ?_⟩
  simp only [Session.stop]
  cases sess.members i with
  | none => exact .none
  | some m =>
    refine .some ?_
    dsimp only
    split
    · exact ⟨rfl, rfl, rfl, rfl, nofun⟩
    · exact .refl m

theorem narrows_leave {i : ℕ} {m : Member P} (h : sess.members i = some m) :
    Narrows sess (sess.setMember i { m with running := false }) := by
  refine ⟨rfl, rfl, rfl, fun j => ?_⟩
  by_cases hj : j = i
  · subst hj
    simp only [Session.setMember, Function.update_self, h]
    exact .some ⟨rfl, rfl, rfl, rfl, nofun⟩
  · simp only [Session.setMember, Function.update_of_ne hj]
    exact rel_refl _

theorem getElem?_setSession {k : ℕ} (h : s.sessions[k]? = some sess) (j : ℕ) :
    (s.setSession k sess').sessions[j]? = if j = k then some sess' else s.sessions[j]? := by
  have hlt : k < s.sessions.length := (List.getElem?_eq_some_iff.mp h).1
  simp only [State.setSession, List.getElem?_set, hlt, if_true, eq_comm (a := k)]

theorem Narrows.member (h : Narrows sess sess') {i : ℕ} {m' : Member P}
    (hm : sess'.members i = some m') : ∃ m, sess.members i = some m ∧ SameMember m m' := by
  have hrel := h.members i
  rw [hm] at hrel
  cases hmem : sess.members i with
  | none =>
    rw [hmem] at hrel
    cases hrel
  | some m =>
    rw [hmem] at hrel
    cases hrel with
    | some hsame => exact ⟨m, rfl, hsame⟩

theorem Narrows.members_ne (h : Narrows sess sess') {i : ℕ} (hm : sess.members i ≠ none) :
    sess'.members i ≠ none := by
  have hrel := h.members i
  intro hnone
  rw [hnone] at hrel
  cases hmem : sess.members i with
  | none => exact hm hmem
  | some m =>
    rw [hmem] at hrel
    cases hrel

theorem Narrows.active (h : Narrows sess sess') (hactive : sess'.active = true) :
    sess.active = true := by
  unfold Session.active at hactive ⊢
  rw [h.req, List.any_eq_true] at hactive
  obtain ⟨i, hi, hrunning⟩ := hactive
  obtain ⟨m', hm', hrunning'⟩ := (Option.any_eq_true _ _).mp hrunning
  obtain ⟨m, hm, hsame⟩ := h.member hm'
  rw [List.any_eq_true]
  refine ⟨i, hi, ?_⟩
  rw [hm]
  exact hsame.running hrunning'

theorem Narrows.value (h : Narrows sess sess') (x : F) : sess'.value D x = sess.value D x := by
  unfold Session.value
  rw [h.req]
  apply congrArg List.sum
  apply List.map_congr_left
  intro i _
  have hrel := h.members i
  cases hmem : sess.members i with
  | none =>
    rw [hmem] at hrel
    generalize sess'.members i = o at hrel ⊢
    cases hrel
    rfl
  | some m =>
    rw [hmem] at hrel
    generalize sess'.members i = o at hrel ⊢
    cases hrel with
    | some hsame => rw [Option.elim_some, Option.elim_some, hsame.participant]

/-- Sessions that had everyone in keep their request and their value, and the log grows. -/
structure Keeps (D : Gennaro F R P) (s s' : State P) : Prop where
  session : ∀ (k : ℕ) (sess : Session P), s.sessions[k]? = some sess → sess.ready = true →
    ∃ sess' : Session P, s'.sessions[k]? = some sess' ∧ sess'.ready = true ∧ sess'.req = sess.req ∧
      ∀ x, sess'.value D x = sess.value D x
  commits : ∀ c ∈ s.commits, c ∈ s'.commits

end Sessions

section Views

variable {F G₁ G₂ R P : Type} [Field F] [AddCommGroup G₁] [Module F G₁]

/-- What a step can do to the node at `p`, with the log after it. -/
inductive NodeMoves (B : Blsful F G₁ G₂) (D : Gennaro F R P) (s : State P) (l : Label R)
    (p : Address) (commits : List Commit) (node : Node) : Prop
  | kept (h : Kept (s.nodes p) node)
  | crashed (hconfig : node.st.config = (s.nodes p).st.config) (hshard : node.st.shard = none)
      (hkey : node.st.groupPubkey = none) (hsealed : node.sealedShares = (s.nodes p).sealedShares)
      (hassembled : node.assembled = [])
  | reloaded {rec : SealedShare} (hrec : rec ∈ (s.nodes p).sealedShares)
      (hconfig : node.st.config = (s.nodes p).st.config) (hshard : node.st.shard = some rec.shard)
      (hkey : node.st.groupPubkey = some rec.masterId) (horigin : node.origin = rec.origin)
      (hsealed : node.sealedShares = (s.nodes p).sealedShares)
      (hassembled : node.assembled = (s.nodes p).assembled)
  | committed {k i : ℕ} {blob : Option String} {sess : Session P} {m : Member P}
      (hl : l = .complete k i blob) (hsess : s.sessions[k]? = some sess)
      (hm : sess.members i = some m) (haddr : m.addr = p) (hready : sess.ready = true)
      (hrunning : m.running = true)
      (hkeeps : sess.genesis = true ∨
        keepsGroupKey (s.nodes p).st.groupPubkey (sess.key B D) = true)
      (hconfig : node.st.config = (s.nodes p).st.config)
      (hshard : node.st.shard = some (sessionShard B i sess.req.epoch (sess.value D (i : F))))
      (hkey : node.st.groupPubkey = some (sess.key B D)) (horigin : node.origin = k)
      (hsealed : node.sealedShares = addSealed (s.nodes p).sealedShares
        (sessionShard B i sess.req.epoch (sess.value D (i : F))) (sess.key B D) k blob)
      (hassembled : node.assembled = (s.nodes p).assembled)
      (hlogged : ⟨p, k, sess.key B D⟩ ∈ commits)

/-- What a step can make of session `k`. -/
inductive SessionMoves (B : Blsful F G₁ G₂) (D : Gennaro F R P) (s : State P) (l : Label R)
    (k : ℕ) (sess' : Session P) : Prop
  | narrows {sess : Session P} (hsess : s.sessions[k]? = some sess) (h : Narrows sess sess')
  | opened (hk : k = s.sessions.length) (hopens : Opens D s sess')
  | joined {p : Address} {nodeList : List Address} {rnd : R} {sess : Session P}
      {shard : ShardState} {ownId : ℕ} {participant : P} {peers : List SessionPeer}
      (hsess : s.sessions[k]? = some sess)
      (hshard : (s.nodes p).st.shard = some shard)
      (hstart : startDealer B D (s.nodes p).st nodeList sess.req rnd =
        .ok (ownId, participant, peers))
      (hgenesis : sess.genesis = false) (hfree : sess.members ownId = none)
      (h : sess' = sess.setMember ownId
        ⟨p, participant, some (shard, (s.nodes p).origin), (s.nodes p).st.groupPubkey, true⟩)
  | becameReady {sess : Session P} (hl : l = .ready k) (hsess : s.sessions[k]? = some sess)
      (hall : sess.allIn = true) (h : sess' = { sess with ready := true })

variable {B : Blsful F G₁ G₂} {D : Gennaro F R P} {s s' : State P} {l : Label R}

theorem Moves.node (h : Moves B D s l s') (p : Address) :
    NodeMoves B D s l p s'.commits (s'.nodes p) := by
  have hself : ∀ (t : State P) (q : Address) (node : Node) (cs : List Commit), t.nodes = s.nodes →
      (q = p → NodeMoves B D s l p cs node) →
      NodeMoves B D s l p cs ((t.setNode q node).nodes p) := by
    intro t q node cs ht hq
    by_cases hp : p = q
    · subst hp
      simpa [State.setNode] using hq rfl
    · simp only [State.setNode, Function.update_of_ne hp, ht]
      exact .kept (.refl _)
  cases h with
  | quiet hnodes => exact .kept (hnodes p)
  | opens _ hnodes => exact .kept (hnodes p)
  | stops hnodes => exact .kept (hnodes p)
  | join => exact .kept (.refl _)
  | ready => exact .kept (.refl _)
  | @crash q => exact hself s q _ _ rfl (by rintro rfl; exact .crashed rfl rfl rfl rfl rfl)
  | @reload q _ _ _ hrec hconfig hshard hkey horigin hsealed hassembled =>
    refine hself s q _ _ rfl ?_
    rintro rfl
    exact .reloaded hrec hconfig hshard hkey horigin hsealed hassembled
  | @commits k i blob sess m node hsess hm hready hrunning hkeeps hconfig hshard hkey horigin
      hsealed hassembled =>
    refine hself (s.setSession k _) m.addr node _ rfl ?_
    rintro rfl
    exact .committed rfl hsess hm rfl hready hrunning hkeeps hconfig hshard hkey horigin hsealed
      hassembled List.mem_cons_self

/-- A membership in a node's hands was there before, or has just been assembled. -/
theorem Moves.assembled (h : Moves B D s l s') {p : Address} {a : Assembled}
    (ha : a ∈ (s'.nodes p).assembled) :
    a ∈ (s.nodes p).assembled ∨ a.config = (s.nodes p).st.config := by
  cases h.node p with
  | kept hsame => exact hsame.assembled a ha
  | crashed _ _ _ _ hnone =>
    rw [hnone] at ha
    cases ha
  | reloaded _ _ _ _ _ _ hassembled => exact .inl (hassembled ▸ ha)
  | committed _ _ _ _ _ _ _ _ _ _ _ _ hassembled => exact .inl (hassembled ▸ ha)

theorem Moves.session (h : Moves B D s l s') {k : ℕ} {sess' : Session P}
    (hsess' : s'.sessions[k]? = some sess') : SessionMoves B D s l k sess' := by
  have hset : ∀ {j : ℕ} {sess new : Session P}, s.sessions[j]? = some sess →
      (s.setSession j new).sessions[k]? = some sess' →
      (k = j ∧ sess' = new) ∨ s.sessions[k]? = some sess' := by
    intro j sess new hsess hnew
    rw [getElem?_setSession hsess] at hnew
    split at hnew
    · next hk => exact .inl ⟨hk, (Option.some.inj hnew).symm⟩
    · exact .inr hnew
  cases h with
  | quiet _ hsessions => exact .narrows (hsessions ▸ hsess') (.refl _)
  | crash =>
    simp only [List.getElem?_map, Option.map_eq_some_iff] at hsess'
    obtain ⟨sess, hsess, rfl⟩ := hsess'
    exact .narrows hsess (narrows_stop sess _)
  | reload => exact .narrows hsess' (.refl _)
  | opens hopens _ hsessions =>
    rw [hsessions, List.getElem?_append] at hsess'
    split at hsess'
    · exact .narrows hsess' (.refl _)
    · next hlt =>
      rw [List.getElem?_singleton] at hsess'
      split at hsess'
      · cases hsess'
        exact .opened (by omega) hopens
      · cases hsess'
  | join hsess hshard hstart hgenesis hfree =>
    rcases hset hsess hsess' with ⟨rfl, rfl⟩ | hold
    · exact .joined hsess hshard hstart hgenesis hfree rfl
    · exact .narrows hold (.refl _)
  | ready hsess hall =>
    rcases hset hsess hsess' with ⟨rfl, rfl⟩ | hold
    · exact .becameReady rfl hsess hall rfl
    · exact .narrows hold (.refl _)
  | commits hsess hm =>
    rcases hset hsess hsess' with ⟨rfl, rfl⟩ | hold
    · exact .narrows hsess (narrows_leave hm)
    · exact .narrows hold (.refl _)
  | stops _ hsess hm hsessions =>
    rcases hset hsess (hsessions ▸ hsess') with ⟨rfl, rfl⟩ | hold
    · exact .narrows hsess (narrows_leave hm)
    · exact .narrows hold (.refl _)

/-- A node loses its group key only with its process, which leaves all sessions. -/
theorem Moves.keyless (h : Moves B D s l s') {p : Address}
    (hkey : (s'.nodes p).st.groupPubkey = none) : (s.nodes p).st.groupPubkey = none ∨
      ∀ (k : ℕ) (sess : Session P) (i : ℕ) (m : Member P), s'.sessions[k]? = some sess →
        sess.members i = some m → m.addr = p → m.running = false := by
  have hother : ∀ (t : State P) (q : Address) (node : Node), t.nodes = s.nodes →
      node.st.groupPubkey ≠ none → ((t.setNode q node).nodes p).st.groupPubkey = none →
      (s.nodes p).st.groupPubkey = none := by
    intro t q node ht hnode hnone
    by_cases hp : p = q
    · subst hp
      exact absurd (by simpa [State.setNode] using hnone) hnode
    · simpa [State.setNode, Function.update_of_ne hp, ht] using hnone
  cases h with
  | quiet hnodes => exact .inl ((hnodes p).key ▸ hkey)
  | opens _ hnodes => exact .inl ((hnodes p).key ▸ hkey)
  | stops hnodes => exact .inl ((hnodes p).key ▸ hkey)
  | join => exact .inl hkey
  | ready => exact .inl hkey
  | reload _ _ _ hrecKey => exact .inl (hother s _ _ rfl (by simp [hrecKey]) hkey)
  | commits _ _ _ _ _ _ _ hnewKey =>
    exact .inl (hother (s.setSession _ _) _ _ rfl (by simp [hnewKey]) hkey)
  | @crash q =>
    by_cases hp : p = q
    · subst hp
      right
      intro k sess i m hsess hm haddr
      simp only [List.getElem?_map, Option.map_eq_some_iff] at hsess
      obtain ⟨old, -, rfl⟩ := hsess
      obtain ⟨m₀, -, rfl⟩ := Option.map_eq_some_iff.mp hm
      by_cases hm₀ : m₀.addr = p
      · rw [if_pos hm₀]
      · rw [if_neg hm₀] at haddr
        exact absurd haddr hm₀
    · left
      simpa [State.setNode, Function.update_of_ne hp] using hkey

/-- Once everyone is in, there is no free place left to join. -/
def Full (s : State P) : Prop := ∀ (k : ℕ) (sess : Session P), s.sessions[k]? = some sess →
  sess.ready = true → ∀ i ∈ sess.req.participantIds, sess.members i ≠ none

theorem Moves.commits_subset (h : Moves B D s l s') : ∀ c ∈ s.commits, c ∈ s'.commits := by
  intro c hc
  cases h with
  | quiet _ _ hcommits => exact hcommits ▸ hc
  | opens _ _ _ hcommits => exact hcommits ▸ hc
  | stops _ _ _ _ hcommits => exact hcommits ▸ hc
  | commits => exact List.mem_cons_of_mem _ hc
  | _ => exact hc

theorem Moves.keeps (h : Moves B D s l s') (hfull : Full s) : Keeps D s s' := by
  refine ⟨fun k sess hsess hready => ?_, h.commits_subset⟩
  have hsame : s'.sessions[k]? = some sess → ∃ sess' : Session P, s'.sessions[k]? = some sess' ∧
      sess'.ready = true ∧ sess'.req = sess.req ∧ ∀ x, sess'.value D x = sess.value D x :=
    fun hsess' => ⟨sess, hsess', hready, rfl, fun _ => rfl⟩
  have hset : ∀ {j : ℕ} {old new : Session P}, s.sessions[j]? = some old →
      s'.sessions = (s.setSession j new).sessions →
      (k = j → new.ready = true ∧ new.req = sess.req ∧ ∀ x, new.value D x = sess.value D x) →
      ∃ sess' : Session P, s'.sessions[k]? = some sess' ∧ sess'.ready = true ∧
        sess'.req = sess.req ∧ ∀ x, sess'.value D x = sess.value D x := by
    intro j old new hold hsessions hnew
    rw [hsessions, getElem?_setSession hold]
    by_cases hk : k = j
    · exact ⟨new, by rw [if_pos hk], hnew hk⟩
    · exact ⟨sess, by rw [if_neg hk, hsess], hready, rfl, fun _ => rfl⟩
  cases h with
  | quiet _ hsessions => exact hsame (hsessions ▸ hsess)
  | reload => exact hsame hsess
  | opens _ _ hsessions =>
    have hlt : k < s.sessions.length := (List.getElem?_eq_some_iff.mp hsess).1
    exact hsame (by rw [hsessions, List.getElem?_append_left hlt, hsess])
  | @crash p =>
    have hnarrows := narrows_stop sess p
    exact ⟨sess.stop p, by simp [hsess], hready, rfl, fun x => hnarrows.value x⟩
  | @join k' _ _ _ old _ ownId _ _ hold _ hstart _ hfree =>
    refine hset hold rfl ?_
    rintro rfl
    cases Option.some.inj (hold.symm.trans hsess)
    obtain ⟨_, _, hindex, -⟩ := startDealer_eq_ok hstart
    have hmem := mem_participantIds.mpr (.inl (List.mem_of_getElem? hindex))
    exact absurd hfree (hfull k _ hsess hready ownId hmem)
  | ready hold =>
    refine hset hold rfl ?_
    rintro rfl
    cases Option.some.inj (hold.symm.trans hsess)
    exact ⟨rfl, rfl, fun _ => rfl⟩
  | commits hold hm =>
    refine hset hold rfl ?_
    rintro rfl
    cases Option.some.inj (hold.symm.trans hsess)
    exact ⟨hready, rfl, fun x => (narrows_leave hm).value x⟩
  | stops _ hold hm hsessions =>
    refine hset hold hsessions ?_
    rintro rfl
    cases Option.some.inj (hold.symm.trans hsess)
    exact ⟨hready, rfl, fun x => (narrows_leave hm).value x⟩

end Views

section Shares

variable {F G₁ G₂ R P : Type} [Field F] [AddCommGroup G₁] [Module F G₁]

/-- The share is the value of a session that somebody has completed. -/
structure ShareOf (B : Blsful F G₁ G₂) (D : Gennaro F R P) (s : State P) (shard : ShardState)
    (k : ℕ) : Prop where
  session : ∃ sess, s.sessions[k]? = some sess ∧ sess.ready = true ∧
    shard = sessionShard B shard.shardIndex sess.req.epoch (sess.value D (shard.shardIndex : F))
  logged : ∃ c ∈ s.commits, c.session = k

structure Inv (B : Blsful F G₁ G₂) (D : Gennaro F R P) (s : State P) : Prop where
  ids : ∀ (k : ℕ) (sess : Session P) (i : ℕ), s.sessions[k]? = some sess →
    sess.members i ≠ none → i ∈ sess.req.participantIds
  full : Full s
  held : ∀ p shard, (s.nodes p).st.shard = some shard → ShareOf B D s shard (s.nodes p).origin
  kept : ∀ p, ∀ rec ∈ (s.nodes p).sealedShares, ShareOf B D s rec.shard rec.origin
  dealt : ∀ (k : ℕ) (sess : Session P) (i : ℕ) (m : Member P) (shard : ShardState) (j : ℕ),
    s.sessions[k]? = some sess → sess.members i = some m → m.dealt = some (shard, j) →
    ShareOf B D s shard j

variable {B : Blsful F G₁ G₂} {D : Gennaro F R P} {s s' : State P} {l : Label R}

omit [AddCommGroup G₁] [Module F G₁] in
theorem ShareOf.keeps {shard : ShardState} {k : ℕ} (h : ShareOf B D s shard k)
    (hkeeps : Keeps D s s') : ShareOf B D s' shard k := by
  obtain ⟨⟨sess, hsess, hready, hshard⟩, c, hc, hk⟩ := h
  obtain ⟨sess', hsess', hready', hreq, hvalue⟩ := hkeeps.session k sess hsess hready
  refine ⟨⟨sess', hsess', hready', ?_⟩, c, hkeeps.commits c hc, hk⟩
  rwa [hreq, hvalue]

omit [AddCommGroup G₁] [Module F G₁] in
theorem shareOf_committed {k i : ℕ} {sess : Session P} {p : Address}
    {key : Bytes} (hsess : s.sessions[k]? = some sess) (hready : sess.ready = true)
    (hkeeps : Keeps D s s')
    (hlogged : ⟨p, k, key⟩ ∈ s'.commits) :
    ShareOf B D s' (sessionShard B i sess.req.epoch (sess.value D (i : F))) k := by
  obtain ⟨sess', hsess', hready', hreq, hvalue⟩ := hkeeps.session k sess hsess hready
  refine ⟨⟨sess', hsess', hready', ?_⟩, _, hlogged, rfl⟩
  rw [hreq, hvalue]
  rfl

theorem mem_addSealed {sealedShares : List SealedShare} {shard : ShardState} {key : Bytes} {k : ℕ}
    {blob : Option String} {rec : SealedShare}
    (h : rec ∈ addSealed sealedShares shard key k blob) :
    (rec.shard = shard ∧ rec.masterId = key ∧ rec.origin = k) ∨ rec ∈ sealedShares := by
  unfold addSealed at h
  split at h
  · rcases List.mem_cons.mp h with rfl | hold
    · exact .inl ⟨rfl, rfl, rfl⟩
    · exact .inr hold
  · exact .inr h

omit [Field F] in
theorem Opens.facts {sess : Session P} (h : Opens D s sess) :
    sess.genesis = false ∧ sess.ready = false ∧ ∀ i m, sess.members i = some m →
      m.dealt = none ∧ i = sess.req.recoveringId ∧ sess.req.recoveringId ≠ 0 := by
  cases h with
  | refresh => exact ⟨rfl, rfl, fun _ _ hm => by cases hm⟩
  | @recovery p a rnd req participant dealers _ hstart =>
    refine ⟨rfl, rfl, fun i m hm => ?_⟩
    obtain ⟨hreq, -⟩ := startRecovery_eq_ok hstart
    obtain ⟨-, hrecovering, -⟩ := recoveryRequest_eq_ok hreq
    obtain ⟨st, now, -, hassemble⟩ := a.source
    obtain ⟨members, -, -, hposition, -⟩ := assembleParticipants_eq_some hassemble
    have hpos := (positionOf_eq_some hposition).1
    by_cases hi : i = a.membership.ownId
    · subst hi
      simp only [Function.update_self, Option.some.injEq] at hm
      subst hm
      exact ⟨rfl, by rw [hrecovering], by rw [hrecovering]; omega⟩
    · simp [Function.update_of_ne hi] at hm

theorem Inv.ids_step (h : Inv B D s) (hmoves : Moves B D s l s') (k : ℕ) (sess' : Session P) (i : ℕ)
    (hsess' : s'.sessions[k]? = some sess') (hne : sess'.members i ≠ none) :
    i ∈ sess'.req.participantIds := by
  cases hmoves.session hsess' with
  | narrows hsess hnarrows =>
    obtain ⟨m', hm'⟩ := Option.ne_none_iff_exists'.mp hne
    obtain ⟨m, hm, -⟩ := hnarrows.member hm'
    rw [hnarrows.req]
    exact h.ids k _ i hsess (by simp [hm])
  | opened _ hopens =>
    obtain ⟨m', hm'⟩ := Option.ne_none_iff_exists'.mp hne
    obtain ⟨-, hi, hne0⟩ := hopens.facts.2.2 i m' hm'
    exact mem_participantIds.mpr (.inr ⟨hne0, hi⟩)
  | @joined _ _ _ sess _ ownId _ _ hsess _ hstart _ _ hjoined =>
    subst hjoined
    by_cases hi : i = ownId
    · obtain ⟨_, _, hindex, -⟩ := startDealer_eq_ok hstart
      have hmem : i ∈ sess.req.dealerIds := hi ▸ List.mem_of_getElem? hindex
      exact mem_participantIds.mpr (.inl hmem)
    · simp only [Session.setMember, Function.update_of_ne hi] at hne
      exact h.ids k sess i hsess hne
  | @becameReady sess _ hsess _ hready =>
    subst hready
    exact h.ids k sess i hsess hne

theorem Inv.full_step (h : Inv B D s) (hmoves : Moves B D s l s') : Full s' := by
  intro k sess' hsess' hready i hi
  cases hmoves.session hsess' with
  | narrows hsess hnarrows =>
    rw [hnarrows.req] at hi
    exact hnarrows.members_ne (h.full k _ hsess (hnarrows.ready ▸ hready) i hi)
  | opened _ hopens =>
    rw [hopens.facts.2.1] at hready
    cases hready
  | @joined _ _ _ sess _ ownId _ _ hsess _ _ _ _ hjoined =>
    subst hjoined
    have hold := h.full k sess hsess hready i hi
    by_cases hi' : i = ownId
    · subst hi'
      simp [Session.setMember]
    · simpa [Session.setMember, Function.update_of_ne hi'] using hold
  | becameReady _ hsess hall hready' =>
    subst hready'
    have hin := List.all_eq_true.mp hall i hi
    intro hnone
    rw [hnone] at hin
    cases hin

/-- A share in memory is the one of before, the sealed one or a session's. -/
theorem Inv.held_step (h : Inv B D s) (hmoves : Moves B D s l s') (p : Address) (shard : ShardState)
    (hshard : (s'.nodes p).st.shard = some shard) :
    ShareOf B D s' shard (s'.nodes p).origin := by
  have hkeeps : Keeps D s s' := hmoves.keeps h.full
  cases hmoves.node p with
  | kept hkept =>
    rw [hkept.origin]
    exact (h.held p shard (hkept.shard ▸ hshard)).keeps hkeeps
  | crashed _ hnone =>
    rw [hnone] at hshard
    cases hshard
  | reloaded hrec _ hrecShard _ horigin =>
    cases Option.some.inj (hrecShard.symm.trans hshard)
    rw [horigin]
    exact (h.kept p _ hrec).keeps hkeeps
  | committed _ hsess _ _ hready _ _ _ hnew _ horigin _ _ hlogged =>
    cases Option.some.inj (hnew.symm.trans hshard)
    rw [horigin]
    exact shareOf_committed hsess hready hkeeps hlogged

theorem Inv.kept_step (h : Inv B D s) (hmoves : Moves B D s l s') (p : Address) (rec : SealedShare)
    (hrec : rec ∈ (s'.nodes p).sealedShares) : ShareOf B D s' rec.shard rec.origin := by
  have hkeeps : Keeps D s s' := hmoves.keeps h.full
  cases hmoves.node p with
  | kept hkept => exact (h.kept p rec (hkept.sealedShares ▸ hrec)).keeps hkeeps
  | crashed _ _ _ hsealed => exact (h.kept p rec (hsealed ▸ hrec)).keeps hkeeps
  | reloaded _ _ _ _ _ hsealed => exact (h.kept p rec (hsealed ▸ hrec)).keeps hkeeps
  | committed _ hsess _ _ hready _ _ _ _ _ _ hsealed _ hlogged =>
    rw [hsealed] at hrec
    rcases mem_addSealed hrec with ⟨hshard, -, horigin⟩ | hold
    · rw [hshard, horigin]
      exact shareOf_committed hsess hready hkeeps hlogged
    · exact (h.kept p rec hold).keeps hkeeps

/-- A dealer deals the share that it holds. -/
theorem Inv.dealt_step (h : Inv B D s) (hmoves : Moves B D s l s') (k : ℕ) (sess' : Session P)
    (i : ℕ) (m' : Member P) (shard : ShardState) (j : ℕ) (hsess' : s'.sessions[k]? = some sess')
    (hm' : sess'.members i = some m') (hdealt : m'.dealt = some (shard, j)) :
    ShareOf B D s' shard j := by
  have hkeeps : Keeps D s s' := hmoves.keeps h.full
  cases hmoves.session hsess' with
  | narrows hsess hnarrows =>
    obtain ⟨m, hm, hsame⟩ := hnarrows.member hm'
    exact (h.dealt k _ i m shard j hsess hm (hsame.dealt ▸ hdealt)).keeps hkeeps
  | opened _ hopens =>
    rw [(hopens.facts.2.2 i m' hm').1] at hdealt
    cases hdealt
  | @joined p _ _ sess shard' ownId _ _ hsess hshard hstart _ _ hjoined =>
    subst hjoined
    by_cases hi : i = ownId
    · subst hi
      simp only [Session.setMember, Function.update_self, Option.some.injEq] at hm'
      subst hm'
      cases hdealt
      exact (h.held p shard hshard).keeps hkeeps
    · simp only [Session.setMember, Function.update_of_ne hi] at hm'
      exact (h.dealt k sess i m' shard j hsess hm' hdealt).keeps hkeeps
  | @becameReady sess _ hsess _ hready =>
    subst hready
    exact (h.dealt k sess i m' shard j hsess hm' hdealt).keeps hkeeps

theorem Inv.step (h : Inv B D s) (hmoves : Moves B D s l s') : Inv B D s' :=
  ⟨h.ids_step hmoves, h.full_step hmoves, h.held_step hmoves, h.kept_step hmoves,
    h.dealt_step hmoves⟩

theorem Founding.mem_session (g : Founding F R P D) {i : ℕ} :
    g.session.members i ≠ none ↔ i ∈ g.session.req.participantIds := by
  simp only [Founding.session, ReshareRequest.participantIds]
  by_cases hi : i = 0
  · simp [hi]
  · simp only [hi, if_false, ne_eq, Option.map_eq_none_iff, List.getElem?_eq_none_iff]
    simp
    omega

omit [AddCommGroup G₁] [Module F G₁] in
theorem inv_init (g : Founding F R P D) : Inv B D g.init := by
  have hsession : ∀ {k : ℕ} {sess : Session P}, g.init.sessions[k]? = some sess →
      sess = g.session := by
    intro k sess hsess
    have hmem := List.mem_of_getElem? hsess
    exact List.mem_singleton.mp hmem
  refine ⟨?_, ?_, ?_, ?_, ?_⟩
  · intro k sess i hsess hne
    cases hsession hsess
    exact g.mem_session.mp hne
  · intro k sess hsess _ i hi
    cases hsession hsess
    exact g.mem_session.mpr hi
  · intro p shard hshard
    cases hshard
  · intro p rec hrec
    cases hrec
  · intro k sess i m shard j hsess hm hdealt
    cases hsession hsess
    simp only [Founding.session] at hm
    split at hm
    · cases hm
    · obtain ⟨addr, -, rfl⟩ := Option.map_eq_some_iff.mp hm
      cases hdealt

theorem inv_run {g : Founding F R P D} {pubkeyOf : Address → Bytes} {labels : List (Label R)}
    (hrun : exec (step B D pubkeyOf) g.init labels = some s) : Inv B D s :=
  exec_invariant (fun _ _ _ h hstep => h.step (moves_of_step hstep)) (inv_init g) hrun

end Shares

end KmsCluster.Cluster
