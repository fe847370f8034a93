import KmsCluster.Verifier

/-!
# The outcome counters of the verifier

Which of the five counters a call of `require_verified` (`src/verifier.rs`) increments, and what the
answer behind it was. A refusal that is answered from cache counts as denied, whatever scan had said
when the entry was written: the entries of an explicit refusal, of an unknown signer and of an
unreachable scan have one shape. `Traced` keeps, for the proofs only, the answer that the last
write section of each key acted on, and when it refused if it did.

## Main results

- `step_counts`: what one step does to the counters and the cache.
- `Tracked.step`: a cached refusal is the one of the answer kept for its key.
- `Tracked.refusedOnVerdict_iff`: which looks into the cache meet a refusal without a verdict.
- `counters_tell_iff`: a completed call increments one counter, and denied goes back to an explicit
  verdict exactly when no call comes too early after a refusal without one.
- `lagging_signer_denied`: a call that is denied though scan never refused anybody.
-/

namespace KmsCluster.Verifier

open Runs

-- ════════════════════════════════════════════════════════════════════════
-- What a step counts
-- ════════════════════════════════════════════════════════════════════════

/-- A counter that a step increments for a key; `outcome` is the answer that a write section acts
    on, and `none` for a decision from cache, and `refusal` the stamp of a write section that
    refuses. -/
structure Counting where
  key : Key
  counter : Counter
  outcome : Option (Except String Answer)
  refusal : Option ℕ

/-- The stamp of a write section that ends with an error. -/
def Settlement.refusal (r : Settlement) (now : ℕ) : Option ℕ :=
  match r.result with
  | .ok _ => none
  | .error _ => some now

def counting (s : State) (l : ℕ × Action) : Option Counting :=
  (s.calls l.1).bind fun c =>
    match c.pc, l.2 with
    | .entered, .enter t₁ t₂ | .locked _, .recheck t₁ t₂ =>
      (cachedDecision (s.cache.lookup c.key) t₁ t₂).map fun d => ⟨c.key, d.2, none, none⟩
    | .settling _ outcome now, .settle readings t =>
      let r := settle s.cache c.key outcome now readings t
      some ⟨c.key, r.counter, some outcome, r.refusal now⟩
    | _, _ => none

/-- The call has incremented its counter. -/
def Pc.counted : Pc → Bool
  | .settled _ _ | .returned _ => true
  | _ => false

/-- What a step of a call that is under way does to the counters and the cache. -/
structure Counts (s s' : State) (l : ℕ × Action) (c c' : Call) : Prop where
  call : s.calls l.1 = some c
  calls : s'.calls = Function.update s.calls l.1 (some c')
  key : c'.key = c.key
  alive : c.pc ≠ .dropped
  log : s.log ⊆ s'.log
  clock : s.clock ≤ s'.clock
  quiet : counting s l = none → s'.counters = s.counters ∧ s'.cache = s.cache ∧
    (c'.pc.counted = c.pc.counted ∨ c'.pc = .dropped)
  counts : ∀ k, counting s l = some k → k.key = c.key ∧ c.pc.counted = false ∧
    c'.pc.counted = true ∧
    s'.counters = Function.update s.counters k.counter (s.counters k.counter + 1) ∧
    match k.outcome with
    | none => s'.cache = s.cache
    | some outcome => ∃ lock now readings t, c.pc = .settling lock outcome now ∧
        (∀ e ∈ s.cache.entries, readings e.1 ≤ t) ∧ s'.clock = t ∧
        s'.cache = (settle s.cache c.key outcome now readings t).cache ∧
        k.counter = (settle s.cache c.key outcome now readings t).counter ∧
        k.refusal = (settle s.cache c.key outcome now readings t).refusal now

section
variable {s s' : State} {id : ℕ} {c : Call} {action : Action} {pc pc' : Pc}

/-- A step that counts nothing and keeps the cache. -/
theorem counts_of_quiet (hid : s.calls id = some c) (hpc : c.pc = pc)
    (hcalls : s'.calls = Function.update s.calls id (some { c with pc := pc' }))
    (hcounters : s'.counters = s.counters) (hcache : s'.cache = s.cache)
    (hlog : s.log ⊆ s'.log) (hclock : s.clock ≤ s'.clock) (halive : pc ≠ .dropped)
    (hcounting : counting s (id, action) = none)
    (hpc' : pc'.counted = pc.counted ∨ pc' = .dropped) :
    Counts s s' (id, action) c { c with pc := pc' } := by
  subst hpc
  refine ⟨hid, hcalls, rfl, halive, hlog, hclock, fun _ => ⟨hcounters, hcache, hpc'⟩, ?_⟩
  intro k hk
  rw [hcounting] at hk
  cases hk

/-- A decision from cache. -/
theorem counts_of_cached (hid : s.calls id = some c) (hpc : c.pc = pc)
    {result : Except String Unit} {counter : Counter}
    (hcalls : s'.calls = Function.update s.calls id (some { c with pc := .returned result }))
    (hcounters : s'.counters = Function.update s.counters counter (s.counters counter + 1))
    (hcache : s'.cache = s.cache) (hlog : s.log ⊆ s'.log) (hclock : s.clock ≤ s'.clock)
    (hnot : pc.counted = false) (halive : pc ≠ .dropped)
    (hcounting : counting s (id, action) = some ⟨c.key, counter, none, none⟩) :
    Counts s s' (id, action) c { c with pc := .returned result } := by
  subst hpc
  refine ⟨hid, hcalls, rfl, halive, hlog, hclock, ?_, ?_⟩
  · intro hnone
    rw [hcounting] at hnone
    cases hnone
  · intro k hk
    cases hcounting.symm.trans hk
    exact ⟨rfl, hnot, rfl, hcounters, hcache⟩

theorem counting_of_call (hid : s.calls id = some c) :
    counting s (id, action) = match c.pc, action with
      | .entered, .enter t₁ t₂ | .locked _, .recheck t₁ t₂ =>
        (cachedDecision (s.cache.lookup c.key) t₁ t₂).map fun d => ⟨c.key, d.2, none, none⟩
      | .settling _ outcome now, .settle readings t =>
        let r := settle s.cache c.key outcome now readings t
        some ⟨c.key, r.counter, some outcome, r.refusal now⟩
      | _, _ => none := by
  rw [counting, hid]
  rfl

theorem CallSteps.counts {m : State} (hsteps : CallSteps s id c c.pc action pc' m)
    (hid : s.calls id = some c) :
    Counts s (m.setPc id c pc') (id, action) c { c with pc := pc' } := by
  have hcalls := hsteps.calls_setPc
  have hclock := hsteps.clock
  have hcounting : counting s (id, action) = _ := counting_of_call hid
  generalize hpc : c.pc = pc at hsteps hcounting
  cases hsteps with
  | hit _ hdecision | rehit _ hdecision =>
    simp only [hdecision, Option.map_some] at hcounting
    exact counts_of_cached hid hpc hcalls rfl rfl (List.subset_append_right _ _)
      hclock rfl nofun hcounting
  | miss _ hmiss | fetch _ hmiss =>
    simp only [hmiss, Option.map_none] at hcounting
    exact counts_of_quiet hid hpc hcalls rfl rfl (List.Subset.refl _) hclock nofun hcounting
      (.inl rfl)
  | getLock =>
    obtain ⟨locks, next, heq, -⟩ := lockFor_eq s c.key
    rw [heq] at hcalls hclock ⊢
    exact counts_of_quiet hid hpc hcalls rfl rfl (List.Subset.refl _) hclock nofun hcounting
      (.inl rfl)
  | acquire | fallBack | await | sleep | stop | wake | stamp =>
    exact counts_of_quiet hid hpc hcalls rfl rfl (List.Subset.refl _) hclock nofun hcounting
      (.inl rfl)
  | answer | reanswer =>
    exact counts_of_quiet hid hpc hcalls rfl rfl (List.subset_cons_self _ _) hclock nofun
      hcounting (.inl rfl)
  | settle _ hreadings hr =>
    subst hr
    refine ⟨hid, hcalls, rfl, by rw [hpc]; nofun, ?_, hclock, ?_, ?_⟩
    · exact fun event hmem => List.mem_append_right _ (List.mem_append_right _ hmem)
    · intro hnone
      rw [hcounting] at hnone
      cases hnone
    · intro k hk
      cases hcounting.symm.trans hk
      exact ⟨rfl, by rw [hpc]; rfl, rfl, rfl, _, _, _, _, hpc, fun e he => (hreadings e he).2, rfl,
        rfl, rfl, rfl⟩
  | finish =>
    -- the counter was incremented in the write section
    exact counts_of_quiet hid hpc hcalls rfl rfl (List.Subset.refl _) hclock nofun hcounting
      (.inl rfl)
  | drop _ hdropped =>
    have hdrop : counting s (id, .drop) = none := by
      rw [hcounting]
      split <;> first | rfl | contradiction
    obtain ⟨holder, heq⟩ := elim_release_eq s pc.lock?
    rw [heq] at hcalls hclock ⊢
    exact counts_of_quiet hid hpc hcalls rfl rfl (List.Subset.refl _) hclock hdropped hdrop
      (.inr rfl)

end

/-- Everything a step does to the counters and the cache. -/
theorem step_counts {s s' : State} {l : ℕ × Action} (h : step s l = some s') :
    (∃ c, c.pc = .entered ∧ s.calls l.1 = none ∧
      s'.calls = Function.update s.calls l.1 (some c) ∧ s'.counters = s.counters ∧
      s'.cache = s.cache ∧ s'.log = s.log ∧ s'.clock = s.clock ∧ counting s l = none) ∨ ∃ c c', Counts s s' l c c' := by
  obtain ⟨key, wait, -, hfree, rfl⟩ | ⟨c, pc', m, hid, hsteps, rfl⟩ := steps_of_step h
  · exact .inl ⟨_, rfl, hfree, rfl, rfl, rfl, rfl, rfl, by rw [counting, hfree]; rfl⟩
  · exact .inr ⟨c, _, hsteps.counts hid⟩

-- ════════════════════════════════════════════════════════════════════════
-- What a counted refusal goes back to
-- ════════════════════════════════════════════════════════════════════════

/-- The decision of a call. `origin` is the answer it goes back to: the one the call itself acted
    on, or the one of the write section that left the entry it was answered from. -/
structure Decision where
  id : ℕ
  key : Key
  counter : Counter
  origin : Option (Except String Answer)

/-- A state with what the counters stand for. -/
structure Traced where
  state : State
  /-- The answer that the last write section of a key acted on. -/
  wrote : Key → Option (Except String Answer)
  /-- The stamp of that write section when it refused. -/
  refusedAt : Key → Option ℕ
  decisions : List Decision

def Traced.init : Traced := ⟨State.init, fun _ => none, fun _ => none, []⟩

def Traced.next (t : Traced) (l : ℕ × Action) (s : State) : Traced :=
  match counting t.state l with
  | none => { t with state := s }
  | some k =>
    { state := s
      wrote := k.outcome.elim t.wrote fun outcome => Function.update t.wrote k.key (some outcome)
      refusedAt := k.outcome.elim t.refusedAt fun _ => Function.update t.refusedAt k.key k.refusal
      decisions := ⟨l.1, k.key, k.counter, k.outcome.or (t.wrote k.key)⟩ :: t.decisions }

def tracedStep (t : Traced) (l : ℕ × Action) : Option Traced := (step t.state l).map (t.next l)

def Traced.madeBy (t : Traced) (id : ℕ) : List Decision :=
  t.decisions.filter fun d => decide (d.id = id)

/-- A call that has returned made one decision, for its own key, and each counter stands at the
    number of its decisions. -/
structure CountsOnce (t : Traced) : Prop where
  once : ∀ id c result, t.state.calls id = some c → c.pc = .returned result →
    ∃ d, t.madeBy id = [d] ∧ d.key = c.key
  counters : ∀ k, t.state.counters k = t.decisions.countP fun d => decide (d.counter = k)

/-- Every decision that counts as denied goes back to an explicit negative verdict that scan gave
    for its key. -/
def DeniedExplicit (t : Traced) : Prop :=
  ∀ d ∈ t.decisions, d.counter = .denied → ∃ id reason,
    d.origin = some (.ok (.verdict false reason)) ∧
      .answered id d.key (.ok (.verdict false reason)) ∈ t.state.log

/-- A call that looks into the cache while a refusal for its key is damped finds one that an
    explicit verdict wrote. -/
def RefusedOnVerdict (t : Traced) (l : ℕ × Action) : Prop :=
  ∀ t₁ t₂ c e, l.2 = .enter t₁ t₂ ∨ l.2 = .recheck t₁ t₂ → t.state.calls l.1 = some c →
    t.state.cache.lookup c.key = some e → e.verified = false → t₁ - e.stamp < e.damp →
    ∃ reason, t.wrote c.key = some (.ok (.verdict false reason))

/-- A call that looks a key up does not come too early after a refusal without a verdict: the last
    call that asked scan for the key was not refused on a 404 less than `scanLagDamp` ago, nor on a
    failed request less than `negativeTtl` ago. -/
def RefusalsOver (t : Traced) (l : ℕ × Action) : Prop :=
  ∀ t₁ t₂ c now, l.2 = .enter t₁ t₂ ∨ l.2 = .recheck t₁ t₂ → t.state.calls l.1 = some c →
    t.refusedAt c.key = some now →
    (t.wrote c.key = some (.ok .unknown) → now + scanLagDamp ≤ t₁) ∧
      ∀ e, t.wrote c.key = some (.error e) → now + negativeTtl ≤ t₁

/-- The entry that a refusing write section leaves for its answer. -/
def refusalOf (outcome : Except String Answer) (now : ℕ) : Option CacheEntry :=
  match outcome with
  | .ok (.verdict true _) => none
  | .ok (.verdict false reason) =>
    some (refused ("attestation not verified (recently checked): " ++ reason) negativeTtl now)
  | .ok .unknown => some (refused ("attestation not verified: " ++ notRegistered) scanLagDamp now)
  | .error _ =>
    some (refused "attestation not verified (recently checked): verifier unreachable"
      negativeTtl now)

theorem negative_of_insert {cache : Cache} {readings : Key → ℕ} {key k : Key} {e e' : CacheEntry}
    (h : (AList.insert key e' (compact cache readings)).lookup k = some e) :
    k = key ∧ e = e' ∨ k ≠ key ∧ cache.lookup k = some e := by
  by_cases hk : k = key
  · subst hk
    rw [AList.lookup_insert] at h
    exact .inl ⟨rfl, (Option.some.inj h).symm⟩
  · rw [AList.lookup_insert_ne hk] at h
    exact .inr ⟨hk, lookup_compact h⟩

/-- A refusal in the cache after a write section is the one of its answer, or was there before. -/
theorem settle_negative {cache : Cache} {key k : Key} {outcome : Except String Answer}
    {now t : ℕ} {readings : Key → ℕ} {e : CacheEntry}
    (h : (settle cache key outcome now readings t).cache.lookup k = some e)
    (hrefusal : e.verified = false) :
    (k = key ∧ refusalOf outcome e.stamp = some e) ∨ (k ≠ key ∧ cache.lookup k = some e) := by
  have hrestamped : ∀ cache', restampStale (compact cache readings) key now t = some cache' →
      cache'.lookup k = some e → k ≠ key ∧ cache.lookup k = some e := by
    intro cache' hrestamp he
    obtain ⟨e₀, -, hverified, -, rfl⟩ := restampStale_some hrestamp
    rcases negative_of_insert he with ⟨-, rfl⟩ | hkept
    · cases hverified.symm.trans hrefusal
    · exact hkept
  match outcome with
  | .ok (.verdict true reason) =>
    rcases negative_of_insert h with ⟨-, rfl⟩ | hkept
    · cases hrefusal
    · exact .inr hkept
  | .ok (.verdict false reason) =>
    rcases negative_of_insert h with ⟨rfl, rfl⟩ | hkept
    · exact .inl ⟨rfl, rfl⟩
    · exact .inr hkept
  | .ok .unknown =>
    simp only [settle] at h
    split at h
    · next hrestamp => exact .inr (hrestamped _ hrestamp h)
    · rcases negative_of_insert h with ⟨rfl, rfl⟩ | hkept
      · exact .inl ⟨rfl, rfl⟩
      · exact .inr hkept
  | .error _ =>
    simp only [settle] at h
    split at h
    · next hrestamp => exact .inr (hrestamped _ hrestamp h)
    · rcases negative_of_insert h with ⟨rfl, rfl⟩ | hkept
      · exact .inl ⟨rfl, rfl⟩
      · exact .inr hkept

theorem windows_le : positiveRefresh ≤ maxVerdictStaleness ∧ negativeTtl ≤ maxVerdictStaleness := by
  decide

theorem refusalOf_eq {outcome : Except String Answer} {now : ℕ} {e : CacheEntry}
    (h : refusalOf outcome now = some e) : e.verified = false ∧ e.stamp = now ∧ 0 < e.damp := by
  have hlag : 0 < scanLagDamp := by decide
  have hnegative : 0 < negativeTtl := by decide
  match outcome with
  | .ok (.verdict true reason) => cases h
  | .ok (.verdict false reason) =>
    cases h
    exact ⟨rfl, rfl, hnegative⟩
  | .ok .unknown =>
    cases h
    exact ⟨rfl, rfl, hlag⟩
  | .error _ =>
    cases h
    exact ⟨rfl, rfl, hnegative⟩

theorem damp_le_of_refusalOf {outcome : Except String Answer} {now : ℕ} {e : CacheEntry}
    (h : refusalOf outcome now = some e) : e.damp ≤ negativeTtl := by
  have hlag : scanLagDamp ≤ negativeTtl := by decide
  match outcome with
  | .ok (.verdict true reason) => cases h
  | .ok (.verdict false reason) =>
    cases h
    exact le_rfl
  | .ok .unknown =>
    cases h
    exact hlag
  | .error _ =>
    cases h
    exact le_rfl

/-- A write section that refuses leaves the refusal of its answer, with its own stamp. -/
theorem settle_refusal {cache : Cache} {key : Key} {outcome : Except String Answer} {now t : ℕ}
    {readings : Key → ℕ} {now' : ℕ}
    (h : (settle cache key outcome now readings t).refusal now = some now') : now' = now ∧
      ∃ e, (settle cache key outcome now readings t).cache.lookup key = some e ∧
        refusalOf outcome now = some e := by
  match outcome with
  | .ok (.verdict true reason) => cases h
  | .ok (.verdict false reason) =>
    cases h
    exact ⟨rfl, _, AList.lookup_insert _, rfl⟩
  | .ok .unknown =>
    simp only [settle] at h ⊢
    split at h
    · cases h
    · cases h
      exact ⟨rfl, _, AList.lookup_insert _, rfl⟩
  | .error _ =>
    simp only [settle] at h ⊢
    split at h
    · cases h
    · cases h
      exact ⟨rfl, _, AList.lookup_insert _, rfl⟩

/-- A refusal that a write section leaves for its key is its own. -/
theorem settle_refused {cache : Cache} {key : Key} {outcome : Except String Answer} {now t : ℕ}
    {readings : Key → ℕ} {e : CacheEntry}
    (h : (settle cache key outcome now readings t).cache.lookup key = some e)
    (hrefusal : e.verified = false) :
    (settle cache key outcome now readings t).refusal now = some e.stamp := by
  have hrestamped : ∀ cache', restampStale (compact cache readings) key now t = some cache' →
      cache'.lookup key ≠ some e := by
    intro cache' hrestamp he
    obtain ⟨e₀, -, hverified, -, rfl⟩ := restampStale_some hrestamp
    rw [AList.lookup_insert] at he
    cases he
    cases hverified.symm.trans hrefusal
  match outcome with
  | .ok (.verdict true reason) =>
    simp only [settle, AList.lookup_insert, Option.some.injEq] at h
    subst h
    cases hrefusal
  | .ok (.verdict false reason) =>
    simp only [settle, AList.lookup_insert, Option.some.injEq] at h
    subst h
    rfl
  | .ok .unknown =>
    simp only [settle] at h ⊢
    split at h
    · next hrestamp => exact absurd h (hrestamped _ hrestamp)
    · rw [AList.lookup_insert] at h
      cases h
      rfl
  | .error _ =>
    simp only [settle] at h ⊢
    split at h
    · next hrestamp => exact absurd h (hrestamped _ hrestamp)
    · rw [AList.lookup_insert] at h
      cases h
      rfl

/-- The write section counts as denied on an explicit negative verdict only. -/
theorem settle_denied {cache : Cache} {key : Key} {outcome : Except String Answer} {now t : ℕ}
    {readings : Key → ℕ} (h : (settle cache key outcome now readings t).counter = .denied) :
    ∃ reason, outcome = .ok (.verdict false reason) := by
  match outcome with
  | .ok (.verdict true reason) => cases h
  | .ok (.verdict false reason) => exact ⟨reason, rfl⟩
  | .ok .unknown =>
    simp only [settle] at h
    split at h <;> cases h
  | .error _ =>
    simp only [settle] at h
    split at h <;> cases h

/-- A cached refusal is answered while its damping lasts. -/
theorem cachedDecision_denied {entry : Option CacheEntry} {t₁ t₂ : ℕ}
    {d : Except String Unit × Counter} (h : cachedDecision entry t₁ t₂ = some d) :
    d.2 = .denied ↔ ∃ e, entry = some e ∧ e.verified = false ∧ t₁ - e.stamp < e.damp := by
  cases entry with
  | none => cases h
  | some e =>
    simp only [cachedDecision] at h
    split at h
    · next hfresh =>
      cases h
      simp [hfresh.1]
    · split at h
      · next hdamped =>
        cases h
        simpa using hdamped
      · cases h

/-- A step that decides from cache is a look into the cache. -/
theorem look_of_counting {s : State} {l : ℕ × Action} {k : Counting} (h : counting s l = some k)
    (hnone : k.outcome = none) : ∃ t₁ t₂ c d, (l.2 = .enter t₁ t₂ ∨ l.2 = .recheck t₁ t₂) ∧
      s.calls l.1 = some c ∧ cachedDecision (s.cache.lookup c.key) t₁ t₂ = some d ∧
      k = ⟨c.key, d.2, none, none⟩ := by
  obtain ⟨id, action⟩ := l
  obtain ⟨c, hc, hk⟩ := Option.bind_eq_some_iff.mp h
  split at hk
  · next t₁ t₂ hpc haction =>
    obtain ⟨d, hd, rfl⟩ := Option.map_eq_some_iff.mp hk
    exact ⟨t₁, t₂, c, d, .inl haction, hc, hd, rfl⟩
  · next t₁ t₂ hpc haction =>
    obtain ⟨d, hd, rfl⟩ := Option.map_eq_some_iff.mp hk
    exact ⟨t₁, t₂, c, d, .inr haction, hc, hd, rfl⟩
  · cases hk
    cases hnone
  · cases hk

/-- A look into the cache counts what the cache decides. -/
theorem counting_of_look {s s' : State} {l : ℕ × Action} {t₁ t₂ : ℕ} {c : Call}
    (h : step s l = some s') (hlook : l.2 = .enter t₁ t₂ ∨ l.2 = .recheck t₁ t₂)
    (hc : s.calls l.1 = some c) : counting s l =
      (cachedDecision (s.cache.lookup c.key) t₁ t₂).map fun d => ⟨c.key, d.2, none, none⟩ := by
  obtain ⟨id, action⟩ := l
  rw [counting_of_call hc]
  obtain ⟨_, _, -, hfree, -⟩ | ⟨c₀, pc', m, hid, hsteps, -⟩ := steps_of_step h
  · cases hfree.symm.trans hc
  · cases hid.symm.trans hc
    generalize c.pc = pc at hsteps
    rcases hlook with haction | haction
    · obtain rfl : action = _ := haction
      cases hsteps with
      | hit | miss => rfl
    · obtain rfl : action = _ := haction
      cases hsteps with
      | rehit | fetch => rfl

-- ════════════════════════════════════════════════════════════════════════
-- The invariant of the traced runs
-- ════════════════════════════════════════════════════════════════════════

structure Tracked (t : Traced) : Prop where
  inv : Inv t.state
  made : ∀ id c, t.state.calls id = some c → c.pc.counted = true →
    ∃ d, t.madeBy id = [d] ∧ d.key = c.key
  unmade : ∀ id, (∀ c, t.state.calls id = some c → c.pc.counted = false ∧ c.pc ≠ .dropped) →
    t.madeBy id = []
  counters : ∀ k, t.state.counters k = t.decisions.countP fun d => decide (d.counter = k)
  /-- A cached refusal is the one of the answer kept for its key. -/
  refusals : ∀ key e, t.state.cache.lookup key = some e → e.verified = false →
    ∃ id outcome, t.wrote key = some outcome ∧ .answered id key outcome ∈ t.state.log ∧
      refusalOf outcome e.stamp = some e
  denied : ∀ d ∈ t.decisions, d.counter = .denied →
    ∃ id outcome, d.origin = some outcome ∧ .answered id d.key outcome ∈ t.state.log

theorem tracked_init : Tracked Traced.init := by
  refine ⟨inv_init, ?_, fun _ _ => rfl, fun _ => rfl, ?_, ?_⟩
  · intro id c hc
    cases hc
  · intro key e he
    cases he
  · intro d hd
    cases hd

theorem tracedStep_eq_some {t t' : Traced} {l : ℕ × Action} :
    tracedStep t l = some t' ↔ ∃ s, step t.state l = some s ∧ t' = t.next l s := by
  rw [tracedStep, Option.map_eq_some_iff]
  constructor
  · rintro ⟨s, hs, rfl⟩
    exact ⟨s, hs, rfl⟩
  · rintro ⟨s, hs, rfl⟩
    exact ⟨s, hs, rfl⟩

section
variable {t : Traced} {l : ℕ × Action} {s : State} {k : Counting}

theorem next_of_quiet (h : counting t.state l = none) : t.next l s = { t with state := s } := by
  rw [Traced.next, h]

theorem next_of_counting (h : counting t.state l = some k) : t.next l s =
    { state := s
      wrote := k.outcome.elim t.wrote fun outcome => Function.update t.wrote k.key (some outcome)
      refusedAt := k.outcome.elim t.refusedAt fun _ => Function.update t.refusedAt k.key k.refusal
      decisions := ⟨l.1, k.key, k.counter, k.outcome.or (t.wrote k.key)⟩ :: t.decisions } := by
  rw [Traced.next, h]

theorem state_next : (t.next l s).state = s := by
  unfold Traced.next
  split <;> rfl

/-- A step that makes no decision. -/
theorem Tracked.still {id : ℕ} {c : Call} (h : Tracked t) (hinv : Inv s)
    (hcalls : s.calls = Function.update t.state.calls id (some c))
    (hmade : c.pc.counted = true → ∃ d, t.madeBy id = [d] ∧ d.key = c.key)
    (hunmade : c.pc.counted = false → c.pc ≠ .dropped → t.madeBy id = [])
    (hcounters : s.counters = t.state.counters) (hcache : s.cache = t.state.cache)
    (hlog : t.state.log ⊆ s.log) : Tracked { t with state := s } := by
  refine ⟨hinv, ?_, ?_, ?_, ?_, ?_⟩
  · intro j c' hc' hcounted
    replace hc' : s.calls j = some c' := hc'
    rw [hcalls] at hc'
    by_cases hj : j = id
    · subst hj
      rw [Function.update_self] at hc'
      cases hc'
      exact hmade hcounted
    · rw [Function.update_of_ne hj] at hc'
      exact h.made j c' hc' hcounted
  · intro j hall
    replace hall : ∀ c', s.calls j = some c' → c'.pc.counted = false ∧ c'.pc ≠ .dropped := hall
    rw [hcalls] at hall
    by_cases hj : j = id
    · subst hj
      obtain ⟨hfalse, halive⟩ := hall c (Function.update_self ..)
      exact hunmade hfalse halive
    · rw [Function.update_of_ne hj] at hall
      exact h.unmade j hall
  · intro k
    show s.counters k = _
    rw [hcounters]
    exact h.counters k
  · intro key e he hrefusal
    replace he : s.cache.lookup key = some e := he
    rw [hcache] at he
    obtain ⟨j, outcome, hwrote, hanswer, hentry⟩ := h.refusals key e he hrefusal
    exact ⟨j, outcome, hwrote, hlog hanswer, hentry⟩
  · intro d hd hdenied
    obtain ⟨j, outcome, horigin, hanswer⟩ := h.denied d hd hdenied
    exact ⟨j, outcome, horigin, hlog hanswer⟩

theorem madeBy_cons (t : Traced) (d : Decision) (decisions : List Decision)
    (h : t.decisions = d :: decisions) (id : ℕ) : t.madeBy id =
      if d.id = id then d :: decisions.filter (fun d => decide (d.id = id))
      else decisions.filter (fun d => decide (d.id = id)) := by
  rw [Traced.madeBy, h, List.filter_cons]
  simp only [decide_eq_true_eq]

/-- The answer behind a denied decision was one of scan's for the key. -/
theorem Tracked.answered_of_denied {c c' : Call} (h : Tracked t) (hcounts : Counts t.state s l c c')
    (hk : counting t.state l = some k) (hdenied : k.counter = .denied) :
    ∃ id outcome, k.outcome.or (t.wrote k.key) = some outcome ∧
      .answered id k.key outcome ∈ t.state.log := by
  obtain ⟨hkey, -, -, -, houtcome⟩ := hcounts.counts k hk
  cases hfrom : k.outcome with
  | none =>
    obtain ⟨t₁, t₂, c₀, d, -, -, hdecision, rfl⟩ := look_of_counting hk hfrom
    obtain ⟨e, he, hrefusal, -⟩ := (cachedDecision_denied hdecision).mp hdenied
    obtain ⟨id, outcome, hwrote, hanswer, -⟩ := h.refusals _ e he hrefusal
    exact ⟨id, outcome, by rw [Option.none_or]; exact hwrote, hanswer⟩
  | some outcome =>
    rw [hfrom] at houtcome
    obtain ⟨lock, now, readings, time, hpc, -⟩ := houtcome
    refine ⟨l.1, outcome, Option.some_or, ?_⟩
    rw [hkey]
    exact (h.inv.calls l.1 c hcounts.call).answered outcome (by rw [hpc]; rfl)

/-- The refusals in the cache after a decision. -/
theorem Tracked.refusals_count {c c' : Call} (h : Tracked t) (hcounts : Counts t.state s l c c')
    (hk : counting t.state l = some k) {key : Key} {e : CacheEntry}
    (he : s.cache.lookup key = some e) (hrefusal : e.verified = false) :
    ∃ id outcome, (t.next l s).wrote key = some outcome ∧ .answered id key outcome ∈ s.log ∧
      refusalOf outcome e.stamp = some e := by
  obtain ⟨hkey, -, -, -, houtcome⟩ := hcounts.counts k hk
  have hold : t.state.cache.lookup key = some e → ∃ id outcome, t.wrote key = some outcome ∧
      .answered id key outcome ∈ s.log ∧ refusalOf outcome e.stamp = some e := by
    intro he
    obtain ⟨id, outcome, hwrote, hanswer, hentry⟩ := h.refusals key e he hrefusal
    exact ⟨id, outcome, hwrote, hcounts.log hanswer, hentry⟩
  rw [next_of_counting hk]
  cases hfrom : k.outcome with
  | none =>
    rw [hfrom] at houtcome
    rw [houtcome] at he
    exact hold he
  | some outcome =>
    rw [hfrom] at houtcome
    obtain ⟨lock, now, readings, time, hpc, -, -, hcache, -⟩ := houtcome
    rw [hcache] at he
    rcases settle_negative he hrefusal with ⟨rfl, hentry⟩ | ⟨hne, hkept⟩
    · refine ⟨l.1, outcome, ?_, ?_, hentry⟩
      · rw [hkey]
        exact Function.update_self ..
      · exact hcounts.log
          ((h.inv.calls l.1 c hcounts.call).answered outcome (by rw [hpc]; rfl))
    · obtain ⟨id, outcome', hwrote, hrest⟩ := hold hkept
      refine ⟨id, outcome', ?_, hrest⟩
      rw [← hwrote]
      exact Function.update_of_ne (by rw [hkey]; exact hne) ..

/-- A step that makes a decision. -/
theorem Tracked.count {c c' : Call} (h : Tracked t) (hinv : Inv s)
    (hcounts : Counts t.state s l c c') (hk : counting t.state l = some k) :
    Tracked (t.next l s) := by
  obtain ⟨hkey, hnot, hcounted, hcounters, -⟩ := hcounts.counts k hk
  have hnext := next_of_counting (s := s) hk
  have hmade := madeBy_cons (t.next l s) _ _ (by rw [hnext])
  have hbefore : t.madeBy l.1 = [] := by
    refine h.unmade l.1 fun c₀ hc₀ => ?_
    cases hcounts.call.symm.trans hc₀
    exact ⟨hnot, hcounts.alive⟩
  have hcalls : (t.next l s).state.calls = Function.update t.state.calls l.1 (some c') := by
    rw [state_next]
    exact hcounts.calls
  refine ⟨by rw [state_next]; exact hinv, ?_, ?_, ?_, ?_, ?_⟩
  · intro j c₀ hc₀ hcounted₀
    rw [hcalls] at hc₀
    by_cases hj : j = l.1
    · subst hj
      rw [Function.update_self] at hc₀
      cases hc₀
      refine ⟨⟨l.1, k.key, k.counter, k.outcome.or (t.wrote k.key)⟩, ?_,
        hkey.trans hcounts.key.symm⟩
      rw [hmade, if_pos rfl]
      exact congrArg _ hbefore
    · rw [Function.update_of_ne hj] at hc₀
      rw [hmade, if_neg (fun heq => hj heq.symm)]
      exact h.made j c₀ hc₀ hcounted₀
  · intro j hall
    rw [hcalls] at hall
    by_cases hj : j = l.1
    · subst hj
      obtain ⟨hfalse, -⟩ := hall c' (Function.update_self ..)
      cases hcounted.symm.trans hfalse
    · rw [Function.update_of_ne hj] at hall
      rw [hmade, if_neg (fun heq => hj heq.symm)]
      exact h.unmade j hall
  · intro counter
    rw [hnext]
    show s.counters counter = _
    rw [hcounters, List.countP_cons, ← h.counters counter]
    by_cases hcounter : counter = k.counter
    · subst hcounter
      simp
    · rw [Function.update_of_ne hcounter]
      simp [Ne.symm hcounter]
  · intro key e he hrefusal
    rw [state_next] at he ⊢
    exact h.refusals_count hcounts hk he hrefusal
  · intro d hd hdenied
    rw [state_next]
    rw [hnext] at hd
    rcases List.mem_cons.mp hd with rfl | hd
    · obtain ⟨id, outcome, horigin, hanswer⟩ := h.answered_of_denied hcounts hk hdenied
      exact ⟨id, outcome, horigin, hcounts.log hanswer⟩
    · obtain ⟨id, outcome, horigin, hanswer⟩ := h.denied d hd hdenied
      exact ⟨id, outcome, horigin, hcounts.log hanswer⟩

theorem Tracked.step {t' : Traced} (h : Tracked t) (hstep : tracedStep t l = some t') :
    Tracked t' := by
  obtain ⟨s, hs, rfl⟩ := tracedStep_eq_some.mp hstep
  have hinv : Inv s := inv_step l h.inv hs
  obtain ⟨c, hpc, hfree, hcalls, hcounters, hcache, hlog, -, hquiet⟩ |
      ⟨c, c', hcounts⟩ := step_counts hs
  · rw [next_of_quiet hquiet]
    refine h.still hinv hcalls ?_ ?_ hcounters hcache (by rw [hlog]; exact List.Subset.refl _)
    · intro hcounted
      rw [hpc] at hcounted
      cases hcounted
    · intro _ _
      refine h.unmade l.1 fun c₀ hc₀ => ?_
      cases hfree.symm.trans hc₀
  · cases hk : counting t.state l with
    | some k => exact h.count hinv hcounts hk
    | none =>
      obtain ⟨hcounters, hcache, hpc⟩ := hcounts.quiet hk
      rw [next_of_quiet hk]
      refine h.still hinv hcounts.calls ?_ ?_ hcounters hcache hcounts.log
      · intro hcounted
        rw [hcounts.key]
        refine h.made l.1 c hcounts.call ?_
        rcases hpc with hsame | hdropped
        · exact hsame ▸ hcounted
        · rw [hdropped] at hcounted
          cases hcounted
      · intro hfalse halive
        refine h.unmade l.1 fun c₀ hc₀ => ?_
        cases hcounts.call.symm.trans hc₀
        rcases hpc with hsame | hdropped
        · exact ⟨hsame ▸ hfalse, hcounts.alive⟩
        · exact absurd hdropped halive

-- ════════════════════════════════════════════════════════════════════════
-- Refusals in time
-- ════════════════════════════════════════════════════════════════════════

/-- The cache holds the refusals of the last write sections, each until it is past every window. -/
structure Refusing (t : Traced) : Prop where
  stamped : ∀ key e, t.state.cache.lookup key = some e → e.verified = false →
    t.refusedAt key = some e.stamp
  held : ∀ key now outcome, t.refusedAt key = some now → t.wrote key = some outcome →
    (∃ e, t.state.cache.lookup key = some e ∧ refusalOf outcome now = some e) ∨
      now + maxVerdictStaleness ≤ t.state.clock

theorem refusing_init : Refusing Traced.init := by
  refine ⟨?_, ?_⟩
  · intro key e he
    cases he
  · intro key now outcome hnow
    cases hnow

/-- A step that leaves the cache as it is. -/
theorem Refusing.still (h : Refusing t) {t' : Traced} (hcache : t'.state.cache = t.state.cache)
    (hclock : t.state.clock ≤ t'.state.clock) (hwrote : t'.wrote = t.wrote)
    (hrefused : t'.refusedAt = t.refusedAt) : Refusing t' := by
  refine ⟨?_, ?_⟩
  · rw [hcache, hrefused]
    exact h.stamped
  · rw [hcache, hrefused, hwrote]
    intro key now outcome hnow houtcome
    exact (h.held key now outcome hnow houtcome).imp_right fun hle => le_trans hle hclock

/-- A write section. -/
theorem Refusing.settle (h : Refusing t) {c c' : Call} (hcounts : Counts t.state s l c c')
    (hk : counting t.state l = some k) {outcome : Except String Answer}
    (hfrom : k.outcome = some outcome) : Refusing (t.next l s) := by
  obtain ⟨hkey, -, -, -, houtcome⟩ := hcounts.counts k hk
  rw [hfrom] at houtcome
  obtain ⟨lock, now, readings, time, -, hreadings, hclock, hcache, -, hrefusal⟩ := houtcome
  rw [next_of_counting hk, hfrom, hkey]
  refine ⟨?_, ?_⟩
  · intro key e he hverified
    replace he : s.cache.lookup key = some e := he
    show Function.update t.refusedAt c.key k.refusal key = _
    rw [hcache] at he
    by_cases hsame : key = c.key
    · subst hsame
      rw [Function.update_self, hrefusal, settle_refused he hverified]
    · rw [settle_other hsame] at he
      rw [Function.update_of_ne hsame, h.stamped key e (lookup_compact he) hverified]
  · intro key now' outcome' hnow houtcome'
    replace hnow : Function.update t.refusedAt c.key k.refusal key = some now' := hnow
    replace houtcome' : Function.update t.wrote c.key (some outcome) key = some outcome' := houtcome'
    show (∃ e, s.cache.lookup key = some e ∧ _) ∨ _ ≤ s.clock
    rw [hcache]
    by_cases hsame : key = c.key
    · subst hsame
      rw [Function.update_self] at hnow houtcome'
      cases houtcome'
      obtain ⟨rfl, hleft⟩ := settle_refusal (hrefusal.symm.trans hnow)
      exact .inl hleft
    · rw [Function.update_of_ne hsame] at hnow houtcome'
      rw [settle_other hsame]
      rcases h.held key now' outcome' hnow houtcome' with ⟨e, he, hentry⟩ | hle
      · -- only an entry past every window is dropped
        by_cases hfresh : readings key - e.stamp < maxVerdictStaleness
        · exact .inl ⟨e, lookup_compact_of_fresh he hfresh, hentry⟩
        · have hreading := hreadings _ (AList.mem_lookup_iff.mp he)
          have hstamp := (refusalOf_eq hentry).2.1
          replace hreading : readings key ≤ time := hreading
          have hpos : 0 < maxVerdictStaleness := by decide
          exact .inr (by omega)
      · exact .inr (le_trans hle hcounts.clock)

theorem Refusing.step {t' : Traced} (h : Refusing t) (hstep : tracedStep t l = some t') :
    Refusing t' := by
  obtain ⟨s, hs, rfl⟩ := tracedStep_eq_some.mp hstep
  obtain ⟨c, -, -, -, -, hcache, -, hclock, hquiet⟩ | ⟨c, c', hcounts⟩ := step_counts hs
  · rw [next_of_quiet hquiet]
    exact h.still hcache hclock.ge rfl rfl
  · cases hk : counting t.state l with
    | none =>
      rw [next_of_quiet hk]
      exact h.still (hcounts.quiet hk).2.1 hcounts.clock rfl rfl
    | some k =>
      cases hfrom : k.outcome with
      | some outcome => exact h.settle hcounts hk hfrom
      | none =>
        obtain ⟨-, -, -, -, houtcome⟩ := hcounts.counts k hk
        rw [hfrom] at houtcome
        rw [next_of_counting hk, hfrom]
        exact h.still houtcome hcounts.clock rfl rfl

/-- A look into the cache reads the clock. -/
theorem clock_le_of_look {s s' : State} {t₁ t₂ : ℕ} {c : Call} (h : step s l = some s')
    (hlook : l.2 = .enter t₁ t₂ ∨ l.2 = .recheck t₁ t₂) (hc : s.calls l.1 = some c) :
    s.clock ≤ t₁ := by
  obtain ⟨id, action⟩ := l
  obtain ⟨_, _, -, hfree, -⟩ | ⟨c₀, pc', m, hid, hsteps, -⟩ := steps_of_step h
  · cases hfree.symm.trans hc
  · generalize c₀.pc = pc at hsteps
    rcases hlook with haction | haction
    · obtain rfl : action = _ := haction
      cases hsteps with
      | hit hclock | miss hclock => exact hclock.1
    · obtain rfl : action = _ := haction
      cases hsteps with
      | rehit hclock | fetch hclock => exact hclock.1

/-- A look meets a refusal that no verdict wrote exactly when it comes too early after it. -/
theorem Tracked.refusedOnVerdict_iff (h : Tracked t) (hdamped : Refusing t)
    (hstep : Verifier.step t.state l = some s) : RefusedOnVerdict t l ↔ RefusalsOver t l := by
  constructor
  · intro hmeets t₁ t₂ c now hlook hc hnow
    have hclock := clock_le_of_look hstep hlook hc
    have hover : ∀ outcome e, t.wrote c.key = some outcome →
        (∀ reason, outcome ≠ .ok (.verdict false reason)) → refusalOf outcome now = some e →
          now + e.damp ≤ t₁ := by
      intro outcome e hwrote hverdict hentry
      obtain ⟨hrefusal, hstamp, hpos⟩ := refusalOf_eq hentry
      rcases hdamped.held c.key now outcome hnow hwrote with ⟨e', he, hentry'⟩ | hle
      · obtain rfl := Option.some.inj (hentry.symm.trans hentry')
        by_contra hearly
        have hmet : t₁ - e.stamp < e.damp := by omega
        obtain ⟨reason, hreason⟩ := hmeets t₁ t₂ c e hlook hc he hrefusal hmet
        exact hverdict reason (Option.some.inj (hwrote.symm.trans hreason))
      · have hdamp := damp_le_of_refusalOf hentry
        have hwindow := windows_le.2
        omega
    refine ⟨fun hwrote => ?_, fun e hwrote => ?_⟩
    · have hle := hover _ _ hwrote nofun rfl
      exact hle
    · have hle := hover _ _ hwrote nofun rfl
      exact hle
  · intro hmeets t₁ t₂ c e hlook hc he hrefusal hearly
    obtain ⟨id, outcome, hwrote, -, hentry⟩ := h.refusals c.key e he hrefusal
    obtain ⟨hunknown, hfailed⟩ :=
      hmeets t₁ t₂ c e.stamp hlook hc (hdamped.stamped c.key e he hrefusal)
    match outcome with
    | .ok (.verdict true reason) => cases hentry
    | .ok (.verdict false reason) => exact ⟨reason, hwrote⟩
    | .ok .unknown =>
      have hover := hunknown hwrote
      have hdamp : e.damp = scanLagDamp := congrArg CacheEntry.damp (Option.some.inj hentry).symm
      omega
    | .error _ =>
      have hover := hfailed _ hwrote
      have hdamp : e.damp = negativeTtl := congrArg CacheEntry.damp (Option.some.inj hentry).symm
      omega

/-- A step keeps the denials explicit exactly when it meets the condition. -/
theorem denied_step {t' : Traced} (hstep : tracedStep t l = some t') :
    (∀ d ∈ t'.decisions, d.counter = .denied →
        ∃ reason, d.origin = some (.ok (.verdict false reason))) ↔
      (∀ d ∈ t.decisions, d.counter = .denied →
        ∃ reason, d.origin = some (.ok (.verdict false reason))) ∧ RefusedOnVerdict t l := by
  obtain ⟨s, hs, rfl⟩ := tracedStep_eq_some.mp hstep
  cases hk : counting t.state l with
  | none =>
    rw [next_of_quiet hk]
    refine ⟨fun hold => ⟨hold, ?_⟩, fun hold => hold.1⟩
    intro t₁ t₂ c e hlook hc he hrefusal hdamped
    -- a refusal that is damped would have been counted
    rw [counting_of_look hs hlook hc, Option.map_eq_none_iff, he] at hk
    simp [cachedDecision, hrefusal, hdamped] at hk
  | some k =>
    rw [next_of_counting hk, List.forall_mem_cons, and_comm]
    refine and_congr_right fun _ => ?_
    cases hfrom : k.outcome with
    | none =>
      obtain ⟨t₁, t₂, c, d, hlook, hc, hdecision, rfl⟩ := look_of_counting hk hfrom
      have hdenied := cachedDecision_denied hdecision
      constructor
      · intro hnew t₁' t₂' c' e hlook' hc' he hrefusal hdamped
        cases hc.symm.trans hc'
        obtain rfl : t₁ = t₁' := by
          rcases hlook with hl | hl <;> rcases hlook' with hl' | hl' <;>
            cases hl.symm.trans hl' <;> rfl
        exact hnew (hdenied.mpr ⟨e, he, hrefusal, hdamped⟩)
      · intro hmeets hcounter
        obtain ⟨e, he, hrefusal, hdamped⟩ := hdenied.mp hcounter
        exact hmeets t₁ t₂ c e hlook hc he hrefusal hdamped
    | some outcome =>
      obtain ⟨c, hpc, hfree, -, -, -, -, -, hquiet⟩ | ⟨c, c', hcounts⟩ := step_counts hs
      · cases hquiet.symm.trans hk
      · obtain ⟨-, -, -, -, houtcome⟩ := hcounts.counts k hk
        rw [hfrom] at houtcome
        obtain ⟨lock, now, readings, time, hpc, -, -, -, hcounter, -⟩ := houtcome
        constructor
        · -- a write section does not look into the cache
          intro _ t₁ t₂ c₀ e hlook hc₀
          rw [counting_of_look hs hlook hc₀, Option.map_eq_some_iff] at hk
          obtain ⟨d, -, rfl⟩ := hk
          cases hfrom
        · intro _ hdenied
          obtain ⟨reason, rfl⟩ := settle_denied (hcounter.symm.trans hdenied)
          exact ⟨reason, rfl⟩

theorem Tracked.deniedExplicit_iff (h : Tracked t) : DeniedExplicit t ↔
    ∀ d ∈ t.decisions, d.counter = .denied →
      ∃ reason, d.origin = some (.ok (.verdict false reason)) := by
  constructor
  · intro hexplicit d hd hdenied
    obtain ⟨-, reason, horigin, -⟩ := hexplicit d hd hdenied
    exact ⟨reason, horigin⟩
  · intro hexplicit d hd hdenied
    obtain ⟨reason, horigin⟩ := hexplicit d hd hdenied
    obtain ⟨id, outcome, horigin', hanswer⟩ := h.denied d hd hdenied
    cases horigin.symm.trans horigin'
    exact ⟨id, reason, horigin, hanswer⟩

theorem Tracked.countsOnce (h : Tracked t) : CountsOnce t := by
  refine ⟨?_, h.counters⟩
  intro id c result hc hpc
  exact h.made id c hc (by rw [hpc]; rfl)

end

/-- Along a run the denials stay explicit exactly when its steps meet the condition. -/
theorem deniedExplicit_run {labels : List (ℕ × Action)} : ∀ {t t' : Traced}, Tracked t →
    exec tracedStep t labels = some t' → (DeniedExplicit t' ↔
      DeniedExplicit t ∧ Meets tracedStep RefusedOnVerdict t labels) := by
  induction labels with
  | nil =>
    intro t t' _ hrun
    cases hrun
    exact (and_iff_left trivial).symm
  | cons l ls ih =>
    intro t t' h hrun
    obtain ⟨m, hm, hrest⟩ := exec_cons_eq_some.mp hrun
    have hmeets : Meets tracedStep RefusedOnVerdict t (l :: ls) ↔
        RefusedOnVerdict t l ∧ Meets tracedStep RefusedOnVerdict m ls := by
      simp only [Meets, hm, Option.some.injEq, forall_eq']
    rw [ih (h.step hm) hrest, (h.step hm).deniedExplicit_iff, denied_step hm,
      h.deniedExplicit_iff, hmeets, and_assoc]

/-- In every run, however the calls interleave and whatever scan answers: each call that has
    returned has incremented one counter, and every denied one goes back to an explicit verdict
    exactly when no call looks a key up less than 3 s after a call for it was refused on a 404, or
    less than 30 s after one was refused on a failed request. -/
theorem counters_tell_iff (labels : List (ℕ × Action)) (s : State)
    (hrun : exec step State.init labels = some s) :
    ∃ t, exec tracedStep Traced.init labels = some t ∧ t.state = s ∧ CountsOnce t ∧
      (DeniedExplicit t ↔ Meets tracedStep RefusalsOver Traced.init labels) := by
  obtain ⟨t, htraced, hstate⟩ : ∃ t, exec tracedStep Traced.init labels = some t ∧ t.state = s :=
    exec_lift (f := Traced.state)
      (fun t l s hs => ⟨t.next l s, tracedStep_eq_some.mpr ⟨s, hs, rfl⟩, state_next⟩) hrun
  have htracked : Tracked t :=
    exec_invariant (fun t l t' h => h.step) tracked_init htraced
  refine ⟨t, htraced, hstate, htracked.countsOnce, ?_⟩
  rw [deniedExplicit_run tracked_init htraced, and_iff_right nofun]
  refine meets_iff_of_invariant (I := fun t => Tracked t ∧ Refusing t)
    (fun t l t' h _ hstep => ⟨h.1.step hstep, h.2.step hstep⟩) ?_ ⟨tracked_init, refusing_init⟩
    htraced
  intro t l t' h hstep
  obtain ⟨s', hs', -⟩ := tracedStep_eq_some.mp hstep
  exact h.1.refusedOnVerdict_iff h.2 hs'

/-- Call 0 is refused on `outcome`; call 1 comes at `t`, while the refusal is damped. -/
def repeatedRun (outcome : Except String Answer) (t : ℕ) : List (ℕ × Action) :=
  [(0, .call ("app", 1) 0), (0, .enter 0 0), (0, .getLock), (0, .acquire), (0, .recheck 0 0),
    (0, .answer outcome), (0, .fallBack 0 0), (0, .poll 0), (0, .stamp 0),
    (0, .settle (fun _ => 0) 0), (0, .finish), (1, .call ("app", 1) 0), (1, .enter t t)]

/-- Evaluates `RefusalsOver`. -/
def refusalsOver (t : Traced) (l : ℕ × Action) : Bool :=
  match l.2 with
  | .enter t₁ _ | .recheck t₁ _ => (t.state.calls l.1).all fun c =>
    (t.refusedAt c.key).all fun now =>
      match t.wrote c.key with
      | some (.ok .unknown) => decide (now + scanLagDamp ≤ t₁)
      | some (.error _) => decide (now + negativeTtl ≤ t₁)
      | _ => true
  | _ => true

theorem refusalsOver_sound (t : Traced) (l : ℕ × Action) (h : refusalsOver t l = true) :
    RefusalsOver t l := by
  intro t₁ t₂ c now hlook hc hnow
  have hover : (match t.wrote c.key with
      | some (.ok .unknown) => decide (now + scanLagDamp ≤ t₁)
      | some (.error _) => decide (now + negativeTtl ≤ t₁)
      | _ => true) = true := by
    rcases hlook with hl | hl <;>
      simpa only [refusalsOver, hl, hc, hnow, Option.all_some] using h
  refine ⟨fun hwrote => ?_, fun e hwrote => ?_⟩
  · rw [hwrote] at hover
    exact of_decide_eq_true hover
  · rw [hwrote] at hover
    exact of_decide_eq_true hover

/-- Call 0 is refused on a 404. Call 1 comes when that refusal is over and is refused by scan, and
    call 2 is answered from the refusal of call 1. -/
def laterRun : List (ℕ × Action) :=
  repeatedRun (.ok .unknown) (secs 3) ++
    [(1, .getLock), (1, .acquire), (1, .recheck (secs 3) (secs 3)),
      (1, .answer (.ok (.verdict false "revoked"))), (1, .fallBack (secs 3) (secs 3)),
      (1, .poll (secs 3)), (1, .stamp (secs 3)), (1, .settle (fun _ => secs 3) (secs 3)),
      (1, .finish), (2, .call ("app", 1) 0), (2, .enter (secs 4) (secs 4))]

theorem counters_tell_iff_refused : ∃ t, exec tracedStep Traced.init laterRun = some t ∧
    t.state.counters .scanBehind = 1 ∧ t.state.counters .denied = 2 ∧ CountsOnce t ∧
    DeniedExplicit t := by
  have hcheck : check tracedStep refusalsOver Traced.init laterRun = true := by decide +kernel
  have hend : (exec step State.init laterRun).any (fun s =>
      s.counters .scanBehind = 1 && s.counters .denied = 2) = true := by decide +kernel
  simp only [Option.any_eq_true, Bool.and_eq_true, decide_eq_true_eq] at hend
  obtain ⟨s, hrun, hbehind, hdenied⟩ := hend
  obtain ⟨t, htraced, rfl, honce, hiff⟩ := counters_tell_iff _ s hrun
  exact ⟨t, htraced, hbehind, hdenied, honce, hiff.mpr (meets_of_check refusalsOver_sound hcheck)⟩

/-- A signer that scan does not know yet is denied on its retry, though scan has refused nobody. -/
theorem lagging_signer_denied : ∃ t,
    exec tracedStep Traced.init (repeatedRun (.ok .unknown) (secs 1)) = some t ∧
      t.state.counters .scanBehind = 1 ∧ t.state.counters .denied = 1 ∧
      (∀ id key reason, .answered id key (.ok (.verdict false reason)) ∉ t.state.log) ∧
      ¬ DeniedExplicit t := by
  obtain ⟨t, htraced, hbehind, hdenied, hlog, hdecisions⟩ : ∃ t,
      exec tracedStep Traced.init (repeatedRun (.ok .unknown) (secs 1)) = some t ∧
      t.state.counters .scanBehind = 1 ∧ t.state.counters .denied = 1 ∧
      t.state.log = [.answered 0 ("app", 1) (.ok .unknown)] ∧
      t.decisions = [⟨1, ("app", 1), .denied, some (.ok .unknown)⟩,
        ⟨0, ("app", 1), .scanBehind, some (.ok .unknown)⟩] :=
    ⟨_, rfl, rfl, rfl, rfl, rfl⟩
  refine ⟨t, htraced, hbehind, hdenied, ?_, ?_⟩
  · intro id key reason hmem
    rw [hlog] at hmem
    cases List.mem_singleton.mp hmem
  · intro hexplicit
    rw [DeniedExplicit, hdecisions] at hexplicit
    obtain ⟨-, reason, horigin, -⟩ := hexplicit _ List.mem_cons_self rfl
    cases horigin

end KmsCluster.Verifier
