import KmsCluster.Verifier

/-!
# Attested signers while scan is away

What a recorded positive verdict promises the signer it is about (`src/verifier.rs`): scan may
forget the pair, fail or time out, and other keys may fill the cache, but the signer is not
refused before the verdict is `maxVerdictStaleness` old.

The write section stamps an entry with a clock reading taken before it held the lock, and a call
that queued on a removed key lock runs beside one that queued on the new one. Where the two settle
in the order of their readings (`SettlesInOrder`) the promise holds; where they do not, the older
reading takes the newer confirmation back.

## Main results

- `confirmed_never_refused`: runs in order keep the promise.
- `confirmed_refused`: a run out of order breaks it.
-/

namespace KmsCluster.Verifier

open Runs

-- ════════════════════════════════════════════════════════════════════════
-- The promise
-- ════════════════════════════════════════════════════════════════════════

/-- `verified: true` was recorded for `key` with the stamp `c`, and no `verified: false` since. -/
def Confirmed (log : List Event) (key : Key) (c : ℕ) : Prop :=
  ∃ later earlier id, log = later ++ .recorded id key true c :: earlier ∧
    ∀ id' c', .recorded id' key false c' ∉ later

/-- The step takes the decision of a call for `key`, and it is `Err`. -/
def Refuses (s : State) (id : ℕ) (s' : State) (key : Key) : Prop :=
  ∃ c c' refusal, s.calls id = some c ∧ c.key = key ∧ c.pc.result? = none ∧
    s'.calls id = some c' ∧ c'.pc.result? = some (.error refusal)

/-- The last clock reading a refusal is taken on. -/
def Action.reading : Action → ℕ
  | .enter t₁ _ | .recheck t₁ _ => t₁
  | .settle _ t => t
  | _ => 0

/-- The step refuses no key whose confirmation is not revoked and not too old. -/
def ConfirmedServed (s : State) (l : ℕ × Action) (s' : State) : Prop :=
  ∀ key c, Confirmed s'.log key c → l.2.reading < c + maxVerdictStaleness →
    ¬ Refuses s l.1 s' key

/-- An answer that revokes. -/
def Denial : Except String Answer → Prop
  | .ok (.verdict false _) => True
  | _ => False

/-- A call that settles anything but a revocation on a positive entry has read its stamp after
    that entry was confirmed. -/
def SettlesInOrder (s : State) (l : ℕ × Action) : Prop :=
  ∀ readings t c lock outcome now e, l.2 = .settle readings t → s.calls l.1 = some c →
    c.pc = .settling lock outcome now → ¬ Denial outcome → s.cache.lookup c.key = some e →
    e.verified = true → e.confirmedAt ≤ now

theorem confirmed_cons {event : Event} {log : List Event} {key : Key} {c : ℕ} :
    Confirmed (event :: log) key c ↔
      (∃ id, event = .recorded id key true c) ∨
        (Confirmed log key c ∧ ∀ id' c', event ≠ .recorded id' key false c') := by
  constructor
  · rintro ⟨later, earlier, id, hlog, hlater⟩
    cases later with
    | nil =>
      rw [List.nil_append, List.cons.injEq] at hlog
      exact .inl ⟨id, hlog.1⟩
    | cons first later =>
      rw [List.cons_append, List.cons.injEq] at hlog
      obtain ⟨rfl, rfl⟩ := hlog
      refine .inr ⟨⟨later, earlier, id, rfl, ?_⟩, ?_⟩
      · intro id' c' hmem
        exact hlater id' c' (List.mem_cons_of_mem _ hmem)
      · intro id' c' heq
        exact hlater id' c' (heq ▸ List.mem_cons_self)
  · rintro (⟨id, rfl⟩ | ⟨⟨later, earlier, id, rfl, hlater⟩, hevent⟩)
    · exact ⟨[], log, id, rfl, by simp⟩
    · refine ⟨event :: later, earlier, id, rfl, ?_⟩
      intro id' c' hmem
      rcases List.mem_cons.mp hmem with heq | hmem
      · exact hevent id' c' heq.symm
      · exact hlater id' c' hmem

/-- Events that record no verdict change nothing about what is confirmed. -/
theorem confirmed_append {events log : List Event} {key : Key} {c : ℕ}
    (hevents : ∀ id k v t, .recorded id k v t ∉ events) :
    Confirmed (events ++ log) key c ↔ Confirmed log key c := by
  induction events with
  | nil => rfl
  | cons event events ih =>
    have hevents' : ∀ id k v t, .recorded id k v t ∉ events := fun id k v t hmem =>
      hevents id k v t (List.mem_cons_of_mem _ hmem)
    rw [List.cons_append, confirmed_cons, ih hevents']
    constructor
    · rintro (⟨id, rfl⟩ | ⟨hconf, -⟩)
      · exact absurd List.mem_cons_self (hevents id key true c)
      · exact hconf
    · intro hconf
      refine .inr ⟨hconf, ?_⟩
      rintro id' c' rfl
      exact hevents id' key false c' List.mem_cons_self

-- ════════════════════════════════════════════════════════════════════════
-- What a step does to the cache
-- ════════════════════════════════════════════════════════════════════════

/-- A step that leaves the cache and the recorded verdicts alone. -/
structure Quiet (s s' : State) : Prop where
  cache : s'.cache = s.cache
  clock : s.clock ≤ s'.clock
  log : ∃ events, s'.log = events ++ s.log ∧ ∀ id k v t, .recorded id k v t ∉ events

/-- The step of the write section. -/
structure Settles (s : State) (id : ℕ) (s' : State) (c : Call) (lock : ℕ)
    (outcome : Except String Answer) (now : ℕ) (readings : Key → ℕ) (t : ℕ) : Prop where
  call : s.calls id = some c
  pc : c.pc = .settling lock outcome now
  clock : s.clock ≤ t
  readings_le : ∀ e ∈ s.cache.entries, readings e.1 ≤ t
  eq : s' = s.applySettlement id c lock outcome now t (settle s.cache c.key outcome now readings t)

theorem quiet_of_log_eq {s s' : State} (hcache : s'.cache = s.cache) (hclock : s.clock ≤ s'.clock)
    (hlog : s'.log = s.log) : Quiet s s' :=
  ⟨hcache, hclock, [], hlog, by simp⟩

theorem not_recorded_resultEvents (id : ℕ) (key : Key) (result : Except String Unit) (t : ℕ) :
    ∀ id' k v t', .recorded id' k v t' ∉ resultEvents id key result t := by
  intro id' k v t'
  match result with
  | .ok () => simp [resultEvents]
  | .error _ => simp [resultEvents]

/-- A call that is left without a result has not been refused. -/
theorem not_refuses {s s' : State} {id : ℕ} {c : Call} {key : Key}
    (hcalls : s'.calls = Function.update s.calls id (some c)) (hresult : c.pc.result? = none) :
    ¬ Refuses s id s' key := by
  rintro ⟨-, c', refusal, -, -, -, hc', hrefusal⟩
  rw [hcalls, Function.update_self, Option.some.injEq] at hc'
  rw [← hc', hresult] at hrefusal
  cases hrefusal

/-- A refusal from the cache. -/
def RefusedFromCache (s : State) (key : Key) (action : Action) : Prop :=
  ∃ t₂ refusal counter, s.clock ≤ action.reading ∧
    cachedDecision (s.cache.lookup key) action.reading t₂ = some (.error refusal, counter)

theorem refusedFromCache_of_decision {s s' : State} {id t₂ : ℕ} {c : Call} {key : Key}
    {action : Action} {result : Except String Unit} {counter : Counter}
    (hclock : s.clock ≤ action.reading)
    (hdecision : cachedDecision (s.cache.lookup c.key) action.reading t₂ = some (result, counter))
    (hid : s.calls id = some c)
    (hcalls : s'.calls = Function.update s.calls id (some { c with pc := .returned result }))
    (hrefuses : Refuses s id s' key) : RefusedFromCache s key action := by
  obtain ⟨c₀, c', refusal, hc₀, rfl, -, hc', hrefusal⟩ := hrefuses
  obtain rfl : c = c₀ := Option.some.inj (hid.symm.trans hc₀)
  rw [hcalls, Function.update_self, Option.some.injEq] at hc'
  subst hc'
  simp only [Pc.result?, Option.some.injEq] at hrefusal
  subst hrefusal
  exact ⟨t₂, refusal, counter, hclock, hdecision⟩

/-- Every step is quiet, and refuses from the cache if it refuses, or it is a write section. -/
theorem CallSteps.cache_cases {s m : State} {id : ℕ} {c : Call} {action : Action} {pc' : Pc}
    (hsteps : CallSteps s id c c.pc action pc' m) (hid : s.calls id = some c) :
    (Quiet s (m.setPc id c pc') ∧
        ∀ key, Refuses s id (m.setPc id c pc') key → RefusedFromCache s key action) ∨
      ∃ lock outcome now readings t, action = .settle readings t ∧
        Settles s id (m.setPc id c pc') c lock outcome now readings t := by
  have hcalls := hsteps.calls_setPc
  have hclock := hsteps.clock
  generalize hpc : c.pc = pc at hsteps
  cases hsteps with
  | hit hreading hdecision | rehit hreading hdecision =>
    refine .inl ⟨⟨rfl, hclock, _, rfl, not_recorded_resultEvents id c.key _ _⟩, ?_⟩
    intro key
    exact refusedFromCache_of_decision hreading.1 hdecision hid hcalls
  | miss | acquire | fetch | fallBack | await | sleep | stop | wake | stamp =>
    exact .inl ⟨quiet_of_log_eq rfl hclock rfl,
      fun key hrefuses => absurd hrefuses (not_refuses hcalls rfl)⟩
  | getLock =>
    obtain ⟨locks, next, heq, -⟩ := lockFor_eq s c.key
    rw [heq] at hcalls hclock ⊢
    exact .inl ⟨quiet_of_log_eq rfl hclock rfl,
      fun key hrefuses => absurd hrefuses (not_refuses hcalls rfl)⟩
  | answer | reanswer =>
    exact .inl ⟨⟨rfl, hclock, [_], rfl, by simp⟩,
      fun key hrefuses => absurd hrefuses (not_refuses hcalls rfl)⟩
  | settle hsettle hreadings hr =>
    refine .inr ⟨_, _, _, _, _, rfl, hid, hpc, hsettle, fun e he => (hreadings e he).2, ?_⟩
    rw [applySettlement_eq, hr]
  | finish =>
    -- the decision was taken before
    refine .inl ⟨quiet_of_log_eq rfl hclock rfl, ?_⟩
    rintro key ⟨c₀, -, -, hc₀, -, hnone, -⟩
    obtain rfl : c = c₀ := Option.some.inj (hid.symm.trans hc₀)
    rw [hpc] at hnone
    cases hnone
  | drop =>
    obtain ⟨holder, heq⟩ := elim_release_eq s pc.lock?
    rw [heq] at hcalls hclock ⊢
    exact .inl ⟨quiet_of_log_eq rfl hclock rfl,
      fun key hrefuses => absurd hrefuses (not_refuses hcalls rfl)⟩

theorem step_cases {s s' : State} {l : ℕ × Action} (hstep : step s l = some s') :
    (Quiet s s' ∧ ∀ key, Refuses s l.1 s' key → RefusedFromCache s key l.2) ∨
      ∃ c lock outcome now readings t, l.2 = .settle readings t ∧
        Settles s l.1 s' c lock outcome now readings t := by
  obtain ⟨key, wait, -, -, rfl⟩ | ⟨c, pc', m, hid, hsteps, rfl⟩ := steps_of_step hstep
  · exact .inl ⟨quiet_of_log_eq rfl le_rfl rfl,
      fun key hrefuses => absurd hrefuses (not_refuses rfl rfl)⟩
  · rcases hsteps.cache_cases hid with hquiet | hsettles
    · exact .inl hquiet
    · exact .inr ⟨c, hsettles⟩

-- ════════════════════════════════════════════════════════════════════════
-- Usable positives stay
-- ════════════════════════════════════════════════════════════════════════

/-- Positive entries are stamped no earlier than they were confirmed, and a confirmation that is
    not too old is still in the cache. -/
structure Available (s : State) : Prop where
  stamped : ∀ key e, s.cache.lookup key = some e → e.verified = true → e.confirmedAt ≤ e.stamp
  kept : ∀ key c, Confirmed s.log key c → s.clock < c + maxVerdictStaleness →
    ∃ e, s.cache.lookup key = some e ∧ e.verified = true ∧ c ≤ e.confirmedAt

theorem maxVerdictStaleness_pos : 0 < maxVerdictStaleness := by decide

theorem available_init : Available State.init := by
  refine ⟨?_, ?_⟩
  · intro key e he
    cases he
  · rintro key c ⟨later, earlier, id, hlog, -⟩
    simp [State.init] at hlog

theorem Available.quiet {s s' : State} (h : Available s) (hquiet : Quiet s s') : Available s' := by
  obtain ⟨hcache, hclock, events, hlog, hevents⟩ := hquiet
  refine ⟨?_, ?_⟩
  · rw [hcache]
    exact h.stamped
  · intro key c hconf hfresh
    rw [hlog, confirmed_append hevents] at hconf
    rw [hcache]
    exact h.kept key c hconf (by omega)

theorem restampStale_of_usable {cache : Cache} {key : Key} {now t : ℕ} {e : CacheEntry}
    (he : cache.lookup key = some e) (hverified : e.verified = true)
    (hfresh : t - e.confirmedAt < maxVerdictStaleness) :
    restampStale cache key now t = some (AList.insert key { e with stamp := now } cache) := by
  have hstale : e.stalePositive t = true := by
    simp [CacheEntry.stalePositive, hverified, hfresh]
  simp only [restampStale, he, hstale, if_true]

/-- On a usable positive the write section answers `Ok(())` unless scan revokes, and leaves a
    positive that is confirmed no earlier, when its stamp is in order. -/
theorem settle_usable {cache : Cache} {key : Key} {outcome : Except String Answer} {now t : ℕ}
    {readings : Key → ℕ} {e : CacheEntry} (houtcome : ¬ Denial outcome)
    (he : (compact cache readings).lookup key = some e) (hverified : e.verified = true)
    (hfresh : t - e.confirmedAt < maxVerdictStaleness) :
    (settle cache key outcome now readings t).result = .ok () ∧
      ∃ e', (settle cache key outcome now readings t).cache.lookup key = some e' ∧
        e'.verified = true ∧ (e'.confirmedAt = e.confirmedAt ∨ e'.confirmedAt = now) := by
  match outcome with
  | .ok (.verdict true reason) =>
    exact ⟨rfl, _, AList.lookup_insert _, rfl, .inr rfl⟩
  | .ok (.verdict false reason) => exact absurd trivial houtcome
  | .ok .unknown =>
    simp only [settle, restampStale_of_usable he hverified hfresh, true_and]
    exact ⟨_, AList.lookup_insert _, hverified, .inl rfl⟩
  | .error _ =>
    simp only [settle, restampStale_of_usable he hverified hfresh, true_and]
    exact ⟨_, AList.lookup_insert _, hverified, .inl rfl⟩

/-- Stamps stay behind confirmations only where the write section was in order. -/
theorem settle_stamped {cache : Cache} {key k : Key} {outcome : Except String Answer} {now t : ℕ}
    {readings : Key → ℕ} {e' : CacheEntry}
    (hstamped : ∀ k e, cache.lookup k = some e → e.verified = true → e.confirmedAt ≤ e.stamp)
    (horder : ∀ e, ¬ Denial outcome → cache.lookup key = some e → e.verified = true →
      e.confirmedAt ≤ now)
    (he' : (settle cache key outcome now readings t).cache.lookup k = some e')
    (hverified : e'.verified = true) : e'.confirmedAt ≤ e'.stamp := by
  by_cases hk : k = key
  · subst hk
    have hrestamped : ∀ cache', ¬ Denial outcome →
        restampStale (compact cache readings) k now t = some cache' →
        cache'.lookup k = some e' → e'.confirmedAt ≤ e'.stamp := by
      intro cache' houtcome hrestamp h
      obtain ⟨e, he, hv, -, rfl⟩ := restampStale_some hrestamp
      rw [AList.lookup_insert, Option.some.injEq] at h
      subst h
      exact horder e houtcome (lookup_compact he) hv
    match outcome with
    | .ok (.verdict true reason) =>
      simp only [settle, AList.lookup_insert, Option.some.injEq] at he'
      subst he'
      exact le_rfl
    | .ok (.verdict false reason) =>
      exact absurd rfl (kept_of_insert_refused he' hverified).1
    | .ok .unknown =>
      simp only [settle] at he'
      split at he'
      · next cache' hrestamp => exact hrestamped cache' (by simp [Denial]) hrestamp he'
      · exact absurd rfl (kept_of_insert_refused he' hverified).1
    | .error _ =>
      simp only [settle] at he'
      split at he'
      · next cache' hrestamp => exact hrestamped cache' (by simp [Denial]) hrestamp he'
      · exact absurd rfl (kept_of_insert_refused he' hverified).1
  · rw [settle_other hk] at he'
    exact hstamped k e' (lookup_compact he') hverified

/-- Confirmations after a write section: its own fresh positive, or one that was there before. -/
theorem confirmed_settled {s s' : State} {id : ℕ} {c : Call} {lock now t : ℕ}
    {outcome : Except String Answer} {readings : Key → ℕ}
    (hsettles : Settles s id s' c lock outcome now readings t) {key : Key} {confirmed : ℕ}
    (hconf : Confirmed s'.log key confirmed) :
    (key = c.key ∧ confirmed = now ∧ ∃ reason, outcome = .ok (.verdict true reason)) ∨
      (Confirmed s.log key confirmed ∧ (key = c.key → ¬ Denial outcome)) := by
  rw [hsettles.eq, applySettlement_eq] at hconf
  replace hconf := (confirmed_append (not_recorded_resultEvents id c.key _ _)).mp hconf
  match outcome with
  | .ok (.verdict true reason) =>
    rcases confirmed_cons.mp hconf with ⟨id', heq⟩ | ⟨hold, -⟩
    · cases heq
      exact .inl ⟨rfl, rfl, reason, rfl⟩
    · exact .inr ⟨hold, fun _ => by simp [Denial]⟩
  | .ok (.verdict false reason) =>
    rcases confirmed_cons.mp hconf with ⟨id', heq⟩ | ⟨hold, hne⟩
    · cases heq
    · exact .inr ⟨hold, fun hkey => absurd (hkey ▸ rfl) (hne id now)⟩
  | .ok .unknown => exact .inr ⟨hconf, fun _ => by simp [Denial]⟩
  | .error _ => exact .inr ⟨hconf, fun _ => by simp [Denial]⟩

/-- A usable positive survives the compaction of a write section that ends before its time. -/
theorem Available.compacted {s s' : State} (h : Available s) {id : ℕ} {c : Call} {lock now t : ℕ}
    {outcome : Except String Answer} {readings : Key → ℕ}
    (hsettles : Settles s id s' c lock outcome now readings t) {key : Key} {confirmed : ℕ}
    (hconf : Confirmed s.log key confirmed) (hfresh : t < confirmed + maxVerdictStaleness) :
    ∃ e, s.cache.lookup key = some e ∧ (compact s.cache readings).lookup key = some e ∧
      e.verified = true ∧ confirmed ≤ e.confirmedAt := by
  have hclock := hsettles.clock
  obtain ⟨e, he, hverified, hle⟩ := h.kept key confirmed hconf (by omega)
  have hstamp : e.confirmedAt ≤ e.stamp := h.stamped key e he hverified
  have hreading : readings key ≤ t := hsettles.readings_le _ (AList.mem_lookup_iff.mp he)
  have hpos := maxVerdictStaleness_pos
  exact ⟨e, he, lookup_compact_of_fresh he (by omega), hverified, hle⟩

theorem Available.settles {s s' : State} (h : Available s) {id : ℕ} {c : Call} {lock now t : ℕ}
    {outcome : Except String Answer} {readings : Key → ℕ}
    (hsettles : Settles s id s' c lock outcome now readings t)
    (horder : ∀ e, ¬ Denial outcome → s.cache.lookup c.key = some e → e.verified = true →
      e.confirmedAt ≤ now) : Available s' := by
  have hcache : s'.cache = (settle s.cache c.key outcome now readings t).cache := by
    rw [hsettles.eq, applySettlement_eq]
    rfl
  have hclock : s'.clock = t := by
    rw [hsettles.eq, applySettlement_eq]
    rfl
  refine ⟨?_, ?_⟩
  · rw [hcache]
    intro key e he hverified
    exact settle_stamped h.stamped horder he hverified
  · intro key confirmed hconf hfresh
    rw [hclock] at hfresh
    rw [hcache]
    rcases confirmed_settled hsettles hconf with ⟨rfl, rfl, reason, rfl⟩ | ⟨hold, hdenial⟩
    · exact ⟨_, AList.lookup_insert _, rfl, le_rfl⟩
    · obtain ⟨e, he, hcompact, hverified, hle⟩ := h.compacted hsettles hold hfresh
      by_cases hkey : key = c.key
      · subst hkey
        have hpos := maxVerdictStaleness_pos
        have husable : t - e.confirmedAt < maxVerdictStaleness := by omega
        obtain ⟨e', he', hverified', hconfirmed⟩ :=
          (settle_usable (hdenial rfl) hcompact hverified husable).2
        refine ⟨e', he', hverified', ?_⟩
        -- A fresh positive replaces the entry; in order, it is no older.
        rcases hconfirmed with hsame | hnow
        · omega
        · have := horder e (hdenial rfl) he hverified
          omega
      · rw [settle_other hkey]
        exact ⟨e, hcompact, hverified, hle⟩

theorem available_step {s s' : State} {l : ℕ × Action} (h : Available s)
    (horder : SettlesInOrder s l) (hstep : step s l = some s') : Available s' := by
  rcases step_cases hstep with ⟨hquiet, -⟩ |
      ⟨c, lock, outcome, now, readings, t, haction, hsettles⟩
  · exact h.quiet hquiet
  · refine h.settles hsettles ?_
    intro e
    exact horder readings t c lock outcome now e haction hsettles.call hsettles.pc

theorem cachedDecision_verified {e : CacheEntry} (hverified : e.verified = true) {t₁ t₂ : ℕ}
    {refusal : String} {counter : Counter} :
    cachedDecision (some e) t₁ t₂ ≠ some (.error refusal, counter) := by
  simp only [cachedDecision, hverified, Bool.not_true]
  split
  · simp
  · simp

theorem Available.served {s s' : State} (h : Available s) {l : ℕ × Action}
    (hstep : step s l = some s') : ConfirmedServed s l s' := by
  intro key confirmed hconf hfresh hrefuses
  rcases step_cases hstep with ⟨hquiet, hcached⟩ |
      ⟨c, lock, outcome, now, readings, t, haction, hsettles⟩
  · obtain ⟨t₂, refusal, counter, hclock, hdecision⟩ := hcached key hrefuses
    obtain ⟨-, -, events, hlog, hevents⟩ := hquiet
    rw [hlog, confirmed_append hevents] at hconf
    obtain ⟨e, he, hverified, -⟩ := h.kept key confirmed hconf (by omega)
    rw [he] at hdecision
    exact cachedDecision_verified hverified hdecision
  · obtain ⟨c₀, c', refusal, hc₀, hkey, -, hc', hrefusal⟩ := hrefuses
    obtain rfl : c = c₀ := Option.some.inj (hsettles.call.symm.trans hc₀)
    replace hfresh : t < confirmed + maxVerdictStaleness := by
      rw [haction] at hfresh
      exact hfresh
    have hok : (settle s.cache c.key outcome now readings t).result = .ok () := by
      rcases confirmed_settled hsettles hconf with ⟨-, -, reason, rfl⟩ | ⟨hold, hdenial⟩
      · rfl
      · obtain ⟨e, he, hcompact, hverified, hle⟩ := h.compacted hsettles hold hfresh
        have hpos := maxVerdictStaleness_pos
        have husable : t - e.confirmedAt < maxVerdictStaleness := by omega
        exact (settle_usable (hdenial hkey.symm) (hkey ▸ hcompact) hverified husable).1
    rw [hsettles.eq, applySettlement_eq] at hc'
    simp only [State.setPc, Function.update_self, Option.some.injEq] at hc'
    rw [← hc', hok] at hrefusal
    cases hrefusal

/-- In every run whose write sections settle in order, no call for a key with a positive verdict
    that was not revoked is refused on readings less than 24 hours after it. -/
theorem confirmed_never_refused (labels : List (ℕ × Action)) (l : ℕ × Action) (s s' : State)
    (horder : Meets step SettlesInOrder State.init labels)
    (hrun : exec step State.init labels = some s) (hstep : step s l = some s') :
    ConfirmedServed s l s' := by
  have havailable : Available s :=
    exec_invariant_of_meets (fun s l s' h => available_step h) available_init horder hrun
  exact havailable.served hstep

/-- Evaluate `Confirmed`. -/
def confirmed (key : Key) (c : ℕ) : List Event → Bool
  | [] => false
  | .recorded _ k verified t :: log =>
    if k = key then verified && (t == c || confirmed key c log) else confirmed key c log
  | _ :: log => confirmed key c log

theorem confirmed_sound {key : Key} {c : ℕ} {log : List Event} (h : confirmed key c log = true) :
    Confirmed log key c := by
  induction log with
  | nil => cases h
  | cons event log ih =>
    rw [confirmed_cons]
    cases event with
    | answered id k outcome => exact .inr ⟨ih h, by simp⟩
    | admitted id k t => exact .inr ⟨ih h, by simp⟩
    | recorded id k verified t =>
      simp only [confirmed] at h
      split at h
      · next hk =>
        simp only [Bool.and_eq_true, Bool.or_eq_true, beq_iff_eq] at h
        rcases h.2 with rfl | hold
        · exact .inl ⟨id, by rw [hk, h.1]⟩
        · exact .inr ⟨ih hold, by simp [h.1]⟩
      · next hk => exact .inr ⟨ih h, by simp [hk]⟩

/-- A signer that scan verifies, then forgets while the entry waits for its hourly refresh. -/
def forgottenRun : List (ℕ × Action) :=
  freshRun ++
    [(1, .call ("app", 1) 0), (1, .enter (secs 4000) (secs 4000)), (1, .getLock), (1, .acquire),
      (1, .recheck (secs 4000) (secs 4000)), (1, .answer (.ok .unknown)),
      (1, .fallBack (secs 4000) (secs 4000)), (1, .stamp (secs 4000))]

/-- A test for `SettlesInOrder`. -/
def settlesInOrder (s : State) (l : ℕ × Action) : Bool :=
  (s.calls l.1).all fun c => c.pc.now?.all fun now =>
    (s.cache.lookup c.key).all fun e => !e.verified || decide (e.confirmedAt ≤ now)

theorem settlesInOrder_sound {s : State} {l : ℕ × Action} (h : settlesInOrder s l = true) :
    SettlesInOrder s l := by
  intro readings t c lock outcome now e _ hc hpc _ he hverified
  simpa [settlesInOrder, hc, hpc, Pc.now?, he, hverified] using h

theorem confirmed_never_refused_forgotten : ∃ s s', exec step State.init forgottenRun = some s ∧
    step s (1, .settle (fun _ => secs 4000) (secs 4000)) = some s' ∧ Confirmed s'.log ("app", 1) 5 ∧
    ¬ Refuses s 1 s' ("app", 1) := by
  obtain ⟨s, s', hrun, hstep, hconf⟩ : ∃ s s', exec step State.init forgottenRun = some s ∧
      step s (1, .settle (fun _ => secs 4000) (secs 4000)) = some s' ∧
      confirmed ("app", 1) 5 s'.log = true :=
    ⟨_, _, rfl, rfl, rfl⟩
  have horder : Meets step SettlesInOrder State.init forgottenRun :=
    meets_of_check (fun s l => settlesInOrder_sound) (by decide)
  exact ⟨s, s', hrun, hstep, confirmed_sound hconf, confirmed_never_refused forgottenRun _ s s'
    horder hrun hstep _ 5 (confirmed_sound hconf) (by decide)⟩

/-- Call 0 finds scan behind and refuses; call 1 has queued on its key lock meanwhile and call 2
    finds the lock map empty, so both ask scan. Call 1 reads its stamp at 10 s but gets the cache
    only after call 2, which stamped at 12 s. A day later scan is down for call 3. -/
def overtakenRun : List (ℕ × Action) :=
  [(0, .call ("app", 1) 0), (0, .enter 0 0), (0, .getLock), (0, .acquire), (0, .recheck 0 0),
    (1, .call ("app", 1) 0), (1, .enter 0 0), (1, .getLock),
    (0, .answer (.ok .unknown)), (0, .fallBack 0 0), (0, .poll 0), (0, .stamp 0),
    (0, .settle (fun _ => 0) 0), (0, .finish),
    (1, .acquire), (1, .recheck (secs 3) (secs 3)),
    (2, .call ("app", 1) 0), (2, .enter (secs 3) (secs 3)), (2, .getLock), (2, .acquire),
    (2, .recheck (secs 3) (secs 3)),
    (1, .answer (.ok (.verdict true ""))), (1, .fallBack (secs 10) (secs 10)), (1, .poll (secs 10)),
    (1, .stamp (secs 10)),
    (2, .answer (.ok (.verdict true ""))), (2, .fallBack (secs 12) (secs 12)), (2, .poll (secs 12)),
    (2, .stamp (secs 12)), (2, .settle (fun _ => secs 12) (secs 12)), (2, .finish),
    (1, .settle (fun _ => secs 12) (secs 12)), (1, .finish),
    (3, .call ("app", 1) 0), (3, .enter (secs 86411) (secs 86411)), (3, .getLock), (3, .acquire),
    (3, .recheck (secs 86411) (secs 86411)), (3, .answer (.error "verifier unreachable")),
    (3, .fallBack (secs 86411) (secs 86411)), (3, .poll (secs 86411)), (3, .stamp (secs 86411))]

theorem confirmed_refused : ¬ ∀ labels l s s', exec step State.init labels = some s →
    step s l = some s' → ConfirmedServed s l s' := by
  intro hclaim
  obtain ⟨s, s', hrun, hstep, hconf, c, c', refusal, hc, hkey, hnone, hc', hrefusal⟩ :
      ∃ s s', exec step State.init overtakenRun = some s ∧
        step s (3, .settle (fun _ => secs 86411) (secs 86411)) = some s' ∧
        confirmed ("app", 1) (secs 12) s'.log = true ∧
        ∃ c c' refusal, s.calls 3 = some c ∧ c.key = ("app", 1) ∧ c.pc.result? = none ∧
          s'.calls 3 = some c' ∧ c'.pc.result? = some (.error refusal) :=
    ⟨_, _, rfl, rfl, rfl, _, _, _, rfl, rfl, rfl, rfl, rfl⟩
  exact hclaim overtakenRun _ s s' hrun hstep ("app", 1) (secs 12) (confirmed_sound hconf)
    (by decide) ⟨c, c', refusal, hc, hkey, hnone, hc', hrefusal⟩

end KmsCluster.Verifier
