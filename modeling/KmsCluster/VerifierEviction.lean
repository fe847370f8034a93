import KmsCluster.VerifierAvailability
import KmsCluster.VerifierCounters

/-!
# Eviction from the verdict cache

The write section of `require_verified` (`src/verifier.rs`) drops the entries that are past every
window once the cache holds more than 4096. `keepingStep` is the system without that `retain`. In
runs whose write sections settle in order the two agree on everything but the cache, so a caller
cannot tell whether, or when, entries were dropped.

## Main results

- `settle_eq`: the write section is compaction, and then a write section that drops nothing.
- `Forgets.step`: both systems take the same step.
- `eviction_unseen`: the runs of the two systems.
- `exec_evicting`: a run in which a write section drops an entry.
-/

namespace KmsCluster.Verifier

open Runs

-- ════════════════════════════════════════════════════════════════════════
-- The system that drops nothing
-- ════════════════════════════════════════════════════════════════════════

/-- The write section without the `retain`: on readings of 0 no entry is past its window. -/
def settleKeeping (cache : Cache) (key : Key) (outcome : Except String Answer) (now t : ℕ) :
    Settlement :=
  settle cache key outcome now (fun _ => 0) t

def keepingStep (s : State) (l : ℕ × Action) : Option State :=
  match s.calls l.1, l.2 with
  | some c, .settle _ t =>
    match c.pc with
    | .settling lock outcome now =>
      if s.clock ≤ t then
        some (s.applySettlement l.1 c lock outcome now t
          (settleKeeping s.cache c.key outcome now t))
      else none
    | _ => none
  | _, _ => step s l

theorem compact_zero (cache : Cache) : compact cache (fun _ => 0) = cache := by
  unfold compact
  split
  · apply AList.ext
    refine List.filter_eq_self.mpr fun e _ => ?_
    exact decide_eq_true (by rw [Nat.zero_sub]; exact maxVerdictStaleness_pos)
  · rfl

theorem settle_eq (cache : Cache) (key : Key) (outcome : Except String Answer) (now t : ℕ)
    (readings : Key → ℕ) : settle cache key outcome now readings t =
      settleKeeping (compact cache readings) key outcome now t := by
  unfold settleKeeping settle
  rw [compact_zero]

-- ════════════════════════════════════════════════════════════════════════
-- Entries that make no difference
-- ════════════════════════════════════════════════════════════════════════

/-- The entry is past every window. -/
structure CacheEntry.Spent (e : CacheEntry) (clock : ℕ) : Prop where
  stamp : e.stamp + maxVerdictStaleness ≤ clock
  confirmedAt : e.verified = true → e.confirmedAt ≤ e.stamp
  damp : e.verified = false → e.damp ≤ negativeTtl

theorem CacheEntry.Spent.mono {e : CacheEntry} {clock clock' : ℕ} (h : e.Spent clock)
    (hclock : clock ≤ clock') : e.Spent clock' :=
  ⟨le_trans h.stamp hclock, h.confirmedAt, h.damp⟩

theorem CacheEntry.Spent.stalePositive_eq {e : CacheEntry} {clock t : ℕ} (h : e.Spent clock)
    (ht : clock ≤ t) : e.stalePositive t = false := by
  cases hverified : e.verified with
  | false => simp [CacheEntry.stalePositive, hverified]
  | true =>
    have hconfirmed := h.confirmedAt hverified
    have hstamp := h.stamp
    have hstale : ¬ t - e.confirmedAt < maxVerdictStaleness := by omega
    simp [CacheEntry.stalePositive, hverified, hstale]

theorem CacheEntry.Spent.cachedDecision_eq {e : CacheEntry} {clock t₁ t₂ : ℕ} (h : e.Spent clock)
    (ht : clock ≤ t₁) : cachedDecision (some e) t₁ t₂ = none := by
  have hstamp := h.stamp
  obtain ⟨hrefresh, hnegative⟩ := windows_le
  cases hverified : e.verified with
  | true =>
    have hold : ¬ t₁ - e.stamp < positiveRefresh := by omega
    simp [cachedDecision, hverified, hold]
  | false =>
    have hdamp := h.damp hverified
    have hold : ¬ t₁ - e.stamp < e.damp := by omega
    simp [cachedDecision, hverified, hold]

/-- `full` has the entries of `cache`, and besides them spent ones only. -/
def Extends (clock : ℕ) (cache full : Cache) : Prop :=
  ∀ key, full.lookup key = cache.lookup key ∨
    cache.lookup key = none ∧ ∃ e, full.lookup key = some e ∧ e.Spent clock

variable {clock t₁ t₂ : ℕ} {cache full : Cache}

theorem Extends.mono {clock' : ℕ} (h : Extends clock cache full) (hclock : clock ≤ clock') :
    Extends clock' cache full := by
  intro key
  rcases h key with hsame | ⟨hnone, e, he, hspent⟩
  · exact .inl hsame
  · exact .inr ⟨hnone, e, he, hspent.mono hclock⟩

theorem Extends.cachedDecision_eq (h : Extends clock cache full) (ht : clock ≤ t₁) (key : Key) :
    cachedDecision (full.lookup key) t₁ t₂ = cachedDecision (cache.lookup key) t₁ t₂ := by
  rcases h key with hsame | ⟨hnone, e, he, hspent⟩
  · rw [hsame]
  · rw [hnone, he, hspent.cachedDecision_eq ht]
    rfl

theorem Extends.hasStalePositive_eq (h : Extends clock cache full) (ht : clock ≤ t₁) (key : Key) :
    hasStalePositive full key t₁ = hasStalePositive cache key t₁ := by
  unfold hasStalePositive
  rcases h key with hsame | ⟨hnone, e, he, hspent⟩
  · rw [hsame]
  · rw [hnone, he, Option.any_some, hspent.stalePositive_eq ht, Option.any_none]

/-- The same entry is written into both. -/
theorem Extends.insert (h : Extends clock cache full) (key : Key) (e : CacheEntry) :
    Extends clock (AList.insert key e cache) (AList.insert key e full) := by
  intro k
  by_cases hk : k = key
  · subst hk
    rw [AList.lookup_insert, AList.lookup_insert]
    exact .inl rfl
  · rw [AList.lookup_insert_ne hk, AList.lookup_insert_ne hk]
    exact h k

/-- A stale positive is found in both or in neither. -/
theorem Extends.restampStale_cases (h : Extends clock cache full) (ht : clock ≤ t₁) (key : Key)
    (now : ℕ) :
    (restampStale cache key now t₁ = none ∧ restampStale full key now t₁ = none) ∨
      ∃ e, restampStale cache key now t₁ = some (AList.insert key e cache) ∧
        restampStale full key now t₁ = some (AList.insert key e full) := by
  unfold restampStale
  rcases h key with hsame | ⟨hnone, e, he, hspent⟩
  · rw [hsame]
    cases cache.lookup key with
    | none => exact .inl ⟨rfl, rfl⟩
    | some e =>
      cases hstale : e.stalePositive t₁ with
      | false => exact .inl ⟨by simp [hstale], by simp [hstale]⟩
      | true => exact .inr ⟨{ e with stamp := now }, by simp [hstale], by simp [hstale]⟩
  · refine .inl ⟨by rw [hnone], ?_⟩
    simp [he, hspent.stalePositive_eq ht]

/-- The write section does the same to both. -/
theorem Extends.settleKeeping (h : Extends clock cache full) (ht : clock ≤ t₁) (key : Key)
    (outcome : Except String Answer) (now : ℕ) :
    (settleKeeping full key outcome now t₁).result =
        (settleKeeping cache key outcome now t₁).result ∧
      (settleKeeping full key outcome now t₁).counter =
        (settleKeeping cache key outcome now t₁).counter ∧
      Extends clock (settleKeeping cache key outcome now t₁).cache
        (settleKeeping full key outcome now t₁).cache := by
  unfold Verifier.settleKeeping settle
  rw [compact_zero, compact_zero]
  match outcome with
  | .ok (.verdict true reason) => exact ⟨rfl, rfl, h.insert key _⟩
  | .ok (.verdict false reason) => exact ⟨rfl, rfl, h.insert key _⟩
  | .ok .unknown =>
    rcases h.restampStale_cases ht key now with ⟨hnone, hnone'⟩ | ⟨e, hsome, hsome'⟩
    · simp only [hnone, hnone', true_and]
      exact h.insert key _
    · simp only [hsome, hsome', true_and]
      exact h.insert key e
  | .error _ =>
    rcases h.restampStale_cases ht key now with ⟨hnone, hnone'⟩ | ⟨e, hsome, hsome'⟩
    · simp only [hnone, hnone', true_and]
      exact h.insert key _
    · simp only [hsome, hsome', true_and]
      exact h.insert key e

/-- Compaction drops spent entries only, while stamps are behind confirmations. -/
theorem extends_compact {readings : Key → ℕ} {t : ℕ}
    (hreadings : ∀ e ∈ cache.entries, readings e.1 ≤ t)
    (hstamped : ∀ key e, cache.lookup key = some e → e.verified = true → e.confirmedAt ≤ e.stamp)
    (hdamped : ∀ key e, cache.lookup key = some e → e.verified = false → e.damp ≤ negativeTtl) :
    Extends t (compact cache readings) cache := by
  intro key
  cases hcompact : (compact cache readings).lookup key with
  | some e => exact .inl (lookup_compact hcompact)
  | none =>
    cases hlookup : cache.lookup key with
    | none => exact .inl rfl
    | some e =>
      refine .inr ⟨rfl, e, rfl, ?_, hstamped key e hlookup, hdamped key e hlookup⟩
      by_contra hfresh
      have hpos := maxVerdictStaleness_pos
      have hreading : readings key ≤ t := hreadings _ (AList.mem_lookup_iff.mp hlookup)
      rw [lookup_compact_of_fresh hlookup (by omega)] at hcompact
      cases hcompact

theorem Extends.trans {mid : Cache} (h : Extends clock cache mid) (h' : Extends clock mid full) :
    Extends clock cache full := by
  intro key
  rcases h' key with hsame | ⟨hnone, e, he, hspent⟩
  · rcases h key with hsame' | ⟨hnone', e', he', hspent'⟩
    · exact .inl (hsame.trans hsame')
    · exact .inr ⟨hnone', e', hsame.trans he', hspent'⟩
  · rcases h key with hsame' | ⟨hnone', e', he', -⟩
    · exact .inr ⟨hsame' ▸ hnone, e, he, hspent⟩
    · rw [hnone] at he'
      cases he'

-- ════════════════════════════════════════════════════════════════════════
-- The two systems side by side
-- ════════════════════════════════════════════════════════════════════════

/-- The states differ in the cache alone, and there by spent entries. -/
structure Forgets (s p : State) : Prop where
  eq : p = { s with cache := p.cache }
  cache : Extends s.clock s.cache p.cache

/-- The damping of a refusal in the cache is one of the two. -/
def Damped (s : State) : Prop :=
  ∀ key e, s.cache.lookup key = some e → e.verified = false → e.damp ≤ negativeTtl

theorem Damped.step {s s' : State} {l : ℕ × Action} (h : Damped s) (hstep : step s l = some s') :
    Damped s' := by
  intro key e he hrefusal
  rcases step_cases hstep with ⟨hquiet, -⟩ | ⟨c, lock, outcome, now, readings, t, -, hsettles⟩
  · rw [hquiet.cache] at he
    exact h key e he hrefusal
  · rw [hsettles.eq, applySettlement_eq] at he
    rcases settle_negative he hrefusal with ⟨-, hwritten⟩ | ⟨-, hold⟩
    · exact damp_le_of_refusalOf hwritten
    · exact h key e hold hrefusal

theorem lockFor_extended (s : State) (full : Cache) (key : Key) :
    State.lockFor { s with cache := full } key =
      ((s.lockFor key).1, { (s.lockFor key).2 with cache := full }) := by
  unfold State.lockFor
  cases s.fetchLocks.lookup key with
  | none => rfl
  | some lock => rfl

/-- A step outside of the write section is the same with spent entries in the cache. -/
theorem CallSteps.extended {s m : State} {id : ℕ} {c : Call} {pc pc' : Pc} {action : Action}
    (hsteps : CallSteps s id c pc action pc' m) (hne : ∀ readings t, action ≠ .settle readings t)
    (hfull : Extends s.clock s.cache full) :
    callStep { s with cache := full } id c pc action =
      some { m.setPc id c pc' with cache := full } := by
  cases hsteps with
  | hit hclock hdecision =>
    rw [← hfull.cachedDecision_eq hclock.1] at hdecision
    simp only [callStep, if_pos hclock, hdecision, noteResult_eq]
    rfl
  | miss hclock hmiss =>
    rw [← hfull.cachedDecision_eq hclock.1] at hmiss
    simp only [callStep, if_pos hclock, hmiss]
    rfl
  | getLock =>
    simp only [callStep, lockFor_extended]
    rfl
  | acquire hfree =>
    simp only [callStep, if_pos hfree]
    rfl
  | rehit hclock hdecision =>
    rw [← hfull.cachedDecision_eq hclock.1] at hdecision
    simp only [callStep, if_pos hclock, hdecision, noteResult_eq]
    rfl
  | fetch hclock hmiss =>
    rw [← hfull.cachedDecision_eq hclock.1] at hmiss
    simp only [callStep, if_pos hclock, hmiss]
    rfl
  | fallBack hclock hpositive =>
    rw [← hfull.hasStalePositive_eq hclock.1] at hpositive
    simp only [callStep, if_pos hclock, hpositive]
    rfl
  | await hclock hnone =>
    rw [← hfull.hasStalePositive_eq hclock.1] at hnone
    simp only [callStep, if_pos hclock, hnone]
    rfl
  | sleep hclock hagain =>
    simp only [callStep, if_pos hclock, hagain]
    rfl
  | stop hclock hstop =>
    simp only [callStep, if_pos hclock, hstop]
    rfl
  | wake hclock hwake =>
    simp only [callStep, if_pos (And.intro hclock hwake)]
    rfl
  | stamp hclock =>
    simp only [callStep, if_pos hclock]
    rfl
  | settle => exact absurd rfl (hne _ _)
  | answer | reanswer | finish => rfl
  | drop hreturned hdropped =>
    cases pc with
    | returned result => exact absurd rfl (hreturned result)
    | dropped => exact absurd rfl hdropped
    | _ => rfl

theorem keepingStep_of_ne {s : State} {id : ℕ} {action : Action}
    (hne : ∀ readings t, action ≠ .settle readings t) :
    keepingStep s (id, action) = step s (id, action) := by
  unfold keepingStep
  dsimp only
  split
  · exact absurd rfl (hne _ _)
  · rfl

/-- While the write sections settle in order, dropping entries is not seen. -/
theorem Forgets.step {s p s' : State} {l : ℕ × Action} (h : Forgets s p) (havailable : Available s)
    (hdamped : Damped s) (hstep : step s l = some s') :
    ∃ p', keepingStep p l = some p' ∧ Forgets s' p' := by
  obtain ⟨heq, hfull⟩ := h
  obtain ⟨id, action⟩ := l
  rw [heq]
  generalize p.cache = full at hfull
  obtain ⟨key, wait, haction, hfree, rfl⟩ | ⟨c, pc', m, hid, hsteps, rfl⟩ := steps_of_step hstep
  · obtain rfl : action = .call key wait := haction
    replace hfree : s.calls id = none := hfree
    refine ⟨State.setPc { s with cache := full } id ⟨key, wait, .entered⟩ .entered, ?_, rfl, hfull⟩
    simp only [keepingStep, Verifier.step, hfree]
  · replace hid : s.calls id = some c := hid
    by_cases hsettle : ∃ readings t, action = .settle readings t
    · obtain ⟨readings, t, rfl⟩ := hsettle
      generalize hpc : c.pc = pc at hsteps
      cases hsteps with
      | @settle lock now _ outcome _ r hclock hreadings hr =>
        have hcompact : Extends t (compact s.cache readings) full :=
          (extends_compact (fun e he => (hreadings e he).2) havailable.stamped hdamped).trans
            (hfull.mono hclock)
        obtain ⟨hresult, hcounter, hcache⟩ := hcompact.settleKeeping (le_refl t) c.key outcome now
        rw [← settle_eq, ← hr] at hresult hcounter hcache
        refine ⟨State.applySettlement { s with cache := full } id c lock outcome now t
          (Verifier.settleKeeping full c.key outcome now t), ?_, ?_, ?_⟩
        · simp only [keepingStep, hid, hpc, if_pos hclock]
        · rw [applySettlement_eq, hresult, hcounter]
          rfl
        · rw [applySettlement_eq]
          exact hcache
    · have hne : ∀ readings t, action ≠ .settle readings t :=
        fun readings t heq => hsettle ⟨readings, t, heq⟩
      have hextended := hsteps.extended hne hfull
      refine ⟨{ m.setPc id c pc' with cache := full }, ?_, rfl, ?_⟩
      · rw [keepingStep_of_ne hne]
        simp only [Verifier.step, hid]
        exact hextended
      · rcases step_cases hstep with ⟨hquiet, -⟩ | ⟨-, -, -, -, readings, t, haction, -⟩
        · rw [hquiet.cache]
          exact hfull.mono hquiet.clock
        · exact absurd haction (hne readings t)

/-- In every run whose write sections settle in order, dropping the entries that are past every
    window is not seen: the calls, with what they returned, the counters, the locks and the log are
    those of the same run in which no entry is ever dropped. -/
theorem eviction_unseen (labels : List (ℕ × Action)) (s : State)
    (horder : Meets step SettlesInOrder State.init labels)
    (hrun : exec step State.init labels = some s) :
    ∃ p, exec keepingStep State.init labels = some p ∧ p = { s with cache := p.cache } ∧
      Extends s.clock s.cache p.cache := by
  obtain ⟨p, hp, ⟨hforgets, -, -⟩⟩ := exec_lockstep_of_meets
    (R := fun s p => Forgets s p ∧ Available s ∧ Damped s)
    (fun s p l s' h horder hstep => by
      obtain ⟨p', hp', hforgets⟩ := h.1.step h.2.1 h.2.2 hstep
      exact ⟨p', hp', hforgets, available_step h.2.1 horder hstep, h.2.2.step hstep⟩)
    ⟨⟨rfl, fun _ => .inl rfl⟩, available_init, fun _ _ he => nomatch he⟩ horder hrun
  exact ⟨p, hp, hforgets.eq, hforgets.cache⟩

-- ════════════════════════════════════════════════════════════════════════
-- A run that evicts
-- ════════════════════════════════════════════════════════════════════════

/-- The signer that the call `n` is about. -/
def signer (n : ℕ) : Key := ("app", BitVec.ofNat 160 n)

/-- Scan verifies the signer of the call `n` at `t`, and the call waits for the write lock. -/
def asking (n t : ℕ) : List (ℕ × Action) :=
  [(n, .call (signer n) 0), (n, .enter t t), (n, .getLock), (n, .acquire), (n, .recheck t t),
    (n, .answer (.ok (.verdict true ""))), (n, .fallBack t t), (n, .poll t), (n, .stamp t)]

def visit (n t : ℕ) : List (ℕ × Action) :=
  asking n t ++ [(n, .settle (fun _ => t) t), (n, .finish)]

section
variable {s : State} {n t : ℕ} (hid : s.calls n = none)
  (hcache : s.cache.lookup (signer n) = none) (hlocks : ∀ key, s.fetchLocks.lookup key = none)
  (hfree : ∀ lock, s.holder lock = none) (hclock : s.clock ≤ t)
include hid hcache hlocks hfree hclock

theorem exec_asking : exec step s (asking n t) = some { s with
    fetchLocks := AList.insert (signer n) s.nextLock s.fetchLocks
    nextLock := s.nextLock + 1
    holder := Function.update s.holder s.nextLock (some n)
    clock := t
    calls := Function.update s.calls n
      (some ⟨signer n, 0, .settling s.nextLock (.ok (.verdict true "")) t⟩)
    log := .answered n (signer n) (.ok (.verdict true "")) :: s.log } := by
  obtain ⟨cache, fetchLocks, nextLock, holder, counters, clock, calls, log⟩ := s
  dsimp only at *
  simp only [asking, exec, step, callStep, hid, hcache, hlocks, hfree, hclock, State.setPc, State.at,
    State.lockFor, State.note, Function.update_self, Function.update_idem, cachedDecision,
    hasStalePositive, Option.any_none, pollAgain, Bool.false_eq_true, if_false, if_true, le_refl,
    and_self, Option.bind_some]

/-- A visit of a new signer: the write section compacts and adds an entry. -/
theorem exec_visit : ∃ s', exec step s (visit n t) = some s' ∧
    s'.cache = AList.insert (signer n) ⟨true, "", 0, t, t⟩ (compact s.cache fun _ => t) ∧
    s'.clock = t ∧ (∀ id, id ≠ n → s'.calls id = s.calls id) ∧
    (∀ key, s'.fetchLocks.lookup key = none) ∧ ∀ lock, s'.holder lock = none := by
  rw [visit, exec_append, exec_asking hid hcache hlocks hfree hclock, Option.bind_some]
  simp only [exec, step, callStep, Function.update_self, le_refl, and_self, implies_true, if_true,
    Option.bind_some, applySettlement_eq, State.setPc, State.release, Function.update_idem]
  refine ⟨_, rfl, rfl, rfl, ?_, ?_, ?_⟩
  · intro id hne
    simp [hne]
  · intro key
    by_cases hkey : key = signer n
    · subst hkey
      exact AList.lookup_erase _ _
    · rw [AList.lookup_erase_ne hkey, AList.lookup_insert_ne hkey]
      exact hlocks key
  · intro lock
    by_cases hlock : lock = s.nextLock
    · simp [hlock]
    · simp [hlock, hfree]

/-- It settles on an absent entry. -/
theorem meets_visit : Meets step SettlesInOrder s (visit n t) := by
  refine (meets_append _ _).mpr ⟨?_, fun m hm => ?_⟩
  · refine (meets_of_forall (P := fun l => ∀ readings t, l.2 ≠ .settle readings t) ?_ s).imp ?_
    · simp [asking]
    · intro s l hne readings t c lock outcome now e haction
      exact absurd haction (hne readings t)
  · rw [exec_asking hid hcache hlocks hfree hclock] at hm
    cases hm
    refine ⟨?_, fun m _ => ⟨?_, fun _ _ => trivial⟩⟩
    · intro readings t' c lock outcome now e _ hc _ _ he
      obtain rfl : _ = c := Option.some.inj ((Function.update_self n _ s.calls).symm.trans hc)
      cases he.symm.trans hcache
    · intro readings t' c lock outcome now e haction
      cases haction
end

theorem signer_ne {m n : ℕ} (hm : m < 2 ^ 160) (hn : n < 2 ^ 160) (hne : m ≠ n) :
    signer m ≠ signer n := by
  intro heq
  have hvalue : m % 2 ^ 160 = n % 2 ^ 160 := congrArg (fun key : Key => key.2.toNat) heq
  rw [Nat.mod_eq_of_lt hm, Nat.mod_eq_of_lt hn] at hvalue
  exact hne hvalue

/-- `n` signers were visited at time 0. -/
structure Filled (n : ℕ) (s : State) : Prop where
  size : s.cache.entries.length = n
  first : 0 < n → s.cache.lookup (signer 0) = some ⟨true, "", 0, 0, 0⟩
  absent : ∀ m, n ≤ m → m < 2 ^ 160 → s.cache.lookup (signer m) = none
  calls : ∀ id, n ≤ id → s.calls id = none
  locks : ∀ key, s.fetchLocks.lookup key = none
  free : ∀ lock, s.holder lock = none
  clock : s.clock = 0

/-- The calls 0 to `n - 1`, one after the other, at time 0. Irreducible, so that nothing evaluates
    thousands of calls. -/
@[irreducible] def visits (n : ℕ) : List (ℕ × Action) := (List.range n).flatMap fun i => visit i 0

theorem visits_succ (n : ℕ) : visits (n + 1) = visits n ++ visit n 0 := by
  simp [visits, List.range_succ]

theorem filled_visits {n : ℕ} (hn : n ≤ 2 ^ 160) : ∃ s,
    exec step State.init (visits n) = some s ∧ Filled n s ∧
      Meets step SettlesInOrder State.init (visits n) := by
  induction n with
  | zero =>
    have hnil : visits 0 = [] := by simp [visits]
    rw [hnil]
    exact ⟨State.init, rfl, ⟨rfl, fun h => absurd h (lt_irrefl 0), fun _ _ _ => rfl,
      fun _ _ => rfl, fun _ => rfl, fun _ => rfl, rfl⟩, trivial⟩
  | succ n ih =>
    obtain ⟨s, hrun, hfilled, hmeets⟩ := ih (Nat.le_of_succ_le hn)
    have habsent := hfilled.absent n le_rfl hn
    obtain ⟨s', hrun', hcache, hclock, hcalls, hlocks, hfree⟩ :=
      exec_visit (hfilled.calls n le_rfl) habsent hfilled.locks hfilled.free hfilled.clock.le
    rw [compact_zero] at hcache
    refine ⟨s', ?_, ⟨?_, ?_, ?_, ?_, hlocks, hfree, hclock⟩, ?_⟩
    · rw [visits_succ, exec_append, hrun]
      exact hrun'
    · rw [hcache, AList.entries_insert_of_notMem (AList.lookup_eq_none.mp habsent),
        List.length_cons, hfilled.size]
    · intro _
      rw [hcache]
      rcases Nat.eq_zero_or_pos n with rfl | hpos
      · exact AList.lookup_insert _
      · rw [AList.lookup_insert_ne (signer_ne (by omega) hn hpos.ne)]
        exact hfilled.first hpos
    · intro m hm hle
      rw [hcache, AList.lookup_insert_ne (signer_ne hle hn (Nat.ne_of_gt hm))]
      exact hfilled.absent m (Nat.le_of_succ_le hm) hle
    · intro id hid
      rw [hcalls id (Nat.ne_of_gt hid)]
      exact hfilled.calls id (Nat.le_of_succ_le hid)
    · rw [visits_succ]
      refine (meets_append _ _).mpr ⟨hmeets, fun m hm => ?_⟩
      cases hrun.symm.trans hm
      exact meets_visit (hfilled.calls n le_rfl) habsent hfilled.locks hfilled.free
        hfilled.clock.le

/-- When more than 4096 signers are in the cache, the write section of a call a day later drops
    them. -/
theorem exec_evicting {n : ℕ} (hlt : 4096 < n) (hle : n < 2 ^ 160) : ∃ m s,
    exec step State.init (visits n) = some m ∧
      m.cache.lookup (signer 0) = some ⟨true, "", 0, 0, 0⟩ ∧
      exec step m (visit n maxVerdictStaleness) = some s ∧ s.cache.lookup (signer 0) = none ∧
      Meets step SettlesInOrder State.init (visits n ++ visit n maxVerdictStaleness) := by
  obtain ⟨m, hrun, hfilled, hmeets⟩ := filled_visits hle.le
  have hpos : 0 < n := by omega
  have hid := hfilled.calls n le_rfl
  have habsent := hfilled.absent n le_rfl hle
  have hclock : m.clock ≤ maxVerdictStaleness := hfilled.clock.le.trans (Nat.zero_le _)
  have hfirst := hfilled.first hpos
  obtain ⟨s, hlast, hcache, -⟩ := exec_visit hid habsent hfilled.locks hfilled.free hclock
  refine ⟨m, s, hrun, hfirst, hlast, ?_, (meets_append _ _).mpr ⟨hmeets, fun m' hm' => ?_⟩⟩
  · rw [hcache, AList.lookup_insert_ne (signer_ne (hpos.trans hle) hle hpos.ne),
      Option.eq_none_iff_forall_ne_some]
    intro e he
    rw [compact, hfilled.size, if_pos hlt, AssocMap.lookup_retain, hfirst] at he
    obtain ⟨he, hkept⟩ := he
    cases he
    exact absurd (of_decide_eq_true hkept) (lt_irrefl maxVerdictStaleness)
  · cases hrun.symm.trans hm'
    exact meets_visit hid habsent hfilled.locks hfilled.free hclock

theorem eviction_unseen_evicting : ∃ m s p, exec step State.init (visits 4097) = some m ∧
    m.cache.lookup (signer 0) = some ⟨true, "", 0, 0, 0⟩ ∧
    exec step m (visit 4097 maxVerdictStaleness) = some s ∧ s.cache.lookup (signer 0) = none ∧
    exec keepingStep State.init (visits 4097 ++ visit 4097 maxVerdictStaleness) = some p ∧
    p = { s with cache := p.cache } := by
  obtain ⟨m, s, hvisits, hfirst, hlast, hdropped, horder⟩ :=
    exec_evicting (n := 4097) (by decide) (by decide)
  have hrun : exec step State.init (visits 4097 ++ visit 4097 maxVerdictStaleness) = some s := by
    rw [exec_append, hvisits]
    exact hlast
  obtain ⟨p, hp, hforgets, -⟩ :=
    eviction_unseen (visits 4097 ++ visit 4097 maxVerdictStaleness) s horder hrun
  exact ⟨m, s, p, hvisits, hfirst, hlast, hdropped, hp, hforgets⟩

end KmsCluster.Verifier
