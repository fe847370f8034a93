import KmsCluster.Lib.Mutex
import KmsCluster.Verifier

/-!
# Single-flight of the verifier

A call that misses the cache takes its key's lock out of `fetch_locks`, waits for it and asks scan
under it; the call that finishes removes the lock from the map, while others may still wait for it
(`require_verified` of `src/verifier.rs`). A call that has waited for a removed lock then runs
beside one that has found a new lock in the map, unless the cache decides for it.

## Main results

- `single_flight`: one call at most asks scan for a key, in runs in which a call that holds a
  removed lock finds a cached decision.
- `removed_lock_fetches`: a run in which two calls ask scan for one key at once.
-/

namespace KmsCluster.Verifier

open Runs Mutex

/-- The call asks scan, polls it or records its answer. -/
def Pc.inside : Pc → Bool
  | .fetching _ | .fetched _ _ | .polling _ _ _ | .sleeping _ _ _ | .refetching _ _ | .asked _ _
  | .settling _ _ _ | .settled _ _ => true
  | _ => false

/-- The call `id` is in its fetch section for `key`. -/
def Inside (s : State) (key : Key) (id : ℕ) : Prop :=
  ∃ c, s.calls id = some c ∧ c.key = key ∧ c.pc.inside = true

/-- A call that rechecks the cache under a lock that is no longer the one of its key in
    `fetch_locks` finds a cached decision. -/
def DecidedIfRemoved (s : State) (l : ℕ × Action) : Prop :=
  ∀ t₁ t₂ c lock, l.2 = .recheck t₁ t₂ → s.calls l.1 = some c → c.pc = .locked lock →
    s.fetchLocks.lookup c.key ≠ some lock → (cachedDecision (s.cache.lookup c.key) t₁ t₂).isSome

-- ════════════════════════════════════════════════════════════════════════
-- What a step does to the locks
-- ════════════════════════════════════════════════════════════════════════

/-- How a call that goes to `pc` is in its fetch section: it was, or it found no decision in its
    recheck. -/
inductive Enters (s : State) (c : Call) (action : Action) (pc : Pc) : Prop
  | stays (hinside : c.pc.inside = true) (hlock : pc.lock? = c.pc.lock?)
  | rechecks {lock t₁ t₂ : ℕ} (haction : action = .recheck t₁ t₂) (hpc : c.pc = .locked lock)
      (hlock : pc.lock? = some lock)
      (hmiss : cachedDecision (s.cache.lookup c.key) t₁ t₂ = none)

/-- A step of the call `c` to `pc`, as far as the locks go. -/
structure Turns (s s' : State) (id : ℕ) (action : Action) (c : Call) (pc : Pc) : Prop where
  call : s.calls id = some c
  calls : s'.calls = Function.update s.calls id (some { c with pc := pc })
  holder : ∀ lock, Passes id (decide (c.pc.lock? = some lock)) (decide (pc.lock? = some lock))
    (s.holder lock) (s'.holder lock)
  inside : pc.inside = true → Enters s c action pc
  /-- Only the call that leaves its fetch section removes its key's lock. -/
  locks : ∀ key lock, s.fetchLocks.lookup key = some lock →
    s'.fetchLocks.lookup key = some lock ∨
      key = c.key ∧ c.pc.inside = true ∧ pc.inside = false

section
variable {s s' : State} {id : ℕ} {c : Call} {action : Action} {pc pc' : Pc}

theorem passes_same {lock? : Option ℕ} {lock : ℕ} {held : Option ℕ} :
    Passes id (decide (lock? = some lock)) (decide (lock? = some lock)) held held := by
  cases decide (lock? = some lock) with
  | false => rfl
  | true => rfl

/-- A step that keeps the call's lock, or its lack of one. -/
theorem turns_of_same (hid : s.calls id = some c) (hpc : c.pc = pc)
    (hcalls : s'.calls = Function.update s.calls id (some { c with pc := pc' }))
    (hholder : s'.holder = s.holder) (hlocks : s'.fetchLocks = s.fetchLocks)
    (hlock : pc'.lock? = pc.lock?) (hinside : pc'.inside = true → pc.inside = true) :
    Turns s s' id action c pc' := by
  subst hpc
  refine ⟨hid, hcalls, ?_, fun h => .stays (hinside h) hlock, ?_⟩
  · intro lock
    rw [hholder, hlock]
    exact passes_same
  · intro key lock hlookup
    rw [hlocks]
    exact .inl hlookup

/-- A step that gives up the call's lock. -/
theorem passes_release {lock : ℕ} (hlock : c.pc.lock? = some lock) (hnone : pc.lock? = none)
    (l : ℕ) : Passes id (decide (c.pc.lock? = some l)) (decide (pc.lock? = some l)) (s.holder l)
      ((s.release lock).holder l) := by
  rw [hlock, hnone]
  by_cases hl : lock = l
  · subst hl
    simp [Passes, State.release]
  · have hne : ¬ (some lock = some l) := by simpa using hl
    simp [Passes, State.release, hne, Function.update_of_ne (Ne.symm hl)]

theorem turns_of_drop (hid : s.calls id = some c)
    (h : s' = (c.pc.lock?.elim s s.release).setPc id c .dropped) :
    Turns s s' id action c .dropped := by
  subst h
  cases hlock : c.pc.lock? with
  | none => exact turns_of_same hid rfl rfl rfl rfl hlock.symm nofun
  | some lock =>
    exact ⟨hid, rfl, passes_release hlock rfl, nofun, fun _ _ hlookup => .inl hlookup⟩

theorem CallSteps.turns {m : State} (hsteps : CallSteps s id c c.pc action pc' m)
    (hid : s.calls id = some c) : Turns s (m.setPc id c pc') id action c pc' := by
  have hcalls := hsteps.calls_setPc
  generalize hpc : c.pc = pc at hsteps
  cases hsteps with
  | hit | miss => exact turns_of_same hid hpc hcalls rfl rfl rfl nofun
  | getLock =>
    obtain ⟨locks, next, heq, hlocks⟩ := lockFor_eq s c.key
    rw [heq] at hcalls ⊢
    refine ⟨hid, hcalls, ?_, nofun, fun key lock hlookup => .inl (hlocks key lock hlookup)⟩
    intro lock
    rw [hpc]
    rfl
  | @acquire lock hfree =>
    refine ⟨hid, hcalls, ?_, nofun, fun _ _ hlookup => .inl hlookup⟩
    intro l
    rw [hpc]
    by_cases hl : lock = l
    · subst hl
      simp [Passes, Pc.lock?, State.setPc, hfree]
    · have hne : ¬ (some lock = some l) := by simpa using hl
      simp [Passes, Pc.lock?, State.setPc, hl, Function.update_of_ne (Ne.symm hl)]
  | rehit =>
    exact ⟨hid, hcalls, passes_release (by rw [hpc]; rfl) rfl, nofun,
      fun _ _ hlookup => .inl hlookup⟩
  | fetch _ hmiss =>
    refine ⟨hid, hcalls, ?_, fun _ => .rechecks rfl hpc rfl hmiss, fun _ _ hlookup => .inl hlookup⟩
    intro l
    rw [hpc]
    exact passes_same
  | answer | fallBack | await | sleep | stop | wake | reanswer | stamp | settle =>
    exact turns_of_same hid hpc hcalls rfl rfl rfl (fun _ => rfl)
  | finish =>
    refine ⟨hid, hcalls, passes_release (by rw [hpc]; rfl) rfl, nofun, ?_⟩
    intro key lock hlookup
    by_cases hkey : key = c.key
    · exact .inr ⟨hkey, by rw [hpc]; rfl, rfl⟩
    · exact .inl ((AList.lookup_erase_ne hkey).trans hlookup)
  | drop => exact turns_of_drop hid (by rw [hpc])

/-- Everything a step can do to the locks. -/
theorem lock_cases {l : ℕ × Action} (h : step s l = some s') :
    (∃ c, c.pc = .entered ∧ s.calls l.1 = none ∧
      s'.calls = Function.update s.calls l.1 (some c) ∧ s'.holder = s.holder ∧
      s'.fetchLocks = s.fetchLocks) ∨ ∃ c pc, Turns s s' l.1 l.2 c pc := by
  obtain ⟨key, wait, -, hfree, rfl⟩ | ⟨c, pc', m, hid, hsteps, rfl⟩ := steps_of_step h
  · exact .inl ⟨_, rfl, hfree, rfl, rfl, rfl⟩
  · exact .inr ⟨c, pc', hsteps.turns hid⟩

-- ════════════════════════════════════════════════════════════════════════
-- Single-flight
-- ════════════════════════════════════════════════════════════════════════

/-- The call `id` holds the key lock `lock`. -/
def Holds (s : State) (lock id : ℕ) : Prop := ∃ c, s.calls id = some c ∧ c.pc.lock? = some lock

structure Flight (s : State) : Prop where
  guard : ∀ lock, Guarded (Holds s lock) (s.holder lock)
  /-- A call in its fetch section holds the lock that the map has for its key. -/
  mapped : ∀ id c, s.calls id = some c → c.pc.inside = true →
    s.fetchLocks.lookup c.key = c.pc.lock?

theorem flight_init : Flight State.init := by
  refine ⟨?_, ?_⟩
  · rintro lock id ⟨c, hc, -⟩
    cases hc
  · intro id c hc
    cases hc

theorem lock_of_inside (h : pc.inside = true) : ∃ lock, pc.lock? = some lock := by
  cases pc with
  | entered | missed | queued | locked | returned | dropped => cases h
  | fetching lock | fetched lock | polling lock | sleeping lock | refetching lock | asked lock
  | settling lock | settled lock => exact ⟨lock, rfl⟩

theorem Flight.exclusive (h : Flight s) {key : Key} {i j : ℕ} (hi : Inside s key i)
    (hj : Inside s key j) : i = j := by
  obtain ⟨c, hc, rfl, hinside⟩ := hi
  obtain ⟨c', hc', hkey, hinside'⟩ := hj
  obtain ⟨lock, hlock⟩ := lock_of_inside hinside
  have hmap := h.mapped i c hc hinside
  have hmap' := h.mapped j c' hc' hinside'
  rw [hkey, hmap, hlock] at hmap'
  exact (h.guard lock).exclusive ⟨c, hc, hlock⟩ ⟨c', hc', hmap'.symm⟩

theorem Turns.calls_cases (h : Turns s s' id action c pc) {j : ℕ} {c' : Call}
    (hc' : s'.calls j = some c') :
    j = id ∧ c' = { c with pc := pc } ∨ j ≠ id ∧ s.calls j = some c' := by
  rw [h.calls] at hc'
  by_cases hj : j = id
  · subst hj
    rw [Function.update_self] at hc'
    exact .inl ⟨rfl, (Option.some.inj hc').symm⟩
  · rw [Function.update_of_ne hj] at hc'
    exact .inr ⟨hj, hc'⟩

theorem Turns.guard (h : Turns s s' id action c pc) (hflight : Flight s) (lock : ℕ) :
    Guarded (Holds s' lock) (s'.holder lock) := by
  refine (hflight.guard lock).pass (h.holder lock) ?_ ?_ ?_
  · intro hheld
    exact ⟨c, h.call, of_decide_eq_true hheld⟩
  · rintro ⟨c', hc', hlock⟩
    rcases h.calls_cases hc' with ⟨-, rfl⟩ | ⟨hne, -⟩
    · exact decide_eq_true hlock
    · exact absurd rfl hne
  · rintro j hne ⟨c', hc', hlock⟩
    rcases h.calls_cases hc' with ⟨heq, -⟩ | ⟨-, hc'⟩
    · exact absurd heq hne
    · exact ⟨c', hc', hlock⟩

theorem Turns.mapped (h : Turns s s' id action c pc) (hflight : Flight s)
    (hmeets : DecidedIfRemoved s (id, action)) :
    ∀ j c', s'.calls j = some c' → c'.pc.inside = true →
      s'.fetchLocks.lookup c'.key = c'.pc.lock? := by
  intro j c' hc' hinside'
  rcases h.calls_cases hc' with ⟨rfl, rfl⟩ | ⟨hne, hc'⟩
  · -- the call that moves is not the one that leaves its section
    have hkept : ∀ lock, s.fetchLocks.lookup c.key = some lock →
        s'.fetchLocks.lookup c.key = some lock := by
      intro lock hlookup
      rcases h.locks c.key lock hlookup with hkept | ⟨-, -, hleft⟩
      · exact hkept
      · cases hleft.symm.trans hinside'
    cases h.inside hinside' with
    | stays hinside hlock =>
      obtain ⟨lock, hheld⟩ := lock_of_inside hinside
      show s'.fetchLocks.lookup c.key = pc.lock?
      rw [hlock, hheld]
      exact hkept lock ((hflight.mapped j c h.call hinside).trans hheld)
    | @rechecks lock t₁ t₂ haction hpc hlock hmiss =>
      show s'.fetchLocks.lookup c.key = pc.lock?
      rw [hlock]
      refine hkept lock ?_
      by_contra hremoved
      have hdecided := hmeets t₁ t₂ c lock haction h.call hpc hremoved
      rw [hmiss] at hdecided
      cases hdecided
  · obtain ⟨lock, hheld⟩ := lock_of_inside hinside'
    have hmap := hflight.mapped j c' hc' hinside'
    rw [hheld] at hmap ⊢
    rcases h.locks c'.key lock hmap with hkept | ⟨hkey, hinside, -⟩
    · exact hkept
    · -- the call that removes the lock is alone in the section of its key
      refine absurd ?_ hne
      exact hflight.exclusive ⟨c', hc', hkey, hinside'⟩ ⟨c, h.call, rfl, hinside⟩

theorem Flight.step (h : Flight s) {l : ℕ × Action} (hmeets : DecidedIfRemoved s l)
    (hstep : step s l = some s') : Flight s' := by
  obtain ⟨c, hpc, hfree, hcalls, hholder, hlocks⟩ | ⟨c, pc, hturns⟩ := lock_cases hstep
  · -- a call that begins is not in its section and holds no lock
    have hold : ∀ j c', s'.calls j = some c' → c'.pc = .entered ∨ s.calls j = some c' := by
      intro j c' hc'
      rw [hcalls] at hc'
      by_cases hj : j = l.1
      · subst hj
        rw [Function.update_self] at hc'
        cases hc'
        exact .inl hpc
      · rw [Function.update_of_ne hj] at hc'
        exact .inr hc'
    refine ⟨?_, ?_⟩
    · rintro lock j ⟨c', hc', hlock⟩
      rw [hholder]
      rcases hold j c' hc' with hentered | hc'
      · rw [hentered] at hlock
        cases hlock
      · exact h.guard lock j ⟨c', hc', hlock⟩
    · intro j c' hc' hinside
      rw [hlocks]
      rcases hold j c' hc' with hentered | hc'
      · rw [hentered] at hinside
        cases hinside
      · exact h.mapped j c' hc' hinside
  · exact ⟨hturns.guard h, hturns.mapped h hmeets⟩

end

/-- In every run in which each call that rechecks the cache under a removed lock finds a decision,
    however the calls interleave and whatever time passes: in every state reached, at most one call
    for a key is in its fetch section. -/
theorem single_flight (labels : List (ℕ × Action)) (s : State)
    (hrun : exec step State.init labels = some s)
    (hmeets : Meets step DecidedIfRemoved State.init labels) (key : Key) (i j : ℕ)
    (hi : Inside s key i) (hj : Inside s key j) : i = j := by
  have hflight : Flight s :=
    exec_invariant_of_meets (fun s l s' h hmeets => h.step hmeets) flight_init hmeets hrun
  exact hflight.exclusive hi hj

/-- Call 0 fails to get a verdict while call 1 waits for its lock. -/
def queuedRun : List (ℕ × Action) :=
  [(0, .call ("app", 1) 0), (0, .enter 0 0), (0, .getLock), (0, .acquire), (0, .recheck 0 0),
    (1, .call ("app", 1) 0), (1, .enter 0 0), (1, .getLock),
    (0, .answer (.ok .unknown)), (0, .fallBack 0 0), (0, .poll 0), (0, .stamp 0),
    (0, .settle (fun _ => 0) 0), (0, .finish), (1, .acquire)]

/-- Call 1 rechecks at `t`; call 2 comes at `t'` and finds a new lock in the map. -/
def removedRun (t t' : ℕ) : List (ℕ × Action) :=
  queuedRun ++ [(1, .recheck t t), (2, .call ("app", 1) 0), (2, .enter t' t'), (2, .getLock),
    (2, .acquire), (2, .recheck t' t')]

/-- Evaluates `DecidedIfRemoved`. -/
def decidedIfRemoved (s : State) (l : ℕ × Action) : Bool :=
  match l.2 with
  | .recheck t₁ t₂ => (s.calls l.1).all fun c =>
    decide (s.fetchLocks.lookup c.key = c.pc.lock?) ||
      (cachedDecision (s.cache.lookup c.key) t₁ t₂).isSome
  | _ => true

theorem decidedIfRemoved_sound (s : State) (l : ℕ × Action) (h : decidedIfRemoved s l = true) :
    DecidedIfRemoved s l := by
  intro t₁ t₂ c lock haction hc hpc hremoved
  simp only [decidedIfRemoved, haction, hc, Option.all_some, hpc, Pc.lock?, hremoved,
    decide_false, Bool.false_or] at h
  exact h

/-- Call 1 rechecks within the damping of call 0's refusal, and call 2, which comes after it, asks
    scan alone. -/
theorem single_flight_damped : ∃ s, exec step State.init (removedRun (secs 1) (secs 4)) = some s ∧
    Inside s ("app", 1) 2 ∧ ∀ j, Inside s ("app", 1) j → j = 2 := by
  obtain ⟨s, c, hrun, hcheck, hc, hkey, hinside⟩ : ∃ s c,
      exec step State.init (removedRun (secs 1) (secs 4)) = some s ∧
      check step decidedIfRemoved State.init (removedRun (secs 1) (secs 4)) = true ∧
      s.calls 2 = some c ∧ c.key = ("app", 1) ∧ c.pc.inside = true :=
    ⟨_, _, rfl, rfl, rfl, rfl, rfl⟩
  have hmeets := meets_of_check decidedIfRemoved_sound hcheck
  have htwo : Inside s ("app", 1) 2 := ⟨c, hc, hkey, hinside⟩
  exact ⟨s, hrun, htwo, fun j hj => single_flight _ s hrun hmeets _ j 2 hj htwo⟩

/-- Call 1 rechecks under the removed lock after the damping has passed, and so does call 2 under
    the new one: both ask scan for the key. -/
theorem removed_lock_fetches : ∃ s c c',
    exec step State.init (removedRun (secs 3) (secs 3)) = some s ∧
    s.calls 1 = some c ∧ c.key = ("app", 1) ∧ c.pc = .fetching 0 ∧
    s.calls 2 = some c' ∧ c'.key = ("app", 1) ∧ c'.pc = .fetching 1 :=
  ⟨_, _, _, rfl, rfl, rfl, rfl, rfl, rfl, rfl⟩

end KmsCluster.Verifier
