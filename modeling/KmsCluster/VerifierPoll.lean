import KmsCluster.VerifierFlight

/-!
# The poll loop of the verifier

A call of `require_verified` (`src/verifier.rs`) that scan cannot answer asks again every
`SCAN_LAG_POLL`, as long as another wait ends within `scan_lag_wait` of the reading after its first
fetch. `Polled` keeps when the fetches of each call started. The clock moves freely between two
steps, so a fetch may take any time; a sleep takes `SCAN_LAG_POLL` at least.

## Main results

- `CallSteps.budget`, `CallSteps.cost`: what a step takes off the budget of a call.
- `polls_bounded`: how often a call asks scan, when it stops, when its last fetch starts, and that
  it comes to its end.
-/

namespace KmsCluster.Verifier

open Runs

-- ════════════════════════════════════════════════════════════════════════
-- The fetches of a call
-- ════════════════════════════════════════════════════════════════════════

/-- A fetch is under way. -/
def Pc.asking : Pc → Bool
  | .fetching _ | .refetching _ _ => true
  | _ => false

/-- The call asks scan no more: it has a definite verdict, or it is past the loop. -/
def Pc.decided : Pc → Bool
  | .fetched _ (.ok (.verdict _ _)) | .polling _ (.ok (.verdict _ _)) _ => true
  | .asked _ _ | .settling _ _ _ | .settled _ _ | .returned _ | .dropped => true
  | _ => false

/-- A state with the course of each call. -/
structure Polled where
  state : State
  /-- When the fetches of a call started, the last one first. -/
  starts : ℕ → List ℕ
  /-- `scan_lag_wait` after the reading that follows the first fetch of a call. -/
  deadline : ℕ → Option ℕ
  /-- How many steps a call has made. -/
  steps : ℕ → ℕ

def Polled.init : Polled := ⟨State.init, fun _ => [], fun _ => none, fun _ => 0⟩

/-- The deadline that a step sets. -/
def Action.deadline? (wait : ℕ) : Action → Option ℕ
  | .fallBack _ t₂ => some (t₂ + wait)
  | _ => none

def Polled.next (p : Polled) (l : ℕ × Action) (s : State) : Polled where
  state := s
  starts := Function.update p.starts l.1
    (if (s.calls l.1).any (·.pc.asking) then s.clock :: p.starts l.1 else p.starts l.1)
  deadline := Function.update p.deadline l.1
    (((s.calls l.1).bind fun c => l.2.deadline? c.scanLagWait).or (p.deadline l.1))
  steps := Function.update p.steps l.1 (p.steps l.1 + 1)

def polledStep (p : Polled) (l : ℕ × Action) : Option Polled := (step p.state l).map (p.next l)

/-- A step in which a call gets a definite verdict, or finds a usable positive to fall back on. -/
def EndsFetches (s : State) (l : ℕ × Action) : Prop :=
  (∃ verified reason, l.2 = .answer (.ok (.verdict verified reason))) ∨
    ∃ t₁ t₂ c, l.2 = .fallBack t₁ t₂ ∧ s.calls l.1 = some c ∧
      hasStalePositive s.cache c.key t₁ = true

/-- A call that wakes up has slept no longer than it asked for. -/
def SleepsExactly (p : Polled) (l : ℕ × Action) : Prop :=
  ∀ t c lock wake deadline, l.2 = .wake t → p.state.calls l.1 = some c →
    c.pc = .sleeping lock wake deadline → t = wake

-- ════════════════════════════════════════════════════════════════════════
-- The budget of a call
-- ════════════════════════════════════════════════════════════════════════

/-- What a call that waits at most `wait` has left when it has started `n` fetches. Each fetch but
    the first took `scanLagPoll` off the time between the deadline's reading and the clock. -/
def Budget (clock wait n : ℕ) : Pc → Prop
  | .entered | .missed | .queued _ | .locked _ => n = 0
  | .fetching _ | .fetched _ _ => n = 1
  | .polling _ _ deadline | .refetching _ deadline =>
    1 ≤ n ∧ deadline + (n - 1) * scanLagPoll ≤ clock + wait ∧ n ≤ 1 + wait / scanLagPoll
  | .sleeping _ wake deadline =>
    1 ≤ n ∧ deadline + n * scanLagPoll ≤ wake + wait ∧ wake ≤ deadline
  | .asked _ _ | .settling _ _ _ | .settled _ _ | .returned _ | .dropped =>
    n ≤ 1 + wait / scanLagPoll

/-- How many steps lead to a place, the repetitions of the loop apart. -/
def Pc.rank : Pc → ℕ
  | .entered => 1
  | .missed => 2
  | .queued _ => 3
  | .locked _ => 4
  | .fetching _ => 5
  | .fetched _ _ | .refetching _ _ => 6
  | .polling _ _ _ => 7
  | .sleeping _ _ _ | .asked _ _ => 8
  | .settling _ _ _ => 9
  | .settled _ _ => 10
  | .returned _ | .dropped => 11

def Pc.cost (pc : Pc) (n : ℕ) : ℕ := pc.rank + 3 * (n - 1)

/-- The call has not yet set its deadline. -/
def Pc.early : Pc → Bool
  | .entered | .missed | .queued _ | .locked _ | .fetching _ | .fetched _ _ => true
  | _ => false

def Pc.deadline? : Pc → Option ℕ
  | .polling _ _ deadline | .sleeping _ _ deadline | .refetching _ deadline => some deadline
  | _ => none

theorem scanLagPoll_pos : 0 < scanLagPoll := by decide

theorem Budget.bound {clock wait n : ℕ} {pc : Pc} (h : Budget clock wait n pc) :
    n ≤ 1 + wait / scanLagPoll := by
  cases pc with
  | entered | missed | queued | locked => exact le_of_eq_of_le h (Nat.zero_le _)
  | fetching | fetched => exact le_of_eq_of_le h (Nat.le_add_right 1 _)
  | polling | refetching => exact h.2.2
  | sleeping lock wake deadline =>
    obtain ⟨-, hspent, hwake⟩ := h
    have hn : n ≤ wait / scanLagPoll :=
      (Nat.le_div_iff_mul_le scanLagPoll_pos).mpr (by omega)
    omega
  | asked | settling | settled | returned | dropped => exact h

theorem Budget.mono {clock clock' wait n : ℕ} {pc : Pc} (h : Budget clock wait n pc)
    (hclock : clock ≤ clock') : Budget clock' wait n pc := by
  cases pc with
  | polling | refetching => exact ⟨h.1, by have := h.2.1; omega, h.2.2⟩
  | entered | missed | queued | locked | fetching | fetched => exact h
  | sleeping => exact h
  | asked | settling | settled | returned | dropped => exact h

-- ════════════════════════════════════════════════════════════════════════
-- The budget along the steps of a call
-- ════════════════════════════════════════════════════════════════════════

section
variable {s m : State} {id : ℕ} {c : Call} {pc pc' : Pc} {action : Action}

/-- Another round of the loop ends within the deadline. -/
theorem le_deadline_of_pollAgain {outcome : Except String Answer} {t deadline : ℕ}
    (h : pollAgain outcome t deadline = true) : t + scanLagPoll ≤ deadline := by
  unfold pollAgain at h
  split at h
  · cases h
  · exact of_decide_eq_true h

theorem CallSteps.budget {n : ℕ} (h : CallSteps s id c pc action pc' m)
    (hbudget : Budget s.clock c.scanLagWait n pc) :
    Budget m.clock c.scanLagWait (n + pc'.asking.toNat) pc' := by
  have hbound := hbudget.bound
  cases h with
  | miss | getLock | acquire | answer | reanswer => exact hbudget
  | fetch => exact congrArg (· + 1) hbudget
  | hit | rehit | fallBack | stop | stamp | settle | finish | drop => exact hbound
  | await =>
    obtain rfl : n = 1 := hbudget
    refine ⟨le_rfl, ?_, hbound⟩
    simp [Pc.asking]
  | sleep hclock hagain =>
    obtain ⟨hn, hspent, -⟩ := hbudget
    refine ⟨hn, ?_, le_deadline_of_pollAgain hagain⟩
    have hmul : n * scanLagPoll = (n - 1) * scanLagPoll + scanLagPoll := by
      rw [← Nat.succ_mul, Nat.succ_eq_add_one, Nat.sub_add_cancel hn]
    show _ + (n + 0) * scanLagPoll ≤ _
    rw [Nat.add_zero, hmul]
    omega
  | @wake _ wake _ t _ hwake =>
    obtain ⟨hn, hspent, hle⟩ := hbudget
    have hmore : n ≤ c.scanLagWait / scanLagPoll :=
      (Nat.le_div_iff_mul_le scanLagPoll_pos).mpr (by omega)
    refine ⟨Nat.le_add_left 1 n, ?_, ?_⟩
    · show _ + (n + 1 - 1) * scanLagPoll ≤ t + _
      rw [Nat.add_sub_cancel]
      omega
    · show n + 1 ≤ _
      omega

theorem rank_le_ten (hreturned : ∀ result, pc ≠ .returned result) (hdropped : pc ≠ .dropped) :
    pc.rank ≤ 10 := by
  cases pc with
  | returned result => exact absurd rfl (hreturned result)
  | dropped => exact absurd rfl hdropped
  | _ => exact Nat.le_of_ble_eq_true rfl

/-- Every step counts, and a round of the loop takes three of them. -/
theorem CallSteps.cost {n : ℕ} (h : CallSteps s id c pc action pc' m)
    (hbudget : Budget s.clock c.scanLagWait n pc) :
    pc.cost n + 1 ≤ pc'.cost (n + pc'.asking.toNat) := by
  cases h with
  | hit | miss | getLock | acquire | rehit | answer | fallBack | await | sleep | stop | reanswer
  | stamp | settle | finish =>
    simp only [Pc.cost, Pc.rank, Pc.asking, Bool.toNat_false, Nat.add_zero]
    omega
  | fetch =>
    obtain rfl : n = 0 := hbudget
    exact le_rfl
  | wake =>
    obtain ⟨hn, -, -⟩ := hbudget
    simp only [Pc.cost, Pc.rank, Pc.asking, Bool.toNat_true]
    omega
  | drop hreturned hdropped =>
    have hrank := rank_le_ten hreturned hdropped
    simp only [Pc.cost, Pc.asking, Bool.toNat_false, Nat.add_zero, Pc.rank] at hrank ⊢
    omega

theorem not_asking_of_decided (h : pc.decided = true) : pc.asking = false := by
  cases pc with
  | fetching | refetching => cases h
  | _ => rfl

theorem pollAgain_of_decided {lock deadline t : ℕ} {outcome : Except String Answer}
    (h : (Pc.polling lock outcome deadline).decided = true) :
    pollAgain outcome t deadline = false := by
  match outcome with
  | .ok (.verdict _ _) => rfl
  | .ok .unknown => cases h
  | .error _ => cases h

/-- A call that asks scan no more never asks again. -/
theorem CallSteps.decided (h : CallSteps s id c pc action pc' m) (hdecided : pc.decided = true) :
    pc'.decided = true := by
  cases h with
  | hit | rehit | fallBack | stop | stamp | settle | finish | drop => rfl
  | miss | getLock | acquire | fetch | answer | wake | reanswer => cases hdecided
  | @await _ _ _ outcome _ _ =>
    match outcome with
    | .ok (.verdict _ _) => rfl
    | .ok .unknown => cases hdecided
    | .error _ => cases hdecided
  | sleep _ hagain =>
    rw [pollAgain_of_decided hdecided] at hagain
    cases hagain

theorem CallSteps.endsFetches (h : CallSteps s id c pc action pc' m)
    (hid : s.calls id = some c) (hends : EndsFetches s (id, action)) : pc'.decided = true := by
  rcases hends with ⟨verified, reason, haction⟩ | ⟨t₁, t₂, c₀, haction, hc₀, hpositive⟩
  · obtain rfl : action = _ := haction
    cases h with
    | answer | reanswer => rfl
  · obtain rfl : action = _ := haction
    cases hid.symm.trans hc₀
    cases h with
    | fallBack => rfl
    | await _ hnone => cases hnone.symm.trans hpositive

theorem CallSteps.early (h : CallSteps s id c pc action pc' m) (hearly : pc'.early = true) :
    pc.early = true ∧ action.deadline? c.scanLagWait = none := by
  cases h with
  | miss | getLock | acquire | fetch | answer => exact ⟨rfl, rfl⟩
  | hit | rehit | fallBack | await | sleep | stop | wake | reanswer | stamp | settle | finish
  | drop => cases hearly

theorem CallSteps.deadline {d : ℕ} (h : CallSteps s id c pc action pc' m)
    (hd : pc'.deadline? = some d) :
    pc.deadline? = some d ∧ action.deadline? c.scanLagWait = none ∨
      action.deadline? c.scanLagWait = some d := by
  cases h with
  | sleep | wake | reanswer => exact .inl ⟨hd, rfl⟩
  | await => exact .inr hd
  | hit | miss | getLock | acquire | rehit | fetch | answer | fallBack | stop | stamp | settle
  | finish | drop => cases hd

/-- A step that sets the deadline starts no fetch, and sets it from the clock on. -/
theorem CallSteps.sets {d : ℕ} (h : CallSteps s id c pc action pc' m)
    (hsets : action.deadline? c.scanLagWait = some d) : pc'.asking = false ∧ m.clock ≤ d := by
  cases h with
  | fallBack | await =>
    cases hsets
    exact ⟨rfl, Nat.le_add_right _ _⟩
  | hit | miss | getLock | acquire | rehit | fetch | answer | sleep | stop | wake | reanswer
  | stamp | settle | finish | drop => cases hsets

/-- A step that starts a fetch is the recheck, or the end of a sleep. -/
theorem CallSteps.asks (h : CallSteps s id c pc action pc' m) (hasking : pc'.asking = true) :
    pc.early = true ∨ ∃ lock wake deadline, action = .wake m.clock ∧
      pc = .sleeping lock wake deadline := by
  cases h with
  | fetch => exact .inl rfl
  | wake => exact .inr ⟨_, _, _, rfl, rfl⟩
  | hit | miss | getLock | acquire | rehit | answer | fallBack | await | sleep | stop | reanswer
  | stamp | settle | finish | drop => cases hasking

end

-- ════════════════════════════════════════════════════════════════════════
-- The invariant of the runs
-- ════════════════════════════════════════════════════════════════════════

/-- The course of one call. -/
structure CallCourse (clock : ℕ) (starts : List ℕ) (deadline : Option ℕ) (steps : ℕ) (c : Call) :
    Prop where
  budget : Budget clock c.scanLagWait starts.length c.pc
  steps : steps ≤ c.pc.cost starts.length
  past : ∀ t ∈ starts, t ≤ clock
  early : c.pc.early = true → deadline = none
  due : ∀ d, c.pc.deadline? = some d → deadline = some d

structure Course (p : Polled) : Prop where
  fresh : ∀ id, p.state.calls id = none →
    p.starts id = [] ∧ p.deadline id = none ∧ p.steps id = 0
  calls : ∀ id c, p.state.calls id = some c →
    CallCourse p.state.clock (p.starts id) (p.deadline id) (p.steps id) c

theorem course_init : Course Polled.init :=
  ⟨fun _ _ => ⟨rfl, rfl, rfl⟩, fun _ _ => nofun⟩

theorem CallCourse.mono {clock clock' steps : ℕ} {starts : List ℕ} {deadline : Option ℕ} {c : Call}
    (h : CallCourse clock starts deadline steps c) (hclock : clock ≤ clock') :
    CallCourse clock' starts deadline steps c :=
  ⟨h.budget.mono hclock, h.steps, fun t ht => le_trans (h.past t ht) hclock, h.early, h.due⟩

section
variable {p p' : Polled} {l : ℕ × Action} {s : State} {c : Call}

theorem polledStep_eq_some :
    polledStep p l = some p' ↔ ∃ s, step p.state l = some s ∧ p' = p.next l s := by
  rw [polledStep, Option.map_eq_some_iff]
  constructor
  · rintro ⟨s, hs, rfl⟩
    exact ⟨s, hs, rfl⟩
  · rintro ⟨s, hs, rfl⟩
    exact ⟨s, hs, rfl⟩

theorem starts_next (hc : s.calls l.1 = some c) : (p.next l s).starts l.1 =
    if c.pc.asking then s.clock :: p.starts l.1 else p.starts l.1 := by
  simp only [Polled.next, hc, Option.any_some, Function.update_self]

theorem length_starts_next (hc : s.calls l.1 = some c) :
    ((p.next l s).starts l.1).length = (p.starts l.1).length + c.pc.asking.toNat := by
  rw [starts_next hc]
  cases c.pc.asking with
  | false => rfl
  | true => rfl

theorem deadline_next (hc : s.calls l.1 = some c) :
    (p.next l s).deadline l.1 = (l.2.deadline? c.scanLagWait).or (p.deadline l.1) := by
  simp only [Polled.next, hc, Option.bind_some, Function.update_self]

/-- A step leaves the course of the other calls alone. -/
theorem next_of_ne (p : Polled) (s : State) {id : ℕ} (hid : id ≠ l.1) :
    (p.next l s).starts id = p.starts id ∧ (p.next l s).deadline id = p.deadline id ∧
      (p.next l s).steps id = p.steps id :=
  ⟨Function.update_of_ne hid .., Function.update_of_ne hid .., Function.update_of_ne hid ..⟩

/-- A step changes the course of one call. -/
theorem Course.update (h : Course p) (hcalls : s.calls = Function.update p.state.calls l.1 (some c))
    (hclock : p.state.clock ≤ s.clock)
    (hcall : CallCourse s.clock ((p.next l s).starts l.1) ((p.next l s).deadline l.1)
      ((p.next l s).steps l.1) c) : Course (p.next l s) := by
  refine ⟨?_, ?_⟩
  · intro id hid
    replace hid : s.calls id = none := hid
    rw [hcalls] at hid
    by_cases hne : id = l.1
    · subst hne
      rw [Function.update_self] at hid
      cases hid
    · rw [Function.update_of_ne hne] at hid
      obtain ⟨hstarts, hdeadline, hsteps⟩ := next_of_ne p s hne
      rw [hstarts, hdeadline, hsteps]
      exact h.fresh id hid
  · intro id c' hid
    replace hid : s.calls id = some c' := hid
    rw [hcalls] at hid
    by_cases hne : id = l.1
    · subst hne
      rw [Function.update_self] at hid
      cases hid
      exact hcall
    · rw [Function.update_of_ne hne] at hid
      obtain ⟨hstarts, hdeadline, hsteps⟩ := next_of_ne p s hne
      rw [hstarts, hdeadline, hsteps]
      exact (h.calls id c' hid).mono hclock

theorem Course.step (h : Course p) (hstep : polledStep p l = some p') : Course p' := by
  obtain ⟨s, hs, rfl⟩ := polledStep_eq_some.mp hstep
  obtain ⟨key, wait, haction, hfree, rfl⟩ | ⟨c, pc, m, hid, hsteps, rfl⟩ := steps_of_step hs
  · have hc : (p.state.setPc l.1 ⟨key, wait, .entered⟩ .entered).calls l.1 =
        some ⟨key, wait, .entered⟩ := Function.update_self ..
    obtain ⟨hstarts, hdeadline, hnone⟩ := h.fresh l.1 hfree
    refine h.update rfl le_rfl ?_
    rw [starts_next hc, deadline_next hc, haction, hstarts, hdeadline]
    refine ⟨rfl, ?_, nofun, fun _ => rfl, nofun⟩
    show Function.update p.steps l.1 (p.steps l.1 + 1) l.1 ≤ 1
    rw [Function.update_self, hnone]
  · have hc : (m.setPc l.1 c pc).calls l.1 = some { c with pc := pc } := Function.update_self ..
    have hclock : p.state.clock ≤ (m.setPc l.1 c pc).clock := hsteps.clock
    have hcourse := h.calls l.1 c hid
    refine h.update hsteps.calls_setPc hclock ⟨?_, ?_, ?_, ?_, ?_⟩
    · rw [length_starts_next hc]
      exact hsteps.budget hcourse.budget
    · rw [length_starts_next hc]
      have hcost := hsteps.cost hcourse.budget
      show Function.update p.steps l.1 (p.steps l.1 + 1) l.1 ≤ pc.cost _
      rw [Function.update_self]
      exact le_trans (Nat.succ_le_succ hcourse.steps) hcost
    · intro t ht
      rw [starts_next hc] at ht
      split at ht
      · rcases List.mem_cons.mp ht with rfl | hold
        · exact le_rfl
        · exact le_trans (hcourse.past t hold) hclock
      · exact le_trans (hcourse.past t ht) hclock
    · intro hearly
      rw [deadline_next hc]
      obtain ⟨hbefore, hsets⟩ := hsteps.early hearly
      rw [hsets, Option.none_or]
      exact hcourse.early hbefore
    · intro d hd
      rw [deadline_next hc]
      rcases hsteps.deadline hd with ⟨hbefore, hsets⟩ | hsets
      · rw [hsets, Option.none_or]
        exact hcourse.due d hbefore
      · rw [hsets, Option.some_or]

/-- A call that asks scan no more starts no fetch. -/
theorem decided_step {id : ℕ} (hc : p.state.calls id = some c) (hdecided : c.pc.decided = true)
    (hstep : polledStep p l = some p') :
    ∃ c', p'.state.calls id = some c' ∧ c'.pc.decided = true ∧ p'.starts id = p.starts id := by
  obtain ⟨s, hs, rfl⟩ := polledStep_eq_some.mp hstep
  by_cases hid : id = l.1
  · subst hid
    obtain ⟨_, _, -, hfree, -⟩ | ⟨c₀, pc, m, hid, hsteps, rfl⟩ := steps_of_step hs
    · cases hfree.symm.trans hc
    · cases hid.symm.trans hc
      have hc' : (m.setPc l.1 c pc).calls l.1 = some { c with pc := pc } :=
        Function.update_self ..
      have hdecided' := hsteps.decided hdecided
      refine ⟨_, hc', hdecided', ?_⟩
      rw [starts_next hc', not_asking_of_decided hdecided']
      rfl
  · refine ⟨c, ?_, hdecided, (next_of_ne p s hid).1⟩
    show s.calls id = some c
    obtain ⟨_, _, -, -, rfl⟩ | ⟨c₀, pc, m, -, hsteps, rfl⟩ := steps_of_step hs
    · exact (Function.update_of_ne hid ..).trans hc
    · rw [hsteps.calls_setPc, Function.update_of_ne hid]
      exact hc

theorem decided_run {id : ℕ} (hc : p.state.calls id = some c) (hdecided : c.pc.decided = true)
    {labels : List (ℕ × Action)} (hrun : exec polledStep p labels = some p') :
    p'.starts id = p.starts id := by
  have hinv : (∃ c', p'.state.calls id = some c' ∧ c'.pc.decided = true) ∧
      p'.starts id = p.starts id := by
    refine exec_invariant (I := fun q => (∃ c', q.state.calls id = some c' ∧
      c'.pc.decided = true) ∧ q.starts id = p.starts id) ?_ ⟨⟨c, hc, hdecided⟩, rfl⟩ hrun
    rintro q l q' ⟨⟨c₀, hc₀, hdecided₀⟩, hsame⟩ hstep
    obtain ⟨c', hc', hdecided', hstarts⟩ := decided_step hc₀ hdecided₀ hstep
    exact ⟨⟨c', hc', hdecided'⟩, hstarts.trans hsame⟩
  exact hinv.2

theorem endsFetches_run {id : ℕ} {action : Action} (hends : EndsFetches p.state (id, action))
    (hstep : polledStep p (id, action) = some p') {labels : List (ℕ × Action)} {p'' : Polled}
    (hrun : exec polledStep p' labels = some p'') : p''.starts id = p.starts id := by
  obtain ⟨s, hs, rfl⟩ := polledStep_eq_some.mp hstep
  obtain ⟨key, wait, haction, -⟩ | ⟨c, pc, m, hid, hsteps, rfl⟩ := steps_of_step hs
  · -- a call that begins has no answer
    obtain rfl : action = _ := haction
    rcases hends with ⟨_, _, heq⟩ | ⟨_, _, _, heq, -⟩
    · cases heq
    · cases heq
  · have hc : (m.setPc id c pc).calls id = some { c with pc := pc } := Function.update_self ..
    have hdecided := hsteps.endsFetches hid hends
    have hstarts : (p.next (id, action) (m.setPc id c pc)).starts id = p.starts id := by
      rw [starts_next hc, not_asking_of_decided hdecided]
      rfl
    rw [← hstarts]
    exact decided_run hc hdecided hrun

theorem step_of_call {id : ℕ} (hc : s.calls id = some c) (action : Action) :
    step s (id, action) = callStep s id c c.pc action := by
  simp only [step, hc]

/-- A call in its fetch section can go on. -/
theorem enabled_of_inside {id : ℕ} (hc : s.calls id = some c) (hinside : c.pc.inside = true) :
    ∃ action s', step s (id, action) = some s' := by
  suffices henabled : ∃ action, (callStep s id c c.pc action).isSome = true by
    obtain ⟨action, hsome⟩ := henabled
    obtain ⟨s', hs'⟩ := Option.isSome_iff_exists.mp hsome
    exact ⟨action, s', (step_of_call hc action).trans hs'⟩
  cases hpc : c.pc with
  | entered | missed | queued | locked | returned | dropped =>
    rw [hpc] at hinside
    cases hinside
  | fetching lock => exact ⟨.answer (.ok .unknown), rfl⟩
  | refetching lock deadline => exact ⟨.answer (.ok .unknown), rfl⟩
  | fetched lock outcome =>
    refine ⟨.fallBack s.clock s.clock, ?_⟩
    rw [callStep, if_pos ⟨le_rfl, le_rfl⟩]
    split
    · rfl
    · rfl
  | polling lock outcome deadline =>
    refine ⟨.poll s.clock, ?_⟩
    rw [callStep, if_pos le_rfl]
    split
    · rfl
    · rfl
  | sleeping lock wake deadline =>
    refine ⟨.wake (max s.clock wake), ?_⟩
    rw [callStep, if_pos ⟨le_max_left _ _, le_max_right _ _⟩]
    rfl
  | asked lock outcome =>
    refine ⟨.stamp s.clock, ?_⟩
    rw [callStep, if_pos le_rfl]
    rfl
  | settling lock outcome now =>
    refine ⟨.settle (fun _ => s.clock) s.clock, ?_⟩
    rw [callStep, if_pos ⟨le_rfl, fun _ _ => ⟨le_rfl, le_rfl⟩⟩]
    rfl
  | settled lock result => exact ⟨.finish, rfl⟩

/-- With exact sleeps no fetch starts after the deadline. -/
theorem Course.due_step (h : Course p)
    (hdue : ∀ id d, p.deadline id = some d → ∀ t ∈ p.starts id, t ≤ d)
    (hexact : SleepsExactly p l) (hstep : polledStep p l = some p') :
    ∀ id d, p'.deadline id = some d → ∀ t ∈ p'.starts id, t ≤ d := by
  intro id d hd t ht
  obtain ⟨s, hs, rfl⟩ := polledStep_eq_some.mp hstep
  by_cases hid : id = l.1
  · subst hid
    obtain ⟨key, wait, -, hfree, rfl⟩ | ⟨c, pc, m, hid, hsteps, rfl⟩ := steps_of_step hs
    · have hc : (p.state.setPc l.1 ⟨key, wait, .entered⟩ .entered).calls l.1 =
          some ⟨key, wait, .entered⟩ := Function.update_self ..
      rw [starts_next hc, (h.fresh l.1 hfree).1] at ht
      cases ht
    · have hc : (m.setPc l.1 c pc).calls l.1 = some { c with pc := pc } := Function.update_self ..
      have hclock : p.state.clock ≤ (m.setPc l.1 c pc).clock := hsteps.clock
      have hcourse := h.calls l.1 c hid
      rw [deadline_next hc] at hd
      rw [starts_next hc] at ht
      cases hsets : l.2.deadline? c.scanLagWait with
      | some d' =>
        obtain ⟨hquiet, hle⟩ := hsteps.sets hsets
        rw [show _ = some d' from hsets, Option.some_or] at hd
        cases hd
        rw [show pc.asking = false from hquiet] at ht
        exact le_trans (hcourse.past t ht) (le_trans hclock hle)
      | none =>
        rw [show _ = none from hsets, Option.none_or] at hd
        split at ht
        · next hasking =>
          rcases List.mem_cons.mp ht with rfl | hold
          · rcases hsteps.asks hasking with hearly | ⟨lock, wake, deadline, haction, hpc⟩
            · rw [hcourse.early hearly] at hd
              cases hd
            · -- the sleep began with a deadline that it could meet
              have hbudget := hcourse.budget
              have hdeadline := hcourse.due deadline (by rw [hpc]; rfl)
              rw [hpc] at hbudget
              obtain rfl : deadline = d := Option.some.inj (hdeadline.symm.trans hd)
              have hwake := hexact m.clock c lock wake deadline haction hid hpc
              exact le_of_eq_of_le hwake hbudget.2.2
          · exact hdue l.1 d hd t hold
        · exact hdue l.1 d hd t ht
  · obtain ⟨hstarts, hdeadline, -⟩ := next_of_ne p s hid
    rw [hdeadline] at hd
    rw [hstarts] at ht
    exact hdue id d hd t ht

end

/-- The loop of one call: its fetches and steps are bounded, it can go on while it is in its fetch
    section, and a definite verdict or a usable positive ends its fetches. -/
structure PollsBounded (p : Polled) (id : ℕ) (c : Call) : Prop where
  fetches : (p.starts id).length ≤ 1 + c.scanLagWait / scanLagPoll
  steps : p.steps id ≤ 11 + 3 * (c.scanLagWait / scanLagPoll)
  goesOn : c.pc.inside = true → ∃ action p', polledStep p (id, action) = some p'
  stops : ∀ action p' labels p'', EndsFetches p.state (id, action) →
    polledStep p (id, action) = some p' → exec polledStep p' labels = some p'' →
    p''.starts id = p.starts id

theorem cost_le {clock wait n : ℕ} {pc : Pc} (h : Budget clock wait n pc) :
    pc.cost n ≤ 11 + 3 * (wait / scanLagPoll) := by
  have hbound := h.bound
  have hrank : pc.rank ≤ 11 := by
    cases pc with
    | _ => exact Nat.le_of_ble_eq_true rfl
  unfold Pc.cost
  omega

/-- In every run, whatever scan answers and however long its answers take: a call asks scan once
    and then at most once for each `SCAN_LAG_POLL` in its wait, stops at a definite verdict and at a
    usable positive, and comes to its end; with exact sleeps it starts no fetch after its
    deadline. -/
theorem polls_bounded (labels : List (ℕ × Action)) (s : State)
    (hrun : exec step State.init labels = some s) :
    ∃ p, exec polledStep Polled.init labels = some p ∧ p.state = s ∧
      (∀ id c, s.calls id = some c → PollsBounded p id c) ∧
      (Meets polledStep SleepsExactly Polled.init labels →
        ∀ id d, p.deadline id = some d → ∀ t ∈ p.starts id, t ≤ d) := by
  obtain ⟨p, hpolled, rfl⟩ : ∃ p, exec polledStep Polled.init labels = some p ∧ p.state = s :=
    exec_lift (f := Polled.state)
      (fun p l s hs => ⟨p.next l s, polledStep_eq_some.mpr ⟨s, hs, rfl⟩, rfl⟩) hrun
  have hcourse : Course p := exec_invariant (fun p l p' h => h.step) course_init hpolled
  refine ⟨p, hpolled, rfl, ?_, ?_⟩
  · intro id c hc
    have hcall := hcourse.calls id c hc
    refine ⟨hcall.budget.bound, le_trans hcall.steps (cost_le hcall.budget), ?_, ?_⟩
    · intro hinside
      obtain ⟨action, s', hs'⟩ := enabled_of_inside hc hinside
      exact ⟨action, _, polledStep_eq_some.mpr ⟨s', hs', rfl⟩⟩
    · intro action p' labels p'' hends hstep hrest
      exact endsFetches_run hends hstep hrest
  · intro hexact
    have hinv : Course p ∧ ∀ id d, p.deadline id = some d → ∀ t ∈ p.starts id, t ≤ d := by
      refine exec_invariant_of_meets (I := fun q => Course q ∧
        ∀ id d, q.deadline id = some d → ∀ t ∈ q.starts id, t ≤ d) ?_ ⟨course_init, nofun⟩ hexact
        hpolled
      rintro q l q' ⟨hq, hdue⟩ hsleeps hstep
      exact ⟨hq.step hstep, hq.due_step hdue hsleeps hstep⟩
    exact hinv.2

/-- How long `/app-key` keeps asking; peer calls pass 0. -/
def scanLagWait : ℕ := secs 12

example : 1 + scanLagWait / scanLagPoll = 5 := by decide

/-- A call that may wait for `wait` asks scan, sleeps, and asks again at `t`. -/
def pollRun (wait t : ℕ) : List (ℕ × Action) :=
  [(0, .call ("app", 1) wait), (0, .enter 0 0), (0, .getLock), (0, .acquire), (0, .recheck 0 0),
    (0, .answer (.ok .unknown)), (0, .fallBack 0 0), (0, .poll 0), (0, .wake t),
    (0, .answer (.error "503")), (0, .poll t)]

/-- Evaluates `SleepsExactly`. -/
def sleepsExactly (p : Polled) (l : ℕ × Action) : Bool :=
  match l.2, (p.state.calls l.1).map Call.pc with
  | .wake t, some (.sleeping _ wake _) => decide (t = wake)
  | _, _ => true

theorem sleepsExactly_sound (p : Polled) (l : ℕ × Action) (h : sleepsExactly p l = true) :
    SleepsExactly p l := by
  intro t c lock wake deadline haction hc hpc
  simp only [sleepsExactly, haction, hc, Option.map_some, hpc, decide_eq_true_eq] at h
  exact h

/-- A call that may wait for one `SCAN_LAG_POLL` asks twice, the second time at its deadline. -/
theorem polls_bounded_twice : ∃ p c,
    exec polledStep Polled.init (pollRun (secs 3) (secs 3)) = some p ∧
      p.state.calls 0 = some c ∧ p.starts 0 = [secs 3, 0] ∧ p.deadline 0 = some (secs 3) ∧
      PollsBounded p 0 c ∧ ∀ t ∈ p.starts 0, t ≤ secs 3 := by
  obtain ⟨s, p, c, hrun, hpolled, hcheck, hc, hstarts, hdeadline⟩ : ∃ s p c,
      exec step State.init (pollRun (secs 3) (secs 3)) = some s ∧
      exec polledStep Polled.init (pollRun (secs 3) (secs 3)) = some p ∧
      check polledStep sleepsExactly Polled.init (pollRun (secs 3) (secs 3)) = true ∧
      s.calls 0 = some c ∧ p.starts 0 = [secs 3, 0] ∧ p.deadline 0 = some (secs 3) :=
    ⟨_, _, _, rfl, rfl, rfl, rfl, rfl, rfl⟩
  obtain ⟨p', hpolled', rfl, hbounded, hdue⟩ := polls_bounded _ s hrun
  cases hpolled.symm.trans hpolled'
  have hexact := meets_of_check sleepsExactly_sound hcheck
  exact ⟨p, c, hpolled, hc, hstarts, hdeadline, hbounded 0 c hc, hdue hexact 0 _ hdeadline⟩

end KmsCluster.Verifier
