import KmsCluster.Lib.Correspondence
import KmsCluster.Process

/-!
# Cluster formation on the clock

`form_cluster` and `fall_behind_watchdog` (`src/init.rs`) with their sleeps and the settle window,
around the process of `Process`: there a declined probe comes with an arbitrary verdict on the
window, and tasks never sleep. Here the verdict follows from the clock, and `form_cluster` steps
only when its sleep is over. Other tasks run as before, and time passes between any two steps.

## Main results

- `exec_process`: a run on the clock is a run of the process.
- `recovery_settled_iff`: when an established cluster makes the node recover its share.
- `catch_up_confirmed_iff`: when the watchdog catches up, and how far its checks are apart.
-/

namespace KmsCluster.FormCluster

open Correspondence Process Runs

-- ════════════════════════════════════════════════════════════════════════
-- Sleeps
-- ════════════════════════════════════════════════════════════════════════

/-- Seconds in nanoseconds. -/
def secs (n : ℕ) : ℕ := n * 1_000_000_000

/-- Between two looks at a cluster that is not complete. -/
def pollDelay : ℕ := secs 5

/-- After an attempt that failed. -/
def retryDelay : ℕ := secs 10

/-- `SUBSET_SETTLE`. -/
def subsetSettle : ℕ := secs 60

/-- What the watchdog of a node sleeps between its checks. -/
def watchPeriod (ethAddress : Address) : ℕ := secs (45 + ethAddress.toNat % 256 % 23)

inductive Note where
  /-- `join_cluster` found an established cluster. -/
  | declined (time : ℕ) (allDiscovered recovers : Bool)
  /-- The watchdog compared its own epoch with the cluster's. -/
  | check (time own known : ℕ) (catchesUp : Bool)
  deriving DecidableEq

def Note.time : Note → ℕ
  | declined time _ _ => time
  | check time _ _ _ => time

structure Timed (F G₁ : Type) where
  proc : State F G₁
  now : ℕ
  /-- `form_cluster` sleeps until then. -/
  wakeAt : ℕ
  subsetWaitSince : Option ℕ
  /-- What `form_cluster` found, the last first. -/
  log : List Note

inductive Label (F G₁ : Type) where
  | wait (duration : ℕ)
  | form (action : Action F G₁)
  | other (label : ℕ × Action F G₁)

section System

variable {F G₁ G₂ : Type}

def Timed.init (config : Config) (ethAddress : Address) : Timed F G₁ :=
  ⟨State.init config ethAddress, 0, 0, none, []⟩

/-- What `form_cluster` sleeps when it has come from one place to another. -/
def sleepAfter (period : ℕ) (shard : Option ShardState) : Pc F G₁ → Action F G₁ → Pc F G₁ → ℕ
  | _, _, .watch _ => period
  | .loop, .assemble _ _, .loop => pollDelay
  | .assembled _, .fail, .loop => retryDelay
  | .assembled _, _, .loop => pollDelay
  | .genesis _, _, .loop => retryDelay
  -- With a share it is the watchdog that has tried to catch up.
  | .recover _, _, .loop | .session _ _, _, .loop | .guardKey _ _ _ _, _, .loop =>
    if shard.isNone then retryDelay else 0
  | _, _, _ => 0

variable [NatCast F] (B : Blsful F G₁ G₂)

/-- A step of `form_cluster` that stands at `pc`. -/
def formStep (t : Timed F G₁) : Pc F G₁ → Action F G₁ → Option (Timed F G₁)
  | _, .gossip _ => none
  | .assembled m, .probe .seedReachableDeclined _ =>
    let since := if m.allDiscovered then none else some (t.subsetWaitSince.getD t.now)
    let recovers := since.all fun since => decide (subsetSettle ≤ t.now - since)
    (step B t.proc (0, .probe .seedReachableDeclined recovers)).map fun proc =>
      { t with
        proc := proc
        wakeAt := if recovers then t.now else t.now + pollDelay
        subsetWaitSince := since
        log := .declined t.now m.allDiscovered recovers :: t.log }
  | .watchKnown behind own own', .next =>
    let known := max own' t.proc.st.peerTable.maxEpoch
    let catchesUp := decide (own < known) && !decide (behind + 1 < 2)
    (step B t.proc (0, .next)).map fun proc =>
      { t with
        proc := proc
        wakeAt := if catchesUp then t.now else t.now + watchPeriod t.proc.st.ethAddress
        log := .check t.now own known catchesUp :: t.log }
  | pc, action =>
    (step B t.proc (0, action)).map fun proc =>
      { t with
        proc := proc
        wakeAt := t.now + (proc.tasks 0).elim 0 fun u =>
          sleepAfter (watchPeriod t.proc.st.ethAddress) t.proc.st.shard pc action u.pc }

def timedStep (t : Timed F G₁) : Label F G₁ → Option (Timed F G₁)
  | .wait duration => some { t with now := t.now + duration }
  | .form action =>
    if t.wakeAt ≤ t.now then (t.proc.tasks 0).bind fun u => formStep B t u.pc action else none
  | .other label =>
    if label.1 = 0 then none else (step B t.proc label).map fun proc => { t with proc := proc }

end System

section Underneath

variable {F G₁ G₂ : Type} [NatCast F] {B : Blsful F G₁ G₂} {t t' : Timed F G₁} {s s' : State F G₁}

theorem formStep_process {pc : Pc F G₁} {action : Action F G₁}
    (hstep : formStep B t pc action = some t') : ∃ l, step B t.proc l = some t'.proc := by
  unfold formStep at hstep
  split at hstep
  · cases hstep
  · obtain ⟨proc, hproc, rfl⟩ := Option.map_eq_some_iff.mp hstep
    exact ⟨_, hproc⟩
  · obtain ⟨proc, hproc, rfl⟩ := Option.map_eq_some_iff.mp hstep
    exact ⟨_, hproc⟩
  · obtain ⟨proc, hproc, rfl⟩ := Option.map_eq_some_iff.mp hstep
    exact ⟨_, hproc⟩

/-- Time passes, or the process takes a step. -/
theorem timedStep_process {l : Label F G₁} (hstep : timedStep B t l = some t') :
    t'.proc = t.proc ∨ ∃ l', step B t.proc l' = some t'.proc := by
  cases l with
  | wait duration =>
    cases hstep
    exact .inl rfl
  | form action =>
    simp only [timedStep] at hstep
    split at hstep
    · obtain ⟨u, -, hform⟩ := Option.bind_eq_some_iff.mp hstep
      exact .inr (formStep_process hform)
    · cases hstep
  | other label =>
    simp only [timedStep] at hstep
    split at hstep
    · cases hstep
    · obtain ⟨proc, hproc, rfl⟩ := Option.map_eq_some_iff.mp hstep
      exact .inr ⟨label, hproc⟩

/-- What every run of the process keeps, every run on the clock keeps. -/
theorem exec_process {labels : List (Label F G₁)} (hrun : exec (timedStep B) t labels = some t') :
    ∃ labels', exec (step B) t.proc labels' = some t'.proc := by
  refine exec_invariant (I := fun u => ∃ labels', exec (step B) t.proc labels' = some u.proc)
    (fun u l u' ⟨labels', hrun⟩ hstep => ?_) ⟨[], rfl⟩ hrun
  rcases timedStep_process hstep with heq | ⟨l', hl'⟩
  · exact ⟨labels', by rw [heq, hrun]⟩
  · exact ⟨labels' ++ [l'], by rw [exec_append, hrun, Option.bind_some, exec, hl']; rfl⟩

/-- How often in a row the watchdog has found the node behind. -/
def behindChecks : Pc F G₁ → ℕ
  | .watch b | .watchOwn b _ | .watchKnown b _ _ => b
  | _ => 0

/-- A check is under way. -/
def checking : Pc F G₁ → Bool
  | .watchOwn _ _ | .watchKnown _ _ _ => true
  | _ => false

def resting : Pc F G₁ → Bool
  | .watch _ => true
  | _ => false

/-- What a step of `form_cluster` other than the end of a check leaves of the watchdog. -/
def Follows (pc : Pc F G₁) (s' : State F G₁) : Prop :=
  ∃ u, s'.tasks 0 = some u ∧ behindChecks u.pc = behindChecks pc ∧
    (checking u.pc = true → resting pc = true ∨ checking pc = true)

omit [NatCast F] in
theorem follows_setTask {pc : Pc F G₁} {u : Task F G₁}
    (hbehind : behindChecks u.pc = behindChecks pc)
    (hchecking : checking u.pc = true → resting pc = true ∨ checking pc = true) :
    Follows pc (s.setTask 0 u) :=
  ⟨u, setTask_tasks_self s 0 u, hbehind, hchecking⟩

omit [NatCast F] in
theorem follows_quiet {pc : Pc F G₁} {u : Task F G₁}
    (hbehind : behindChecks u.pc = behindChecks pc) (hchecking : checking u.pc = false) :
    Follows pc (s.setTask 0 u) :=
  follows_setTask hbehind fun h => nomatch hchecking.symm.trans h

omit [NatCast F] in
theorem follows_orExit {α : Type} {pc : Pc F G₁} {u : Task F G₁} {x : Except String α}
    {k : α → State F G₁} (hbehind : behindChecks pc = 0) (hk : ∀ a, Follows pc (k a)) :
    Follows pc (s.orExit 0 u x k) := by
  cases x with
  | ok a => exact hk a
  | error e => exact follows_quiet hbehind.symm rfl

-- The actions with several outcomes.

variable {u : Task F G₁} {m : Membership} {nodeList : Except String (List Address)} {now : ℤ}

theorem follows_reloadKnown {rec : SealedRecord} {blob : String} {own : ℕ}
    (hstep : taskStep B s 0 u (.reloadKnown rec blob own) .next = some s') :
    Follows (.reloadKnown rec blob own) s' := by
  dsimp only [taskStep] at hstep
  split at hstep
  · cases hstep
    exact follows_quiet rfl rfl
  · cases hstep
    exact follows_quiet rfl rfl

theorem follows_loop (hstep : taskStep B s 0 u .loop .next = some s') : Follows .loop s' := by
  cases hstep
  split
  · exact follows_quiet rfl rfl
  · exact follows_quiet rfl rfl

theorem follows_assemble (hstep : taskStep B s 0 u .loop (.assemble nodeList now) = some s') :
    Follows .loop s' := by
  dsimp only [taskStep] at hstep
  split at hstep
  · cases hstep
  · cases hstep
    refine follows_orExit rfl fun m => ?_
    cases m with
    | none => exact follows_quiet rfl rfl
    | some m => exact follows_quiet rfl rfl

theorem follows_noSeedReachable (settled : Bool)
    (hstep : taskStep B s 0 u (.assembled m) (.probe .noSeedReachable settled) = some s') :
    Follows (.assembled m) s' := by
  cases hstep
  split
  · exact follows_quiet rfl rfl
  · exact follows_quiet rfl rfl

theorem follows_seedReachable {settled : Bool}
    (hstep : taskStep B s 0 u (.assembled m) (.probe .seedReachableDeclined settled) = some s') :
    Follows (.assembled m) s' := by
  cases hstep
  split
  · exact follows_quiet rfl rfl
  · exact follows_quiet rfl rfl

/-- The watchdog wakes up: without a share it goes back to sleep. -/
theorem follows_watch {behind : ℕ}
    (hstep : taskStep B s 0 u (.watch behind) .next = some s') : Follows (.watch behind) s' := by
  cases hstep
  split
  · exact follows_setTask rfl fun _ => .inl rfl
  · exact follows_quiet rfl rfl

theorem follows_catchUp (hstep : taskStep B s 0 u .catchUp (.assemble nodeList now) = some s') :
    Follows .catchUp s' := by
  cases hstep
  refine follows_orExit rfl fun m => ?_
  cases m with
  | none => exact follows_quiet rfl rfl
  | some m => exact follows_quiet rfl rfl

theorem follows_refresh (hstep : taskStep B s 0 u .refresh .next = some s') :
    Follows .refresh s' := by
  cases hstep
  split
  · exact follows_quiet rfl rfl
  · exact follows_quiet rfl rfl

theorem follows_refreshAssemble
    (hstep : taskStep B s 0 u .refreshAssemble (.assemble nodeList now) = some s') :
    Follows .refreshAssemble s' := by
  cases hstep
  refine follows_orExit rfl fun m => ?_
  cases m with
  | none => exact follows_quiet rfl rfl
  | some m =>
    dsimp only [Option.elim]
    split
    · exact follows_quiet rfl rfl
    · exact follows_quiet rfl rfl

theorem follows_refreshEpoch (hstep : taskStep B s 0 u (.refreshEpoch m) .next = some s') :
    Follows (.refreshEpoch m) s' := by
  cases hstep
  split
  · exact follows_quiet rfl rfl
  · exact follows_quiet rfl rfl

theorem follows_guardKey {ownId epoch : ℕ} {share : F} {pk : G₁}
    (hstep : taskStep B s 0 u (.guardKey ownId epoch share pk) .next = some s') :
    Follows (.guardKey ownId epoch share pk) s' := by
  dsimp only [taskStep] at hstep
  split at hstep
  · cases hstep
    exact follows_quiet rfl rfl
  · cases hstep
    exact follows_quiet rfl rfl

theorem follows_storeShard {shard : ShardState}
    (hstep : taskStep B s 0 u (.storeShard shard) .next = some s') :
    Follows (.storeShard shard) s' := by
  cases hstep
  exact ⟨{ u with pc := exit 0 }, by simp [State.storeShard], rfl, by simp [exit, checking]⟩

theorem follows_derive {shard : Option ShardState} {signature : Except String Bytes}
    {appId : String} {material : Bytes} {replies : List PartialReply}
    (hstep : taskStep B s 0 u (.derive shard signature appId material) (.replies replies) =
      some s') : Follows (.derive shard signature appId material) s' := by
  dsimp only [taskStep] at hstep
  split at hstep
  · cases hstep
    exact follows_quiet rfl rfl
  · cases hstep
    exact follows_quiet rfl rfl

theorem follows_taskStep {pc : Pc F G₁} {action : Action F G₁}
    (hcheck : action = .next → ∀ b own own', pc ≠ .watchKnown b own own')
    (hstep : taskStep B s 0 u pc action = some s') : Follows pc s' := by
  unfold taskStep at hstep
  split at hstep
  -- form_cluster
  · cases hstep
    exact follows_quiet rfl rfl
  · cases hstep
    exact follows_quiet rfl rfl
  · cases hstep
    exact follows_quiet rfl rfl
  · exact follows_reloadKnown (B := B) hstep
  · cases hstep
    exact follows_quiet rfl rfl
  · exact follows_loop (B := B) hstep
  · exact follows_assemble (B := B) hstep
  · next settled => exact follows_noSeedReachable (B := B) settled hstep
  · exact follows_seedReachable (B := B) hstep
  · cases hstep
    exact follows_quiet rfl rfl
  -- fall_behind_watchdog
  · exact follows_watch (B := B) hstep
  · cases hstep
    exact follows_setTask rfl fun _ => .inr rfl
  · exact absurd rfl (hcheck rfl _ _ _)
  · exact follows_catchUp (B := B) hstep
  -- run_reshare_recovery
  · cases hstep
    exact follows_orExit rfl fun _ => follows_quiet rfl rfl
  · cases hstep
    exact follows_quiet rfl rfl
  -- trigger_refresh
  · exact follows_refresh (B := B) hstep
  · exact follows_refreshAssemble (B := B) hstep
  · exact follows_refreshEpoch (B := B) hstep
  · cases hstep
    exact follows_quiet rfl rfl
  · cases hstep
    exact follows_quiet rfl rfl
  -- run_reshare_dealer
  · cases hstep
    exact follows_orExit rfl fun _ => follows_quiet rfl rfl
  · cases hstep
    exact follows_orExit rfl fun _ => follows_quiet rfl rfl
  · cases hstep
    exact follows_orExit rfl fun _ => follows_quiet rfl rfl
  · cases hstep
    exact follows_orExit rfl fun _ => follows_quiet rfl rfl
  -- run_session, the group-key guard and store_share
  · cases hstep
    exact follows_quiet rfl rfl
  · exact follows_guardKey (B := B) hstep
  · cases hstep
    exact follows_quiet rfl rfl
  · cases hstep
    exact follows_quiet rfl rfl
  · exact follows_storeShard (B := B) hstep
  -- collect_and_dprf
  · exact follows_derive (B := B) hstep
  -- A task that fails or is dropped.
  · cases hstep
    exact follows_quiet rfl rfl
  · cases hstep
    exact follows_quiet rfl rfl
  · cases hstep
    exact follows_quiet rfl rfl
  · cases hstep
  · cases hstep

theorem taskSteps_address {id : ℕ} {u : Task F G₁} {pc : Pc F G₁} {action : Action F G₁}
    (hsteps : TaskSteps B s id u pc action s') : s'.st.ethAddress = s.st.ethAddress := by
  cases hsteps <;> rfl

theorem step_address {l : ℕ × Action F G₁} (hstep : step B s l = some s') :
    s'.st.ethAddress = s.st.ethAddress := by
  cases steps_of_step hstep with
  | gossip => rfl
  | spawn => rfl
  | task ht hsteps => exact taskSteps_address hsteps

/-- Another task leaves `form_cluster` where it is. -/
theorem taskSteps_other {id : ℕ} {u : Task F G₁} {pc : Pc F G₁} {action : Action F G₁}
    (hid : id ≠ 0) (hsteps : TaskSteps B s id u pc action s') :
    (s'.tasks 0).map (·.pc) = (s.tasks 0).map (·.pc) := by
  cases hsteps with
  | storeShard =>
    simp only [State.storeShard, if_neg hid.symm, Option.map_map]
    rfl
  | _ => exact congrArg _ (Function.update_of_ne hid.symm _ _)

theorem step_other {l : ℕ × Action F G₁} (hid : l.1 ≠ 0) (hstep : step B s l = some s') :
    (s'.tasks 0).map (·.pc) = (s.tasks 0).map (·.pc) := by
  cases steps_of_step hstep with
  | gossip => rfl
  | spawn => exact congrArg _ (Function.update_of_ne hid.symm _ _)
  | task ht hsteps => exact taskSteps_other hid hsteps

end Underneath

-- ════════════════════════════════════════════════════════════════════════
-- What the log says
-- ════════════════════════════════════════════════════════════════════════

/-- The first probe with a member missing since the last one without. -/
def missingSince : List Note → Option ℕ
  | [] => none
  | .declined _ true _ :: _ => none
  | .declined time false _ :: earlier => some ((missingSince earlier).getD time)
  | .check _ _ _ _ :: earlier => missingSince earlier

/-- The last check. -/
def lastCheck : List Note → Option (ℕ × Bool)
  | [] => none
  | .declined _ _ _ :: earlier => lastCheck earlier
  | .check time own known catchesUp :: _ => some (time, decide (own < known) && !catchesUp)

/-- The last check found the node behind, and made it wait for another one. -/
def pending (log : List Note) : Bool := (lastCheck log).elim false (·.2)

/-- What a note says of those before it, for a node whose checks are `period` apart. -/
def Needs (period : ℕ) : Note → List Note → Prop
  | .declined time allDiscovered recovers, earlier => recovers = true ↔
      allDiscovered = true ∨
        ∃ since, missingSince earlier = some since ∧ since + subsetSettle ≤ time
  | .check time own known catchesUp, earlier =>
    (catchesUp = true ↔ own < known ∧ pending earlier = true) ∧
      ∀ last, lastCheck earlier = some last → last.1 + period ≤ time

structure Inv {F G₁ : Type} (t : Timed F G₁) : Prop where
  justified : Justified (Needs (watchPeriod t.proc.st.ethAddress)) t.log
  sorted : t.log.Pairwise fun later earlier => earlier.time ≤ later.time
  past : ∀ note ∈ t.log, note.time ≤ t.now
  since : t.subsetWaitSince = missingSince t.log
  behind : ∀ u, t.proc.tasks 0 = some u →
    behindChecks u.pc = if pending t.log then 1 else 0
  apart : ∀ u last, t.proc.tasks 0 = some u → lastCheck t.log = some last →
    (resting u.pc = true → last.1 + watchPeriod t.proc.st.ethAddress ≤ t.wakeAt) ∧
      (checking u.pc = true → last.1 + watchPeriod t.proc.st.ethAddress ≤ t.now)

theorem lastCheck_mem {log : List Note} {last : ℕ × Bool} (h : lastCheck log = some last) :
    ∃ note ∈ log, note.time = last.1 := by
  induction log with
  | nil => cases h
  | cons note log ih =>
    cases note with
    | declined time allDiscovered recovers =>
      obtain ⟨note, hnote, htime⟩ := ih h
      exact ⟨note, List.mem_cons_of_mem _ hnote, htime⟩
    | check time own known catchesUp =>
      cases h
      exact ⟨_, List.mem_cons_self, rfl⟩

theorem inv_init {F G₁ : Type} (config : Config) (ethAddress : Address) :
    Inv (Timed.init config ethAddress : Timed F G₁) where
  justified := trivial
  sorted := .nil
  past := nofun
  since := rfl
  behind u hu := by
    cases hu
    rfl
  apart _ _ _ h := nomatch h

section Steps

variable {F G₁ G₂ : Type} [NatCast F] {B : Blsful F G₁ G₂} {t t' : Timed F G₁}

omit [NatCast F] in
/-- Time passes, and other tasks run. -/
theorem Inv.elapse (h : Inv t) {proc : State F G₁} {now : ℕ} (hnow : t.now ≤ now)
    (haddress : proc.st.ethAddress = t.proc.st.ethAddress)
    (hpc : (proc.tasks 0).map (·.pc) = (t.proc.tasks 0).map (·.pc)) :
    Inv { t with proc := proc, now := now } := by
  have hsame : ∀ u, proc.tasks 0 = some u → ∃ u', t.proc.tasks 0 = some u' ∧ u'.pc = u.pc := by
    intro u hu
    rw [hu, Option.map_some, eq_comm, Option.map_eq_some_iff] at hpc
    exact hpc
  refine ⟨?_, h.sorted, fun note hnote => le_trans (h.past note hnote) hnow, h.since, ?_, ?_⟩
  · rw [haddress]
    exact h.justified
  · intro u hu
    obtain ⟨u', hu', heq⟩ := hsame u hu
    rw [← heq]
    exact h.behind u' hu'
  · intro u last hu hlast
    obtain ⟨u', hu', heq⟩ := hsame u hu
    rw [← heq, haddress]
    obtain ⟨hresting, hchecking⟩ := h.apart u' last hu' hlast
    exact ⟨hresting, fun hc => le_trans (hchecking hc) hnow⟩

theorem step_declined {s s' : State F G₁} {u : Task F G₁} (hu : s.tasks 0 = some u) {m : Membership}
    (hpc : u.pc = .assembled m) {settled : Bool}
    (hstep : step B s (0, .probe .seedReachableDeclined settled) = some s') :
    ∃ u', s'.tasks 0 = some u' ∧ behindChecks u'.pc = 0 ∧ resting u'.pc = false ∧
      checking u'.pc = false := by
  rw [step_eq_taskStep hu (by rintro table ⟨⟩), hpc] at hstep
  cases hstep
  refine ⟨_, goto_tasks_self _ _ _ _, ?_⟩
  dsimp only
  split
  · exact ⟨rfl, rfl, rfl⟩
  · exact ⟨rfl, rfl, rfl⟩

/-- Whether the window is over, by what the log says of its beginning. -/
theorem recovers_iff {allDiscovered : Bool} {subsetWaitSince : Option ℕ} {now : ℕ} :
    ((if allDiscovered then none else some (subsetWaitSince.getD now)).all fun since =>
      decide (subsetSettle ≤ now - since)) = true ↔
        allDiscovered = true ∨
          ∃ since, subsetWaitSince = some since ∧ since + subsetSettle ≤ now := by
  have hpos : 0 < subsetSettle := by decide
  cases allDiscovered with
  | true => simp
  | false =>
    cases subsetWaitSince with
    | none => simp [hpos.ne']
    | some since =>
      simp only [Bool.false_eq_true, if_false, Option.getD_some, Option.all_some,
        decide_eq_true_eq, false_or, Option.some.injEq, exists_eq_left']
      omega

/-- A probe finds an established cluster. -/
theorem Inv.declined (h : Inv t) {u : Task F G₁} (hu : t.proc.tasks 0 = some u) {m : Membership}
    (hpc : u.pc = .assembled m) {settled : Bool}
    (hstep : formStep B t (.assembled m) (.probe .seedReachableDeclined settled) = some t') :
    Inv t' := by
  obtain ⟨proc, hproc, rfl⟩ := Option.map_eq_some_iff.mp hstep
  obtain ⟨u', hu', hbehind', hresting, hchecking⟩ := step_declined hu hpc hproc
  have haddress := step_address hproc
  have hquiet : pending t.log = false := by
    have hbehind := h.behind u hu
    rw [hpc] at hbehind
    cases hpending : pending t.log with
    | false => rfl
    | true =>
      rw [hpending] at hbehind
      cases hbehind
  refine ⟨⟨?_, ?_⟩, List.pairwise_cons.mpr ⟨h.past, h.sorted⟩, ?_, ?_, ?_, ?_⟩
  · exact h.since ▸ recovers_iff
  · rw [haddress]
    exact h.justified
  · intro note hnote
    rcases List.mem_cons.mp hnote with rfl | hnote
    · exact le_rfl
    · exact h.past note hnote
  · cases hall : m.allDiscovered with
    | true => simp [missingSince]
    | false => simp [missingSince, h.since]
  · intro v hv
    obtain rfl := Option.some.inj (hu'.symm.trans hv)
    show behindChecks u'.pc = if pending t.log then 1 else 0
    rw [hbehind', hquiet]
    rfl
  · intro v last hv hlast
    obtain rfl := Option.some.inj (hu'.symm.trans hv)
    rw [hresting, hchecking]
    exact ⟨nofun, nofun⟩

theorem step_checked {s s' : State F G₁} {u : Task F G₁} (hu : s.tasks 0 = some u) {b own own' : ℕ}
    (hpc : u.pc = .watchKnown b own own') (hstep : step B s (0, .next) = some s') :
    ∃ u', s'.tasks 0 = some u' ∧ u'.pc = if max own' s.st.peerTable.maxEpoch ≤ own then .watch 0
      else if b + 1 < 2 then .watch (b + 1) else .catchUp := by
  rw [step_eq_taskStep hu (by rintro table ⟨⟩), hpc] at hstep
  cases hstep
  exact ⟨_, goto_tasks_self _ _ _ _, rfl⟩

/-- A check of the watchdog ends. -/
theorem Inv.checked (h : Inv t) {u : Task F G₁} (hu : t.proc.tasks 0 = some u) {b own own' : ℕ}
    (hpc : u.pc = .watchKnown b own own')
    (hstep : formStep B t (.watchKnown b own own') .next = some t') : Inv t' := by
  obtain ⟨proc, hproc, rfl⟩ := Option.map_eq_some_iff.mp hstep
  obtain ⟨u', hu', hpc'⟩ := step_checked hu hpc hproc
  have haddress := step_address hproc
  have hb : b = if pending t.log then 1 else 0 := by
    have hbehind := h.behind u hu
    rwa [hpc] at hbehind
  have hapart : ∀ last, lastCheck t.log = some last →
      last.1 + watchPeriod t.proc.st.ethAddress ≤ t.now := by
    intro last hlast
    exact (h.apart u last hu hlast).2 (by rw [hpc]; rfl)
  refine ⟨⟨⟨?_, ?_⟩, ?_⟩, List.pairwise_cons.mpr ⟨h.past, h.sorted⟩, ?_, h.since, ?_, ?_⟩
  · subst hb
    cases hp : pending t.log <;> simp
  · rw [haddress]
    exact hapart
  · rw [haddress]
    exact h.justified
  · intro note hnote
    rcases List.mem_cons.mp hnote with rfl | hnote
    · exact le_rfl
    · exact h.past note hnote
  · intro v hv
    obtain rfl := Option.some.inj (hu'.symm.trans hv)
    rw [hpc']
    show _ = if (_ && !(_ && _)) then 1 else 0
    subst hb
    by_cases hle : max own' t.proc.st.peerTable.maxEpoch ≤ own
    · rw [if_pos hle, decide_eq_false (Nat.not_lt.mpr hle)]
      rfl
    · rw [if_neg hle, decide_eq_true (Nat.not_le.mp hle)]
      cases hp : pending t.log <;> simp [behindChecks]
  · intro v last hv hlast
    obtain rfl := Option.some.inj (hu'.symm.trans hv)
    obtain rfl := Option.some.inj hlast
    rw [hpc', haddress]
    by_cases hle : max own' t.proc.st.peerTable.maxEpoch ≤ own
    · simp [resting, checking, hle, Nat.not_lt.mpr hle]
    · by_cases hfirst : b + 1 < 2
      · simp [resting, checking, hle, hfirst]
      · simp [resting, checking, hle, hfirst]

/-- Any other step of `form_cluster`. -/
theorem Inv.moved (h : Inv t) {u : Task F G₁} (hu : t.proc.tasks 0 = some u)
    (hawake : t.wakeAt ≤ t.now) {action : Action F G₁} {proc : State F G₁}
    (hproc : step B t.proc (0, action) = some proc) (hgossip : ∀ table, action ≠ .gossip table)
    (hcheck : action = .next → ∀ b own own', u.pc ≠ .watchKnown b own own') :
    Inv { t with
      proc := proc
      wakeAt := t.now + (proc.tasks 0).elim 0 fun v =>
        sleepAfter (watchPeriod t.proc.st.ethAddress) t.proc.st.shard u.pc action v.pc } := by
  have haddress := step_address hproc
  rw [step_eq_taskStep hu hgossip] at hproc
  obtain ⟨v, hv, hbehind, hchecking⟩ := follows_taskStep hcheck hproc
  refine ⟨?_, h.sorted, h.past, h.since, ?_, ?_⟩
  · rw [haddress]
    exact h.justified
  · intro w hw
    obtain rfl := Option.some.inj (hv.symm.trans hw)
    rw [hbehind]
    exact h.behind u hu
  · intro w last hw hlast
    obtain rfl := Option.some.inj (hv.symm.trans hw)
    obtain ⟨hrested, hchecked⟩ := h.apart u last hu hlast
    obtain ⟨note, hnote, htime⟩ := lastCheck_mem hlast
    have hpast : last.1 ≤ t.now := htime ▸ h.past note hnote
    rw [haddress, hw]
    refine ⟨fun hr => ?_, fun hc => ?_⟩
    · cases hpc : v.pc with
      | watch b =>
        simp only [Option.elim, hpc, sleepAfter]
        omega
      | _ =>
        rw [hpc] at hr
        cases hr
    · rcases hchecking hc with hr | hc
      · exact le_trans (hrested hr) hawake
      · exact hchecked hc

theorem formStep_cases {pc : Pc F G₁} {action : Action F G₁}
    (hstep : formStep B t pc action = some t') :
    (∃ m settled, pc = .assembled m ∧ action = .probe .seedReachableDeclined settled) ∨
      (∃ b own own', pc = .watchKnown b own own' ∧ action = .next) ∨
      (∀ table, action ≠ .gossip table) ∧
        (action = .next → ∀ b own own', pc ≠ .watchKnown b own own') ∧
        ∃ proc, step B t.proc (0, action) = some proc ∧ t' = { t with
          proc := proc
          wakeAt := t.now + (proc.tasks 0).elim 0 fun v =>
            sleepAfter (watchPeriod t.proc.st.ethAddress) t.proc.st.shard pc action v.pc } := by
  unfold formStep at hstep
  split at hstep
  · cases hstep
  · exact .inl ⟨_, _, rfl, rfl⟩
  · exact .inr (.inl ⟨_, _, _, rfl, rfl⟩)
  · next hgossip _ hcheck =>
    obtain ⟨proc, hproc, rfl⟩ := Option.map_eq_some_iff.mp hstep
    refine .inr (.inr ⟨fun table heq => hgossip table heq, ?_, proc, hproc, rfl⟩)
    rintro rfl b own own' rfl
    exact hcheck b own own' rfl rfl

theorem Inv.step (h : Inv t) {l : Label F G₁} (hstep : timedStep B t l = some t') : Inv t' := by
  cases l with
  | wait duration =>
    cases hstep
    exact h.elapse (Nat.le_add_right _ _) rfl rfl
  | other label =>
    simp only [timedStep] at hstep
    split at hstep
    · cases hstep
    · next hid =>
      obtain ⟨proc, hproc, rfl⟩ := Option.map_eq_some_iff.mp hstep
      exact h.elapse le_rfl (step_address hproc) (step_other hid hproc)
  | form action =>
    simp only [timedStep] at hstep
    split at hstep
    · next hawake =>
      obtain ⟨u, hu, hform⟩ := Option.bind_eq_some_iff.mp hstep
      rcases formStep_cases hform with ⟨m, settled, hpc, rfl⟩ | ⟨b, own, own', hpc, rfl⟩ |
        ⟨hgossip, hcheck, proc, hproc, rfl⟩
      · exact h.declined hu hpc (hpc ▸ hform)
      · exact h.checked hu hpc (hpc ▸ hform)
      · exact h.moved hu hawake hproc hgossip hcheck
    · cases hstep

theorem inv_run {config : Config} {ethAddress : Address} {labels : List (Label F G₁)}
    (hrun : exec (timedStep B) (.init config ethAddress) labels = some t) : Inv t :=
  exec_invariant (fun _ _ _ h hstep => h.step hstep) (inv_init config ethAddress) hrun

theorem declined_step {u : Task F G₁} (hu : t.proc.tasks 0 = some u) {m : Membership}
    (hpc : u.pc = .assembled m) {settled : Bool}
    (hstep : timedStep B t (.form (.probe .seedReachableDeclined settled)) = some t') :
    ∃ recovers, t'.log = .declined t.now m.allDiscovered recovers :: t.log ∧
      ∃ u', t'.proc.tasks 0 = some u' ∧
        u'.pc = if m.allDiscovered || recovers then .recover m else .loop := by
  simp only [timedStep] at hstep
  split at hstep
  · rw [hu, Option.bind_some, hpc] at hstep
    obtain ⟨proc, hproc, rfl⟩ := Option.map_eq_some_iff.mp hstep
    rw [step_eq_taskStep hu (by rintro table ⟨⟩), hpc] at hproc
    cases hproc
    exact ⟨_, rfl, _, goto_tasks_self _ _ _ _, rfl⟩
  · cases hstep

theorem checked_step {u : Task F G₁} (hu : t.proc.tasks 0 = some u) {b own own' : ℕ}
    (hpc : u.pc = .watchKnown b own own') (hstep : timedStep B t (.form .next) = some t') :
    ∃ catchesUp, t'.log =
        .check t.now own (max own' t.proc.st.peerTable.maxEpoch) catchesUp :: t.log ∧
      ∃ u', t'.proc.tasks 0 = some u' ∧ (u'.pc = .catchUp ↔ catchesUp = true) := by
  simp only [timedStep] at hstep
  split at hstep
  · rw [hu, Option.bind_some, hpc] at hstep
    obtain ⟨proc, hproc, rfl⟩ := Option.map_eq_some_iff.mp hstep
    obtain ⟨u', hu', hpc'⟩ := step_checked hu hpc hproc
    refine ⟨_, rfl, u', hu', ?_⟩
    rw [hpc']
    by_cases hle : max own' t.proc.st.peerTable.maxEpoch ≤ own
    · rw [if_pos hle, decide_eq_false (Nat.not_lt.mpr hle)]
      simp
    · rw [if_neg hle, decide_eq_true (Nat.not_le.mp hle)]
      by_cases hfirst : b + 1 < 2
      · simp [hfirst]
      · simp [hfirst]
  · cases hstep

end Steps

-- ════════════════════════════════════════════════════════════════════════
-- Recovery
-- ════════════════════════════════════════════════════════════════════════

theorem missingSince_mem {log : List Note} {since : ℕ} (h : missingSince log = some since) :
    ∃ note ∈ log, note.time = since := by
  induction log with
  | nil => cases h
  | cons note log ih =>
    cases note with
    | check time own known catchesUp =>
      obtain ⟨note, hnote, htime⟩ := ih h
      exact ⟨note, List.mem_cons_of_mem _ hnote, htime⟩
    | declined time allDiscovered recovers =>
      cases allDiscovered with
      | true => cases h
      | false =>
        cases hsince : missingSince log with
        | none =>
          rw [missingSince, hsince] at h
          cases h
          exact ⟨_, List.mem_cons_self, rfl⟩
        | some since' =>
          rw [missingSince, hsince] at h
          cases h
          obtain ⟨note, hnote, htime⟩ := ih hsince
          exact ⟨note, List.mem_cons_of_mem _ hnote, htime⟩

/-- The window is measured from the first of these probes, hence from the earliest. -/
theorem missingSince_iff {log : List Note}
    (hsorted : log.Pairwise fun later earlier => earlier.time ≤ later.time) {d limit : ℕ} :
    (∃ since, missingSince log = some since ∧ since + d ≤ limit) ↔
      Since (fun note => ∀ time recovers, note ≠ .declined time true recovers)
        (fun note => ∃ since recovers, note = .declined since false recovers ∧ since + d ≤ limit)
        log := by
  induction log with
  | nil => simp [missingSince, since_nil]
  | cons note log ih =>
    obtain ⟨hnote, hrest⟩ := List.pairwise_cons.mp hsorted
    specialize ih hrest
    rw [since_cons, ← ih]
    cases note with
    | check time own known catchesUp => simp [missingSince]
    | declined time allDiscovered recovers =>
      cases allDiscovered with
      | true => simp [missingSince]
      | false =>
        cases hsince : missingSince log with
        | none => simp [missingSince, hsince]
        | some since =>
          obtain ⟨earlier, hearlier, rfl⟩ := missingSince_mem hsince
          have hle : earlier.time ≤ time := hnote earlier hearlier
          simp [missingSince, hsince]
          omega

section Recovery

variable {F G₁ G₂ : Type} [NatCast F] {B : Blsful F G₁ G₂}

/-- In every run, whatever else the node does meanwhile: a probe that finds an established cluster
    makes the node recover its share exactly when every member is discovered, or when an earlier
    such probe, at least a minute ago, found one missing, and none since found all of them. -/
theorem recovery_settled_iff (config : Config) (ethAddress : Address) (labels : List (Label F G₁))
    (t t' : Timed F G₁) (u : Task F G₁) (m : Membership) (settled : Bool)
    (hrun : exec (timedStep B) (.init config ethAddress) labels = some t)
    (hu : t.proc.tasks 0 = some u) (hpc : u.pc = .assembled m)
    (hstep : timedStep B t (.form (.probe .seedReachableDeclined settled)) = some t') :
    (∃ u', t'.proc.tasks 0 = some u' ∧ u'.pc = .recover m) ↔
      m.allDiscovered = true ∨
        Since (fun note => ∀ time recovers, note ≠ .declined time true recovers)
          (fun note => ∃ since recovers, note = .declined since false recovers ∧
            since + subsetSettle ≤ t.now) t.log := by
  have hinv : Inv t := inv_run hrun
  obtain ⟨recovers, hlog, u', hu', hpc'⟩ := declined_step hu hpc hstep
  have hneeds : recovers = true ↔ m.allDiscovered = true ∨
      ∃ since, missingSince t.log = some since ∧ since + subsetSettle ≤ t.now := by
    have hjustified := (hinv.step hstep).justified
    rw [hlog] at hjustified
    exact hjustified.1
  have hmoved : (∃ v, t'.proc.tasks 0 = some v ∧ v.pc = .recover m) ↔
      m.allDiscovered = true ∨ recovers = true := by
    simp only [hu', Option.some.injEq, exists_eq_left', hpc', ← Bool.or_eq_true]
    split
    · next hor => simp [hor]
    · next hor => simp [hor]
  rw [hmoved, hneeds, ← or_assoc, or_self]
  exact or_congr_right (missingSince_iff hinv.sorted)

end Recovery

open TwoSessions in
/-- Node 1 with only node 2 discovered: the first probe opens the window, and one a minute later
    makes it recover with the members that are there. -/
def pair : List (Label Scalar Scalar) :=
  [.other (7, .gossip (AList.insert 2 ⟨"b", 0, [4], 1, []⟩ ∅)), .form (.boot none),
    .form (.assemble (.ok nodeList) 0), .form (.probe .seedReachableDeclined false),
    .wait (secs 60), .form (.assemble (.ok nodeList) 0)]

open TwoSessions in
theorem recovery_settled_iff_pair : ∃ (t t' : Timed Scalar Scalar) (m : Membership),
    exec (timedStep scalarBlsful) (.init config 1) pair = some t ∧
      timedStep scalarBlsful t (.form (.probe .seedReachableDeclined false)) = some t' ∧
      m.allDiscovered = false ∧ ∃ u', t'.proc.tasks 0 = some u' ∧ u'.pc = .recover m := by
  have hpair : (exec (timedStep scalarBlsful) (.init config 1) pair).any (fun t =>
      (timedStep scalarBlsful t (.form (.probe .seedReachableDeclined false))).isSome &&
        (t.log = [.declined 0 false false] && t.now = secs 60) &&
        (t.proc.tasks 0).any fun u => match u.pc with
          | .assembled m => !m.allDiscovered
          | _ => false) = true := by decide +kernel
  simp only [Option.any_eq_true, Bool.and_eq_true, decide_eq_true_eq, Option.isSome_iff_exists]
    at hpair
  obtain ⟨t, hrun, ⟨⟨t', hstep⟩, hlog, hnow⟩, u, hu, hm⟩ := hpair
  split at hm
  on_goal 2 => cases hm
  next m hpc =>
  have hall : m.allDiscovered = false := by simpa using hm
  refine ⟨t, t', m, hrun, hstep, hall,
    (recovery_settled_iff config 1 pair t t' u m false hrun hu hpc hstep).mpr (.inr ?_)⟩
  rw [hlog, hnow, since_cons]
  exact .inl ⟨0, false, rfl, le_rfl⟩

-- ════════════════════════════════════════════════════════════════════════
-- The watchdog
-- ════════════════════════════════════════════════════════════════════════

theorem pending_iff {log : List Note} : pending log = true ↔
    Since (fun note => ∀ time own known catchesUp, note ≠ .check time own known catchesUp)
      (fun note => ∃ time own known, note = .check time own known false ∧ own < known) log := by
  induction log with
  | nil => simp [pending, lastCheck, since_nil]
  | cons note log ih =>
    rw [since_cons, ← ih]
    cases note with
    | declined time allDiscovered recovers => simp [pending, lastCheck]
    | check time own known catchesUp => cases catchesUp <;> simp [pending, lastCheck]

/-- No check is later than the last. -/
theorem le_lastCheck {log : List Note}
    (hsorted : log.Pairwise fun later earlier => earlier.time ≤ later.time)
    {time own known : ℕ} {catchesUp : Bool} (hmem : .check time own known catchesUp ∈ log) :
    ∃ last, lastCheck log = some last ∧ time ≤ last.1 := by
  induction log with
  | nil => cases hmem
  | cons note log ih =>
    obtain ⟨hnote, hrest⟩ := List.pairwise_cons.mp hsorted
    cases note with
    | declined time' allDiscovered recovers =>
      exact ih hrest ((List.mem_cons.mp hmem).resolve_left nofun)
    | check time' own' known' catchesUp' =>
      refine ⟨_, rfl, ?_⟩
      rcases List.mem_cons.mp hmem with heq | hmem
      · cases heq
        exact le_rfl
      · exact hnote _ hmem

section Watchdog

variable {F G₁ G₂ : Type} [NatCast F] {B : Blsful F G₁ G₂}

omit [NatCast F] in
/-- Between two checks the watchdog has slept. -/
theorem Inv.check_apart {t : Timed F G₁} (h : Inv t) {time own known : ℕ} {catchesUp : Bool}
    {earlier : List Note} (hsuffix : (.check time own known catchesUp :: earlier) <:+ t.log)
    {time₀ own₀ known₀ : ℕ} {catchesUp₀ : Bool}
    (hmem : .check time₀ own₀ known₀ catchesUp₀ ∈ earlier) :
    time₀ + watchPeriod t.proc.st.ethAddress ≤ time := by
  have hsorted := List.pairwise_cons.mp (h.sorted.sublist hsuffix.sublist)
  obtain ⟨last, hlast, hle⟩ := le_lastCheck hsorted.2 hmem
  have hneeds := (h.justified.of_suffix hsuffix).2 last hlast
  omega

theorem timedStep_address {t t' : Timed F G₁} {l : Label F G₁}
    (hstep : timedStep B t l = some t') : t'.proc.st.ethAddress = t.proc.st.ethAddress := by
  rcases timedStep_process hstep with heq | ⟨l', hl'⟩
  · rw [heq]
  · exact step_address hl'

theorem address_run {config : Config} {ethAddress : Address} {labels : List (Label F G₁)}
    {t : Timed F G₁} (hrun : exec (timedStep B) (.init config ethAddress) labels = some t) :
    t.proc.st.ethAddress = ethAddress := by
  exact exec_invariant (I := fun t => t.proc.st.ethAddress = ethAddress)
    (fun _ _ _ h hstep => (timedStep_address hstep).trans h) rfl hrun

/-- In every run, whatever else the node does meanwhile: a check of the watchdog catches up exactly
    when it finds the node behind the cluster and the check before it did so too without catching
    up. It is at least `45 + stagger` seconds after every earlier check, and twice that after an
    earlier one that caught up if it catches up again. -/
theorem catch_up_confirmed_iff (config : Config) (ethAddress : Address)
    (labels : List (Label F G₁)) (t t' : Timed F G₁) (u : Task F G₁) (b own own' : ℕ)
    (hrun : exec (timedStep B) (.init config ethAddress) labels = some t)
    (hu : t.proc.tasks 0 = some u) (hpc : u.pc = .watchKnown b own own')
    (hstep : timedStep B t (.form .next) = some t') :
    ((∃ u', t'.proc.tasks 0 = some u' ∧ u'.pc = .catchUp) ↔
        own < max own' t.proc.st.peerTable.maxEpoch ∧
          Since (fun note => ∀ time own known catchesUp, note ≠ .check time own known catchesUp)
            (fun note => ∃ time own known, note = .check time own known false ∧ own < known)
            t.log) ∧
      (∀ time own known catchesUp, .check time own known catchesUp ∈ t.log →
        time + watchPeriod ethAddress ≤ t.now) ∧
      ((∃ u', t'.proc.tasks 0 = some u' ∧ u'.pc = .catchUp) →
        ∀ time own known, .check time own known true ∈ t.log →
          time + 2 * watchPeriod ethAddress ≤ t.now) := by
  obtain ⟨catchesUp, hlog, u', hu', hpc'⟩ := checked_step hu hpc hstep
  have hinv : Inv t' := (inv_run hrun).step hstep
  have haddress : t'.proc.st.ethAddress = ethAddress :=
    (timedStep_address hstep).trans (address_run hrun)
  have hneeds : catchesUp = true ↔ own < max own' t.proc.st.peerTable.maxEpoch ∧
      pending t.log = true := by
    have hjustified := hinv.justified
    rw [hlog] at hjustified
    exact hjustified.1.1
  have hmoved : (∃ v, t'.proc.tasks 0 = some v ∧ v.pc = .catchUp) ↔ catchesUp = true := by
    simp only [hu', Option.some.injEq, exists_eq_left', hpc']
  have happart : ∀ time own known c, .check time own known c ∈ t.log →
      time + watchPeriod ethAddress ≤ t.now := by
    intro time own known c hmem
    have hsuffix := List.suffix_refl t'.log
    nth_rewrite 1 [hlog] at hsuffix
    exact haddress ▸ hinv.check_apart hsuffix hmem
  refine ⟨?_, happart, fun hcatches time own₀ known₀ hmem => ?_⟩
  · rw [hmoved, hneeds, pending_iff]
  · -- The check before this one did not catch up, so it lies between the two that did.
    obtain ⟨later, note, earlier, heq, hlater, time₁, own₁, known₁, rfl, -⟩ :=
      pending_iff.mp (hneeds.mp (hmoved.mp hcatches)).2
    have hlast := happart time₁ own₁ known₁ false (by simp [heq])
    have hearlier : .check time own₀ known₀ true ∈ earlier := by
      rw [heq, List.mem_append, List.mem_cons] at hmem
      rcases hmem with hmem | hmem | hmem
      · exact absurd rfl (hlater _ hmem _ _ _ _)
      · cases hmem
      · exact hmem
    have hsuffix : (.check time₁ own₁ known₁ false :: earlier) <:+ t'.log := by
      rw [hlog, heq]
      exact ⟨_ :: later, rfl⟩
    have hfirst := hinv.check_apart hsuffix hearlier
    rw [haddress] at hfirst
    omega

end Watchdog

open TwoSessions in
/-- Node 1 boots with its share of epoch 1 while node 2 is at epoch 2, and two checks later stands
    where the third one ends. -/
def behind : List (Label Scalar Scalar) :=
  [.form (.boot (some (record, "blob")))] ++ List.replicate 6 (.form .next) ++
    [.other (7, .gossip (AList.insert 2 ⟨"b", 0, [4], 2, []⟩ ∅))] ++
    [.wait (watchPeriod 1), .form .next, .form .next, .form .next, .wait (watchPeriod 1),
      .form .next, .form .next]

open TwoSessions in
theorem catch_up_confirmed_iff_behind : ∃ t t' : Timed Scalar Scalar,
    exec (timedStep scalarBlsful) (.init config 1) behind = some t ∧
      timedStep scalarBlsful t (.form .next) = some t' ∧
      ∃ u', t'.proc.tasks 0 = some u' ∧ u'.pc = .catchUp := by
  have hbehind : (exec (timedStep scalarBlsful) (.init config 1) behind).any (fun t =>
      (timedStep scalarBlsful t (.form .next)).isSome &&
        t.log = [.check (watchPeriod 1) 1 2 false] &&
        (t.proc.tasks 0).any fun u => match u.pc with
          | .watchKnown _ own own' => own = 1 && 1 < max own' t.proc.st.peerTable.maxEpoch
          | _ => false) = true := by decide +kernel
  simp only [Option.any_eq_true, Bool.and_eq_true, decide_eq_true_eq, Option.isSome_iff_exists]
    at hbehind
  obtain ⟨t, hrun, ⟨⟨t', hstep⟩, hlog⟩, u, hu, hm⟩ := hbehind
  split at hm
  on_goal 2 => cases hm
  next b own own' hpc =>
  simp only [Bool.and_eq_true, decide_eq_true_eq] at hm
  obtain ⟨rfl, hlt⟩ := hm
  refine ⟨t, t', hrun, hstep,
    (catch_up_confirmed_iff config 1 behind t t' u b 1 own' hrun hu hpc hstep).1.mpr ⟨hlt, ?_⟩⟩
  rw [hlog, since_cons]
  exact .inl ⟨_, 1, 2, rfl, by decide⟩

end KmsCluster.FormCluster
