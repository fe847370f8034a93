import KmsCluster.Dkg

/-!
# The round barrier under concurrent deliveries

Model of `await_round` (`src/dkg.rs`) beside the `dkg_round` handlers (`src/grpc.rs`) that record
messages into `dkg_sessions`. A step is what happens under one lock, or between two awaits: the
driver clones the session's notify handle under the write lock, creates its `Notified` future,
checks the buffer under the read lock and waits for the future; a handler inserts its message and
calls `notify_waiters` under the write lock. Each session id has one driver, which calls
`await_round` any number of times and drops the buffers when it is through.

## Main results

- `Inv.step`: a future that was not notified since its creation has seen every message.
- `no_lost_wakeup_iff`: a driver that waits for a notification misses a message it expects, exactly
  in the runs in which no driver that expects nobody finds its round empty; and a barrier that opens
  returns the latest messages.
- `nobody_expected_waits`: a driver that expects nobody and waits.
-/

namespace KmsCluster.RoundBarrier

open Runs

/-- `tokio::sync::Notify`, by handle. -/
structure NotifyLib where
  Notify : Type
  Notified : Type
  new : Notify
  notified : Notify → Notified
  notifyWaiters : Notify → Notify
  /-- The future is complete at this state of its `Notify`. -/
  ready : Notify → Notified → Bool

/-- A future is completed by every `notify_waiters` after its creation, polled or not. -/
def NotifyLib.Wakes (lib : NotifyLib) : Prop :=
  ∀ n calls, 0 < calls → lib.ready (lib.notifyWaiters^[calls] n) (lib.notified n) = true

variable {lib : NotifyLib} {M : Type}

/-- The entry of a session id. The handle stands for the `Arc` of its `Notify`. -/
structure Session (M : Type) where
  rounds : DkgSession M
  notify : ℕ

/-- The arguments of a call of `await_round`. -/
structure Await where
  round : ℕ
  expected : List ℕ
  timeout : ℕ

/-- Where a session's driver stands. -/
inductive Pc (lib : NotifyLib) (M : Type) where
  | idle
  | called (a : Await)
  | holding (a : Await) (handle : ℕ)
  | looping (a : Await) (handle deadline : ℕ)
  | registered (a : Await) (handle deadline : ℕ) (notified : lib.Notified)
  | parked (a : Await) (handle deadline : ℕ) (notified : lib.Notified)
  | returned (a : Await) (result : Except String (List (ℕ × M)))
  | closed

/-- A recorded message, for the properties only. -/
structure Recorded (M : Type) where
  sessionId : String
  round : ℕ
  sender : ℕ
  msg : M

structure State (lib : NotifyLib) (M : Type) where
  dkgSessions : AList (fun _ : String => Session M)
  notifies : ℕ → lib.Notify
  nextHandle : ℕ
  clock : ℕ
  drivers : String → Pc lib M
  log : List (Recorded M)

def State.init (lib : NotifyLib) (M : Type) : State lib M where
  dkgSessions := ∅
  notifies := fun _ => lib.new
  nextHandle := 0
  clock := 0
  drivers := fun _ => .idle
  log := []

inductive Action (M : Type) where
  /-- `dkg_round` records a message. -/
  | record (round sender : ℕ) (msg : M)
  /-- The driver calls `await_round`. -/
  | call (a : Await)
  | getHandle
  | setDeadline (t : ℕ)
  | register
  | check
  | wake
  | expire (t : ℕ)
  /-- The driver drops the session's buffers and ends. -/
  | close

/-- `sessions.entry(session_id).or_default()`. -/
def State.entry (s : State lib M) (sessionId : String) : Session M × State lib M :=
  match s.dkgSessions.lookup sessionId with
  | some session => (session, s)
  | none =>
    let session : Session M := ⟨∅, s.nextHandle⟩
    (session, { s with
      dkgSessions := AList.insert sessionId session s.dkgSessions
      nextHandle := s.nextHandle + 1 })

def State.setPc (s : State lib M) (sessionId : String) (pc : Pc lib M) : State lib M :=
  { s with drivers := Function.update s.drivers sessionId pc }

theorem setPc_self (s : State lib M) (sessionId : String) (pc : Pc lib M) :
    (s.setPc sessionId pc).drivers sessionId = pc := Function.update_self ..

theorem setPc_of_ne (s : State lib M) {sessionId id : String} (h : id ≠ sessionId)
    (pc : Pc lib M) : (s.setPc sessionId pc).drivers id = s.drivers id :=
  Function.update_of_ne h ..

/-- `DkgSession::record` on the entry of the session id. -/
def State.record (s : State lib M) (sessionId : String) (round sender : ℕ) (msg : M) :
    State lib M :=
  let (session, s) := s.entry sessionId
  { s with
    dkgSessions := AList.insert sessionId
      { session with rounds := session.rounds.record round sender msg } s.dkgSessions
    notifies := Function.update s.notifies session.notify
      (lib.notifyWaiters (s.notifies session.notify))
    log := ⟨sessionId, round, sender, msg⟩ :: s.log }

/-- What the barrier returns on the buffers as they are. -/
def State.opens (s : State lib M) (sessionId : String) (a : Await) : Option (List (ℕ × M)) :=
  (s.dkgSessions.lookup sessionId).bind fun session => session.rounds.awaitRound a.round a.expected

def step (s : State lib M) (l : String × Action M) : Option (State lib M) :=
  match s.drivers l.1, l.2 with
  | _, .record round sender msg => some (s.record l.1 round sender msg)
  | .idle, .call a | .returned _ _, .call a => some (s.setPc l.1 (.called a))
  | .called a, .getHandle =>
    let (session, s) := s.entry l.1
    some (s.setPc l.1 (.holding a session.notify))
  | .holding a handle, .setDeadline t =>
    if s.clock ≤ t then
      some ({ s with clock := t }.setPc l.1 (.looping a handle (t + a.timeout)))
    else none
  | .looping a handle deadline, .register =>
    some (s.setPc l.1 (.registered a handle deadline (lib.notified (s.notifies handle))))
  | .registered a handle deadline notified, .check =>
    match s.opens l.1 a with
    | some msgs => some (s.setPc l.1 (.returned a (.ok msgs)))
    | none => some (s.setPc l.1 (.parked a handle deadline notified))
  | .parked a handle deadline notified, .wake =>
    if lib.ready (s.notifies handle) notified then
      some (s.setPc l.1 (.looping a handle deadline))
    else none
  | .parked a handle deadline notified, .expire t =>
    if s.clock ≤ t ∧ deadline ≤ t ∧ lib.ready (s.notifies handle) notified = false then
      some ({ s with clock := t }.setPc l.1 (.returned a (.error ("DKG session '" ++ l.1 ++
        "' round " ++ toString a.round ++ " timed out waiting for peers"))))
    else none
  | .idle, .close | .returned _ _, .close =>
    some ({ s with dkgSessions := AList.erase l.1 s.dkgSessions }.setPc l.1 .closed)
  | _, _ => none

/-- The last message recorded for a sender in a round. -/
def latest (log : List (Recorded M)) (sessionId : String) (round sender : ℕ) : Option M :=
  (log.find? fun r =>
    decide (r.sessionId = sessionId ∧ r.round = round ∧ r.sender = sender)).map (·.msg)

/-- A driver that waits and has no notification pending misses an expected sender's message. -/
def NoLostWakeup (s : State lib M) : Prop :=
  ∀ sessionId a handle deadline notified,
    s.drivers sessionId = .parked a handle deadline notified →
    lib.ready (s.notifies handle) notified = false →
    ∃ id ∈ a.expected, latest s.log sessionId a.round id = none

/-- A step that lets `await_round` return `Ok` returns the latest messages of its round, and one of
    each expected sender is among them. -/
def ReturnsLatest (s : State lib M) : Prop :=
  ∀ l s' sessionId a msgs, step s l = some s' → s'.drivers sessionId = .returned a (.ok msgs) →
    s.drivers sessionId = .returned a (.ok msgs) ∨
      (∀ id msg, (id, msg) ∈ msgs ↔ latest s.log sessionId a.round id = some msg) ∧
        ∀ id ∈ a.expected, ∃ msg, latest s.log sessionId a.round id = some msg

/-- A driver that expects nobody and looks at its barrier finds a message of the round, or has a
    notification pending. -/
def SomebodyHeard (s : State lib M) (l : String × Action M) : Prop :=
  l.2 = .check → ∀ a handle deadline notified,
    s.drivers l.1 = .registered a handle deadline notified → a.expected = [] →
    lib.ready (s.notifies handle) notified = true ∨
      ∃ id msg, latest s.log l.1 a.round id = some msg

-- ════════════════════════════════════════════════════════════════════════
-- Entries and what they hold
-- ════════════════════════════════════════════════════════════════════════

def State.buffered (s : State lib M) (sessionId : String) (round sender : ℕ) : Option M :=
  (s.dkgSessions.lookup sessionId).bind fun session => session.rounds.lookup (round, sender)

section
variable {s s' : State lib M} {sessionId : String}

/-- Looking up an entry changes nothing but that it is there. -/
structure Entered (s s' : State lib M) (sessionId : String) (session : Session M) : Prop where
  lookup : s'.dkgSessions.lookup sessionId = some session
  others : ∀ id, id ≠ sessionId → s'.dkgSessions.lookup id = s.dkgSessions.lookup id
  kept : ∀ old, s.dkgSessions.lookup sessionId = some old → session = old
  rounds : ∀ round sender,
    session.rounds.lookup (round, sender) = s.buffered sessionId round sender
  notifies : s'.notifies = s.notifies
  drivers : s'.drivers = s.drivers
  log : s'.log = s.log

theorem entered (s : State lib M) (sessionId : String) :
    Entered s (s.entry sessionId).2 sessionId (s.entry sessionId).1 := by
  unfold State.entry
  split
  · next session hsession =>
    refine ⟨hsession, fun _ _ => rfl, ?_, ?_, rfl, rfl, rfl⟩
    · intro old hold
      exact Option.some.inj (hsession.symm.trans hold)
    · intro round sender
      rw [State.buffered, hsession]
      rfl
  · next hnone =>
    refine ⟨AList.lookup_insert _, fun _ hne => AList.lookup_insert_ne hne, ?_, ?_, rfl, rfl, rfl⟩
    · intro old hold
      cases hnone.symm.trans hold
    · intro round sender
      rw [State.buffered, hnone]
      rfl

theorem record_drivers (s : State lib M) (sessionId : String) (round sender : ℕ) (msg : M) :
    (s.record sessionId round sender msg).drivers = s.drivers :=
  (entered s sessionId).drivers

/-- A recorded message notifies the futures of the session's handle. -/
theorem record_notifies (s : State lib M) (sessionId : String) (round sender : ℕ) (msg : M) :
    (s.record sessionId round sender msg).notifies =
      Function.update s.notifies (s.entry sessionId).1.notify
        (lib.notifyWaiters (s.notifies (s.entry sessionId).1.notify)) := by
  rw [← (entered s sessionId).notifies]
  rfl

theorem latest_cons (r : Recorded M) (log : List (Recorded M)) (sessionId : String)
    (round sender : ℕ) : latest (r :: log) sessionId round sender =
      if r.sessionId = sessionId ∧ r.round = round ∧ r.sender = sender then some r.msg
      else latest log sessionId round sender := by
  simp only [latest, List.find?_cons]
  split
  · next h => rw [if_pos (of_decide_eq_true h), Option.map_some]
  · next h => rw [if_neg (of_decide_eq_false h)]

end

/-- Everything that a step of a session's driver can do: where it stands before and after it, and
    what becomes of the rest of the state. -/
inductive DriverSteps (s : State lib M) (sessionId : String) :
    Pc lib M → Action M → Pc lib M → State lib M → Prop
  | begin {a : Await} : DriverSteps s sessionId .idle (.call a) (.called a) s
  | again {a b : Await} {result : Except String (List (ℕ × M))} :
      DriverSteps s sessionId (.returned b result) (.call a) (.called a) s
  | getHandle {a : Await} : DriverSteps s sessionId (.called a) .getHandle
      (.holding a (s.entry sessionId).1.notify) (s.entry sessionId).2
  | setDeadline {a : Await} {handle t : ℕ} (hclock : s.clock ≤ t) :
      DriverSteps s sessionId (.holding a handle) (.setDeadline t)
        (.looping a handle (t + a.timeout)) { s with clock := t }
  | register {a : Await} {handle deadline : ℕ} :
      DriverSteps s sessionId (.looping a handle deadline) .register
        (.registered a handle deadline (lib.notified (s.notifies handle))) s
  | opens {a : Await} {handle deadline : ℕ} {notified : lib.Notified} {msgs : List (ℕ × M)}
      (hopens : s.opens sessionId a = some msgs) :
      DriverSteps s sessionId (.registered a handle deadline notified) .check
        (.returned a (.ok msgs)) s
  | parks {a : Await} {handle deadline : ℕ} {notified : lib.Notified}
      (hclosed : s.opens sessionId a = none) :
      DriverSteps s sessionId (.registered a handle deadline notified) .check
        (.parked a handle deadline notified) s
  | wake {a : Await} {handle deadline : ℕ} {notified : lib.Notified}
      (hready : lib.ready (s.notifies handle) notified = true) :
      DriverSteps s sessionId (.parked a handle deadline notified) .wake
        (.looping a handle deadline) s
  | expire {a : Await} {handle deadline t : ℕ} {notified : lib.Notified} {e : String}
      (hclock : s.clock ≤ t ∧ deadline ≤ t)
      (hidle : lib.ready (s.notifies handle) notified = false) :
      DriverSteps s sessionId (.parked a handle deadline notified) (.expire t)
        (.returned a (.error e)) { s with clock := t }
  | close : DriverSteps s sessionId .idle .close .closed
      { s with dkgSessions := AList.erase sessionId s.dkgSessions }
  | reclose {b : Await} {result : Except String (List (ℕ × M))} :
      DriverSteps s sessionId (.returned b result) .close .closed
        { s with dkgSessions := AList.erase sessionId s.dkgSessions }

theorem steps_of_step {s s' : State lib M} {l : String × Action M} (h : step s l = some s') :
    (∃ round sender msg, s' = s.record l.1 round sender msg) ∨
      ∃ pc m, DriverSteps s l.1 (s.drivers l.1) l.2 pc m ∧ s' = m.setPc l.1 pc := by
  unfold step at h
  split at h
  · cases h
    exact .inl ⟨_, _, _, rfl⟩
  · next hpc haction =>
    cases h
    exact .inr ⟨_, _, by rw [hpc, haction]; exact .begin, rfl⟩
  · next hpc haction =>
    cases h
    exact .inr ⟨_, _, by rw [hpc, haction]; exact .again, rfl⟩
  · next hpc haction =>
    cases h
    exact .inr ⟨_, _, by rw [hpc, haction]; exact .getHandle, rfl⟩
  · next hpc haction =>
    split at h
    · next hclock =>
      cases h
      exact .inr ⟨_, _, by rw [hpc, haction]; exact .setDeadline hclock, rfl⟩
    · cases h
  · next hpc haction =>
    cases h
    exact .inr ⟨_, _, by rw [hpc, haction]; exact .register, rfl⟩
  · next hpc haction =>
    split at h
    · next hopens =>
      cases h
      exact .inr ⟨_, _, by rw [hpc, haction]; exact .opens hopens, rfl⟩
    · next hclosed =>
      cases h
      exact .inr ⟨_, _, by rw [hpc, haction]; exact .parks hclosed, rfl⟩
  · next hpc haction =>
    split at h
    · next hready =>
      cases h
      exact .inr ⟨_, _, by rw [hpc, haction]; exact .wake hready, rfl⟩
    · cases h
  · next hpc haction =>
    split at h
    · next hclock =>
      cases h
      exact .inr ⟨_, _, by rw [hpc, haction]; exact .expire ⟨hclock.1, hclock.2.1⟩ hclock.2.2, rfl⟩
    · cases h
  · next hpc haction =>
    cases h
    exact .inr ⟨_, _, by rw [hpc, haction]; exact .close, rfl⟩
  · next hpc haction =>
    cases h
    exact .inr ⟨_, _, by rw [hpc, haction]; exact .reclose, rfl⟩
  · cases h

/-- A driver touches neither the futures nor the recorded messages, and of the sessions its own. -/
theorem DriverSteps.frame {s m : State lib M} {sessionId : String} {pc pc' : Pc lib M}
    {action : Action M} (h : DriverSteps s sessionId pc action pc' m) :
    m.drivers = s.drivers ∧ m.notifies = s.notifies ∧ m.log = s.log ∧
      ∀ id, id ≠ sessionId → m.dkgSessions.lookup id = s.dkgSessions.lookup id := by
  cases h with
  | getHandle =>
    have hentered := entered s sessionId
    exact ⟨hentered.drivers, hentered.notifies, hentered.log, hentered.others⟩
  | close | reclose => exact ⟨rfl, rfl, rfl, fun _ hid => AList.lookup_erase_ne hid⟩
  | begin | again | setDeadline | register | opens | parks | wake | expire =>
    exact ⟨rfl, rfl, rfl, fun _ _ => rfl⟩

-- ════════════════════════════════════════════════════════════════════════
-- The invariant
-- ════════════════════════════════════════════════════════════════════════

/-- The notify handle that the driver has cloned. -/
def Pc.handle? : Pc lib M → Option ℕ
  | .holding _ handle | .looping _ handle _ | .registered _ handle _ _ | .parked _ handle _ _ =>
    some handle
  | _ => none

/-- The future that the driver has created, with its handle. -/
def Pc.future? : Pc lib M → Option (ℕ × lib.Notified)
  | .registered _ handle _ notified | .parked _ handle _ notified => some (handle, notified)
  | _ => none

def Pc.parked? : Pc lib M → Option Await
  | .parked a _ _ _ => some a
  | _ => none

/-- A driver's future counts the notifications since its creation; while there are none, the check
    of a driver that waits still holds. -/
def FutureOk (s : State lib M) (sessionId : String) (pc : Pc lib M) : Prop :=
  ∀ handle notified, pc.future? = some (handle, notified) → ∃ n calls,
    notified = lib.notified n ∧ s.notifies handle = lib.notifyWaiters^[calls] n ∧
      (calls = 0 → ∀ a, pc.parked? = some a → s.opens sessionId a = none)

def HandleOk (s : State lib M) (sessionId : String) (pc : Pc lib M) : Prop :=
  ∀ handle, pc.handle? = some handle →
    ∃ session, s.dkgSessions.lookup sessionId = some session ∧ session.notify = handle

structure Inv (s : State lib M) : Prop where
  buffers : ∀ sessionId, s.drivers sessionId ≠ .closed → ∀ round sender,
    s.buffered sessionId round sender = latest s.log sessionId round sender
  handles : ∀ sessionId, HandleOk s sessionId (s.drivers sessionId)
  futures : ∀ sessionId, FutureOk s sessionId (s.drivers sessionId)

theorem inv_init : Inv (State.init lib M) :=
  ⟨fun _ _ _ _ => rfl, fun _ => nofun, fun _ => nofun⟩

section
variable {s s' : State lib M} {sessionId : String} {pc : Pc lib M}

/-- A driver's step changes its own session at most. -/
theorem Inv.drive {m : State lib M} {pc₀ : Pc lib M} {action : Action M} (h : Inv s)
    (hsteps : DriverSteps s sessionId pc₀ action pc m)
    (hbuffers : pc ≠ .closed → ∀ round sender,
      m.buffered sessionId round sender = latest s.log sessionId round sender)
    (hhandle : HandleOk m sessionId pc) (hfuture : FutureOk m sessionId pc) :
    Inv (m.setPc sessionId pc) := by
  obtain ⟨hdrivers, hnotifies, hlog, hothers⟩ := hsteps.frame
  have hself := setPc_self m sessionId pc
  have hother : ∀ id, id ≠ sessionId → (m.setPc sessionId pc).drivers id = s.drivers id := by
    intro id hid
    rw [setPc_of_ne m hid, hdrivers]
  refine ⟨?_, ?_, ?_⟩
  · intro id hopen round sender
    show m.buffered id round sender = latest m.log id round sender
    by_cases hid : id = sessionId
    · subst hid
      rw [hlog]
      exact hbuffers (hself ▸ hopen) round sender
    · rw [State.buffered, hothers id hid, hlog]
      exact h.buffers id (hother id hid ▸ hopen) round sender
  · intro id
    by_cases hid : id = sessionId
    · subst hid
      rw [hself]
      exact hhandle
    · rw [hother id hid]
      intro handle hheld
      show ∃ session, m.dkgSessions.lookup id = some session ∧ _
      rw [hothers id hid]
      exact h.handles id handle hheld
  · intro id
    by_cases hid : id = sessionId
    · subst hid
      rw [hself]
      exact hfuture
    · rw [hother id hid]
      intro handle notified hwaits
      obtain ⟨n, calls, hcreated, hcalls, hseen⟩ := h.futures id handle notified hwaits
      refine ⟨n, calls, hcreated, ?_, ?_⟩
      · show m.notifies handle = _
        rw [hnotifies]
        exact hcalls
      · intro hzero a ha
        show (m.dkgSessions.lookup id).bind _ = none
        rw [hothers id hid]
        exact hseen hzero a ha

theorem Inv.record (h : Inv s) (sessionId : String) (round sender : ℕ) (msg : M) :
    Inv (s.record sessionId round sender msg) := by
  have hentered := entered s sessionId
  have hsessions : (s.record sessionId round sender msg).dkgSessions = AList.insert sessionId
      { (s.entry sessionId).1 with
        rounds := (s.entry sessionId).1.rounds.record round sender msg }
      (s.entry sessionId).2.dkgSessions := rfl
  have hnotifies := record_notifies s sessionId round sender msg
  have hdrivers := record_drivers s sessionId round sender msg
  have hlog : (s.record sessionId round sender msg).log =
      ⟨sessionId, round, sender, msg⟩ :: s.log := congrArg _ hentered.log
  have hothers : ∀ id, id ≠ sessionId →
      (s.record sessionId round sender msg).dkgSessions.lookup id = s.dkgSessions.lookup id := by
    intro id hid
    rw [hsessions, AList.lookup_insert_ne hid, hentered.others id hid]
  refine ⟨?_, ?_, ?_⟩
  · intro id hopen r q
    rw [hlog, latest_cons]
    rw [hdrivers] at hopen
    by_cases hid : id = sessionId
    · subst hid
      rw [State.buffered, hsessions, AList.lookup_insert, Option.bind_some]
      by_cases hkey : (r, q) = (round, sender)
      · cases hkey
        rw [if_pos ⟨rfl, rfl, rfl⟩]
        exact AList.lookup_insert _
      · rw [if_neg (by rintro ⟨-, rfl, rfl⟩; exact hkey rfl)]
        rw [DkgSession.record, AList.lookup_insert_ne hkey, hentered.rounds]
        exact h.buffers id hopen r q
    · rw [if_neg (by rintro ⟨heq, -⟩; exact hid heq.symm), State.buffered, hothers id hid]
      exact h.buffers id hopen r q
  · intro id handle hheld
    rw [hdrivers] at hheld
    obtain ⟨session, hsession, hnotify⟩ := h.handles id handle hheld
    by_cases hid : id = sessionId
    · subst hid
      refine ⟨_, by rw [hsessions, AList.lookup_insert], ?_⟩
      rw [← hnotify, ← hentered.kept session hsession]
    · exact ⟨session, by rw [hothers id hid]; exact hsession, hnotify⟩
  · intro id handle notified hwaits
    rw [hdrivers] at hwaits ⊢
    obtain ⟨n, calls, hcreated, hcalls, hseen⟩ := h.futures id handle notified hwaits
    by_cases hhandle : handle = (s.entry sessionId).1.notify
    · -- the future is notified
      refine ⟨n, calls + 1, hcreated, ?_, fun hzero => absurd hzero (Nat.succ_ne_zero calls)⟩
      rw [hnotifies, hhandle, Function.update_self, ← hhandle, hcalls,
        Function.iterate_succ_apply']
    · refine ⟨n, calls, hcreated, ?_, ?_⟩
      · rw [hnotifies, Function.update_of_ne hhandle]
        exact hcalls
      · intro hzero a ha
        -- a driver of this session would have had this handle
        have hid : id ≠ sessionId := by
          rintro rfl
          have hheld : (s.drivers id).handle? = some handle := by
            cases hpc : s.drivers id <;> rw [hpc] at hwaits <;> cases hwaits <;> rfl
          obtain ⟨session, hsession, hnotify⟩ := h.handles id handle hheld
          rw [← hentered.kept session hsession] at hnotify
          exact hhandle hnotify.symm
        rw [State.opens, hothers id hid]
        exact hseen hzero a ha

theorem Inv.step (h : Inv s) {l : String × Action M} (hstep : step s l = some s') : Inv s' := by
  obtain ⟨round, sender, msg, rfl⟩ | ⟨pc, m, hsteps, rfl⟩ := steps_of_step hstep
  · exact h.record l.1 round sender msg
  · have hheld := h.handles l.1
    have hfuture := h.futures l.1
    have hbuffers := h.buffers l.1
    generalize s.drivers l.1 = pc₀ at hsteps hheld hfuture hbuffers
    generalize l.2 = action at hsteps
    refine h.drive hsteps ?_ ?_ ?_
    · intro hopen
      cases hsteps with
      | getHandle =>
        intro round sender
        rw [← hbuffers nofun, State.buffered, (entered s l.1).lookup]
        exact (entered s l.1).rounds round sender
      | close | reclose => exact absurd rfl hopen
      | begin | again | setDeadline | register | opens | parks | wake | expire =>
        exact hbuffers nofun
    · cases hsteps with
      | getHandle =>
        intro handle heq
        cases heq
        exact ⟨_, (entered s l.1).lookup, rfl⟩
      | begin | again | opens | expire | close | reclose => exact nofun
      | setDeadline | register | parks | wake => exact hheld
    · cases hsteps with
      | register =>
        intro handle notified heq
        cases heq
        exact ⟨_, 0, rfl, rfl, fun _ => nofun⟩
      | parks hclosed =>
        intro handle notified heq
        obtain ⟨n, calls, hcreated, hcalls, -⟩ := hfuture handle notified heq
        refine ⟨n, calls, hcreated, hcalls, ?_⟩
        intro _ a ha
        cases ha
        exact hclosed
      | begin | again | getHandle | setDeadline | opens | wake | expire | close | reclose =>
        exact nofun

-- ════════════════════════════════════════════════════════════════════════
-- Waiting and returning
-- ════════════════════════════════════════════════════════════════════════

/-- A future that is complete stays complete. -/
theorem Inv.ready_step (h : Inv s) (hwakes : lib.Wakes) {l : String × Action M}
    (hstep : RoundBarrier.step s l = some s') {id : String} {handle : ℕ} {notified : lib.Notified}
    (hwaits : (s.drivers id).future? = some (handle, notified))
    (hready : lib.ready (s.notifies handle) notified = true) :
    lib.ready (s'.notifies handle) notified = true := by
  obtain ⟨round, sender, msg, rfl⟩ | ⟨pc, m, hsteps, rfl⟩ := steps_of_step hstep
  · obtain ⟨n, calls, rfl, hcalls, -⟩ := h.futures id handle notified hwaits
    rw [record_notifies]
    by_cases hhandle : handle = (s.entry l.1).1.notify
    · subst hhandle
      have hmore := hwakes n (calls + 1) (Nat.succ_pos calls)
      rw [Function.iterate_succ_apply'] at hmore
      rw [Function.update_self, hcalls]
      exact hmore
    · rw [Function.update_of_ne hhandle]
      exact hready
  · obtain ⟨-, hnotifies, -⟩ := hsteps.frame
    show lib.ready (m.notifies handle) notified = true
    rw [hnotifies]
    exact hready

/-- A driver with a future reads its round off the recorded messages. -/
theorem Inv.opens_eq_none (h : Inv s) {a : Await} {handle : ℕ}
    (hheld : (s.drivers sessionId).handle? = some handle) : s.opens sessionId a = none ↔
      (∀ id, latest s.log sessionId a.round id = none) ∨
        ∃ id ∈ a.expected, latest s.log sessionId a.round id = none := by
  obtain ⟨session, hsession, -⟩ := h.handles sessionId handle hheld
  have hlookup : ∀ id, session.rounds.lookup (a.round, id) =
      latest s.log sessionId a.round id := by
    intro id
    rw [← h.buffers sessionId (by intro hclosed; rw [hclosed] at hheld; cases hheld),
      State.buffered, hsession, Option.bind_some]
  simp only [State.opens, hsession, Option.bind_some, DkgSession.awaitRound_eq_none, hlookup]

theorem Inv.waits (h : Inv s) (hwakes : lib.Wakes) {a : Await} {handle deadline : ℕ}
    {notified : lib.Notified} (hpc : s.drivers sessionId = .parked a handle deadline notified)
    (hidle : lib.ready (s.notifies handle) notified = false) :
    (∀ id, latest s.log sessionId a.round id = none) ∨
      ∃ id ∈ a.expected, latest s.log sessionId a.round id = none := by
  obtain ⟨n, calls, rfl, hcalls, hseen⟩ := h.futures sessionId handle notified (by rw [hpc]; rfl)
  have hzero : calls = 0 := by
    by_contra hne
    rw [hcalls, hwakes n calls (Nat.pos_of_ne_zero hne)] at hidle
    cases hidle
  exact (h.opens_eq_none (by rw [hpc]; rfl)).mp (hseen hzero a (by rw [hpc]; rfl))

/-- What a waiting driver can have missed is nothing when it expects nobody. -/
theorem Inv.noLostWakeup_iff (h : Inv s) (hwakes : lib.Wakes) : NoLostWakeup s ↔
    ∀ sessionId a handle deadline notified,
      s.drivers sessionId = .parked a handle deadline notified →
      lib.ready (s.notifies handle) notified = false → a.expected ≠ [] := by
  constructor
  · intro hno sessionId a handle deadline notified hpc hidle hnobody
    obtain ⟨id, hid, -⟩ := hno sessionId a handle deadline notified hpc hidle
    rw [hnobody] at hid
    cases hid
  · intro hsomebody sessionId a handle deadline notified hpc hidle
    rcases h.waits hwakes hpc hidle with hnone | hmissing
    · obtain ⟨id, hid⟩ :=
        List.exists_mem_of_ne_nil _ (hsomebody sessionId a handle deadline notified hpc hidle)
      exact ⟨id, hid, hnone id⟩
    · exact hmissing

/-- A step from a state without a lost wakeup loses none exactly when it meets the condition. -/
theorem Inv.noLostWakeup_step (h : Inv s) (hwakes : lib.Wakes) (hno : NoLostWakeup s)
    {l : String × Action M} (hstep : RoundBarrier.step s l = some s') :
    NoLostWakeup s' ↔ SomebodyHeard s l := by
  rw [(h.step hstep).noLostWakeup_iff hwakes]
  rw [h.noLostWakeup_iff hwakes] at hno
  constructor
  · intro hsomebody haction a handle deadline notified hpc hnobody
    by_contra hsilent
    rw [not_or, Bool.not_eq_true, not_exists] at hsilent
    have hnone : ∀ id, latest s.log l.1 a.round id = none := by
      intro id
      rw [Option.eq_none_iff_forall_ne_some]
      exact not_exists.mp (hsilent.2 id)
    have hclosed : s.opens l.1 a = none :=
      (h.opens_eq_none (by rw [hpc]; rfl)).mpr (.inl hnone)
    have hparks : RoundBarrier.step s l =
        some (s.setPc l.1 (.parked a handle deadline notified)) := by
      simp only [RoundBarrier.step, hpc, haction, hclosed]
    cases hstep.symm.trans hparks
    exact hsomebody l.1 a handle deadline notified (setPc_self ..) hsilent.1 hnobody
  · intro hheard id a handle deadline notified hpc hidle hnobody
    have hstays : s.drivers id = .parked a handle deadline notified → False := by
      intro hbefore
      cases hready : lib.ready (s.notifies handle) notified with
      | false => exact hno id a handle deadline notified hbefore hready hnobody
      | true =>
        have hafter := h.ready_step hwakes hstep (by rw [hbefore]; rfl) hready
        cases hidle.symm.trans hafter
    obtain ⟨round, sender, msg, rfl⟩ | ⟨pc, m, hsteps, rfl⟩ := steps_of_step hstep
    · rw [record_drivers] at hpc
      exact hstays hpc
    · obtain ⟨hdrivers, hnotifies, -⟩ := hsteps.frame
      by_cases hid : id = l.1
      · subst hid
        rw [setPc_self] at hpc
        subst hpc
        generalize hbefore : s.drivers l.1 = pc₀ at hsteps
        generalize haction : l.2 = action at hsteps
        cases hsteps with
        | parks hclosed =>
          rcases hheard haction a handle deadline notified hbefore hnobody with hready | hsome
          · cases hidle.symm.trans hready
          · -- a message of the round opens the barrier
            obtain ⟨sender, msg, hmsg⟩ := hsome
            rw [h.opens_eq_none (by rw [hbefore]; rfl), hnobody] at hclosed
            rcases hclosed with hnone | ⟨_, hmem, -⟩
            · cases (hnone sender).symm.trans hmsg
            · cases hmem
      · rw [setPc_of_ne m hid, hdrivers] at hpc
        exact hstays hpc

theorem Inv.returnsLatest (h : Inv s) : ReturnsLatest s := by
  intro l s' id a msgs hstep hpc
  obtain ⟨round, sender, msg, rfl⟩ | ⟨pc, m, hsteps, rfl⟩ := steps_of_step hstep
  · rw [record_drivers] at hpc
    exact .inl hpc
  · by_cases hid : id = l.1
    · subst hid
      rw [setPc_self] at hpc
      subst hpc
      generalize hbefore : s.drivers l.1 = pc₀ at hsteps
      generalize l.2 = action at hsteps
      cases hsteps with
      | opens hopens =>
        obtain ⟨session, hsession, hround⟩ := Option.bind_eq_some_iff.mp hopens
        obtain ⟨-, hall, rfl⟩ := DkgSession.awaitRound_eq_some.mp hround
        have hlookup : ∀ sender, session.rounds.lookup (a.round, sender) =
            latest s.log l.1 a.round sender := by
          intro sender
          rw [← h.buffers l.1 (by rw [hbefore]; nofun), State.buffered, hsession,
            Option.bind_some]
        refine .inr ⟨?_, ?_⟩
        · intro sender msg
          rw [DkgSession.mem_roundMessages, hlookup]
        · intro sender hsender
          obtain ⟨msg, hmsg⟩ := hall sender hsender
          exact ⟨msg, (hlookup sender).symm.trans hmsg⟩
    · rw [setPc_of_ne m hid, hsteps.frame.1] at hpc
      exact .inl hpc

end

/-- In every run, whatever is recorded when: no wakeup is lost in any state of the run exactly when
    no driver that expects nobody goes to wait for a round without messages; and whenever
    `await_round` returns `Ok` it returns the latest messages recorded before. -/
theorem no_lost_wakeup_iff (hwakes : lib.Wakes) (labels : List (String × Action M))
    (s : State lib M) (hrun : exec step (State.init lib M) labels = some s) :
    ((∀ pre m, pre <+: labels → exec step (State.init lib M) pre = some m → NoLostWakeup m) ↔
      Meets step SomebodyHeard (State.init lib M) labels) ∧ ReturnsLatest s := by
  have hinit : NoLostWakeup (State.init lib M) := nofun
  refine ⟨?_, ?_⟩
  · rw [forall_prefix_iff, and_iff_right hinit]
    refine meets_iff_of_invariant (I := fun s => Inv s ∧ NoLostWakeup s) ?_ ?_ ⟨inv_init, hinit⟩
      hrun
    · rintro s l s' ⟨hinv, hno⟩ hheard hstep
      exact ⟨hinv.step hstep, (hinv.noLostWakeup_step hwakes hno hstep).mpr hheard⟩
    · rintro s l s' ⟨hinv, hno⟩ hstep
      rw [← hinv.noLostWakeup_step hwakes hno hstep]
      simp only [hstep, Option.some.injEq, forall_eq']
  · have hinv : Inv s := exec_invariant (fun s l s' h => h.step) inv_init hrun
    exact hinv.returnsLatest

/-- Counts the calls of `notify_waiters`; a future keeps the count at its creation. -/
def countingLib : NotifyLib where
  Notify := ℕ
  Notified := ℕ
  new := 0
  notified := id
  notifyWaiters := Nat.succ
  ready n notified := decide (n ≠ notified)

theorem countingLib_wakes : countingLib.Wakes := by
  intro (n : ℕ) calls hcalls
  have hne : Nat.succ^[calls] n ≠ n := by
    rw [Nat.succ_iterate]
    omega
  show decide (Nat.succ^[calls] n ≠ n) = true
  exact decide_eq_true hne

/-- Evaluates a condition that is enough for `SomebodyHeard`. -/
def somebodyExpected (s : State lib M) (l : String × Action M) : Bool :=
  match s.drivers l.1 with
  | .registered a _ _ _ => !a.expected.isEmpty
  | _ => true

theorem somebodyExpected_sound (s : State lib M) (l : String × Action M)
    (h : somebodyExpected s l = true) : SomebodyHeard s l := by
  intro _ a handle deadline notified hpc hnobody
  simp [somebodyExpected, hpc, hnobody] at h

/-- Peer 2 has sent its message before the driver starts; it sends another one while the driver
    waits, and peer 3 sends one between the driver's future and its check. -/
def waitRun : List (String × Action ℕ) :=
  [("genesis:app", .record 1 2 20), ("genesis:app", .call ⟨1, [2, 3], 30⟩),
    ("genesis:app", .getHandle), ("genesis:app", .setDeadline 0), ("genesis:app", .register),
    ("genesis:app", .check), ("genesis:app", .record 1 2 21), ("genesis:app", .wake),
    ("genesis:app", .register), ("genesis:app", .record 1 3 30)]

theorem no_lost_wakeup_iff_waitRun : ∃ s s' msgs,
    exec step (State.init countingLib ℕ) waitRun = some s ∧
      step s ("genesis:app", .check) = some s' ∧
      s'.drivers "genesis:app" = .returned ⟨1, [2, 3], 30⟩ (.ok msgs) ∧ (2, 21) ∈ msgs ∧
      ∀ pre m, pre <+: waitRun → exec step (State.init countingLib ℕ) pre = some m →
        NoLostWakeup m := by
  obtain ⟨s, s', msgs, hrun, hcheck, hstep, hbefore, hafter, hlatest⟩ : ∃ s s' msgs,
      exec step (State.init countingLib ℕ) waitRun = some s ∧
      check step somebodyExpected (State.init countingLib ℕ) waitRun = true ∧
      step s ("genesis:app", .check) = some s' ∧
      s.drivers "genesis:app" = .registered ⟨1, [2, 3], 30⟩ 0 30 (2 : ℕ) ∧
      s'.drivers "genesis:app" = .returned ⟨1, [2, 3], 30⟩ (.ok msgs) ∧
      latest s.log "genesis:app" 1 2 = some 21 :=
    ⟨_, _, _, rfl, rfl, rfl, rfl, rfl, rfl⟩
  obtain ⟨hiff, hreturns⟩ := no_lost_wakeup_iff countingLib_wakes waitRun s hrun
  refine ⟨s, s', msgs, hrun, hstep, hafter, ?_,
    hiff.mpr (meets_of_check somebodyExpected_sound hcheck)⟩
  rcases hreturns _ s' _ _ msgs hstep hafter with hsame | ⟨hmsgs, -⟩
  · cases hbefore.symm.trans hsame
  · exact (hmsgs 2 21).mpr hlatest

/-- A driver that expects nobody waits for a notification, with every expected message there, until
    its deadline. -/
theorem nobody_expected_waits : ∃ s notified s' e,
    exec step (State.init countingLib ℕ)
      [("genesis:app", .call ⟨1, [], 30⟩), ("genesis:app", .getHandle),
        ("genesis:app", .setDeadline 0), ("genesis:app", .register), ("genesis:app", .check)] =
        some s ∧
      s.drivers "genesis:app" = .parked ⟨1, [], 30⟩ 0 30 notified ∧
      countingLib.ready (s.notifies 0) notified = false ∧ ¬ NoLostWakeup s ∧
      step s ("genesis:app", .expire 30) = some s' ∧
      s'.drivers "genesis:app" = .returned ⟨1, [], 30⟩ (.error e) := by
  obtain ⟨s, notified, s', e, hrun, hpc, hidle, hstep, hafter⟩ : ∃ s notified s' e,
      exec step (State.init countingLib ℕ)
        [("genesis:app", .call ⟨1, [], 30⟩), ("genesis:app", .getHandle),
          ("genesis:app", .setDeadline 0), ("genesis:app", .register), ("genesis:app", .check)] =
        some s ∧
      s.drivers "genesis:app" = .parked ⟨1, [], 30⟩ 0 30 notified ∧
      countingLib.ready (s.notifies 0) notified = false ∧
      step s ("genesis:app", .expire 30) = some s' ∧
      s'.drivers "genesis:app" = .returned ⟨1, [], 30⟩ (.error e) :=
    ⟨_, _, _, _, rfl, rfl, rfl, rfl, rfl⟩
  refine ⟨s, notified, s', e, hrun, hpc, hidle, ?_, hstep, hafter⟩
  intro hno
  obtain ⟨id, hid, -⟩ := hno _ _ _ _ _ hpc hidle
  cases hid

end KmsCluster.RoundBarrier
