import KmsCluster.Lib.AssocMap
import KmsCluster.Lib.Runs
import KmsCluster.Server

/-!
# Attested admission

Model of `Verifier::require_verified` (`src/verifier.rs`). Calls interleave at their await
points: a step of a call runs from one await to the next, and each `Instant::now()` or
`elapsed()` in it is a clock reading that the step's label gives. Instants and durations are
nanoseconds.

## Main results

- `steps_of_step`: what one step can do to the calls, the cache and the clock.
- `settle_positive`: where a positive cache entry can come from.
- `admissions_backed`: every admission rests on a recent positive verdict.
-/

namespace KmsCluster.Verifier

open Runs

def secs (n : ℕ) : ℕ := n * 1000000000

def positiveRefresh : ℕ := secs 3600

def negativeTtl : ℕ := secs 30

def scanLagPoll : ℕ := secs 3

def scanLagDamp : ℕ := secs 3

def maxVerdictStaleness : ℕ := secs (24 * 3600)

def notRegistered : String := "not registered on-chain per verifier"

structure CacheEntry where
  verified : Bool
  /-- For a refusal: what a caller is told while it is answered from cache. -/
  refusal : String
  /-- For a refusal: how long it is answered from cache. -/
  damp : ℕ
  /-- Damping stamp. -/
  stamp : ℕ
  /-- Last successful positive confirmation. -/
  confirmedAt : ℕ

abbrev Key := String × Address

abbrev Cache := AList (fun _ : Key => CacheEntry)

inductive Answer where
  | verdict (verified : Bool) (reason : String)
  | unknown

/-- The outcome metrics of a call. -/
inductive Counter where
  | allowed
  | denied
  | staleServed
  | unavailableRefused
  | scanBehind
  deriving DecidableEq

/-- `cached_decision`. `t₁` is the reading of `at.elapsed()`, `t₂` the later one of
    `confirmed_at.elapsed()`. -/
def cachedDecision (entry : Option CacheEntry) (t₁ t₂ : ℕ) :
    Option (Except String Unit × Counter) :=
  match entry with
  | none => none
  | some e =>
    if e.verified ∧ t₁ - e.stamp < positiveRefresh ∧ t₂ - e.confirmedAt < maxVerdictStaleness then
      some (.ok (), .allowed)
    else if !e.verified ∧ t₁ - e.stamp < e.damp then some (.error e.refusal, .denied)
    else none

/-- A positive that may still be served at `t`. -/
def CacheEntry.stalePositive (e : CacheEntry) (t : ℕ) : Bool :=
  e.verified && decide (t - e.confirmedAt < maxVerdictStaleness)

def hasStalePositive (cache : Cache) (key : Key) (t : ℕ) : Bool :=
  (cache.lookup key).any (·.stalePositive t)

/-- The `while` condition of the poll loop, read at `t`. -/
def pollAgain (outcome : Except String Answer) (t deadline : ℕ) : Bool :=
  match outcome with
  | .ok (.verdict _ _) => false
  | _ => decide (t + scanLagPoll ≤ deadline)

/-- Drop the entries that are past every window, once there are too many. -/
def compact (cache : Cache) (readings : Key → ℕ) : Cache :=
  if 4096 < cache.entries.length then
    AssocMap.retain (fun k e => decide (readings k - e.stamp < maxVerdictStaleness)) cache
  else cache

def refused (refusal : String) (damp now : ℕ) : CacheEntry := ⟨false, refusal, damp, now, now⟩

/-- `restamp_stale`: move the damping stamp of a still usable positive. -/
def restampStale (cache : Cache) (key : Key) (now t : ℕ) : Option Cache :=
  match cache.lookup key with
  | some e =>
    if e.stalePositive t then some (AList.insert key { e with stamp := now } cache) else none
  | none => none

structure Settlement where
  cache : Cache
  result : Except String Unit
  counter : Counter

/-- What the call does under the cache's write lock. `now` was read before the lock was taken,
    `readings` and `t` under it. -/
def settle (cache : Cache) (key : Key) (outcome : Except String Answer) (now : ℕ)
    (readings : Key → ℕ) (t : ℕ) : Settlement :=
  let cache := compact cache readings
  match outcome with
  | .ok (.verdict true _) =>
    ⟨AList.insert key ⟨true, "", 0, now, now⟩ cache, .ok (), .allowed⟩
  | .ok (.verdict false reason) =>
    ⟨AList.insert key
        (refused ("attestation not verified (recently checked): " ++ reason) negativeTtl now) cache,
      .error ("attestation not verified: " ++ reason), .denied⟩
  | .ok .unknown =>
    match restampStale cache key now t with
    | some cache => ⟨cache, .ok (), .staleServed⟩
    | none =>
      let refusal := "attestation not verified: " ++ notRegistered
      ⟨AList.insert key (refused refusal scanLagDamp now) cache, .error refusal, .scanBehind⟩
  | .error _ =>
    match restampStale cache key now t with
    | some cache => ⟨cache, .ok (), .staleServed⟩
    | none =>
      ⟨AList.insert key
          (refused "attestation not verified (recently checked): verifier unreachable"
            negativeTtl now) cache,
        .error "attestation verifier unreachable and this signer has no fresh-enough verdict",
        .unavailableRefused⟩

-- ════════════════════════════════════════════════════════════════════════
-- Calls and their steps
-- ════════════════════════════════════════════════════════════════════════

/-- Where a call stands between two awaits. `lock` is its key lock, by identity. -/
inductive Pc where
  | entered
  | missed
  | queued (lock : ℕ)
  | locked (lock : ℕ)
  | fetching (lock : ℕ)
  | fetched (lock : ℕ) (outcome : Except String Answer)
  | polling (lock : ℕ) (outcome : Except String Answer) (deadline : ℕ)
  | sleeping (lock : ℕ) (wake deadline : ℕ)
  | refetching (lock : ℕ) (deadline : ℕ)
  | asked (lock : ℕ) (outcome : Except String Answer)
  | settling (lock : ℕ) (outcome : Except String Answer) (now : ℕ)
  | settled (lock : ℕ) (result : Except String Unit)
  | returned (result : Except String Unit)
  | dropped

structure Call where
  key : Key
  scanLagWait : ℕ
  pc : Pc

/-- What the log keeps of a run, for the properties only. -/
inductive Event where
  /-- Scan answered the call `id` for `key`. -/
  | answered (id : ℕ) (key : Key) (outcome : Except String Answer)
  /-- The verdict of the call `id` was recorded in the cache. -/
  | recorded (id : ℕ) (key : Key) (verified : Bool) (confirmedAt : ℕ)
  /-- The call `id` decided `Ok(())` on the clock reading `t`. -/
  | admitted (id : ℕ) (key : Key) (t : ℕ)

structure State where
  cache : Cache
  fetchLocks : AList (fun _ : Key => ℕ)
  nextLock : ℕ
  /-- The call that holds a key lock. -/
  holder : ℕ → Option ℕ
  counters : Counter → ℕ
  clock : ℕ
  calls : ℕ → Option Call
  log : List Event

def State.init : State where
  cache := ∅
  fetchLocks := ∅
  nextLock := 0
  holder := fun _ => none
  counters := fun _ => 0
  clock := 0
  calls := fun _ => none
  log := []

/-- One step of a call, or its start. -/
inductive Action where
  | call (key : Key) (scanLagWait : ℕ)
  | enter (t₁ t₂ : ℕ)
  | getLock
  | acquire
  | recheck (t₁ t₂ : ℕ)
  | answer (outcome : Except String Answer)
  | fallBack (t₁ t₂ : ℕ)
  | poll (t : ℕ)
  | wake (t : ℕ)
  | stamp (t : ℕ)
  | settle (readings : Key → ℕ) (t : ℕ)
  | finish
  | drop

def State.setPc (s : State) (id : ℕ) (c : Call) (pc : Pc) : State :=
  { s with calls := Function.update s.calls id (some { c with pc := pc }) }

def State.at (s : State) (t : ℕ) : State := { s with clock := t }

def State.inc (s : State) (counter : Counter) : State :=
  { s with counters := Function.update s.counters counter (s.counters counter + 1) }

def State.note (s : State) (event : Event) : State := { s with log := event :: s.log }

/-- Note an admission when the result is `Ok(())`. -/
def State.noteResult (s : State) (id : ℕ) (key : Key) (result : Except String Unit) (t : ℕ) :
    State :=
  match result with
  | .ok () => s.note (.admitted id key t)
  | .error _ => s

/-- Note the verdict that a write section records. -/
def State.noteVerdict (s : State) (id : ℕ) (key : Key) (outcome : Except String Answer)
    (now : ℕ) : State :=
  match outcome with
  | .ok (.verdict verified _) => s.note (.recorded id key verified now)
  | _ => s

def State.release (s : State) (lock : ℕ) : State :=
  { s with holder := Function.update s.holder lock none }

/-- The clock reading a decision of the write section is taken on. -/
def decisionTime (outcome : Except String Answer) (now t : ℕ) : ℕ :=
  match outcome with
  | .ok (.verdict _ _) => now
  | _ => t

/-- The lock a call holds. -/
def Pc.lock? : Pc → Option ℕ
  | .locked lock | .fetching lock | .fetched lock _ | .polling lock _ _ | .sleeping lock _ _
  | .refetching lock _ | .asked lock _ | .settling lock _ _ | .settled lock _ => some lock
  | _ => none

/-- `locks.entry(key).or_default().clone()`. -/
def State.lockFor (s : State) (key : Key) : ℕ × State :=
  match s.fetchLocks.lookup key with
  | some lock => (lock, s)
  | none =>
    (s.nextLock, { s with
      fetchLocks := AList.insert key s.nextLock s.fetchLocks
      nextLock := s.nextLock + 1 })

def State.applySettlement (s : State) (id : ℕ) (c : Call) (lock : ℕ)
    (outcome : Except String Answer) (now t : ℕ) (r : Settlement) : State :=
  (((({ s with cache := r.cache }.at t).inc r.counter).noteVerdict id c.key outcome now).noteResult
    id c.key r.result (decisionTime outcome now t)).setPc id c (.settled lock r.result)

/-- One step of a call that is under way. -/
def callStep (s : State) (id : ℕ) (c : Call) : Pc → Action → Option State
  | .entered, .enter t₁ t₂ =>
    if s.clock ≤ t₁ ∧ t₁ ≤ t₂ then
      match cachedDecision (s.cache.lookup c.key) t₁ t₂ with
      | some (result, counter) =>
        some ((((s.at t₂).inc counter).noteResult id c.key result t₂).setPc id c (.returned result))
      | none => some ((s.at t₂).setPc id c .missed)
    else none
  | .missed, .getLock =>
    let (lock, s) := s.lockFor c.key
    some (s.setPc id c (.queued lock))
  | .queued lock, .acquire =>
    if s.holder lock = none then
      some ({ s with holder := Function.update s.holder lock (some id) }.setPc id c (.locked lock))
    else none
  | .locked lock, .recheck t₁ t₂ =>
    if s.clock ≤ t₁ ∧ t₁ ≤ t₂ then
      match cachedDecision (s.cache.lookup c.key) t₁ t₂ with
      | some (result, counter) =>
        some (((((s.at t₂).inc counter).noteResult id c.key result t₂).release lock).setPc id c
          (.returned result))
      | none => some ((s.at t₂).setPc id c (.fetching lock))
    else none
  | .fetching lock, .answer outcome =>
    some ((s.note (.answered id c.key outcome)).setPc id c (.fetched lock outcome))
  | .fetched lock outcome, .fallBack t₁ t₂ =>
    if s.clock ≤ t₁ ∧ t₁ ≤ t₂ then
      if hasStalePositive s.cache c.key t₁ then some ((s.at t₂).setPc id c (.asked lock outcome))
      else some ((s.at t₂).setPc id c (.polling lock outcome (t₂ + c.scanLagWait)))
    else none
  | .polling lock outcome deadline, .poll t =>
    if s.clock ≤ t then
      if pollAgain outcome t deadline then
        some ((s.at t).setPc id c (.sleeping lock (t + scanLagPoll) deadline))
      else some ((s.at t).setPc id c (.asked lock outcome))
    else none
  | .sleeping lock wake deadline, .wake t =>
    if s.clock ≤ t ∧ wake ≤ t then some ((s.at t).setPc id c (.refetching lock deadline)) else none
  | .refetching lock deadline, .answer outcome =>
    some ((s.note (.answered id c.key outcome)).setPc id c (.polling lock outcome deadline))
  | .asked lock outcome, .stamp t =>
    if s.clock ≤ t then some ((s.at t).setPc id c (.settling lock outcome t)) else none
  | .settling lock outcome now, .settle readings t =>
    if s.clock ≤ t ∧ ∀ e ∈ s.cache.entries, s.clock ≤ readings e.1 ∧ readings e.1 ≤ t then
      some (s.applySettlement id c lock outcome now t (settle s.cache c.key outcome now readings t))
    else none
  | .settled lock result, .finish =>
    some (({ s with fetchLocks := AList.erase c.key s.fetchLocks }.release lock).setPc id c
      (.returned result))
  | pc, .drop =>
    match pc with
    | .returned _ | .dropped => none
    | _ => some ((pc.lock?.elim s s.release).setPc id c .dropped)
  | _, _ => none

def step (s : State) (l : ℕ × Action) : Option State :=
  match s.calls l.1, l.2 with
  | none, .call key wait => some (s.setPc l.1 ⟨key, wait, .entered⟩ .entered)
  | some c, action => callStep s l.1 c c.pc action
  | none, _ => none

-- ════════════════════════════════════════════════════════════════════════
-- What backs an admission
-- ════════════════════════════════════════════════════════════════════════

/-- A positive verdict for `key` was recorded with the stamp `c`, for a call that scan had told
    `verified: true` about that key, and no negative verdict for it was recorded since. -/
def Backed (log : List Event) (key : Key) (c : ℕ) : Prop :=
  ∃ later earlier id, log = later ++ .recorded id key true c :: earlier ∧
    (∀ id' c', .recorded id' key false c' ∉ later) ∧
    ∃ reason, .answered id key (.ok (.verdict true reason)) ∈ earlier

/-- Every admission was backed, at the moment of its decision, by a positive less than
    `maxVerdictStaleness` old. -/
def AdmissionsBacked (log : List Event) : Prop :=
  ∀ later earlier id key t, log = later ++ .admitted id key t :: earlier →
    ∃ c, Backed earlier key c ∧ c ≤ t ∧ t < c + maxVerdictStaleness

theorem Backed.cons {log : List Event} {key : Key} {c : ℕ} (h : Backed log key c) {event : Event}
    (hevent : ∀ id' c', event ≠ .recorded id' key false c') : Backed (event :: log) key c := by
  obtain ⟨later, earlier, id, hlog, hlater, hanswer⟩ := h
  refine ⟨event :: later, earlier, id, by rw [hlog, List.cons_append], ?_, hanswer⟩
  intro id' c' hmem
  rcases List.mem_cons.mp hmem with heq | hmem
  · exact hevent id' c' heq.symm
  · exact hlater id' c' hmem

theorem AdmissionsBacked.cons {log : List Event} (h : AdmissionsBacked log) {event : Event}
    (hevent : ∀ id key t, event = .admitted id key t →
      ∃ c, Backed log key c ∧ c ≤ t ∧ t < c + maxVerdictStaleness) :
    AdmissionsBacked (event :: log) := by
  intro later earlier id key t hlog
  cases later with
  | nil =>
    rw [List.nil_append, List.cons.injEq] at hlog
    rw [← hlog.2]
    exact hevent id key t hlog.1
  | cons first later =>
    rw [List.cons_append, List.cons.injEq] at hlog
    exact h later earlier id key t hlog.2

/-- The answer a call is about to act on. -/
def Pc.outcome? : Pc → Option (Except String Answer)
  | .fetched _ outcome | .polling _ outcome _ | .asked _ outcome | .settling _ outcome _ =>
    some outcome
  | _ => none

def Pc.now? : Pc → Option ℕ
  | .settling _ _ now => some now
  | _ => none

def Pc.result? : Pc → Option (Except String Unit)
  | .settled _ result | .returned result => some result
  | _ => none

structure CallOk (log : List Event) (clock id : ℕ) (c : Call) : Prop where
  answered : ∀ outcome, c.pc.outcome? = some outcome → .answered id c.key outcome ∈ log
  now_le : ∀ now, c.pc.now? = some now → now ≤ clock
  admitted : c.pc.result? = some (.ok ()) → ∃ t, .admitted id c.key t ∈ log

def CacheOk (log : List Event) (clock : ℕ) (cache : Cache) : Prop :=
  ∀ key e, cache.lookup key = some e → e.verified = true →
    Backed log key e.confirmedAt ∧ e.confirmedAt ≤ clock

structure Inv (s : State) : Prop where
  cache : CacheOk s.log s.clock s.cache
  calls : ∀ id c, s.calls id = some c → CallOk s.log s.clock id c
  admissions : AdmissionsBacked s.log

theorem inv_init : Inv State.init := by
  refine ⟨?_, ?_, ?_⟩
  · intro key e he
    cases he
  · intro id c hc
    cases hc
  · intro later earlier id key t hlog
    simp [State.init] at hlog

theorem CallOk.mono {log log' : List Event} {clock clock' id : ℕ} {c : Call}
    (h : CallOk log clock id c) (hlog : log ⊆ log') (hclock : clock ≤ clock') :
    CallOk log' clock' id c := by
  refine ⟨fun o ho => hlog (h.answered o ho), fun n hn => le_trans (h.now_le n hn) hclock, ?_⟩
  intro hok
  obtain ⟨t, ht⟩ := h.admitted hok
  exact ⟨t, hlog ht⟩

/-- A step changes one call; the rest of the invariant is about the cache and the log. -/
theorem Inv.update {s s' : State} (h : Inv s) {id : ℕ} {c : Call}
    (hcalls : s'.calls = Function.update s.calls id (some c)) (hlog : s.log ⊆ s'.log)
    (hclock : s.clock ≤ s'.clock) (hcache : CacheOk s'.log s'.clock s'.cache)
    (hcall : CallOk s'.log s'.clock id c) (hadmissions : AdmissionsBacked s'.log) : Inv s' := by
  refine ⟨hcache, ?_, hadmissions⟩
  intro id' c' hc'
  rw [hcalls] at hc'
  by_cases hid : id' = id
  · subst hid
    rw [Function.update_self] at hc'
    cases hc'
    exact hcall
  · rw [Function.update_of_ne hid] at hc'
    exact (h.calls id' c' hc').mono hlog hclock

/-- A step that leaves the cache and the log alone. -/
theorem Inv.quiet {s s' : State} (h : Inv s) {id : ℕ} {c : Call}
    (hcalls : s'.calls = Function.update s.calls id (some c)) (hlog : s'.log = s.log)
    (hclock : s.clock ≤ s'.clock) (hcache : s'.cache = s.cache)
    (hcall : CallOk s.log s'.clock id c) : Inv s' := by
  refine h.update hcalls (by rw [hlog]; exact List.Subset.refl _) hclock ?_
    (by rwa [hlog]) (by rw [hlog]; exact h.admissions)
  intro key e he hverified
  rw [hcache] at he
  rw [hlog]
  exact ⟨(h.cache key e he hverified).1, le_trans (h.cache key e he hverified).2 hclock⟩

/-- A call that has neither an answer nor a result in hand. -/
theorem CallOk.of_blank {log : List Event} {clock id : ℕ} {c : Call}
    (houtcome : c.pc.outcome? = none) (hnow : c.pc.now? = none) (hresult : c.pc.result? = none) :
    CallOk log clock id c := by
  refine ⟨?_, ?_, ?_⟩
  · intro outcome ho
    rw [houtcome] at ho
    cases ho
  · intro now hn
    rw [hnow] at hn
    cases hn
  · intro hok
    rw [hresult] at hok
    cases hok

/-- An answer comes in. -/
theorem Inv.receive {s : State} (h : Inv s) {id : ℕ} {c : Call} {outcome : Except String Answer}
    {pc : Pc} (houtcome : pc.outcome? = some outcome) (hnow : pc.now? = none)
    (hresult : pc.result? = none) :
    Inv ((s.note (.answered id c.key outcome)).setPc id c pc) := by
  refine h.update rfl (List.subset_cons_self _ _) le_rfl ?_ ?_ ?_
  · intro key e he hverified
    obtain ⟨hbacked, hle⟩ := h.cache key e he hverified
    exact ⟨hbacked.cons (fun id' c' => by simp), hle⟩
  · refine ⟨?_, ?_, ?_⟩
    · intro o ho
      simp only [houtcome, Option.some.injEq] at ho
      subst ho
      exact List.mem_cons_self
    · intro now hn
      simp [hnow] at hn
    · intro hok
      simp [hresult] at hok
  · exact h.admissions.cons (by simp)

theorem cachedDecision_ok {entry : Option CacheEntry} {t₁ t₂ : ℕ} {counter : Counter}
    (h : cachedDecision entry t₁ t₂ = some (.ok (), counter)) :
    ∃ e, entry = some e ∧ e.verified = true ∧ t₂ - e.confirmedAt < maxVerdictStaleness := by
  cases entry with
  | none => cases h
  | some e =>
    simp only [cachedDecision] at h
    split at h
    · next hfresh => exact ⟨e, rfl, hfresh.1, hfresh.2.2⟩
    · split at h
      · cases h
      · cases h

/-- A decision from the cache at `t`, with the result noted. -/
theorem Inv.decide {s s' : State} (h : Inv s) {id : ℕ} {c : Call} {t₁ t₂ : ℕ}
    {result : Except String Unit} {counter : Counter}
    (hdecision : cachedDecision (s.cache.lookup c.key) t₁ t₂ = some (result, counter))
    (hclock : s.clock ≤ t₂) (hs' : s'.calls = Function.update s.calls id
      (some { c with pc := .returned result })) (hcache : s'.cache = s.cache)
    (hclock' : s'.clock = t₂) (hlog : s'.log = (s.noteResult id c.key result t₂).log) :
    Inv s' := by
  cases result with
  | error e =>
    refine h.quiet hs' hlog (by omega) hcache ?_
    exact ⟨by simp [Pc.outcome?], by simp [Pc.now?], by simp [Pc.result?]⟩
  | ok u =>
    replace hlog : s'.log = .admitted id c.key t₂ :: s.log := hlog
    obtain ⟨e, he, hverified, hfresh⟩ := cachedDecision_ok hdecision
    obtain ⟨hbacked, hle⟩ := h.cache c.key e he hverified
    refine h.update hs' (by rw [hlog]; exact List.subset_cons_self _ _) (by omega) ?_ ?_ ?_
    · intro key e' he' hverified'
      rw [hcache] at he'
      rw [hlog]
      obtain ⟨hbacked', hle'⟩ := h.cache key e' he' hverified'
      exact ⟨hbacked'.cons (fun id' c' => by simp), by omega⟩
    · refine ⟨by simp [Pc.outcome?], by simp [Pc.now?], fun _ => ⟨t₂, ?_⟩⟩
      rw [hlog]
      exact List.mem_cons_self
    · rw [hlog]
      refine h.admissions.cons ?_
      intro id' key' t' heq
      cases heq
      exact ⟨e.confirmedAt, hbacked, by omega, by omega⟩

theorem lookup_compact {cache : Cache} {readings : Key → ℕ} {key : Key} {e : CacheEntry}
    (h : (compact cache readings).lookup key = some e) : cache.lookup key = some e := by
  unfold compact at h
  split at h
  · exact (AssocMap.lookup_retain.mp h).1
  · exact h

/-- Compaction keeps every entry that is not past every window. -/
theorem lookup_compact_of_fresh {cache : Cache} {readings : Key → ℕ} {key : Key} {e : CacheEntry}
    (he : cache.lookup key = some e) (hfresh : readings key - e.stamp < maxVerdictStaleness) :
    (compact cache readings).lookup key = some e := by
  unfold compact
  split
  · exact AssocMap.lookup_retain.mpr ⟨he, decide_eq_true hfresh⟩
  · exact he

theorem restampStale_some {cache cache' : Cache} {key : Key} {now t : ℕ}
    (h : restampStale cache key now t = some cache') :
    ∃ e, cache.lookup key = some e ∧ e.verified = true ∧
      t - e.confirmedAt < maxVerdictStaleness ∧
      cache' = AList.insert key { e with stamp := now } cache := by
  unfold restampStale at h
  split at h
  · next e he =>
    split at h
    · next hstale =>
      simp only [CacheEntry.stalePositive, Bool.and_eq_true, decide_eq_true_eq] at hstale
      exact ⟨e, he, hstale.1, hstale.2, (Option.some.inj h).symm⟩
    · cases h
  · cases h

/-- The write section does not touch the other keys, apart from compaction. -/
theorem settle_other {cache : Cache} {key k : Key} {outcome : Except String Answer} {now t : ℕ}
    {readings : Key → ℕ} (hk : k ≠ key) :
    (settle cache key outcome now readings t).cache.lookup k =
      (compact cache readings).lookup k := by
  match outcome with
  | .ok (.verdict true reason) => exact AList.lookup_insert_ne hk
  | .ok (.verdict false reason) => exact AList.lookup_insert_ne hk
  | .ok .unknown =>
    simp only [settle]
    split
    · next hrestamp =>
      obtain ⟨e, -, -, -, rfl⟩ := restampStale_some hrestamp
      exact AList.lookup_insert_ne hk
    · exact AList.lookup_insert_ne hk
  | .error _ =>
    simp only [settle]
    split
    · next hrestamp =>
      obtain ⟨e, -, -, -, rfl⟩ := restampStale_some hrestamp
      exact AList.lookup_insert_ne hk
    · exact AList.lookup_insert_ne hk

/-- A positive entry after a write section that recorded no fresh verdict for its key was there
    before, with the same confirmation. -/
def Kept (cache : Cache) (key : Key) (c : ℕ) : Prop :=
  ∃ e, cache.lookup key = some e ∧ e.verified = true ∧ e.confirmedAt = c

theorem kept_of_insert_refused {cache : Cache} {readings : Key → ℕ} {key k : Key}
    {refusal : String} {damp now : ℕ} {e : CacheEntry}
    (h : (AList.insert key (refused refusal damp now) (compact cache readings)).lookup k = some e)
    (hverified : e.verified = true) : k ≠ key ∧ Kept cache k e.confirmedAt := by
  by_cases hk : k = key
  · subst hk
    rw [AList.lookup_insert] at h
    cases h
    cases hverified
  · rw [AList.lookup_insert_ne hk] at h
    exact ⟨hk, e, lookup_compact h, hverified, rfl⟩

theorem kept_of_restamp {cache cache' : Cache} {readings : Key → ℕ} {key k : Key} {now t : ℕ}
    {e : CacheEntry} (hrestamp : restampStale (compact cache readings) key now t = some cache')
    (h : cache'.lookup k = some e) (hverified : e.verified = true) :
    Kept cache k e.confirmedAt := by
  obtain ⟨e₀, he₀, hv₀, -, rfl⟩ := restampStale_some hrestamp
  by_cases hk : k = key
  · subst hk
    rw [AList.lookup_insert] at h
    cases h
    exact ⟨e₀, lookup_compact he₀, hv₀, rfl⟩
  · rw [AList.lookup_insert_ne hk] at h
    exact ⟨e, lookup_compact h, hverified, rfl⟩

/-- Where a positive entry can come from: the fresh answer, or the cache as it was. -/
theorem settle_positive {cache : Cache} {key k : Key} {outcome : Except String Answer}
    {now t : ℕ} {readings : Key → ℕ} {e : CacheEntry}
    (h : (settle cache key outcome now readings t).cache.lookup k = some e)
    (hverified : e.verified = true) :
    (k = key ∧ (∃ reason, outcome = .ok (.verdict true reason)) ∧ e.confirmedAt = now) ∨
      (Kept cache k e.confirmedAt ∧
        ∀ verified reason, outcome = .ok (.verdict verified reason) → k ≠ key) := by
  match outcome with
  | .ok (.verdict true reason) =>
    by_cases hk : k = key
    · subst hk
      simp only [settle, AList.lookup_insert, Option.some.injEq] at h
      subst h
      exact .inl ⟨rfl, ⟨reason, rfl⟩, rfl⟩
    · simp only [settle, AList.lookup_insert_ne hk] at h
      exact .inr ⟨⟨e, lookup_compact h, hverified, rfl⟩, fun _ _ _ => hk⟩
  | .ok (.verdict false reason) =>
    obtain ⟨hk, hkept⟩ := kept_of_insert_refused h hverified
    exact .inr ⟨hkept, fun _ _ _ => hk⟩
  | .ok .unknown =>
    refine .inr ⟨?_, nofun⟩
    simp only [settle] at h
    split at h
    · next hrestamp => exact kept_of_restamp hrestamp h hverified
    · exact (kept_of_insert_refused h hverified).2
  | .error _ =>
    refine .inr ⟨?_, nofun⟩
    simp only [settle] at h
    split at h
    · next hrestamp => exact kept_of_restamp hrestamp h hverified
    · exact (kept_of_insert_refused h hverified).2

/-- The write section admits on a fresh positive, or on a usable one when scan cannot answer. -/
theorem settle_ok {cache : Cache} {key : Key} {outcome : Except String Answer} {now t : ℕ}
    {readings : Key → ℕ} (h : (settle cache key outcome now readings t).result = .ok ()) :
    (∃ reason, outcome = .ok (.verdict true reason)) ∨
      ((∀ verified reason, outcome ≠ .ok (.verdict verified reason)) ∧
        ∃ e, cache.lookup key = some e ∧ e.verified = true ∧
          t - e.confirmedAt < maxVerdictStaleness) := by
  match outcome with
  | .ok (.verdict true reason) => exact .inl ⟨reason, rfl⟩
  | .ok (.verdict false reason) => cases h
  | .ok .unknown =>
    refine .inr ⟨nofun, ?_⟩
    simp only [settle] at h
    split at h
    · next hrestamp =>
      obtain ⟨e, he, hverified, hfresh, -⟩ := restampStale_some hrestamp
      exact ⟨e, lookup_compact he, hverified, hfresh⟩
    · cases h
  | .error _ =>
    refine .inr ⟨nofun, ?_⟩
    simp only [settle] at h
    split at h
    · next hrestamp =>
      obtain ⟨e, he, hverified, hfresh, -⟩ := restampStale_some hrestamp
      exact ⟨e, lookup_compact he, hverified, hfresh⟩
    · cases h

/-- The verdict a write section notes. -/
def verdictEvents (id : ℕ) (key : Key) (outcome : Except String Answer) (now : ℕ) : List Event :=
  match outcome with
  | .ok (.verdict verified _) => [.recorded id key verified now]
  | _ => []

/-- The admission a write section notes. -/
def resultEvents (id : ℕ) (key : Key) (result : Except String Unit) (t : ℕ) : List Event :=
  match result with
  | .ok () => [.admitted id key t]
  | .error _ => []

theorem noteVerdict_eq (s : State) (id : ℕ) (key : Key) (outcome : Except String Answer)
    (now : ℕ) : s.noteVerdict id key outcome now =
      { s with log := verdictEvents id key outcome now ++ s.log } := by
  match outcome with
  | .ok (.verdict _ _) => rfl
  | .ok .unknown => rfl
  | .error _ => rfl

theorem noteResult_eq (s : State) (id : ℕ) (key : Key) (result : Except String Unit) (t : ℕ) :
    s.noteResult id key result t = { s with log := resultEvents id key result t ++ s.log } := by
  match result with
  | .ok () => rfl
  | .error _ => rfl

/-- What a write section leaves behind, field by field. -/
theorem applySettlement_eq (s : State) (id : ℕ) (c : Call) (lock : ℕ)
    (outcome : Except String Answer) (now t : ℕ) (r : Settlement) :
    s.applySettlement id c lock outcome now t r =
      State.setPc { s with
        cache := r.cache
        clock := t
        counters := Function.update s.counters r.counter (s.counters r.counter + 1)
        log := resultEvents id c.key r.result (decisionTime outcome now t) ++
          (verdictEvents id c.key outcome now ++ s.log) } id c (.settled lock r.result) := by
  rw [State.applySettlement, noteVerdict_eq, noteResult_eq]
  rfl

/-- A positive entry of the new cache is backed in the log with the verdict noted. -/
theorem CacheOk.settle {s : State} (h : Inv s) {id : ℕ} {c : Call}
    {outcome : Except String Answer} {now t : ℕ} {readings : Key → ℕ}
    (hanswer : .answered id c.key outcome ∈ s.log) (hnow : now ≤ s.clock) (ht : s.clock ≤ t) :
    CacheOk (verdictEvents id c.key outcome now ++ s.log) t
      (settle s.cache c.key outcome now readings t).cache := by
  intro key e he hverified
  rcases settle_positive he hverified with ⟨rfl, ⟨reason, rfl⟩, hnow'⟩ | ⟨⟨e₀, he₀, hv₀, hc₀⟩, hne⟩
  · rw [hnow']
    exact ⟨⟨[], s.log, id, rfl, by simp, reason, hanswer⟩, by omega⟩
  · obtain ⟨hbacked, hle⟩ := h.cache key e₀ he₀ hv₀
    rw [hc₀] at hbacked hle
    refine ⟨?_, by omega⟩
    match outcome with
    | .ok (.verdict verified reason) =>
      refine hbacked.cons fun id' c' heq => ?_
      simp only [Event.recorded.injEq] at heq
      exact hne verified reason rfl heq.2.1.symm
    | .ok .unknown => exact hbacked
    | .error _ => exact hbacked

theorem inv_settle {s : State} (h : Inv s) {id : ℕ} {c : Call} {lock now t : ℕ}
    {outcome : Except String Answer} {readings : Key → ℕ} (hid : s.calls id = some c)
    (hpc : c.pc = .settling lock outcome now) (ht : s.clock ≤ t) :
    Inv (s.applySettlement id c lock outcome now t
      (settle s.cache c.key outcome now readings t)) := by
  have hcall := h.calls id c hid
  have hanswer : .answered id c.key outcome ∈ s.log := hcall.answered outcome (by rw [hpc]; rfl)
  have hnow : now ≤ s.clock := hcall.now_le now (by rw [hpc]; rfl)
  have hcache : CacheOk (verdictEvents id c.key outcome now ++ s.log) t
      (settle s.cache c.key outcome now readings t).cache := CacheOk.settle h hanswer hnow ht
  have hverdict : AdmissionsBacked (verdictEvents id c.key outcome now ++ s.log) := by
    match outcome with
    | .ok (.verdict verified reason) => exact h.admissions.cons (by simp)
    | .ok .unknown => exact h.admissions
    | .error _ => exact h.admissions
  generalize hr : settle s.cache c.key outcome now readings t = r at hcache ⊢
  rw [applySettlement_eq]
  refine h.update rfl ?_ ht ?_ ?_ ?_
  · exact fun event hmem => List.mem_append_right _ (List.mem_append_right _ hmem)
  · show CacheOk (resultEvents id c.key r.result (decisionTime outcome now t) ++ _) t r.cache
    cases hresult : r.result with
    | error e => exact hcache
    | ok u =>
      intro key e he hverified
      exact ⟨(hcache key e he hverified).1.cons (fun id' c' => by simp),
        (hcache key e he hverified).2⟩
  · refine ⟨by simp [Pc.outcome?], by simp [Pc.now?], fun hok => ?_⟩
    have hok : r.result = .ok () := Option.some.inj hok
    refine ⟨decisionTime outcome now t, ?_⟩
    show _ ∈ resultEvents id c.key r.result (decisionTime outcome now t) ++ _
    rw [hok]
    exact List.mem_cons_self
  · show AdmissionsBacked (resultEvents id c.key r.result (decisionTime outcome now t) ++ _)
    cases hresult : r.result with
    | error e => exact hverdict
    | ok u =>
      refine hverdict.cons ?_
      intro id' key' t' heq
      cases heq
      rcases settle_ok (hr ▸ hresult) with ⟨reason, rfl⟩ | ⟨hunknown, e, he, hverified, hfresh⟩
      · -- A fresh positive is its own backing.
        refine ⟨now, ⟨[], s.log, id, rfl, by simp, reason, hanswer⟩, le_rfl, ?_⟩
        exact Nat.lt_add_of_pos_right (by decide)
      · obtain ⟨hbacked, hle⟩ := h.cache c.key e he hverified
        match outcome with
        | .ok (.verdict verified reason) => exact absurd rfl (hunknown verified reason)
        | .ok .unknown =>
          simp only [decisionTime]
          exact ⟨e.confirmedAt, hbacked, by omega, by omega⟩
        | .error _ =>
          simp only [decisionTime]
          exact ⟨e.confirmedAt, hbacked, by omega, by omega⟩

/-- The answer a call has in hand stays with it. -/
theorem CallOk.carry {log : List Event} {clock id : ℕ} {c : Call} {outcome : Except String Answer}
    {pc : Pc} (hanswer : .answered id c.key outcome ∈ log) (houtcome : pc.outcome? = some outcome)
    (hnow : ∀ now, pc.now? = some now → now ≤ clock) (hresult : pc.result? = none) :
    CallOk log clock id { c with pc := pc } := by
  refine ⟨?_, hnow, ?_⟩
  · intro o ho
    rw [houtcome] at ho
    cases ho
    exact hanswer
  · intro hok
    rw [hresult] at hok
    cases hok

/-- Everything that one step of a call can do: where the call stands before and after it, and what
    becomes of the rest of the state. -/
inductive CallSteps (s : State) (id : ℕ) (c : Call) : Pc → Action → Pc → State → Prop
  | hit {t₁ t₂ : ℕ} {result : Except String Unit} {counter : Counter}
      (hclock : s.clock ≤ t₁ ∧ t₁ ≤ t₂)
      (hdecision : cachedDecision (s.cache.lookup c.key) t₁ t₂ = some (result, counter)) :
      CallSteps s id c .entered (.enter t₁ t₂) (.returned result)
        { s with
          clock := t₂
          counters := Function.update s.counters counter (s.counters counter + 1)
          log := resultEvents id c.key result t₂ ++ s.log }
  | miss {t₁ t₂ : ℕ} (hclock : s.clock ≤ t₁ ∧ t₁ ≤ t₂)
      (hmiss : cachedDecision (s.cache.lookup c.key) t₁ t₂ = none) :
      CallSteps s id c .entered (.enter t₁ t₂) .missed { s with clock := t₂ }
  | getLock : CallSteps s id c .missed .getLock (.queued (s.lockFor c.key).1) (s.lockFor c.key).2
  | acquire {lock : ℕ} (hfree : s.holder lock = none) :
      CallSteps s id c (.queued lock) .acquire (.locked lock)
        { s with holder := Function.update s.holder lock (some id) }
  | rehit {lock t₁ t₂ : ℕ} {result : Except String Unit} {counter : Counter}
      (hclock : s.clock ≤ t₁ ∧ t₁ ≤ t₂)
      (hdecision : cachedDecision (s.cache.lookup c.key) t₁ t₂ = some (result, counter)) :
      CallSteps s id c (.locked lock) (.recheck t₁ t₂) (.returned result)
        { s with
          clock := t₂
          counters := Function.update s.counters counter (s.counters counter + 1)
          log := resultEvents id c.key result t₂ ++ s.log
          holder := Function.update s.holder lock none }
  | fetch {lock t₁ t₂ : ℕ} (hclock : s.clock ≤ t₁ ∧ t₁ ≤ t₂)
      (hmiss : cachedDecision (s.cache.lookup c.key) t₁ t₂ = none) :
      CallSteps s id c (.locked lock) (.recheck t₁ t₂) (.fetching lock) { s with clock := t₂ }
  | answer {lock : ℕ} {outcome : Except String Answer} :
      CallSteps s id c (.fetching lock) (.answer outcome) (.fetched lock outcome)
        { s with log := .answered id c.key outcome :: s.log }
  | fallBack {lock t₁ t₂ : ℕ} {outcome : Except String Answer} (hclock : s.clock ≤ t₁ ∧ t₁ ≤ t₂)
      (hpositive : hasStalePositive s.cache c.key t₁ = true) :
      CallSteps s id c (.fetched lock outcome) (.fallBack t₁ t₂) (.asked lock outcome)
        { s with clock := t₂ }
  | await {lock t₁ t₂ : ℕ} {outcome : Except String Answer} (hclock : s.clock ≤ t₁ ∧ t₁ ≤ t₂)
      (hnone : hasStalePositive s.cache c.key t₁ = false) :
      CallSteps s id c (.fetched lock outcome) (.fallBack t₁ t₂)
        (.polling lock outcome (t₂ + c.scanLagWait)) { s with clock := t₂ }
  | sleep {lock deadline t : ℕ} {outcome : Except String Answer} (hclock : s.clock ≤ t)
      (hagain : pollAgain outcome t deadline = true) :
      CallSteps s id c (.polling lock outcome deadline) (.poll t)
        (.sleeping lock (t + scanLagPoll) deadline) { s with clock := t }
  | stop {lock deadline t : ℕ} {outcome : Except String Answer} (hclock : s.clock ≤ t)
      (hstop : pollAgain outcome t deadline = false) :
      CallSteps s id c (.polling lock outcome deadline) (.poll t) (.asked lock outcome)
        { s with clock := t }
  | wake {lock wake deadline t : ℕ} (hclock : s.clock ≤ t) (hwake : wake ≤ t) :
      CallSteps s id c (.sleeping lock wake deadline) (.wake t) (.refetching lock deadline)
        { s with clock := t }
  | reanswer {lock deadline : ℕ} {outcome : Except String Answer} :
      CallSteps s id c (.refetching lock deadline) (.answer outcome)
        (.polling lock outcome deadline) { s with log := .answered id c.key outcome :: s.log }
  | stamp {lock t : ℕ} {outcome : Except String Answer} (hclock : s.clock ≤ t) :
      CallSteps s id c (.asked lock outcome) (.stamp t) (.settling lock outcome t)
        { s with clock := t }
  | settle {lock now t : ℕ} {outcome : Except String Answer} {readings : Key → ℕ}
      {r : Settlement} (hclock : s.clock ≤ t)
      (hreadings : ∀ e ∈ s.cache.entries, s.clock ≤ readings e.1 ∧ readings e.1 ≤ t)
      (hr : r = settle s.cache c.key outcome now readings t) :
      CallSteps s id c (.settling lock outcome now) (.settle readings t) (.settled lock r.result)
        { s with
          cache := r.cache
          clock := t
          counters := Function.update s.counters r.counter (s.counters r.counter + 1)
          log := resultEvents id c.key r.result (decisionTime outcome now t) ++
            (verdictEvents id c.key outcome now ++ s.log) }
  | finish {lock : ℕ} {result : Except String Unit} :
      CallSteps s id c (.settled lock result) .finish (.returned result)
        { s with
          fetchLocks := AList.erase c.key s.fetchLocks
          holder := Function.update s.holder lock none }
  | drop {pc : Pc} (hreturned : ∀ result, pc ≠ .returned result) (hdropped : pc ≠ .dropped) :
      CallSteps s id c pc .drop .dropped (pc.lock?.elim s s.release)

theorem steps_of_callStep {s s' : State} {id : ℕ} {c : Call} {pc : Pc} {action : Action}
    (h : callStep s id c pc action = some s') :
    ∃ pc' m, CallSteps s id c pc action pc' m ∧ s' = m.setPc id c pc' := by
  unfold callStep at h
  split at h
  · split at h
    · next hclock =>
      split at h
      · next hdecision =>
        rw [noteResult_eq] at h
        cases h
        exact ⟨_, _, .hit hclock hdecision, rfl⟩
      · next hmiss =>
        cases h
        exact ⟨_, _, .miss hclock hmiss, rfl⟩
    · cases h
  · cases h
    exact ⟨_, _, .getLock, rfl⟩
  · split at h
    · next hfree =>
      cases h
      exact ⟨_, _, .acquire hfree, rfl⟩
    · cases h
  · split at h
    · next hclock =>
      split at h
      · next hdecision =>
        rw [noteResult_eq] at h
        cases h
        exact ⟨_, _, .rehit hclock hdecision, rfl⟩
      · next hmiss =>
        cases h
        exact ⟨_, _, .fetch hclock hmiss, rfl⟩
    · cases h
  · cases h
    exact ⟨_, _, .answer, rfl⟩
  · split at h
    · next hclock =>
      split at h
      · next hpositive =>
        cases h
        exact ⟨_, _, .fallBack hclock hpositive, rfl⟩
      · next hnone =>
        cases h
        exact ⟨_, _, .await hclock (Bool.eq_false_iff.mpr hnone), rfl⟩
    · cases h
  · split at h
    · next hclock =>
      split at h
      · next hagain =>
        cases h
        exact ⟨_, _, .sleep hclock hagain, rfl⟩
      · next hstop =>
        cases h
        exact ⟨_, _, .stop hclock (Bool.eq_false_iff.mpr hstop), rfl⟩
    · cases h
  · split at h
    · next hclock =>
      cases h
      exact ⟨_, _, .wake hclock.1 hclock.2, rfl⟩
    · cases h
  · cases h
    exact ⟨_, _, .reanswer, rfl⟩
  · split at h
    · next hclock =>
      cases h
      exact ⟨_, _, .stamp hclock, rfl⟩
    · cases h
  · split at h
    · next hclock =>
      rw [applySettlement_eq] at h
      cases h
      exact ⟨_, _, .settle hclock.1 hclock.2 rfl, rfl⟩
    · cases h
  · cases h
    exact ⟨_, _, .finish, rfl⟩
  · split at h
    · cases h
    · cases h
    · next hreturned hdropped =>
      cases h
      exact ⟨_, _, .drop (fun _ => hreturned _) hdropped, rfl⟩
  · cases h

/-- A step is the start of a call or a step of one. -/
theorem steps_of_step {s s' : State} {l : ℕ × Action} (h : step s l = some s') :
    (∃ key wait, l.2 = .call key wait ∧ s.calls l.1 = none ∧
      s' = s.setPc l.1 ⟨key, wait, .entered⟩ .entered) ∨
    ∃ c pc' m, s.calls l.1 = some c ∧ CallSteps s l.1 c c.pc l.2 pc' m ∧
      s' = m.setPc l.1 c pc' := by
  unfold step at h
  split at h
  · next hfree hcall =>
    cases h
    exact .inl ⟨_, _, hcall, hfree, rfl⟩
  · next hid =>
    obtain ⟨pc', m, hsteps, rfl⟩ := steps_of_callStep h
    exact .inr ⟨_, pc', m, hid, hsteps, rfl⟩
  · cases h

/-- Looking up a key's lock changes the map of the locks only, and keeps every lock in it. -/
theorem lockFor_eq (s : State) (key : Key) : ∃ locks next,
    (s.lockFor key).2 = { s with fetchLocks := locks, nextLock := next } ∧
      ∀ k lock, s.fetchLocks.lookup k = some lock → locks.lookup k = some lock := by
  unfold State.lockFor
  split
  · exact ⟨s.fetchLocks, s.nextLock, rfl, fun _ _ hlookup => hlookup⟩
  · next hnone =>
    refine ⟨_, _, rfl, ?_⟩
    intro k lock hlookup
    have hne : k ≠ key := by
      rintro rfl
      cases hnone.symm.trans hlookup
    exact (AList.lookup_insert_ne hne).trans hlookup

/-- Giving up a lock changes who holds the locks only. -/
theorem elim_release_eq (s : State) (lock? : Option ℕ) :
    ∃ holder, lock?.elim s s.release = { s with holder := holder } := by
  cases lock? with
  | none => exact ⟨s.holder, rfl⟩
  | some lock => exact ⟨_, rfl⟩

section
variable {s m : State} {id : ℕ} {c : Call} {pc pc' : Pc} {action : Action}

theorem CallSteps.calls (h : CallSteps s id c pc action pc' m) : m.calls = s.calls := by
  cases h with
  | getLock =>
    obtain ⟨locks, next, heq, -⟩ := lockFor_eq s c.key
    rw [heq]
  | drop =>
    obtain ⟨holder, heq⟩ := elim_release_eq s pc.lock?
    rw [heq]
  | _ => rfl

theorem CallSteps.calls_setPc (h : CallSteps s id c pc action pc' m) :
    (m.setPc id c pc').calls = Function.update s.calls id (some { c with pc := pc' }) :=
  congrArg (fun calls => Function.update calls id _) h.calls

theorem CallSteps.clock (h : CallSteps s id c pc action pc' m) : s.clock ≤ m.clock := by
  cases h with
  | hit hclock | miss hclock | rehit hclock | fetch hclock | fallBack hclock | await hclock =>
    exact le_trans hclock.1 hclock.2
  | sleep hclock | stop hclock | wake hclock | stamp hclock | settle hclock => exact hclock
  | getLock =>
    obtain ⟨locks, next, heq, -⟩ := lockFor_eq s c.key
    rw [heq]
  | drop =>
    obtain ⟨holder, heq⟩ := elim_release_eq s pc.lock?
    rw [heq]
  | acquire | answer | reanswer | finish => exact le_rfl

end

theorem CallSteps.inv {s m : State} {id : ℕ} {c : Call} {action : Action} {pc' : Pc}
    (hsteps : CallSteps s id c c.pc action pc' m) (h : Inv s) (hid : s.calls id = some c) :
    Inv (m.setPc id c pc') := by
  have hcall := h.calls id c hid
  have hcalls := hsteps.calls_setPc
  have hclock := hsteps.clock
  generalize hpc : c.pc = pc at hsteps
  cases hsteps with
  | hit _ hdecision | rehit _ hdecision =>
    exact h.decide hdecision hclock hcalls rfl rfl (by rw [noteResult_eq]; rfl)
  | miss | acquire | fetch => exact h.quiet hcalls rfl hclock rfl (CallOk.of_blank rfl rfl rfl)
  | getLock =>
    obtain ⟨locks, next, heq, -⟩ := lockFor_eq s c.key
    rw [heq] at hcalls hclock ⊢
    exact h.quiet hcalls rfl hclock rfl (CallOk.of_blank rfl rfl rfl)
  | answer | reanswer => exact h.receive rfl rfl rfl
  | fallBack | await | stop =>
    have hanswer := hcall.answered _ (by rw [hpc]; rfl)
    exact h.quiet hcalls rfl hclock rfl (CallOk.carry hanswer rfl nofun rfl)
  | sleep | wake => exact h.quiet hcalls rfl hclock rfl (CallOk.of_blank rfl rfl rfl)
  | stamp =>
    have hanswer := hcall.answered _ (by rw [hpc]; rfl)
    refine h.quiet hcalls rfl hclock rfl (CallOk.carry hanswer rfl ?_ rfl)
    intro now hnow
    exact le_of_eq (Option.some.inj hnow).symm
  | settle hsettle _ hr =>
    subst hr
    rw [← applySettlement_eq]
    exact inv_settle h hid hpc hsettle
  | finish =>
    refine h.quiet hcalls rfl hclock rfl ⟨nofun, nofun, ?_⟩
    intro hok
    exact hcall.admitted (by rw [hpc]; exact hok)
  | drop =>
    obtain ⟨holder, heq⟩ := elim_release_eq s pc.lock?
    rw [heq] at hcalls hclock ⊢
    exact h.quiet hcalls rfl hclock rfl (CallOk.of_blank rfl rfl rfl)

theorem inv_step {s s' : State} (l : ℕ × Action) (h : Inv s) (hstep : step s l = some s') :
    Inv s' := by
  obtain ⟨key, wait, -, -, rfl⟩ | ⟨c, pc', m, hid, hsteps, rfl⟩ := steps_of_step hstep
  · exact h.quiet rfl rfl le_rfl rfl (CallOk.of_blank rfl rfl rfl)
  · exact hsteps.inv h hid

/-- In every run each `Ok(())` was decided, at the reading noted with it, on a positive verdict
    for its own key that was recorded less than 24 hours before and not revoked since. -/
theorem admissions_backed (labels : List (ℕ × Action)) (s : State)
    (hrun : exec step State.init labels = some s) :
    AdmissionsBacked s.log ∧ ∀ id c, s.calls id = some c → c.pc.result? = some (.ok ()) →
      ∃ t, .admitted id c.key t ∈ s.log := by
  have hinv : Inv s := exec_invariant (fun s l s' h => inv_step l h) inv_init hrun
  exact ⟨hinv.admissions, fun id c hid => (hinv.calls id c hid).admitted⟩

/-- One call that scan answers with a positive verdict. -/
def freshRun : List (ℕ × Action) :=
  [(0, .call ("app", 1) 0), (0, .enter 1 1), (0, .getLock), (0, .acquire), (0, .recheck 2 2),
    (0, .answer (.ok (.verdict true ""))), (0, .fallBack 3 3), (0, .poll 4), (0, .stamp 5),
    (0, .settle (fun _ => 6) 6), (0, .finish)]

theorem admissions_backed_freshRun : ∃ s, exec step State.init freshRun = some s ∧
    AdmissionsBacked s.log ∧ ∃ t, .admitted 0 ("app", 1) t ∈ s.log := by
  obtain ⟨s, c, hrun, hc, hkey, hresult⟩ : ∃ s c, exec step State.init freshRun = some s ∧
      s.calls 0 = some c ∧ c.key = ("app", 1) ∧ c.pc.result? = some (.ok ()) :=
    ⟨_, _, rfl, rfl, rfl, rfl⟩
  have hbacked := admissions_backed freshRun s hrun
  exact ⟨s, hrun, hbacked.1, hkey ▸ hbacked.2 0 c hc hresult⟩

end KmsCluster.Verifier
