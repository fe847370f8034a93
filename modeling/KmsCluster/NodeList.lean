import KmsCluster.Lib.Runs
import KmsCluster.Server

/-!
# The cached nodeList

Model of `get_signer_addresses` and `get_signer_addresses_for` (`src/chain.rs`). The list of an
app's signers is cached; a lapsed entry is refreshed under one global lock, and a signer that the
list lacks forces a refresh of its key under a lock of that key. Calls interleave at their await
points, none is cancelled, and the RPC may give any answer. Instants and durations are
nanoseconds; each clock reading is given by the label of its step.

A fetch is complete when its result is in the cache, and a failed one when the call that made it
has acted on the failure.

## Main results

- `lists_fresh`: how old a list can be when a signer is checked against it.
-/

namespace KmsCluster.NodeList

open Runs

def secs (n : ℕ) : ℕ := n * 1000000000

/-- How long a cached list is served without asking the chain. -/
def nodeListTtl : ℕ := secs 30

/-- Floor between refreshes of one list that a missing signer forces. -/
def missRefreshMin : ℕ := secs 5

structure NodeListEntry where
  addrs : List Address
  fetchedAt : ℕ
  /-- Last refresh attempt forced by a miss, successful or not. -/
  missRefreshAt : Option ℕ

abbrev Cache := AList (fun _ : String => NodeListEntry)

def cacheKey (rpcUrl contractAddress appId : String) : String :=
  rpcUrl ++ "|" ++ contractAddress ++ "|" ++ appId

/-- `e.fetched_at.elapsed() < NODE_LIST_TTL`, read at `t`. -/
def NodeListEntry.fresh (e : NodeListEntry) (t : ℕ) : Bool := decide (t - e.fetchedAt < nodeListTtl)

/-- The `recent` closure, read at `t`. -/
def recent (t at' : ℕ) : Bool := decide (t - at' < missRefreshMin)

/-- The check under the miss lock: the reading it was settled on, `none` when the list has to be
    fetched. `t₁` is read for `fetched_at`, `t₂` for `miss_refresh_at`. -/
def NodeListEntry.missSettled (e : NodeListEntry) (signer : Address) (t₁ t₂ : ℕ) : Option ℕ :=
  if e.addrs.contains signer || recent t₁ e.fetchedAt then some t₁
  else if e.missRefreshAt.any (recent t₂) then some t₂
  else none

-- ════════════════════════════════════════════════════════════════════════
-- Calls and their steps
-- ════════════════════════════════════════════════════════════════════════

/-- Where a call stands between two awaits. The `miss` positions carry the signer and the list
    that lacked it. -/
inductive Pc where
  | entered
  | waiting
  | locked
  | fetching
  | fetched (outcome : Except KmsError (List Address))
  | missed (signer : Address) (addrs : List Address)
  | missLocked (signer : Address) (addrs : List Address)
  | missFetching (signer : Address) (addrs : List Address)
  | missFetched (signer : Address) (addrs : List Address)
      (outcome : Except KmsError (List Address))
  | returned (result : Except KmsError (List Address))

/-- A call of `get_signer_addresses`, or of `get_signer_addresses_for` when it has a signer. -/
structure Call where
  rpcUrl : String
  contractAddress : String
  appId : String
  signer : Option Address
  /-- When the call began, for the properties only. -/
  began : ℕ
  pc : Pc

def Call.key (c : Call) : String := cacheKey c.rpcUrl c.contractAddress c.appId

inductive Counter where
  | rpcOk
  | rpcFail
  | staleServed
  deriving DecidableEq

/-- What the log keeps of a run, for the properties only. -/
inductive Event where
  | began (id : ℕ)
  /-- The call `id` asks the chain for the list of `key`; `forced` by a missing signer. -/
  | issued (id : ℕ) (key : String) (forced : Bool) (t : ℕ)
  /-- The list of a fetch for `key` went into the cache. -/
  | fetched (key : String) (addrs : List Address) (t : ℕ)
  /-- A call acted on the failure of a fetch for `key`. -/
  | failed (key : String) (t : ℕ)
  /-- The call `id` returned `addrs` on a check that read the clock at `t`. -/
  | returned (id : ℕ) (key : String) (signer : Option Address) (began : ℕ) (addrs : List Address)
      (t : ℕ)

structure State where
  cache : Cache
  /-- The call that holds `refresh_lock`. -/
  refreshLock : Option ℕ
  /-- The call that holds the miss lock of a key. -/
  missLocks : String → Option ℕ
  counters : Counter → ℕ
  clock : ℕ
  calls : ℕ → Option Call
  log : List Event

def State.init : State where
  cache := ∅
  refreshLock := none
  missLocks := fun _ => none
  counters := fun _ => 0
  clock := 0
  calls := fun _ => none
  log := []

/-- One step of a call, or its start. -/
inductive Action where
  | call (rpcUrl contractAddress appId : String) (signer : Option Address) (t : ℕ)
  | look (t : ℕ)
  | lock
  | recheck (t : ℕ)
  | answer (outcome : Except KmsError (List Address)) (t : ℕ)
  | store (t : ℕ)
  | fallBack
  | missLock
  | missCheck (t₁ t₂ : ℕ)
  | missStore (t₁ t₂ : ℕ)
  | missFail (t : ℕ)

def State.setPc (s : State) (id : ℕ) (c : Call) (pc : Pc) : State :=
  { s with calls := Function.update s.calls id (some { c with pc := pc }) }

def State.at (s : State) (t : ℕ) : State := { s with clock := t }

def State.inc (s : State) (counter : Counter) : State :=
  { s with counters := Function.update s.counters counter (s.counters counter + 1) }

/-- Count the outcome of a fetch. -/
def State.incRpc (s : State) (outcome : Except KmsError (List Address)) : State :=
  match outcome with
  | .ok _ => s.inc .rpcOk
  | .error _ => s.inc .rpcFail

def State.note (s : State) (event : Event) : State := { s with log := event :: s.log }

/-- Return from the call, on a check that read the clock at `t`. -/
def State.finish (s : State) (id : ℕ) (c : Call) (result : Except KmsError (List Address))
    (t : ℕ) : State :=
  match result with
  | .ok addrs =>
    (s.note (.returned id c.key c.signer c.began addrs t)).setPc id c (.returned (.ok addrs))
  | .error e => s.setPc id c (.returned (.error e))

/-- What the call does with the result of `get_signer_addresses`: `get_signer_addresses_for` goes
    on when its signer is missing from the list. -/
def State.listed (s : State) (id : ℕ) (c : Call) (result : Except KmsError (List Address))
    (t : ℕ) : State :=
  match result, c.signer with
  | .ok addrs, some signer =>
    if addrs.contains signer then s.finish id c (.ok addrs) t
    else s.setPc id c (.missed signer addrs)
  | result, _ => s.finish id c result t

def State.unlock (s : State) : State := { s with refreshLock := none }

def State.missUnlock (s : State) (key : String) : State :=
  { s with missLocks := Function.update s.missLocks key none }

/-- Put a fetched list into the cache. -/
def State.insert (s : State) (key : String) (e : NodeListEntry) : State :=
  { s with cache := AList.insert key e s.cache }

/-- `entry.miss_refresh_at = Some(Instant::now())`, when there is an entry. -/
def State.markMiss (s : State) (key : String) (t : ℕ) : State :=
  match s.cache.lookup key with
  | some e => s.insert key { e with missRefreshAt := some t }
  | none => s

/-- One step of a call that is under way. -/
def callStep (s : State) (id : ℕ) (c : Call) : Pc → Action → Option State
  | .entered, .look t =>
    if s.clock ≤ t then
      match (s.cache.lookup c.key).filter (·.fresh t) with
      | some e => some ((s.at t).listed id c (.ok e.addrs) t)
      | none => some ((s.at t).setPc id c .waiting)
    else none
  | .waiting, .lock =>
    if s.refreshLock = none then some ({ s with refreshLock := some id }.setPc id c .locked)
    else none
  | .locked, .recheck t =>
    if s.clock ≤ t then
      match (s.cache.lookup c.key).filter (·.fresh t) with
      | some e => some ((s.at t).unlock.listed id c (.ok e.addrs) t)
      | none => some (((s.at t).note (.issued id c.key false t)).setPc id c .fetching)
    else none
  | .fetching, .answer outcome t =>
    if s.clock ≤ t then some (((s.at t).incRpc outcome).setPc id c (.fetched outcome)) else none
  | .fetched (.ok addrs), .store t =>
    if s.clock ≤ t then
      some (((((s.at t).insert c.key ⟨addrs, t, none⟩).note (.fetched c.key addrs t)).unlock).listed
        id c (.ok addrs) t)
    else none
  | .fetched (.error e), .fallBack =>
    let s := (s.note (.failed c.key s.clock)).unlock
    match s.cache.lookup c.key with
    | some old => some ((s.inc .staleServed).listed id c (.ok old.addrs) s.clock)
    | none => some (s.listed id c (.error e) s.clock)
  | .missed signer addrs, .missLock =>
    if s.missLocks c.key = none then
      some ({ s with missLocks := Function.update s.missLocks c.key (some id) }.setPc id c
        (.missLocked signer addrs))
    else none
  | .missLocked signer addrs, .missCheck t₁ t₂ =>
    if s.clock ≤ t₁ ∧ t₁ ≤ t₂ then
      match (s.cache.lookup c.key).bind fun e =>
          (e.missSettled signer t₁ t₂).map fun t => (e.addrs, t) with
      | some (cached, t) => some (((s.at t₂).missUnlock c.key).finish id c (.ok cached) t)
      | none =>
        some (((s.at t₂).note (.issued id c.key true t₂)).setPc id c (.missFetching signer addrs))
    else none
  | .missFetching signer addrs, .answer outcome t =>
    if s.clock ≤ t then
      some (((s.at t).incRpc outcome).setPc id c (.missFetched signer addrs outcome))
    else none
  | .missFetched _ _ (.ok fresh), .missStore t₁ t₂ =>
    if s.clock ≤ t₁ ∧ t₁ ≤ t₂ then
      some (((((s.at t₂).insert c.key ⟨fresh, t₁, some t₂⟩).note
        (.fetched c.key fresh t₂)).missUnlock c.key).finish id c (.ok fresh) t₂)
    else none
  | .missFetched _ addrs (.error _), .missFail t =>
    if s.clock ≤ t then
      some (((((s.at t).markMiss c.key t).note (.failed c.key t)).missUnlock c.key).finish id c
        (.ok addrs) t)
    else none
  | _, _ => none

def step (s : State) (l : ℕ × Action) : Option State :=
  match s.calls l.1, l.2 with
  | none, .call rpcUrl contractAddress appId signer t =>
    if s.clock ≤ t then
      some (((s.at t).note (.began l.1)).setPc l.1
        ⟨rpcUrl, contractAddress, appId, signer, t, .entered⟩ .entered)
    else none
  | some c, action => callStep s l.1 c c.pc action
  | none, _ => none

-- ════════════════════════════════════════════════════════════════════════
-- How old a returned list is
-- ════════════════════════════════════════════════════════════════════════

/-- `event` happened since the call `id` began. -/
def During (log : List Event) (id : ℕ) (event : Event) : Prop :=
  ∃ later earlier, log = later ++ .began id :: earlier ∧ event ∈ later

/-- A fetch for `key` failed since the call `id` began. -/
def FailedDuring (log : List Event) (id : ℕ) (key : String) : Prop :=
  ∃ t, During log id (.failed key t)

/-- What a list returned for `signer` rests on, over the log up to its return: it was fetched at
    most `nodeListTtl` before the call began when it names the signer, and less than
    `missRefreshMin` before the check, or during the call, when it does not; failures apart. -/
structure Fresh (log : List Event) (id : ℕ) (key : String) (signer : Address) (began : ℕ)
    (addrs : List Address) (t : ℕ) : Prop where
  listed : signer ∈ addrs → FailedDuring log id key ∨
    ∃ t', .fetched key addrs t' ∈ log ∧ began ≤ t' + nodeListTtl
  unlisted : signer ∉ addrs → FailedDuring log id key ∨
    (∃ t', .failed key t' ∈ log ∧ t < t' + missRefreshMin) ∨
    ∃ t', .fetched key addrs t' ∈ log ∧
      (t < t' + missRefreshMin ∨ During log id (.fetched key addrs t'))

/-- Every list returned for a signer was fresh at its return. -/
def ListsFresh (log : List Event) : Prop :=
  ∀ later earlier id key signer began addrs t,
    log = later ++ .returned id key (some signer) began addrs t :: earlier →
      Fresh earlier id key signer began addrs t

/-- The signer that the first stage's list lacked. -/
def Pc.missed? : Pc → Option Address
  | .missed signer _ | .missLocked signer _ | .missFetching signer _ | .missFetched signer _ _ =>
    some signer
  | _ => none

/-- The cache holds an entry for the call's key that was within its TTL when the call began. -/
def HasEntry (cache : Cache) (c : Call) : Prop :=
  ∃ e, cache.lookup c.key = some e ∧ c.began ≤ e.fetchedAt + nodeListTtl

structure EntryOk (log : List Event) (clock : ℕ) (key : String) (e : NodeListEntry) : Prop where
  fetchedAt_le : e.fetchedAt ≤ clock
  fetched : ∃ t, .fetched key e.addrs t ∈ log ∧ e.fetchedAt ≤ t
  missRefreshed : ∀ m, e.missRefreshAt = some m →
    (∃ t, .failed key t ∈ log ∧ m ≤ t) ∨ ∃ t, .fetched key e.addrs t ∈ log ∧ m ≤ t

structure CallOk (cache : Cache) (log : List Event) (clock id : ℕ) (c : Call) : Prop where
  began : .began id ∈ log
  began_le : c.began ≤ clock
  missed : ∀ signer, c.pc.missed? = some signer →
    c.signer = some signer ∧ (FailedDuring log id c.key ∨ HasEntry cache c)
  returned : ∀ addrs, c.pc = .returned (.ok addrs) →
    ∃ t, .returned id c.key c.signer c.began addrs t ∈ log

structure Inv (s : State) : Prop where
  entries : ∀ key e, s.cache.lookup key = some e → EntryOk s.log s.clock key e
  calls : ∀ id c, s.calls id = some c → CallOk s.cache s.log s.clock id c
  lists : ListsFresh s.log

theorem inv_init : Inv State.init := by
  refine ⟨?_, ?_, ?_⟩
  · intro key e he
    cases he
  · intro id c hc
    cases hc
  · intro later earlier id key signer began addrs t hlog
    simp [State.init] at hlog

theorem During.cons {log : List Event} {id : ℕ} {event : Event} (h : During log id event)
    (first : Event) : During (first :: log) id event := by
  obtain ⟨later, earlier, rfl, hmem⟩ := h
  exact ⟨first :: later, earlier, rfl, List.mem_cons_of_mem _ hmem⟩

/-- An event noted now happens during every call that has begun. -/
theorem during_cons_self {log : List Event} {id : ℕ} (h : .began id ∈ log) (event : Event) :
    During (event :: log) id event := by
  obtain ⟨later, earlier, rfl⟩ := List.append_of_mem h
  exact ⟨event :: later, earlier, rfl, List.mem_cons_self⟩

theorem EntryOk.mono {log log' : List Event} {clock clock' : ℕ} {key : String} {e : NodeListEntry}
    (h : EntryOk log clock key e) (hlog : log ⊆ log') (hclock : clock ≤ clock') :
    EntryOk log' clock' key e := by
  obtain ⟨t, hfetched, hle⟩ := h.fetched
  refine ⟨le_trans h.fetchedAt_le hclock, ⟨t, hlog hfetched, hle⟩, ?_⟩
  intro m hm
  rcases h.missRefreshed m hm with ⟨t, hfailed, hle⟩ | ⟨t, hfetched, hle⟩
  · exact .inl ⟨t, hlog hfailed, hle⟩
  · exact .inr ⟨t, hlog hfetched, hle⟩

/-- Entries are only replaced by entries that were fetched later. -/
def Grows (cache cache' : Cache) : Prop :=
  ∀ key e, cache.lookup key = some e →
    ∃ e', cache'.lookup key = some e' ∧ e.fetchedAt ≤ e'.fetchedAt

theorem Grows.refl (cache : Cache) : Grows cache cache := fun _ e he => ⟨e, he, le_rfl⟩

theorem grows_insert {cache : Cache} {key : String} {e : NodeListEntry}
    (h : ∀ old, cache.lookup key = some old → old.fetchedAt ≤ e.fetchedAt) :
    Grows cache (AList.insert key e cache) := by
  intro k old hold
  by_cases hk : k = key
  · subst hk
    exact ⟨e, AList.lookup_insert _, h old hold⟩
  · exact ⟨old, by rw [AList.lookup_insert_ne hk, hold], le_rfl⟩

theorem HasEntry.mono {cache cache' : Cache} {c : Call} (h : HasEntry cache c)
    (hgrows : Grows cache cache') : HasEntry cache' c := by
  obtain ⟨e, he, hle⟩ := h
  obtain ⟨e', he', hle'⟩ := hgrows _ e he
  exact ⟨e', he', by omega⟩

theorem CallOk.mono {cache cache' : Cache} {log log' : List Event} {clock clock' id : ℕ} {c : Call}
    (h : CallOk cache log clock id c) (hcache : Grows cache cache') (hlog : log ⊆ log')
    (hfailed : FailedDuring log id c.key → FailedDuring log' id c.key) (hclock : clock ≤ clock') :
    CallOk cache' log' clock' id c := by
  refine ⟨hlog h.began, le_trans h.began_le hclock, ?_, ?_⟩
  · intro signer hmissed
    obtain ⟨hsigner, hfail | hentry⟩ := h.missed signer hmissed
    · exact ⟨hsigner, .inl (hfailed hfail)⟩
    · exact ⟨hsigner, .inr (hentry.mono hcache)⟩
  · intro addrs hpc
    obtain ⟨t, ht⟩ := h.returned addrs hpc
    exact ⟨t, hlog ht⟩

theorem ListsFresh.cons {log : List Event} (h : ListsFresh log) {event : Event}
    (hevent : ∀ id key signer began addrs t,
      event = .returned id key (some signer) began addrs t →
        Fresh log id key signer began addrs t) : ListsFresh (event :: log) := by
  intro later earlier id key signer began addrs t hlog
  cases later with
  | nil =>
    rw [List.nil_append, List.cons.injEq] at hlog
    rw [← hlog.2]
    exact hevent id key signer began addrs t hlog.1
  | cons first later =>
    rw [List.cons_append, List.cons.injEq] at hlog
    exact h later earlier id key signer began addrs t hlog.2

-- ════════════════════════════════════════════════════════════════════════
-- The invariant, update by update
-- ════════════════════════════════════════════════════════════════════════

theorem Inv.at {s : State} (h : Inv s) {t : ℕ} (ht : s.clock ≤ t) : Inv (s.at t) := by
  refine ⟨?_, ?_, h.lists⟩
  · intro key e he
    exact (h.entries key e he).mono (List.Subset.refl _) ht
  · intro id c hc
    exact (h.calls id c hc).mono (Grows.refl _) (List.Subset.refl _) (fun hf => hf) ht

/-- Locks and counters carry no obligation. -/
theorem Inv.congr {s s' : State} (h : Inv s) (hcache : s'.cache = s.cache)
    (hclock : s'.clock = s.clock) (hcalls : s'.calls = s.calls) (hlog : s'.log = s.log) :
    Inv s' := by
  refine ⟨?_, ?_, ?_⟩
  · rw [hcache, hlog, hclock]
    exact h.entries
  · rw [hcalls, hcache, hlog, hclock]
    exact h.calls
  · rw [hlog]
    exact h.lists

theorem Inv.unlock {s : State} (h : Inv s) : Inv s.unlock := h.congr rfl rfl rfl rfl

theorem Inv.missUnlock {s : State} (h : Inv s) (key : String) : Inv (s.missUnlock key) :=
  h.congr rfl rfl rfl rfl

theorem Inv.incRpc {s : State} (h : Inv s) (outcome : Except KmsError (List Address)) :
    Inv (s.incRpc outcome) := by
  cases outcome with
  | ok addrs => exact h.congr rfl rfl rfl rfl
  | error e => exact h.congr rfl rfl rfl rfl

theorem incRpc_calls (s : State) (outcome : Except KmsError (List Address)) :
    (s.incRpc outcome).calls = s.calls := by
  cases outcome with
  | ok addrs => rfl
  | error e => rfl

/-- Note an event together with a new content of the cache. -/
theorem Inv.record {s : State} (h : Inv s) {event : Event} {cache : Cache}
    (hgrows : Grows s.cache cache)
    (hentries : ∀ key e, cache.lookup key = some e → EntryOk (event :: s.log) s.clock key e)
    (hevent : ∀ id key signer began addrs t,
      event = .returned id key (some signer) began addrs t →
        Fresh s.log id key signer began addrs t) :
    Inv { s with cache := cache, log := event :: s.log } := by
  refine ⟨hentries, ?_, h.lists.cons hevent⟩
  intro id c hc
  refine (h.calls id c hc).mono hgrows (List.subset_cons_self _ _) ?_ le_rfl
  rintro ⟨t, hduring⟩
  exact ⟨t, hduring.cons event⟩

theorem Inv.note {s : State} (h : Inv s) {event : Event}
    (hevent : ∀ id key signer began addrs t,
      event = .returned id key (some signer) began addrs t →
        Fresh s.log id key signer began addrs t) : Inv (s.note event) :=
  h.record (Grows.refl _)
    (fun key e he => (h.entries key e he).mono (List.subset_cons_self _ _) le_rfl) hevent

/-- Note an event and replace the entry of one key. -/
theorem Inv.insert {s : State} (h : Inv s) {key : String} {e : NodeListEntry} {event : Event}
    (hold : ∀ old, s.cache.lookup key = some old → old.fetchedAt ≤ e.fetchedAt)
    (hentry : EntryOk (event :: s.log) s.clock key e)
    (hevent : ∀ id key signer began addrs t,
      event ≠ .returned id key (some signer) began addrs t) :
    Inv ((s.insert key e).note event) := by
  refine h.record (grows_insert hold) ?_ ?_
  · intro k e' he'
    simp only [State.insert] at he'
    by_cases hk : k = key
    · subst hk
      rw [AList.lookup_insert] at he'
      cases he'
      exact hentry
    · rw [AList.lookup_insert_ne hk] at he'
      exact (h.entries k e' he').mono (List.subset_cons_self _ _) le_rfl
  · intro id k signer began addrs t heq
    exact absurd heq (hevent id k signer began addrs t)

theorem Inv.setPc {s : State} (h : Inv s) {id : ℕ} {c : Call} (hid : s.calls id = some c) {pc : Pc}
    (hmissed : ∀ signer, pc.missed? = some signer →
      c.signer = some signer ∧ (FailedDuring s.log id c.key ∨ HasEntry s.cache c))
    (hreturned : ∀ addrs, pc = .returned (.ok addrs) →
      ∃ t, .returned id c.key c.signer c.began addrs t ∈ s.log) : Inv (s.setPc id c pc) := by
  refine ⟨h.entries, ?_, h.lists⟩
  intro id' c' hc'
  by_cases heq : id' = id
  · subst heq
    simp only [State.setPc, Function.update_self, Option.some.injEq] at hc'
    subst hc'
    have hcall := h.calls id' c hid
    exact ⟨hcall.began, hcall.began_le, hmissed, hreturned⟩
  · simp only [State.setPc, Function.update_of_ne heq] at hc'
    exact h.calls id' c' hc'

/-- Go on to a position that carries no obligation. -/
theorem Inv.goto {s : State} (h : Inv s) {id : ℕ} {c : Call} (hid : s.calls id = some c) {pc : Pc}
    (hmissed : pc.missed? = none) (hreturned : ∀ addrs, pc ≠ .returned (.ok addrs)) :
    Inv (s.setPc id c pc) := by
  refine h.setPc hid ?_ (fun addrs heq => absurd heq (hreturned addrs))
  intro signer hsigner
  rw [hmissed] at hsigner
  cases hsigner

/-- Go on after the miss. -/
theorem Inv.goOn {s : State} (h : Inv s) {id : ℕ} {c : Call} (hid : s.calls id = some c) {pc : Pc}
    (hmissed : pc.missed? = c.pc.missed?) (hreturned : ∀ addrs, pc ≠ .returned (.ok addrs)) :
    Inv (s.setPc id c pc) := by
  refine h.setPc hid ?_ (fun addrs heq => absurd heq (hreturned addrs))
  intro signer hsigner
  exact (h.calls id c hid).missed signer (hmissed ▸ hsigner)

theorem Inv.finish {s : State} (h : Inv s) {id : ℕ} {c : Call} (hid : s.calls id = some c)
    {addrs : List Address} {t : ℕ}
    (hfresh : ∀ signer, c.signer = some signer → Fresh s.log id c.key signer c.began addrs t) :
    Inv (s.finish id c (.ok addrs) t) := by
  have hnoted : Inv (s.note (.returned id c.key c.signer c.began addrs t)) := by
    refine h.note ?_
    intro id' key signer began addrs' t' heq
    simp only [Event.returned.injEq] at heq
    obtain ⟨rfl, rfl, hsigner, rfl, rfl, rfl⟩ := heq
    exact hfresh signer hsigner
  refine hnoted.setPc hid ?_ ?_
  · intro signer hsigner
    cases hsigner
  · intro addrs' heq
    cases heq
    exact ⟨t, List.mem_cons_self⟩

/-- What the first stage says of the list it returns: a failure, or an entry within its TTL. -/
def Listed (s : State) (id : ℕ) (c : Call) (addrs : List Address) : Prop :=
  FailedDuring s.log id c.key ∨
    (HasEntry s.cache c ∧ ∃ t, .fetched c.key addrs t ∈ s.log ∧ c.began ≤ t + nodeListTtl)

theorem Inv.listed {s : State} (h : Inv s) {id : ℕ} {c : Call} (hid : s.calls id = some c)
    {addrs : List Address} {t : ℕ} (hlisted : Listed s id c addrs) :
    Inv (s.listed id c (.ok addrs) t) := by
  unfold State.listed
  split
  · next addrs' signer heq hsigner =>
    cases heq
    split
    · next hmem =>
      refine h.finish hid ?_
      intro signer' hsigner'
      obtain rfl : signer = signer' := Option.some.inj (hsigner.symm.trans hsigner')
      have hmem : signer ∈ addrs := by simpa using hmem
      exact ⟨fun _ => hlisted.imp_right And.right, fun hnot => absurd hmem hnot⟩
    · refine h.setPc hid ?_ (by simp)
      intro signer' hsigner'
      cases hsigner'
      exact ⟨hsigner, hlisted.imp_right And.left⟩
  · next result signer hne =>
    refine h.finish hid ?_
    intro signer' hsigner'
    exact absurd hsigner' (by simpa using hne addrs signer' rfl)

-- ════════════════════════════════════════════════════════════════════════
-- Steps and runs
-- ════════════════════════════════════════════════════════════════════════

theorem missRefreshMin_pos : 0 < missRefreshMin := by decide

/-- A fresh hit of the cache. -/
theorem Inv.listed_of_fresh {s : State} (h : Inv s) {id : ℕ} {c : Call}
    (hid : s.calls id = some c) {t : ℕ} {e : NodeListEntry} (ht : s.clock ≤ t)
    (he : (s.cache.lookup c.key).filter (·.fresh t) = some e) : Listed s id c e.addrs := by
  obtain ⟨hlookup, hfresh⟩ := Option.filter_eq_some_iff.mp he
  have hfresh : t - e.fetchedAt < nodeListTtl := of_decide_eq_true hfresh
  have hbegan := (h.calls id c hid).began_le
  obtain ⟨t', hfetched, hle⟩ := (h.entries c.key e hlookup).fetched
  exact .inr ⟨⟨e, hlookup, by omega⟩, t', hfetched, by omega⟩

/-- The check under the miss lock settles a list without the signer on a recent stamp. -/
theorem missSettled_unlisted {e : NodeListEntry} {signer : Address} {t₁ t₂ t : ℕ}
    (h : e.missSettled signer t₁ t₂ = some t) (hnot : signer ∉ e.addrs) :
    t < e.fetchedAt + missRefreshMin ∨
      ∃ m, e.missRefreshAt = some m ∧ t < m + missRefreshMin := by
  have hpos := missRefreshMin_pos
  unfold NodeListEntry.missSettled at h
  split at h
  · next hrecent =>
    cases h
    simp only [List.contains_eq_mem, hnot, decide_false, Bool.false_or, recent,
      decide_eq_true_eq] at hrecent
    exact .inl (by omega)
  · split at h
    · next hmiss =>
      cases h
      obtain ⟨m, hm, hrecent⟩ := (Option.any_eq_true _ _).mp hmiss
      have hrecent : t₂ - m < missRefreshMin := of_decide_eq_true hrecent
      exact .inr ⟨m, hm, by omega⟩
    · cases h

theorem Inv.missSettled {s : State} (h : Inv s) {id : ℕ} {c : Call} (hid : s.calls id = some c)
    {signer : Address} (hmissed : c.pc.missed? = some signer) {e : NodeListEntry}
    (he : s.cache.lookup c.key = some e) {t₁ t₂ t : ℕ}
    (hsettled : e.missSettled signer t₁ t₂ = some t) :
    Fresh s.log id c.key signer c.began e.addrs t := by
  have hentry := h.entries c.key e he
  refine ⟨?_, ?_⟩
  · intro _
    rcases ((h.calls id c hid).missed signer hmissed).2 with hfailed | ⟨e', he', hle⟩
    · exact .inl hfailed
    · obtain rfl : e = e' := Option.some.inj (he.symm.trans he')
      obtain ⟨t', hfetched, hle'⟩ := hentry.fetched
      exact .inr ⟨t', hfetched, by omega⟩
  · intro hnot
    rcases missSettled_unlisted hsettled hnot with hrecent | ⟨m, hm, hrecent⟩
    · obtain ⟨t', hfetched, hle⟩ := hentry.fetched
      exact .inr (.inr ⟨t', hfetched, .inl (by omega)⟩)
    · rcases hentry.missRefreshed m hm with ⟨t', hfailed, hle⟩ | ⟨t', hfetched, hle⟩
      · exact .inr (.inl ⟨t', hfailed, by omega⟩)
      · exact .inr (.inr ⟨t', hfetched, .inl (by omega)⟩)

/-- A fetched list goes into the cache. -/
theorem Inv.fetched {s : State} (h : Inv s) (key : String) (addrs : List Address) {t₁ t₂ : ℕ}
    {missRefreshAt : Option ℕ} (ht₁ : s.clock ≤ t₁) (ht₂ : t₁ ≤ t₂)
    (hmiss : ∀ m, missRefreshAt = some m → m ≤ t₂) :
    Inv (((s.at t₂).insert key ⟨addrs, t₁, missRefreshAt⟩).note (.fetched key addrs t₂)) := by
  refine (h.at (le_trans ht₁ ht₂)).insert ?_ ⟨ht₂, ⟨t₂, List.mem_cons_self, ht₂⟩, ?_⟩ (by simp)
  · intro old hold
    exact le_trans (h.entries key old hold).fetchedAt_le ht₁
  · intro m hm
    exact .inr ⟨t₂, List.mem_cons_self, hmiss m hm⟩

theorem markMiss_calls (s : State) (key : String) (t : ℕ) : (s.markMiss key t).calls = s.calls := by
  unfold State.markMiss
  split
  · rfl
  · rfl

theorem markMiss_log (s : State) (key : String) (t : ℕ) : (s.markMiss key t).log = s.log := by
  unfold State.markMiss
  split
  · rfl
  · rfl

theorem Inv.markMiss {s : State} (h : Inv s) (key : String) (t : ℕ) :
    Inv ((s.markMiss key t).note (.failed key t)) := by
  unfold State.markMiss
  split
  · next e he =>
    have hentry := (h.entries key e he).mono (List.subset_cons_self (.failed key t) _) le_rfl
    refine h.insert ?_ ⟨hentry.fetchedAt_le, hentry.fetched, ?_⟩ (by simp)
    · intro old hold
      rw [he, Option.some.injEq] at hold
      subst hold
      exact le_rfl
    · intro m hm
      cases hm
      exact .inl ⟨t, List.mem_cons_self, le_rfl⟩
  · exact h.note (by simp)

section Actions

variable {s s' : State} (h : Inv s) {id : ℕ} {c : Call} (hid : s.calls id = some c)
include h hid

theorem Inv.look {t : ℕ} (hstep : callStep s id c .entered (.look t) = some s') : Inv s' := by
  dsimp only [callStep] at hstep
  split at hstep
  · next ht =>
    split at hstep
    · next e he =>
      cases hstep
      exact (h.at ht).listed hid (h.listed_of_fresh hid ht he)
    · cases hstep
      exact (h.at ht).goto hid rfl (by simp)
  · cases hstep

theorem Inv.lock (hstep : callStep s id c .waiting .lock = some s') : Inv s' := by
  dsimp only [callStep] at hstep
  split at hstep
  · cases hstep
    have hlocked : Inv { s with refreshLock := some id } := h.congr rfl rfl rfl rfl
    exact hlocked.goto hid rfl (by simp)
  · cases hstep

theorem Inv.recheck {t : ℕ} (hstep : callStep s id c .locked (.recheck t) = some s') :
    Inv s' := by
  dsimp only [callStep] at hstep
  split at hstep
  · next ht =>
    split at hstep
    · next e he =>
      cases hstep
      exact (h.at ht).unlock.listed hid (h.listed_of_fresh hid ht he)
    · cases hstep
      exact ((h.at ht).note (by simp)).goto hid rfl (by simp)
  · cases hstep

theorem Inv.answer {outcome : Except KmsError (List Address)} {t : ℕ}
    (hstep : callStep s id c .fetching (.answer outcome t) = some s') : Inv s' := by
  dsimp only [callStep] at hstep
  split at hstep
  · next ht =>
    cases hstep
    refine ((h.at ht).incRpc outcome).goto ?_ rfl (by simp)
    rw [incRpc_calls]
    exact hid
  · cases hstep

theorem Inv.store {addrs : List Address} {t : ℕ}
    (hstep : callStep s id c (.fetched (.ok addrs)) (.store t) = some s') : Inv s' := by
  have hbegan := (h.calls id c hid).began_le
  dsimp only [callStep] at hstep
  split at hstep
  · next ht =>
    cases hstep
    have hstored := h.fetched c.key addrs ht le_rfl (fun m (hm : none = some m) => by cases hm)
    refine hstored.unlock.listed hid (.inr ⟨⟨_, AList.lookup_insert _, ?_⟩, t, ?_, ?_⟩)
    · exact le_trans (le_trans hbegan ht) (Nat.le_add_right _ _)
    · exact List.mem_cons_self
    · exact le_trans (le_trans hbegan ht) (Nat.le_add_right _ _)
  · cases hstep

theorem Inv.fallBack (error : KmsError)
    (hstep : callStep s id c (.fetched (.error error)) .fallBack = some s') : Inv s' := by
  have hfailed : Inv (s.note (.failed c.key s.clock)) := h.note (by simp)
  have hduring : FailedDuring (.failed c.key s.clock :: s.log) id c.key :=
    ⟨s.clock, during_cons_self (h.calls id c hid).began _⟩
  dsimp only [callStep] at hstep
  split at hstep
  · cases hstep
    have hcounted : Inv ((s.note (.failed c.key s.clock)).unlock.inc .staleServed) :=
      hfailed.unlock.congr rfl rfl rfl rfl
    exact hcounted.listed hid (.inl hduring)
  · cases hstep
    exact hfailed.unlock.goto hid rfl (by simp)

theorem Inv.missLock {signer : Address} {addrs : List Address}
    (hpc : c.pc = .missed signer addrs)
    (hstep : callStep s id c (.missed signer addrs) .missLock = some s') : Inv s' := by
  dsimp only [callStep] at hstep
  split at hstep
  · cases hstep
    have hlocked : Inv { s with missLocks := Function.update s.missLocks c.key (some id) } :=
      h.congr rfl rfl rfl rfl
    exact hlocked.goOn hid (by rw [hpc]; rfl) (by simp)
  · cases hstep

theorem Inv.missCheck {signer : Address} {addrs : List Address}
    (hpc : c.pc = .missLocked signer addrs) {t₁ t₂ : ℕ}
    (hstep : callStep s id c (.missLocked signer addrs) (.missCheck t₁ t₂) = some s') :
    Inv s' := by
  dsimp only [callStep] at hstep
  split at hstep
  · next ht =>
    have ht₂ : s.clock ≤ t₂ := le_trans ht.1 ht.2
    have hmissed : c.pc.missed? = some signer := by rw [hpc]; rfl
    split at hstep
    · next cached t hcheck =>
      cases hstep
      obtain ⟨e, he, hsettled⟩ := Option.bind_eq_some_iff.mp hcheck
      obtain ⟨t', hsettled, heq⟩ := Option.map_eq_some_iff.mp hsettled
      cases heq
      refine ((h.at ht₂).missUnlock c.key).finish hid ?_
      intro signer' hsigner'
      have hsigner := ((h.calls id c hid).missed signer hmissed).1
      obtain rfl : signer = signer' := Option.some.inj (hsigner.symm.trans hsigner')
      exact h.missSettled hid hmissed he hsettled
    · cases hstep
      exact ((h.at ht₂).note (by simp)).goOn hid (by rw [hpc]; rfl) (by simp)
  · cases hstep

theorem Inv.missAnswer {signer : Address} {addrs : List Address}
    (hpc : c.pc = .missFetching signer addrs) {outcome : Except KmsError (List Address)} {t : ℕ}
    (hstep : callStep s id c (.missFetching signer addrs) (.answer outcome t) = some s') :
    Inv s' := by
  dsimp only [callStep] at hstep
  split at hstep
  · next ht =>
    cases hstep
    refine ((h.at ht).incRpc outcome).goOn ?_ (by rw [hpc]; rfl) (by simp)
    rw [incRpc_calls]
    exact hid
  · cases hstep

theorem Inv.missStore (signer : Address) (addrs : List Address) {fresh : List Address} {t₁ t₂ : ℕ}
    (hstep : callStep s id c (.missFetched signer addrs (.ok fresh)) (.missStore t₁ t₂) =
      some s') : Inv s' := by
  have hbegan := (h.calls id c hid).began
  have hbegan_le := (h.calls id c hid).began_le
  dsimp only [callStep] at hstep
  split at hstep
  · next ht =>
    cases hstep
    have ht₂ : s.clock ≤ t₂ := le_trans ht.1 ht.2
    have hstored := h.fetched c.key fresh ht.1 ht.2 (fun m (hm : some t₂ = some m) => by
      cases hm
      exact le_rfl)
    refine (hstored.missUnlock c.key).finish hid ?_
    intro signer _
    refine ⟨fun _ => .inr ⟨t₂, List.mem_cons_self, ?_⟩, fun _ => ?_⟩
    · exact le_trans (le_trans hbegan_le ht₂) (Nat.le_add_right _ _)
    · exact .inr (.inr ⟨t₂, List.mem_cons_self, .inr (during_cons_self hbegan _)⟩)
  · cases hstep

theorem Inv.missFail (signer : Address) {addrs : List Address} (error : KmsError) {t : ℕ}
    (hstep : callStep s id c (.missFetched signer addrs (.error error)) (.missFail t) = some s') :
    Inv s' := by
  have hbegan := (h.calls id c hid).began
  dsimp only [callStep] at hstep
  split at hstep
  · next ht =>
    cases hstep
    refine (((h.at ht).markMiss c.key t).missUnlock c.key).finish ?_ ?_
    · show ((s.at t).markMiss c.key t).calls id = some c
      rw [markMiss_calls]
      exact hid
    · intro signer _
      have hduring : FailedDuring (.failed c.key t :: ((s.at t).markMiss c.key t).log) id
          c.key := by
        rw [markMiss_log]
        exact ⟨t, during_cons_self hbegan _⟩
      exact ⟨fun _ => .inl hduring, fun _ => .inl hduring⟩
  · cases hstep

theorem inv_callStep {pc : Pc} (hpc : c.pc = pc) {action : Action}
    (hstep : callStep s id c pc action = some s') : Inv s' := by
  unfold callStep at hstep
  split at hstep
  · exact h.look hid hstep
  · exact h.lock hid hstep
  · exact h.recheck hid hstep
  · exact h.answer hid hstep
  · exact h.store hid hstep
  · next error => exact h.fallBack hid error hstep
  · exact h.missLock hid hpc hstep
  · exact h.missCheck hid hpc hstep
  · exact h.missAnswer hid hpc hstep
  · next signer addrs fresh t₁ t₂ => exact h.missStore hid signer addrs hstep
  · next signer addrs error t => exact h.missFail hid signer error hstep
  · cases hstep

end Actions

theorem inv_step {s s' : State} (l : ℕ × Action) (h : Inv s) (hstep : step s l = some s') :
    Inv s' := by
  unfold step at hstep
  split at hstep
  · split at hstep
    · next ht =>
      cases hstep
      have hbegan : Inv ((s.at _).note (.began l.1)) := (h.at ht).note (by simp)
      refine ⟨hbegan.entries, ?_, hbegan.lists⟩
      intro id c hc
      by_cases hid : id = l.1
      · subst hid
        simp only [State.setPc, Function.update_self, Option.some.injEq] at hc
        subst hc
        exact ⟨List.mem_cons_self, le_rfl, by simp [Pc.missed?], by simp⟩
      · simp only [State.setPc, Function.update_of_ne hid] at hc
        exact hbegan.calls id c hc
    · cases hstep
  · next hid => exact inv_callStep h hid rfl hstep
  · cases hstep

/-- In every run, whatever the RPC answers and however the calls interleave, each list returned
    for a signer is fresh, and each call that returned a list is on the log with it. -/
theorem lists_fresh (labels : List (ℕ × Action)) (s : State)
    (hrun : exec step State.init labels = some s) :
    ListsFresh s.log ∧ ∀ id c addrs, s.calls id = some c → c.pc = .returned (.ok addrs) →
      ∃ t, .returned id c.key c.signer c.began addrs t ∈ s.log := by
  have hinv : Inv s := exec_invariant (fun s l s' h => inv_step l h) inv_init hrun
  exact ⟨hinv.lists, fun id c addrs hid => (hinv.calls id c hid).returned addrs⟩

/-- A signer registers after the list was fetched and finds itself on it a second later. -/
def registeredRun : List (ℕ × Action) :=
  [(0, .call "rpc" "contract" "app" none 0), (0, .look 0), (0, .lock), (0, .recheck 0),
    (0, .answer (.ok [1]) 0), (0, .store 0),
    (1, .call "rpc" "contract" "app" (some 2) (secs 10)), (1, .look (secs 10)), (1, .missLock),
    (1, .missCheck (secs 10) (secs 10)), (1, .answer (.ok [1, 2]) (secs 11)),
    (1, .missStore (secs 11) (secs 11))]

theorem lists_fresh_registered : ∃ s, exec step State.init registeredRun = some s ∧
    ListsFresh s.log ∧
    ∃ t, .returned 1 "rpc|contract|app" (some 2) (secs 10) [1, 2] t ∈ s.log := by
  obtain ⟨s, c, hrun, hc, hpc, hkey, hsigner, hbegan⟩ :
      ∃ s c, exec step State.init registeredRun = some s ∧ s.calls 1 = some c ∧
        c.pc = .returned (.ok [1, 2]) ∧ c.key = "rpc|contract|app" ∧ c.signer = some 2 ∧
        c.began = secs 10 := ⟨_, _, rfl, rfl, rfl, rfl, rfl, rfl⟩
  have hfresh := lists_fresh registeredRun s hrun
  obtain ⟨t, ht⟩ := hfresh.2 1 c _ hc hpc
  rw [hkey, hsigner, hbegan] at ht
  exact ⟨s, hrun, hfresh.1, t, ht⟩

end KmsCluster.NodeList
