import KmsCluster.NodeListSteps

/-!
# The order of chain reads and cache writes

A lapsed nodeList is refreshed under the refresh lock and a list that lacks a signer under the
miss lock of its key (`get_signer_addresses`, `get_signer_addresses_for` of `src/chain.rs`), so two
fetches of one key can be in flight at once. Each fetch gets the list that the chain held at some
instant between its start and its answer, and its list is stored when its call goes on. `Timed`
adds these instants to the calls of `NodeList`.

## Main results

- `cache_never_back_iff`: when a stored list is never older on the chain than the one it replaces.
-/

namespace KmsCluster.NodeList

open Runs Mutex

/-- The instants of fetches and of their lists, for the properties only. -/
structure Instants where
  /-- When the call's last fetch started. -/
  startedAt : ℕ → ℕ
  /-- The chain instant of the list that the call's last fetch got. -/
  readAt : ℕ → ℕ
  /-- The chain instant of the list that the cache holds for a key. -/
  cachedAt : String → Option ℕ
  /-- The chain instants of the lists that the other path stored for the call's key while its fetch
      was in flight. -/
  overtaken : ℕ → List ℕ

structure Timed where
  state : State
  instants : Instants

def Timed.init : Timed := ⟨State.init, ⟨fun _ => 0, fun _ => 0, fun _ => none, fun _ => []⟩⟩

/-- The call `id` is for `key` and at a position that `p` picks. -/
def State.picks (s : State) (p : Pc → Bool) (key : String) (id : ℕ) : Bool :=
  (s.calls id).any fun c => decide (c.key = key) && p c.pc

/-- The call `id` starts a fetch. -/
def Instants.start (i : Instants) (id now : ℕ) : Instants :=
  { i with
    startedAt := Function.update i.startedAt id now
    overtaken := Function.update i.overtaken id [] }

/-- The fetch of the call `id` got the list of the instant `v`. -/
def Instants.read (i : Instants) (id v : ℕ) : Instants :=
  { i with readAt := Function.update i.readAt id v }

/-- The call `id` stores its list for `key`; `other` picks the calls of the other path. -/
def Instants.store (i : Instants) (s : State) (id : ℕ) (key : String) (other : Pc → Bool) :
    Instants :=
  { i with
    cachedAt := Function.update i.cachedAt key (some (i.readAt id))
    overtaken := fun j =>
      if s.picks other key j then i.readAt id :: i.overtaken j else i.overtaken j }

/-- What a step of the call `c` adds; `v` is the chain instant of an answer. -/
def Instants.record (chain : String → ℕ → List Address) (i : Instants) (s : State) (id : ℕ)
    (c : Call) (v : ℕ) : Action → Option Instants
  | .recheck now | .missCheck _ now => some (i.start id now)
  | .answer (.ok addrs) now =>
    if i.startedAt id ≤ v ∧ v ≤ now ∧ addrs = chain c.key v then some (i.read id v) else none
  | .store _ => some (i.store s id c.key Pc.forcing)
  | .missStore _ _ => some (i.store s id c.key Pc.refreshing)
  | _ => some i

/-- A step of the calls, and the chain instant of the list when it is the answer of a fetch. -/
def timedStep (chain : String → ℕ → List Address) (t : Timed) (l : (ℕ × Action) × ℕ) :
    Option Timed :=
  match step t.state l.1, t.state.calls l.1.1 with
  | some s, some c => (t.instants.record chain t.state l.1.1 c l.2 l.1.2).map (Timed.mk s)
  | some s, none => some ⟨s, t.instants⟩
  | none, _ => none

/-- The step does not replace a cached list by one that was read earlier. -/
def Keeps (chain : String → ℕ → List Address) (t : Timed) (l : (ℕ × Action) × ℕ) : Prop :=
  ∀ t', timedStep chain t l = some t' → ∀ key v, t.instants.cachedAt key = some v →
    ∃ v', t'.instants.cachedAt key = some v' ∧ v ≤ v'

def Action.stores : Action → Bool
  | .store _ | .missStore _ _ => true
  | _ => false

/-- A refresh that stores its list has read it no earlier than each list that the other path stored
    while it was in flight. -/
def InOrder (t : Timed) (l : (ℕ × Action) × ℕ) : Prop :=
  l.1.2.stores = true → ∀ v ∈ t.instants.overtaken l.1.1, v ≤ t.instants.readAt l.1.1

-- ════════════════════════════════════════════════════════════════════════
-- What a step adds
-- ════════════════════════════════════════════════════════════════════════

/-- The call's fetch is in flight or waits to be stored. -/
def Pc.fetches : Pc → Bool
  | .fetching | .fetched _ | .missFetching _ _ | .missFetched _ _ _ => true
  | _ => false

/-- The list that waits to be stored. -/
def Pc.got : Pc → Option (List Address)
  | .fetched outcome | .missFetched _ _ outcome => outcome.toOption
  | _ => none

def lists (cache : Cache) (key : String) : Option (List Address) :=
  (cache.lookup key).map (·.addrs)

/-- What a step of the call `c` to `pc` does to the instants and the cached lists. -/
inductive Effect (chain : String → ℕ → List Address) (s s' : State) (i i' : Instants) (id : ℕ)
    (c : Call) (pc : Pc) (action : Action) : Prop
  | quiet (haction : action.stores = false) (hfetches : pc.fetches = true → c.pc.fetches = true)
      (hgot : pc.got = none) (hi' : i' = i)
      (hlists : ∀ key, lists s'.cache key = lists s.cache key)
  | start (haction : action.stores = false) (hgot : pc.got = none) (hi' : i' = i.start id s'.clock)
      (hlists : ∀ key, lists s'.cache key = lists s.cache key)
  | read (haction : action.stores = false) (hfetches : c.pc.fetches = true) (v : ℕ)
      (hgot : pc.got = some (chain c.key v)) (hstart : i.startedAt id ≤ v) (hle : v ≤ s'.clock)
      (hi' : i' = i.read id v) (hlists : ∀ key, lists s'.cache key = lists s.cache key)
  | store (haction : action.stores = true) (addrs : List Address) (hgot : c.pc.got = some addrs)
      (hfetches : pc.fetches = false) (own other : Pc → Bool)
      (hown : own = Pc.refreshing ∧ other = Pc.forcing ∨ own = Pc.forcing ∧ other = Pc.refreshing)
      (hpc : own c.pc = true) (hi' : i' = i.store s id c.key other)
      (hlists : ∀ key, lists s'.cache key = if key = c.key then some addrs else lists s.cache key)

section
variable {chain : String → ℕ → List Address} {s s' : State} {i i' : Instants}

theorem Leaves.fetches {id : ℕ} {c : Call} {addrs : List Address} {now : ℕ} {pc : Pc}
    {events : List Event} (h : Leaves id c addrs now pc events) : pc.fetches = false := by
  cases h with
  | returned => rfl
  | missed signer hsigner hnot => rfl

theorem got_of_fetches {pc : Pc} (h : pc.fetches = false) : pc.got = none := by
  cases pc with
  | fetching | fetched | missFetching | missFetched => cases h
  | entered | waiting | locked | missed | missLocked | returned => rfl

theorem lists_insert (cache : Cache) (key : String) (e : NodeListEntry) (key' : String) :
    lists (AList.insert key e cache) key' =
      if key' = key then some e.addrs else lists cache key' := by
  unfold lists
  by_cases hkey : key' = key
  · rw [if_pos hkey, hkey, AList.lookup_insert]
    rfl
  · rw [if_neg hkey, AList.lookup_insert_ne hkey]

/-- Stamping an entry leaves its list. -/
theorem lists_marked (cache : Cache) (key : String) (m : ℕ) (key' : String) :
    lists (match cache.lookup key with
      | some e => AList.insert key { e with missRefreshAt := some m } cache
      | none => cache) key' = lists cache key' := by
  split
  · next e he =>
    rw [lists_insert]
    split
    · next hkey =>
      subst hkey
      unfold lists
      rw [he]
      rfl
    · rfl
  · rfl

theorem effect_of_answer {id : ℕ} {c : Call} {v : ℕ} {pc : Pc}
    {outcome : Except KmsError (List Address)} (hfetches : c.pc.fetches = true)
    (hgot : pc.got = outcome.toOption) (hlists : ∀ key, lists s'.cache key = lists s.cache key)
    (h : i.record chain s id c v (.answer outcome s'.clock) = some i') :
    Effect chain s s' i i' id c pc (.answer outcome s'.clock) := by
  cases outcome with
  | error e =>
    cases h
    exact .quiet rfl (fun _ => hfetches) hgot rfl hlists
  | ok addrs =>
    simp only [Instants.record] at h
    split at h
    · next hread =>
      obtain ⟨hstart, hle, rfl⟩ := hread
      cases h
      exact .read rfl hfetches v hgot hstart hle rfl hlists
    · cases h

theorem effect_of_record {id : ℕ} {c : Call} {now v : ℕ} {action : Action} {pc : Pc}
    {events : List Event} {cache : Cache} (hmoves : Moves s id c now action pc events cache)
    (hnow : s'.clock = now) (hcache : s'.cache = cache)
    (h : i.record chain s id c v action = some i') : Effect chain s s' i i' id c pc action := by
  have hsame : cache = s.cache → ∀ key, lists s'.cache key = lists s.cache key := by
    intro heq key
    rw [hcache, heq]
  subst hnow
  cases hmoves with
  | lapse | lock | missLock | fail =>
    cases h
    exact .quiet rfl nofun rfl rfl (hsame rfl)
  | hit hpc he hfresh hleaves =>
    have hnone := hleaves.fetches
    rcases hpc with ⟨-, rfl⟩ | ⟨-, rfl⟩
    · cases h
      exact .quiet rfl (by rw [hnone]; nofun) (got_of_fetches hnone) rfl (hsame rfl)
    · cases h
      exact .start rfl (got_of_fetches hnone) rfl (hsame rfl)
  | issue | missIssue | settle =>
    cases h
    exact .start rfl rfl rfl (hsame rfl)
  | answer hpc | missAnswer hpc =>
    exact effect_of_answer (by rw [hpc]; rfl) rfl (hsame rfl) h
  | stale hpc hold hleaves =>
    have hnone := hleaves.fetches
    cases h
    exact .quiet rfl (by rw [hnone]; nofun) (got_of_fetches hnone) rfl (hsame rfl)
  | store hpc hleaves =>
    cases h
    refine .store rfl _ (by rw [hpc]; rfl) hleaves.fetches _ _ (.inl ⟨rfl, rfl⟩) (by rw [hpc]; rfl)
      rfl ?_
    intro key
    rw [hcache]
    exact lists_insert ..
  | missStore hpc =>
    cases h
    refine .store rfl _ (by rw [hpc]; rfl) rfl _ _ (.inr ⟨rfl, rfl⟩) (by rw [hpc]; rfl) rfl ?_
    intro key
    rw [hcache]
    exact lists_insert ..
  | missFail hpc heq =>
    cases h
    refine .quiet rfl nofun rfl rfl ?_
    intro key
    rw [hcache, heq]
    exact lists_marked ..

/-- Everything a step can do to the instants. -/
theorem timedStep_cases {t t' : Timed} {l : (ℕ × Action) × ℕ}
    (h : timedStep chain t l = some t') : step t.state l.1 = some t'.state ∧
    ((∃ c, Begins t.state t'.state l.1.1 l.1.2 c ∧ t'.instants = t.instants) ∨
      ∃ c pc events, Goes t.state t'.state l.1.1 l.1.2 c pc events ∧
        Effect chain t.state t'.state t.instants t'.instants l.1.1 c pc l.1.2) := by
  unfold timedStep at h
  split at h
  · next s c hs hc =>
    obtain ⟨i, hi, rfl⟩ := Option.map_eq_some_iff.mp h
    refine ⟨hs, ?_⟩
    obtain ⟨c', hbegins⟩ | ⟨c', pc, events, hgoes⟩ := step_cases hs
    · cases hbegins.free.symm.trans hc
    · cases hgoes.call.symm.trans hc
      exact .inr ⟨c, pc, events, hgoes, effect_of_record hgoes.moves rfl rfl hi⟩
  · next s hs hc =>
    cases h
    refine ⟨hs, ?_⟩
    obtain ⟨c', hbegins⟩ | ⟨c', pc, events, hgoes⟩ := step_cases hs
    · exact .inl ⟨c', hbegins, rfl⟩
    · cases hgoes.call.symm.trans hc
  · cases h

-- ════════════════════════════════════════════════════════════════════════
-- The instants along a run
-- ════════════════════════════════════════════════════════════════════════

/-- What holds of the instants in every run. -/
structure TimedInv (chain : String → ℕ → List Address) (s : State) (i : Instants) : Prop where
  guard : Guard s
  cached_le : ∀ key v, i.cachedAt key = some v → v ≤ s.clock
  /-- The cached list was read before the fetch started, or overtook it. -/
  flight : ∀ id c v, s.calls id = some c → c.pc.fetches = true → i.cachedAt c.key = some v →
    v ≤ i.startedAt id ∨ v ∈ i.overtaken id
  read : ∀ id c addrs, s.calls id = some c → c.pc.got = some addrs →
    i.startedAt id ≤ i.readAt id ∧ i.readAt id ≤ s.clock ∧ addrs = chain c.key (i.readAt id)
  list : ∀ key, lists s.cache key = (i.cachedAt key).map (chain key)

theorem timedInv_init : TimedInv chain Timed.init.state Timed.init.instants := by
  refine ⟨guard_init, ?_, ?_, ?_, ?_⟩
  · intro key v hv
    cases hv
  · intro id c v hc
    cases hc
  · intro id c addrs hc
    cases hc
  · intro key
    rfl

theorem fetches_of_got {pc : Pc} {addrs : List Address} (h : pc.got = some addrs) :
    pc.fetches = true := by
  cases pc with
  | fetching | fetched | missFetching | missFetched => rfl
  | entered | waiting | locked | missed | missLocked | returned => cases h

theorem path_of_fetches {pc : Pc} (h : pc.fetches = true) :
    pc.refreshing = true ∨ pc.forcing = true := by
  cases pc with
  | fetching | fetched => exact .inl rfl
  | missFetching | missFetched => exact .inr rfl
  | entered | waiting | locked | missed | missLocked | returned => cases h

/-- Two fetches of one key in flight are on different paths. -/
theorem picks_of_fetches (hguard : Guard s) {id j : ℕ} {c c' : Call} {own other : Pc → Bool}
    (hown : own = Pc.refreshing ∧ other = Pc.forcing ∨ own = Pc.forcing ∧ other = Pc.refreshing)
    (hc : s.calls id = some c) (hpc : own c.pc = true) (hc' : s.calls j = some c')
    (hfetches : c'.pc.fetches = true) (hkey : c'.key = c.key) (hne : j ≠ id) :
    s.picks other c.key j = true := by
  have hpath : own c'.pc = true ∨ other c'.pc = true := by
    rcases hown with ⟨rfl, rfl⟩ | ⟨rfl, rfl⟩
    · exact path_of_fetches hfetches
    · exact (path_of_fetches hfetches).symm
  rcases hpath with hsame | hother
  · refine absurd ?_ hne
    rcases hown with ⟨rfl, -⟩ | ⟨rfl, -⟩
    · exact hguard.refresh.exclusive ⟨c.key, c', hc', hkey, hsame⟩ ⟨c.key, c, hc, rfl, hpc⟩
    · exact (hguard.miss c.key).exclusive ⟨c', hc', hkey, hsame⟩ ⟨c, hc, rfl, hpc⟩
  · simp [State.picks, hc', hkey, hother]

theorem store_cachedAt_of_ne {id : ℕ} {key key' : String} {other : Pc → Bool} (h : key' ≠ key) :
    (i.store s id key other).cachedAt key' = i.cachedAt key' :=
  Function.update_of_ne h ..

theorem store_cachedAt_self {id : ℕ} {key : String} {other : Pc → Bool} :
    (i.store s id key other).cachedAt key = some (i.readAt id) :=
  Function.update_self ..

theorem store_overtaken_of_ne {id j : ℕ} {key : String} {other : Pc → Bool} {c' : Call}
    (hc' : s.calls j = some c') (hkey : c'.key ≠ key) :
    (i.store s id key other).overtaken j = i.overtaken j := by
  have hpicks : s.picks other key j = false := by simp [State.picks, hc', hkey]
  exact if_neg (by rw [hpicks]; nofun)

theorem TimedInv.begins (h : TimedInv chain s i) (hguard : Guard s') {id : ℕ}
    {action : Action} {c : Call} (hbegins : Begins s s' id action c) : TimedInv chain s' i := by
  refine ⟨hguard, ?_, ?_, ?_, ?_⟩
  · intro key v hv
    exact le_trans (h.cached_le key v hv) hbegins.clock_le
  · intro j c' v hc' hfetches
    rcases hbegins.calls_cases hc' with ⟨-, rfl⟩ | ⟨-, hc'⟩
    · rw [hbegins.pc] at hfetches
      cases hfetches
    · exact h.flight j c' v hc' hfetches
  · intro j c' addrs hc' hgot
    rcases hbegins.calls_cases hc' with ⟨-, rfl⟩ | ⟨-, hc'⟩
    · rw [hbegins.pc] at hgot
      cases hgot
    · obtain ⟨hstart, hle, haddrs⟩ := h.read j c' addrs hc' hgot
      exact ⟨hstart, le_trans hle hbegins.clock_le, haddrs⟩
  · intro key
    rw [hbegins.cache]
    exact h.list key

section
variable {id : ℕ} {c : Call} {pc : Pc} {action : Action} {events : List Event}

theorem TimedInv.cached_le_of_effect (h : TimedInv chain s i)
    (hgoes : Goes s s' id action c pc events) (heffect : Effect chain s s' i i' id c pc action) :
    ∀ key v, i'.cachedAt key = some v → v ≤ s'.clock := by
  intro key v hv
  cases heffect with
  | quiet | start | read =>
    subst i'
    exact le_trans (h.cached_le key v hv) hgoes.clock_le
  | store haction addrs hgot hfetches own other hown hpc hi' hlists =>
    subst hi'
    by_cases hkey : key = c.key
    · rw [hkey, store_cachedAt_self] at hv
      cases hv
      exact le_trans (h.read id c addrs hgoes.call hgot).2.1 hgoes.clock_le
    · rw [store_cachedAt_of_ne hkey] at hv
      exact le_trans (h.cached_le key v hv) hgoes.clock_le

theorem TimedInv.flight_of_effect (h : TimedInv chain s i)
    (hgoes : Goes s s' id action c pc events) (heffect : Effect chain s s' i i' id c pc action) :
    ∀ j c' v, s'.calls j = some c' → c'.pc.fetches = true → i'.cachedAt c'.key = some v →
      v ≤ i'.startedAt j ∨ v ∈ i'.overtaken j := by
  intro j c' v hc' hfetches' hv
  cases heffect with
  | quiet haction hfetches hgot hi' hlists =>
    subst hi'
    rcases hgoes.calls_cases hc' with ⟨rfl, rfl⟩ | ⟨-, hc'⟩
    · exact h.flight j c v hgoes.call (hfetches hfetches') hv
    · exact h.flight j c' v hc' hfetches' hv
  | start haction hgot hi' hlists =>
    subst hi'
    rcases hgoes.calls_cases hc' with ⟨rfl, rfl⟩ | ⟨hne, hc'⟩
    · left
      simp only [Instants.start, Function.update_self]
      exact le_trans (h.cached_le _ v hv) hgoes.clock_le
    · simp only [Instants.start, Function.update_of_ne hne]
      exact h.flight j c' v hc' hfetches' hv
  | read haction hfetches v' hgot hstart hle hi' hlists =>
    subst hi'
    rcases hgoes.calls_cases hc' with ⟨rfl, rfl⟩ | ⟨-, hc'⟩
    · exact h.flight j c v hgoes.call hfetches hv
    · exact h.flight j c' v hc' hfetches' hv
  | store haction addrs hgot hfetches own other hown hpc hi' hlists =>
    subst hi'
    rcases hgoes.calls_cases hc' with ⟨rfl, rfl⟩ | ⟨hne, hc'⟩
    · cases hfetches.symm.trans hfetches'
    · by_cases hkey : c'.key = c.key
      · -- the other fetch is on the other path, so it is overtaken
        have hpicks := picks_of_fetches h.guard hown hgoes.call hpc hc' hfetches' hkey hne
        rw [hkey, store_cachedAt_self] at hv
        cases hv
        right
        simp only [Instants.store, hpicks, if_true]
        exact List.mem_cons_self
      · rw [store_cachedAt_of_ne hkey] at hv
        rw [store_overtaken_of_ne hc' hkey]
        exact h.flight j c' v hc' hfetches' hv

theorem TimedInv.read_of_effect (h : TimedInv chain s i)
    (hgoes : Goes s s' id action c pc events) (heffect : Effect chain s s' i i' id c pc action) :
    ∀ j c' addrs, s'.calls j = some c' → c'.pc.got = some addrs →
      i'.startedAt j ≤ i'.readAt j ∧ i'.readAt j ≤ s'.clock ∧
        addrs = chain c'.key (i'.readAt j) := by
  intro j c' addrs' hc' hgot'
  have hothers : s.calls j = some c' → i.startedAt j ≤ i.readAt j ∧ i.readAt j ≤ s'.clock ∧
      addrs' = chain c'.key (i.readAt j) := by
    intro hc'
    obtain ⟨hstart, hle, haddrs⟩ := h.read j c' addrs' hc' hgot'
    exact ⟨hstart, le_trans hle hgoes.clock_le, haddrs⟩
  cases heffect with
  | quiet haction hfetches hgot hi' hlists =>
    subst hi'
    rcases hgoes.calls_cases hc' with ⟨rfl, rfl⟩ | ⟨-, hc'⟩
    · cases hgot.symm.trans hgot'
    · exact hothers hc'
  | start haction hgot hi' hlists =>
    subst hi'
    rcases hgoes.calls_cases hc' with ⟨rfl, rfl⟩ | ⟨hne, hc'⟩
    · cases hgot.symm.trans hgot'
    · simp only [Instants.start, Function.update_of_ne hne]
      exact hothers hc'
  | read haction hfetches v hgot hstart hle hi' hlists =>
    subst hi'
    rcases hgoes.calls_cases hc' with ⟨rfl, rfl⟩ | ⟨hne, hc'⟩
    · cases hgot.symm.trans hgot'
      simp only [Instants.read, Function.update_self]
      exact ⟨hstart, hle, rfl⟩
    · simp only [Instants.read, Function.update_of_ne hne]
      exact hothers hc'
  | store haction addrs hgot hfetches own other hown hpc hi' hlists =>
    subst hi'
    rcases hgoes.calls_cases hc' with ⟨rfl, rfl⟩ | ⟨-, hc'⟩
    · cases hfetches.symm.trans (fetches_of_got hgot')
    · exact hothers hc'

theorem TimedInv.list_of_effect (h : TimedInv chain s i)
    (hgoes : Goes s s' id action c pc events) (heffect : Effect chain s s' i i' id c pc action) :
    ∀ key, lists s'.cache key = (i'.cachedAt key).map (chain key) := by
  intro key
  cases heffect with
  | quiet | start | read =>
    subst i'
    rename_i hlists
    exact (hlists key).trans (h.list key)
  | store haction addrs hgot hfetches own other hown hpc hi' hlists =>
    subst hi'
    rw [hlists]
    by_cases hkey : key = c.key
    · rw [if_pos hkey, hkey, store_cachedAt_self, (h.read id c addrs hgoes.call hgot).2.2]
      rfl
    · rw [if_neg hkey, store_cachedAt_of_ne hkey]
      exact h.list key

end

theorem TimedInv.step {t t' : Timed} (h : TimedInv chain t.state t.instants)
    {l : (ℕ × Action) × ℕ} (hstep : timedStep chain t l = some t') :
    TimedInv chain t'.state t'.instants := by
  obtain ⟨hbase, ⟨c, hbegins, hi⟩ | ⟨c, pc, events, hgoes, heffect⟩⟩ := timedStep_cases hstep
  · rw [hi]
    exact h.begins (h.guard.step hbase) hbegins
  · exact ⟨h.guard.step hbase, h.cached_le_of_effect hgoes heffect,
      h.flight_of_effect hgoes heffect, h.read_of_effect hgoes heffect,
      h.list_of_effect hgoes heffect⟩

/-- What overtook a fetch in flight is not newer than the cached list. -/
def Behind (s : State) (i : Instants) : Prop :=
  ∀ id c, s.calls id = some c → c.pc.fetches = true → ∀ v ∈ i.overtaken id,
    ∃ v', i.cachedAt c.key = some v' ∧ v ≤ v'

theorem Behind.step {t t' : Timed} (h : Behind t.state t.instants)
    (hinv : TimedInv chain t.state t.instants) {l : (ℕ × Action) × ℕ} (hkeeps : Keeps chain t l)
    (hstep : timedStep chain t l = some t') : Behind t'.state t'.instants := by
  have hkeeps := hkeeps t' hstep
  have hold : ∀ key v, (∃ v', t.instants.cachedAt key = some v' ∧ v ≤ v') →
      ∃ v', t'.instants.cachedAt key = some v' ∧ v ≤ v' := by
    rintro key v ⟨v₀, hv₀, hle⟩
    obtain ⟨v', hv', hle'⟩ := hkeeps key v₀ hv₀
    exact ⟨v', hv', le_trans hle hle'⟩
  intro j c' hc' hfetches' v hv
  obtain ⟨hbase, ⟨c, hbegins, hi⟩ | ⟨c, pc, events, hgoes, heffect⟩⟩ := timedStep_cases hstep
  · rw [hi] at hv
    rcases hbegins.calls_cases hc' with ⟨-, rfl⟩ | ⟨-, hc'⟩
    · rw [hbegins.pc] at hfetches'
      cases hfetches'
    · exact hold _ v (h j c' hc' hfetches' v hv)
  · cases heffect with
    | quiet haction hfetches hgot hi' hlists =>
      rw [hi'] at hv
      rcases hgoes.calls_cases hc' with ⟨rfl, rfl⟩ | ⟨-, hc'⟩
      · exact hold _ v (h _ c hgoes.call (hfetches hfetches') v hv)
      · exact hold _ v (h j c' hc' hfetches' v hv)
    | start haction hgot hi' hlists =>
      rw [hi'] at hv
      rcases hgoes.calls_cases hc' with ⟨rfl, rfl⟩ | ⟨hne, hc'⟩
      · simp [Instants.start] at hv
      · simp only [Instants.start, Function.update_of_ne hne] at hv
        exact hold _ v (h j c' hc' hfetches' v hv)
    | read haction hfetches v' hgot hstart hle hi' hlists =>
      rw [hi'] at hv
      rcases hgoes.calls_cases hc' with ⟨rfl, rfl⟩ | ⟨-, hc'⟩
      · exact hold _ v (h _ c hgoes.call hfetches v hv)
      · exact hold _ v (h j c' hc' hfetches' v hv)
    | store haction addrs hgot hfetches own other hown hpc hi' hlists =>
      rcases hgoes.calls_cases hc' with ⟨rfl, rfl⟩ | ⟨hne, hc'⟩
      · cases hfetches.symm.trans hfetches'
      · rw [hi'] at hv
        by_cases hkey : c'.key = c.key
        · have hpicks := picks_of_fetches hinv.guard hown hgoes.call hpc hc' hfetches' hkey hne
          simp only [Instants.store, hpicks, if_true] at hv
          rcases List.mem_cons.mp hv with rfl | hv
          · rw [hi', hkey]
            exact ⟨_, store_cachedAt_self, le_rfl⟩
          · exact hold _ v (h j c' hc' hfetches' v hv)
        · rw [store_overtaken_of_ne hc' hkey] at hv
          exact hold _ v (h j c' hc' hfetches' v hv)

/-- A step keeps the order of the cached lists exactly when nothing newer overtook the fetch that it
    stores. -/
theorem keeps_iff_inOrder {t t' : Timed} (hinv : TimedInv chain t.state t.instants)
    (hbehind : Behind t.state t.instants) {l : (ℕ × Action) × ℕ}
    (hstep : timedStep chain t l = some t') : Keeps chain t l ↔ InOrder t l := by
  -- a step that stores nothing meets both
  have hquiet : l.1.2.stores = false → t'.instants.cachedAt = t.instants.cachedAt →
      (Keeps chain t l ↔ InOrder t l) := by
    intro haction hcached
    refine iff_of_true ?_ (fun hstores => absurd (haction.symm.trans hstores) nofun)
    intro t'' hstep' key v hv
    cases hstep.symm.trans hstep'
    exact ⟨v, by rw [hcached, hv], le_rfl⟩
  obtain ⟨-, ⟨c, hbegins, hi⟩ | ⟨c, pc, events, hgoes, heffect⟩⟩ := timedStep_cases hstep
  · exact hquiet (by rw [hbegins.action]; rfl) (by rw [hi])
  cases heffect with
  | quiet haction hfetches hgot hi' hlists => exact hquiet haction (by rw [hi'])
  | start haction hgot hi' hlists =>
    exact hquiet haction (by rw [hi']; rfl)
  | read haction hfetches v' hgot hstart hle hi' hlists =>
    exact hquiet haction (by rw [hi']; rfl)
  | store haction addrs hgot hfetches own other hown hpc hi' hlists =>
    have hinFlight := fetches_of_got hgot
    constructor
    · intro hkeeps _ v hv
      obtain ⟨v₀, hv₀, hle⟩ := hbehind _ c hgoes.call hinFlight v hv
      obtain ⟨v', hv', hle'⟩ := hkeeps t' hstep c.key v₀ hv₀
      rw [hi', store_cachedAt_self] at hv'
      cases hv'
      exact le_trans hle hle'
    · intro hinOrder t'' hstep' key v hv
      cases hstep.symm.trans hstep'
      rw [hi']
      by_cases hkey : key = c.key
      · subst hkey
        refine ⟨_, store_cachedAt_self, ?_⟩
        rcases hinv.flight _ c v hgoes.call hinFlight hv with hle | hover
        · exact le_trans hle (hinv.read _ c addrs hgoes.call hgot).1
        · exact hinOrder haction v hover
      · exact ⟨v, by rw [store_cachedAt_of_ne hkey, hv], le_rfl⟩

end

/-- In every run: the cache holds the lists that the chain had at `cachedAt`, and it never goes back
    in time exactly when every refresh that stores its list has read it no earlier than each list
    of the key that the other path stored while it was in flight. -/
theorem cache_never_back_iff {chain : String → ℕ → List Address} {labels : List ((ℕ × Action) × ℕ)}
    {t : Timed} (hrun : exec (timedStep chain) Timed.init labels = some t) :
    (∀ key, lists t.state.cache key = (t.instants.cachedAt key).map (chain key)) ∧
      (Meets (timedStep chain) (Keeps chain) Timed.init labels ↔
        Meets (timedStep chain) InOrder Timed.init labels) := by
  have hinv : TimedInv chain t.state t.instants :=
    exec_invariant (I := fun t => TimedInv chain t.state t.instants)
      (fun t l t' h hstep => h.step hstep) timedInv_init hrun
  refine ⟨hinv.list, ?_⟩
  refine meets_iff_of_invariant
    (I := fun t => TimedInv chain t.state t.instants ∧ Behind t.state t.instants) ?_ ?_ ?_ hrun
  · rintro t l t' ⟨hinv, hbehind⟩ hinOrder hstep
    exact ⟨hinv.step hstep,
      hbehind.step hinv ((keeps_iff_inOrder hinv hbehind hstep).mpr hinOrder) hstep⟩
  · rintro t l t' ⟨hinv, hbehind⟩ hstep
    exact keeps_iff_inOrder hinv hbehind hstep
  · refine ⟨timedInv_init, ?_⟩
    intro id c hc
    cases hc

/-- Address 2 is registered at 31 s. -/
def registry (_ : String) (v : ℕ) : List Address := if v < secs 31 then [1] else [1, 2]

/-- The list of `[1]` is cached; call 1 misses address 2 just before the entry lapses and call 2
    starts the refresh of the lapsed entry at 30 s, which reads the chain at `v`; call 1 forces its
    refresh at 31 s, which reads the chain at 32 s and stores its list first. -/
def overlapRun (v : ℕ) : List ((ℕ × Action) × ℕ) :=
  [((0, .call "rpc" "contract" "app" none 0), 0), ((0, .look 0), 0), ((0, .lock), 0),
    ((0, .recheck 0), 0), ((0, .answer (.ok [1]) 0), 0), ((0, .store 0), 0),
    ((1, .call "rpc" "contract" "app" (some 2) (secs 29)), 0), ((1, .look (secs 29)), 0),
    ((1, .missLock), 0),
    ((2, .call "rpc" "contract" "app" none (secs 30)), 0), ((2, .look (secs 30)), 0),
    ((2, .lock), 0), ((2, .recheck (secs 30)), 0),
    ((1, .missCheck (secs 31) (secs 31)), 0),
    ((1, .answer (.ok [1, 2]) (secs 33)), secs 32), ((1, .missStore (secs 33) (secs 33)), 0),
    ((2, .answer (.ok (registry "rpc|contract|app" v)) (secs 34)), v)]

/-- Evaluates `InOrder`. -/
def inOrder (t : Timed) (l : (ℕ × Action) × ℕ) : Bool :=
  !l.1.2.stores || (t.instants.overtaken l.1.1).all (fun v => decide (v ≤ t.instants.readAt l.1.1))

theorem inOrder_sound (t : Timed) (l : (ℕ × Action) × ℕ) (h : inOrder t l = true) :
    InOrder t l := by
  intro hstores v hv
  simp only [inOrder, hstores, Bool.not_true, Bool.false_or, List.all_eq_true] at h
  exact of_decide_eq_true (h v hv)

theorem cache_never_back_overlap : ∃ t,
    exec (timedStep registry) Timed.init (overlapRun (secs 33) ++ [((2, .store (secs 34)), 0)]) =
      some t ∧
    Meets (timedStep registry) (Keeps registry) Timed.init
      (overlapRun (secs 33) ++ [((2, .store (secs 34)), 0)]) := by
  obtain ⟨t, hrun, hcheck⟩ : ∃ t,
      exec (timedStep registry) Timed.init (overlapRun (secs 33) ++ [((2, .store (secs 34)), 0)]) =
        some t ∧
      check (timedStep registry) inOrder Timed.init
        (overlapRun (secs 33) ++ [((2, .store (secs 34)), 0)]) = true := ⟨_, rfl, rfl⟩
  exact ⟨t, hrun, (cache_never_back_iff hrun).2.mpr (meets_of_check inOrder_sound hcheck)⟩

/-- Call 2 read the chain at 30 s and stores its list after the one that was read at 32 s: address
    2 is no longer on the cached list. -/
theorem newer_list_overwritten : ∃ t t',
    exec (timedStep registry) Timed.init (overlapRun (secs 30)) = some t ∧
    t.instants.cachedAt "rpc|contract|app" = some (secs 32) ∧
    lists t.state.cache "rpc|contract|app" = some [1, 2] ∧
    timedStep registry t ((2, .store (secs 34)), 0) = some t' ∧
    t'.instants.cachedAt "rpc|contract|app" = some (secs 30) ∧
    lists t'.state.cache "rpc|contract|app" = some [1] :=
  ⟨_, _, rfl, rfl, rfl, rfl, rfl, rfl⟩

end KmsCluster.NodeList
