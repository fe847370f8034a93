import KmsCluster.Lib.Mutex
import KmsCluster.NodeList

/-!
# What a step of a nodeList call does

The steps of `NodeList.step`, each with the clock reading, position, events and cache it leaves.
The properties of runs are derived from `step_cases` and the two lock lemmas, without the step
function.

## Main results

- `step_cases`: everything a step can do to the clock, the calls, the log and the cache.
- `Guard.step`: the refresh lock and the miss locks exclude.
-/

namespace KmsCluster.NodeList

open Mutex

/-- How a call leaves `get_signer_addresses` with a list: it returns it, or its signer is missing
    from it. -/
inductive Leaves (id : ℕ) (c : Call) (addrs : List Address) (t : ℕ) : Pc → List Event → Prop
  | returned : Leaves id c addrs t (.returned (.ok addrs))
      [.returned id c.key c.signer c.began addrs t]
  | missed (signer : Address) (hsigner : c.signer = some signer) (hnot : signer ∉ addrs) :
      Leaves id c addrs t (.missed signer addrs) []

/-- No entry for `key` is within its TTL at `t`. -/
def Lapsed (cache : Cache) (key : String) (t : ℕ) : Prop :=
  ∀ e, cache.lookup key = some e → nodeListTtl ≤ t - e.fetchedAt

/-- A step of the call `c`, at `now`: where it goes, what it logs and the cache it leaves. -/
inductive Moves (s : State) (id : ℕ) (c : Call) (now : ℕ) :
    Action → Pc → List Event → Cache → Prop
  | lapse (hpc : c.pc = .entered) (hlapsed : Lapsed s.cache c.key now) :
      Moves s id c now (.look now) .waiting [] s.cache
  | hit {action : Action} {e : NodeListEntry} {pc : Pc} {events : List Event}
      (hpc : c.pc = .entered ∧ action = .look now ∨ c.pc = .locked ∧ action = .recheck now)
      (he : s.cache.lookup c.key = some e) (hfresh : now - e.fetchedAt < nodeListTtl)
      (hleaves : Leaves id c e.addrs now pc events) : Moves s id c now action pc events s.cache
  | lock (hpc : c.pc = .waiting) : Moves s id c now .lock .locked [] s.cache
  | issue (hpc : c.pc = .locked) (hlapsed : Lapsed s.cache c.key now) :
      Moves s id c now (.recheck now) .fetching [.issued id c.key false now] s.cache
  | answer {outcome : Except KmsError (List Address)} (hpc : c.pc = .fetching) :
      Moves s id c now (.answer outcome now) (.fetched outcome) [] s.cache
  | store {addrs : List Address} {pc : Pc} {events : List Event} (hpc : c.pc = .fetched (.ok addrs))
      (hleaves : Leaves id c addrs now pc events) :
      Moves s id c now (.store now) pc (events ++ [.fetched c.key addrs now])
        (AList.insert c.key ⟨addrs, now, none⟩ s.cache)
  | stale {error : KmsError} {old : NodeListEntry} {pc : Pc} {events : List Event}
      (hpc : c.pc = .fetched (.error error)) (hold : s.cache.lookup c.key = some old)
      (hleaves : Leaves id c old.addrs now pc events) :
      Moves s id c now .fallBack pc (events ++ [.failed c.key now]) s.cache
  | fail {error : KmsError} (hpc : c.pc = .fetched (.error error))
      (hnone : s.cache.lookup c.key = none) :
      Moves s id c now .fallBack (.returned (.error error)) [.failed c.key now] s.cache
  | missLock {signer : Address} {addrs : List Address} (hpc : c.pc = .missed signer addrs) :
      Moves s id c now .missLock (.missLocked signer addrs) [] s.cache
  | settle {signer : Address} {addrs : List Address} {e : NodeListEntry} {t₁ t : ℕ}
      (hpc : c.pc = .missLocked signer addrs) (ht₁ : t₁ ≤ now)
      (he : s.cache.lookup c.key = some e)
      (hsettled : e.missSettled signer t₁ now = some t) :
      Moves s id c now (.missCheck t₁ now) (.returned (.ok e.addrs))
        [.returned id c.key c.signer c.began e.addrs t] s.cache
  | missIssue {signer : Address} {addrs : List Address} {t₁ : ℕ}
      (hpc : c.pc = .missLocked signer addrs) (ht₁ : t₁ ≤ now)
      (hopen : ∀ e, s.cache.lookup c.key = some e → e.missSettled signer t₁ now = none) :
      Moves s id c now (.missCheck t₁ now) (.missFetching signer addrs)
        [.issued id c.key true now] s.cache
  | missAnswer {signer : Address} {addrs : List Address}
      {outcome : Except KmsError (List Address)} (hpc : c.pc = .missFetching signer addrs) :
      Moves s id c now (.answer outcome now) (.missFetched signer addrs outcome) [] s.cache
  | missStore {signer : Address} {addrs fresh : List Address} {t₁ : ℕ}
      (hpc : c.pc = .missFetched signer addrs (.ok fresh)) (ht₁ : s.clock ≤ t₁) (hle : t₁ ≤ now) :
      Moves s id c now (.missStore t₁ now) (.returned (.ok fresh))
        [.returned id c.key c.signer c.began fresh now, .fetched c.key fresh now]
        (AList.insert c.key ⟨fresh, t₁, some now⟩ s.cache)
  | missFail {signer : Address} {addrs : List Address} {error : KmsError} {cache : Cache}
      (hpc : c.pc = .missFetched signer addrs (.error error))
      (hcache : cache = match s.cache.lookup c.key with
        | some e => AList.insert c.key { e with missRefreshAt := some now } s.cache
        | none => s.cache) :
      Moves s id c now (.missFail now) (.returned (.ok addrs))
        [.returned id c.key c.signer c.began addrs now, .failed c.key now] cache

/-- The call holds the refresh lock. -/
def Pc.refreshing : Pc → Bool
  | .locked | .fetching | .fetched _ => true
  | _ => false

/-- The call holds the miss lock of its key. -/
def Pc.forcing : Pc → Bool
  | .missLocked _ _ | .missFetching _ _ | .missFetched _ _ _ => true
  | _ => false

/-- A call begins. -/
structure Begins (s s' : State) (id : ℕ) (action : Action) (c : Call) : Prop where
  action : action = .call c.rpcUrl c.contractAddress c.appId c.signer c.began
  free : s.calls id = none
  pc : c.pc = .entered
  clock_le : s.clock ≤ s'.clock
  calls : s'.calls = Function.update s.calls id (some c)
  log : s'.log = .began id :: s.log
  cache : s'.cache = s.cache
  refreshLock : s'.refreshLock = s.refreshLock
  missLocks : s'.missLocks = s.missLocks

/-- A call that is under way goes to `pc`. -/
structure Goes (s s' : State) (id : ℕ) (action : Action) (c : Call) (pc : Pc)
    (events : List Event) : Prop where
  call : s.calls id = some c
  clock_le : s.clock ≤ s'.clock
  calls : s'.calls = Function.update s.calls id (some { c with pc := pc })
  log : s'.log = events ++ s.log
  moves : Moves s id c s'.clock action pc events s'.cache
  refreshLock : Passes id c.pc.refreshing pc.refreshing s.refreshLock s'.refreshLock
  missLock : Passes id c.pc.forcing pc.forcing (s.missLocks c.key) (s'.missLocks c.key)
  otherMissLocks : ∀ key, key ≠ c.key → s'.missLocks key = s.missLocks key

section
variable {s s' : State} {id : ℕ} {c : Call}

theorem Leaves.refreshing {addrs : List Address} {t : ℕ} {pc : Pc} {events : List Event}
    (h : Leaves id c addrs t pc events) : pc.refreshing = false := by
  cases h with
  | returned => rfl
  | missed signer hsigner hnot => rfl

theorem Leaves.forcing {addrs : List Address} {t : ℕ} {pc : Pc} {events : List Event}
    (h : Leaves id c addrs t pc events) : pc.forcing = false := by
  cases h with
  | returned => rfl
  | missed signer hsigner hnot => rfl

theorem listed_ok (s : State) (id : ℕ) (c : Call) (addrs : List Address) (t : ℕ) :
    ∃ pc events, Leaves id c addrs t pc events ∧ s.listed id c (.ok addrs) t =
      { s with
        log := events ++ s.log
        calls := Function.update s.calls id (some { c with pc := pc }) } := by
  unfold State.listed
  split
  · next addrs' signer heq hsigner =>
    cases heq
    split
    · exact ⟨_, _, .returned, rfl⟩
    · next hnot => exact ⟨_, _, .missed signer hsigner (by simpa using hnot), rfl⟩
  · exact ⟨_, _, .returned, rfl⟩

theorem lapsed_of_filter {cache : Cache} {key : String} {t : ℕ}
    (h : (cache.lookup key).filter (·.fresh t) = none) : Lapsed cache key t := by
  intro e he
  rw [he, Option.filter_eq_none_iff] at h
  have hnot : ¬ e.fresh t = true := h e rfl
  simpa [NodeListEntry.fresh] using hnot

theorem incRpc_eq (s : State) (outcome : Except KmsError (List Address)) :
    ∃ counters, s.incRpc outcome = { s with counters := counters } := by
  cases outcome with
  | ok addrs => exact ⟨_, rfl⟩
  | error e => exact ⟨_, rfl⟩

theorem markMiss_eq (s : State) (key : String) (t : ℕ) :
    s.markMiss key t = { s with
      cache := match s.cache.lookup key with
        | some e => AList.insert key { e with missRefreshAt := some t } s.cache
        | none => s.cache } := by
  unfold State.markMiss
  cases s.cache.lookup key with
  | none => rfl
  | some e => rfl

section Actions

variable (hid : s.calls id = some c)
include hid

theorem goes_of_look (hpc : c.pc = .entered) {t : ℕ}
    (h : callStep s id c .entered (.look t) = some s') :
    ∃ pc events, Goes s s' id (.look t) c pc events := by
  dsimp only [callStep] at h
  split at h
  · next ht =>
    split at h
    · next e he =>
      obtain ⟨he, hfresh⟩ := Option.filter_eq_some_iff.mp he
      obtain ⟨pc, events, hleaves, heq⟩ := listed_ok (s.at t) id c e.addrs t
      rw [heq] at h
      cases h
      refine ⟨pc, events, hid, ht, rfl, rfl, ?_, ?_, ?_, fun _ _ => rfl⟩
      · exact .hit (.inl ⟨hpc, rfl⟩) he (of_decide_eq_true hfresh) hleaves
      · rw [hpc, hleaves.refreshing]
        rfl
      · rw [hpc, hleaves.forcing]
        rfl
    · next he =>
      cases h
      refine ⟨.waiting, [], hid, ht, rfl, rfl, .lapse hpc (lapsed_of_filter he), ?_, ?_,
        fun _ _ => rfl⟩
      · rw [hpc]
        rfl
      · rw [hpc]
        rfl
  · cases h

theorem goes_of_lock (hpc : c.pc = .waiting) (h : callStep s id c .waiting .lock = some s') :
    ∃ pc events, Goes s s' id .lock c pc events := by
  dsimp only [callStep] at h
  split at h
  · next hfree =>
    cases h
    refine ⟨.locked, [], hid, le_rfl, rfl, rfl, .lock hpc, ?_, ?_, fun _ _ => rfl⟩
    · rw [hpc]
      exact ⟨hfree, rfl⟩
    · rw [hpc]
      rfl
  · cases h

theorem goes_of_recheck (hpc : c.pc = .locked) {t : ℕ}
    (h : callStep s id c .locked (.recheck t) = some s') :
    ∃ pc events, Goes s s' id (.recheck t) c pc events := by
  dsimp only [callStep] at h
  split at h
  · next ht =>
    split at h
    · next e he =>
      obtain ⟨he, hfresh⟩ := Option.filter_eq_some_iff.mp he
      obtain ⟨pc, events, hleaves, heq⟩ := listed_ok (s.at t).unlock id c e.addrs t
      rw [heq] at h
      cases h
      refine ⟨pc, events, hid, ht, rfl, rfl, ?_, ?_, ?_, fun _ _ => rfl⟩
      · exact .hit (.inr ⟨hpc, rfl⟩) he (of_decide_eq_true hfresh) hleaves
      · rw [hpc, hleaves.refreshing]
        rfl
      · rw [hpc, hleaves.forcing]
        rfl
    · next he =>
      cases h
      refine ⟨.fetching, _, hid, ht, rfl, rfl, .issue hpc (lapsed_of_filter he), ?_, ?_,
        fun _ _ => rfl⟩
      · rw [hpc]
        rfl
      · rw [hpc]
        rfl
  · cases h

theorem goes_of_answer (hpc : c.pc = .fetching) {outcome : Except KmsError (List Address)} {t : ℕ}
    (h : callStep s id c .fetching (.answer outcome t) = some s') :
    ∃ pc events, Goes s s' id (.answer outcome t) c pc events := by
  dsimp only [callStep] at h
  split at h
  · next ht =>
    obtain ⟨counters, heq⟩ := incRpc_eq (s.at t) outcome
    rw [heq] at h
    cases h
    refine ⟨.fetched outcome, [], hid, ht, rfl, rfl, .answer hpc, ?_, ?_, fun _ _ => rfl⟩
    · rw [hpc]
      rfl
    · rw [hpc]
      rfl
  · cases h

theorem goes_of_store {addrs : List Address} (hpc : c.pc = .fetched (.ok addrs)) {t : ℕ}
    (h : callStep s id c (.fetched (.ok addrs)) (.store t) = some s') :
    ∃ pc events, Goes s s' id (.store t) c pc events := by
  dsimp only [callStep] at h
  split at h
  · next ht =>
    obtain ⟨pc, events, hleaves, heq⟩ := listed_ok
      ((((s.at t).insert c.key ⟨addrs, t, none⟩).note (.fetched c.key addrs t)).unlock) id c addrs t
    rw [heq] at h
    cases h
    refine ⟨pc, _, hid, ht, rfl, ?_, .store hpc hleaves, ?_, ?_, fun _ _ => rfl⟩
    · exact List.append_cons _ _ _
    · rw [hpc, hleaves.refreshing]
      rfl
    · rw [hpc, hleaves.forcing]
      rfl
  · cases h

theorem goes_of_fallBack {error : KmsError} (hpc : c.pc = .fetched (.error error))
    (h : callStep s id c (.fetched (.error error)) .fallBack = some s') :
    ∃ pc events, Goes s s' id .fallBack c pc events := by
  dsimp only [callStep] at h
  split at h
  · next old hold =>
    obtain ⟨pc, events, hleaves, heq⟩ := listed_ok
      ((s.note (.failed c.key s.clock)).unlock.inc .staleServed) id c old.addrs s.clock
    change some (((s.note (.failed c.key s.clock)).unlock.inc .staleServed).listed id c
      (.ok old.addrs) s.clock) = some s' at h
    rw [heq] at h
    cases h
    refine ⟨pc, _, hid, le_rfl, rfl, ?_, .stale hpc hold hleaves, ?_, ?_, fun _ _ => rfl⟩
    · exact List.append_cons _ _ _
    · rw [hpc, hleaves.refreshing]
      rfl
    · rw [hpc, hleaves.forcing]
      rfl
  · next hnone =>
    cases h
    refine ⟨_, _, hid, le_rfl, rfl, rfl, .fail hpc hnone, ?_, ?_, fun _ _ => rfl⟩
    · rw [hpc]
      rfl
    · rw [hpc]
      rfl

theorem goes_of_missLock {signer : Address} {addrs : List Address}
    (hpc : c.pc = .missed signer addrs)
    (h : callStep s id c (.missed signer addrs) .missLock = some s') :
    ∃ pc events, Goes s s' id .missLock c pc events := by
  dsimp only [callStep] at h
  split at h
  · next hfree =>
    cases h
    refine ⟨_, [], hid, le_rfl, rfl, rfl, .missLock hpc, ?_, ?_, ?_⟩
    · rw [hpc]
      rfl
    · rw [hpc]
      exact ⟨hfree, Function.update_self ..⟩
    · intro key hne
      exact Function.update_of_ne hne ..
  · cases h

theorem goes_of_missCheck {signer : Address} {addrs : List Address}
    (hpc : c.pc = .missLocked signer addrs) {t₁ t₂ : ℕ}
    (h : callStep s id c (.missLocked signer addrs) (.missCheck t₁ t₂) = some s') :
    ∃ pc events, Goes s s' id (.missCheck t₁ t₂) c pc events := by
  dsimp only [callStep] at h
  split at h
  · next ht =>
    have ht₂ : s.clock ≤ t₂ := le_trans ht.1 ht.2
    split at h
    · next cached t hcheck =>
      cases h
      obtain ⟨e, he, hsettled⟩ := Option.bind_eq_some_iff.mp hcheck
      obtain ⟨t', hsettled, heq⟩ := Option.map_eq_some_iff.mp hsettled
      cases heq
      refine ⟨_, _, hid, ht₂, rfl, rfl, .settle hpc ht.2 he hsettled, ?_, ?_, ?_⟩
      · rw [hpc]
        rfl
      · rw [hpc]
        exact Function.update_self ..
      · intro key hne
        exact Function.update_of_ne hne ..
    · next hcheck =>
      cases h
      refine ⟨_, _, hid, ht₂, rfl, rfl, .missIssue hpc ht.2 ?_, ?_, ?_, fun _ _ => rfl⟩
      · intro e he
        rw [he, Option.bind_some, Option.map_eq_none_iff] at hcheck
        exact hcheck
      · rw [hpc]
        rfl
      · rw [hpc]
        rfl
  · cases h

theorem goes_of_missAnswer {signer : Address} {addrs : List Address}
    (hpc : c.pc = .missFetching signer addrs) {outcome : Except KmsError (List Address)} {t : ℕ}
    (h : callStep s id c (.missFetching signer addrs) (.answer outcome t) = some s') :
    ∃ pc events, Goes s s' id (.answer outcome t) c pc events := by
  dsimp only [callStep] at h
  split at h
  · next ht =>
    obtain ⟨counters, heq⟩ := incRpc_eq (s.at t) outcome
    rw [heq] at h
    cases h
    refine ⟨_, [], hid, ht, rfl, rfl, .missAnswer hpc, ?_, ?_, fun _ _ => rfl⟩
    · rw [hpc]
      rfl
    · rw [hpc]
      rfl
  · cases h

theorem goes_of_missStore {signer : Address} {addrs fresh : List Address}
    (hpc : c.pc = .missFetched signer addrs (.ok fresh)) {t₁ t₂ : ℕ}
    (h : callStep s id c (.missFetched signer addrs (.ok fresh)) (.missStore t₁ t₂) = some s') :
    ∃ pc events, Goes s s' id (.missStore t₁ t₂) c pc events := by
  dsimp only [callStep] at h
  split at h
  · next ht =>
    cases h
    refine ⟨_, _, hid, le_trans ht.1 ht.2, rfl, rfl, .missStore hpc ht.1 ht.2, ?_, ?_, ?_⟩
    · rw [hpc]
      rfl
    · rw [hpc]
      exact Function.update_self ..
    · intro key hne
      exact Function.update_of_ne hne ..
  · cases h

theorem goes_of_missFail {signer : Address} {addrs : List Address} {error : KmsError}
    (hpc : c.pc = .missFetched signer addrs (.error error)) {t : ℕ}
    (h : callStep s id c (.missFetched signer addrs (.error error)) (.missFail t) = some s') :
    ∃ pc events, Goes s s' id (.missFail t) c pc events := by
  dsimp only [callStep] at h
  split at h
  · next ht =>
    rw [markMiss_eq] at h
    cases h
    refine ⟨_, _, hid, ht, rfl, rfl, .missFail hpc rfl, ?_, ?_, ?_⟩
    · rw [hpc]
      rfl
    · rw [hpc]
      exact Function.update_self ..
    · intro key hne
      exact Function.update_of_ne hne ..
  · cases h

theorem goes_of_callStep {pc : Pc} (hpc : c.pc = pc) {action : Action}
    (h : callStep s id c pc action = some s') : ∃ pc' events, Goes s s' id action c pc' events := by
  unfold callStep at h
  split at h
  · exact goes_of_look hid hpc h
  · exact goes_of_lock hid hpc h
  · exact goes_of_recheck hid hpc h
  · exact goes_of_answer hid hpc h
  · exact goes_of_store hid hpc h
  · exact goes_of_fallBack hid hpc h
  · exact goes_of_missLock hid hpc h
  · exact goes_of_missCheck hid hpc h
  · exact goes_of_missAnswer hid hpc h
  · exact goes_of_missStore hid hpc h
  · exact goes_of_missFail hid hpc h
  · cases h

end Actions

/-- Everything a step can do. -/
theorem step_cases {action : Action} (h : step s (id, action) = some s') :
    (∃ c, Begins s s' id action c) ∨ ∃ c pc events, Goes s s' id action c pc events := by
  unfold step at h
  split at h
  · next hfree haction =>
    split at h
    · next ht =>
      cases h
      exact .inl ⟨_, haction, hfree, rfl, ht, rfl, rfl, rfl, rfl, rfl⟩
    · cases h
  · next hid =>
    obtain ⟨pc, events, hgoes⟩ := goes_of_callStep hid rfl h
    exact .inr ⟨_, pc, events, hgoes⟩
  · cases h

theorem Begins.calls_cases {action : Action} (h : Begins s s' id action c) {j : ℕ} {c' : Call}
    (hc' : s'.calls j = some c') : j = id ∧ c' = c ∨ j ≠ id ∧ s.calls j = some c' := by
  rw [h.calls] at hc'
  by_cases hj : j = id
  · subst hj
    rw [Function.update_self] at hc'
    exact .inl ⟨rfl, (Option.some.inj hc').symm⟩
  · rw [Function.update_of_ne hj] at hc'
    exact .inr ⟨hj, hc'⟩

theorem Goes.calls_cases {action : Action} {pc : Pc} {events : List Event}
    (h : Goes s s' id action c pc events) {j : ℕ} {c' : Call} (hc' : s'.calls j = some c') :
    j = id ∧ c' = { c with pc := pc } ∨ j ≠ id ∧ s.calls j = some c' := by
  rw [h.calls] at hc'
  by_cases hj : j = id
  · subst hj
    rw [Function.update_self] at hc'
    exact .inl ⟨rfl, (Option.some.inj hc').symm⟩
  · rw [Function.update_of_ne hj] at hc'
    exact .inr ⟨hj, hc'⟩

-- ════════════════════════════════════════════════════════════════════════
-- The locks
-- ════════════════════════════════════════════════════════════════════════

/-- The call `id` is for `key` and at a position that `p` picks. -/
def At (s : State) (p : Pc → Bool) (key : String) (id : ℕ) : Prop :=
  ∃ c, s.calls id = some c ∧ c.key = key ∧ p c.pc = true

/-- The calls that refresh hold the refresh lock, and those that force a refresh of a key hold the
    miss lock of the key. -/
structure Guard (s : State) : Prop where
  refresh : Guarded (fun id => ∃ key, At s Pc.refreshing key id) s.refreshLock
  miss : ∀ key, Guarded (At s Pc.forcing key) (s.missLocks key)

theorem guard_init : Guard State.init := by
  refine ⟨?_, ?_⟩
  · rintro id ⟨key, c, hc, -⟩
    cases hc
  · rintro key id ⟨c, hc, -⟩
    cases hc

theorem Guard.step (h : Guard s) {l : ℕ × Action} (hstep : step s l = some s') : Guard s' := by
  obtain ⟨c, hbegins⟩ | ⟨c, pc, events, hgoes⟩ := step_cases hstep
  · -- a call that begins holds no lock
    have hold : ∀ p key j, p Pc.entered = false → At s' p key j → At s p key j := by
      rintro p key j hp ⟨c', hc', hkey, hp'⟩
      rcases hbegins.calls_cases hc' with ⟨-, rfl⟩ | ⟨-, hc'⟩
      · rw [hbegins.pc, hp] at hp'
        cases hp'
      · exact ⟨c', hc', hkey, hp'⟩
    refine ⟨?_, ?_⟩
    · rw [hbegins.refreshLock]
      rintro j ⟨key, hj⟩
      exact h.refresh j ⟨key, hold _ key j rfl hj⟩
    · intro key j hj
      rw [hbegins.missLocks]
      exact h.miss key j (hold _ key j rfl hj)
  · have hself : ∀ p key, At s' p key l.1 → c.key = key ∧ p pc = true := by
      rintro p key ⟨c', hc', hkey, hp⟩
      rcases hgoes.calls_cases hc' with ⟨-, rfl⟩ | ⟨hne, -⟩
      · exact ⟨hkey, hp⟩
      · exact absurd rfl hne
    have hothers : ∀ p key j, j ≠ l.1 → At s' p key j → At s p key j := by
      rintro p key j hne ⟨c', hc', hkey, hp⟩
      rcases hgoes.calls_cases hc' with ⟨heq, -⟩ | ⟨-, hc'⟩
      · exact absurd heq hne
      · exact ⟨c', hc', hkey, hp⟩
    refine ⟨?_, ?_⟩
    · refine h.refresh.pass hgoes.refreshLock ?_ ?_ ?_
      · intro hheld
        exact ⟨c.key, c, hgoes.call, rfl, hheld⟩
      · rintro ⟨key, hinside⟩
        exact (hself _ key hinside).2
      · rintro j hne ⟨key, hj⟩
        exact ⟨key, hothers _ key j hne hj⟩
    · intro key
      by_cases hkey : key = c.key
      · subst hkey
        refine (h.miss c.key).pass hgoes.missLock ?_ ?_ ?_
        · intro hheld
          exact ⟨c, hgoes.call, rfl, hheld⟩
        · intro hinside
          exact (hself _ _ hinside).2
        · intro j hne hj
          exact hothers _ _ j hne hj
      · intro j hj
        rw [hgoes.otherMissLocks key hkey]
        have hne : j ≠ l.1 := by
          rintro rfl
          exact hkey (hself _ key hj).1.symm
        exact h.miss key j (hothers _ key j hne hj)

end

end KmsCluster.NodeList
