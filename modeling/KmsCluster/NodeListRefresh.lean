import KmsCluster.NodeListSteps

/-!
# How often the chain is asked for a nodeList

Two results about `get_signer_addresses` and `get_signer_addresses_for` (`src/chain.rs`) over every
interleaving of calls: the refreshes that a missing signer forces are spaced, and what a burst of
calls costs when an entry has lapsed.

## Main results

- `forced_refreshes_spaced`: a forced refresh starts `missRefreshMin` after the one before it ended.
- `watching_step`: an entry is as old as the last RPC for it that succeeded.
- `burst_one_rpc_iff`: when a burst of calls that find an entry lapsed costs one RPC.
-/

namespace KmsCluster.NodeList

open Runs Mutex

-- ════════════════════════════════════════════════════════════════════════
-- The log and the calls
-- ════════════════════════════════════════════════════════════════════════

/-- The call has asked the chain: in the first stage, or `forced` by its missing signer. -/
def Pc.asked (forced : Bool) : Pc → Bool
  | .entered | .waiting | .locked => false
  | .fetching | .fetched _ | .missed _ _ | .missLocked _ _ | .returned (.error _) => !forced
  | .missFetching _ _ | .missFetched _ _ _ | .returned (.ok _) => true

def Pc.done : Pc → Bool
  | .returned _ => true
  | _ => false

/-- The calls stand where the log says. -/
structure Tracked (s : State) : Prop where
  issued : ∀ id key forced t, .issued id key forced t ∈ s.log → At s (Pc.asked forced) key id
  returned : ∀ id key signer began addrs t, .returned id key signer began addrs t ∈ s.log →
    At s Pc.done key id ∧ t ≤ s.clock

section
variable {s s' : State} {id : ℕ} {c : Call} {now : ℕ} {action : Action} {pc : Pc}
  {events : List Event} {cache : Cache}

theorem Leaves.returned_mem {addrs : List Address} {t : ℕ} (h : Leaves id c addrs t pc events)
    {id' : ℕ} {key : String} {signer : Option Address} {began : ℕ} {addrs' : List Address} {t' : ℕ}
    (hmem : .returned id' key signer began addrs' t' ∈ events) :
    id' = id ∧ key = c.key ∧ pc.done = true ∧ t' = t := by
  cases h with
  | returned =>
    cases List.mem_singleton.mp hmem
    exact ⟨rfl, rfl, rfl, rfl⟩
  | missed signer hsigner hnot => cases hmem

theorem Leaves.not_issued {addrs : List Address} {t : ℕ} (h : Leaves id c addrs t pc events)
    {id' : ℕ} {key : String} {forced : Bool} {t' : ℕ} : .issued id' key forced t' ∉ events := by
  cases h with
  | returned => simp
  | missed signer hsigner hnot => simp

theorem missSettled_le {e : NodeListEntry} {signer : Address} {t₁ t₂ t : ℕ} (hle : t₁ ≤ t₂)
    (h : e.missSettled signer t₁ t₂ = some t) : t ≤ t₂ := by
  unfold NodeListEntry.missSettled at h
  split at h
  · cases h
    exact hle
  · split at h
    · cases h
      exact le_rfl
    · cases h

theorem Moves.returned_mem (h : Moves s id c now action pc events cache) {id' : ℕ} {key : String}
    {signer : Option Address} {began : ℕ} {addrs : List Address} {t : ℕ}
    (hmem : .returned id' key signer began addrs t ∈ events) :
    id' = id ∧ key = c.key ∧ pc.done = true ∧ t ≤ now := by
  cases h with
  | lapse | lock | answer | missLock | missAnswer => cases hmem
  | hit hpc he hfresh hleaves =>
    obtain ⟨hid, hkey, hdone, ht⟩ := hleaves.returned_mem hmem
    exact ⟨hid, hkey, hdone, ht.le⟩
  | issue | missIssue | fail => cases List.mem_singleton.mp hmem
  | store hpc hleaves | stale hpc hold hleaves =>
    rcases List.mem_append.mp hmem with hmem | hmem
    · obtain ⟨hid, hkey, hdone, ht⟩ := hleaves.returned_mem hmem
      exact ⟨hid, hkey, hdone, ht.le⟩
    · cases List.mem_singleton.mp hmem
  | settle hpc ht₁ he hsettled =>
    cases List.mem_singleton.mp hmem
    exact ⟨rfl, rfl, rfl, missSettled_le ht₁ hsettled⟩
  | missStore | missFail =>
    rcases List.mem_cons.mp hmem with heq | hmem
    · cases heq
      exact ⟨rfl, rfl, rfl, le_rfl⟩
    · cases List.mem_singleton.mp hmem

/-- Why a call asks the chain: its entry has lapsed, or its signer is missing and no refresh is too
    recent to repeat. -/
inductive Asks (s : State) (c : Call) (now : ℕ) : Action → Bool → Prop
  | lapsed (hpc : c.pc = .locked) (hlapsed : Lapsed s.cache c.key now) :
      Asks s c now (.recheck now) false
  | missed {signer : Address} {addrs : List Address} {t₁ : ℕ}
      (hpc : c.pc = .missLocked signer addrs) (ht₁ : t₁ ≤ now)
      (hopen : ∀ e, s.cache.lookup c.key = some e → e.missSettled signer t₁ now = none) :
      Asks s c now (.missCheck t₁ now) true

/-- A step asks the chain once, and only for its own call. -/
theorem Moves.issued_mem (h : Moves s id c now action pc events cache) {id' : ℕ} {key : String}
    {forced : Bool} {t : ℕ} (hmem : .issued id' key forced t ∈ events) :
    id' = id ∧ key = c.key ∧ Asks s c now action forced ∧ pc.asked forced = true ∧
      events = [.issued id c.key forced now] := by
  cases h with
  | lapse | lock | answer | missLock | missAnswer => cases hmem
  | hit hpc he hfresh hleaves => exact absurd hmem hleaves.not_issued
  | issue hpc hlapsed =>
    cases List.mem_singleton.mp hmem
    exact ⟨rfl, rfl, .lapsed hpc hlapsed, rfl, rfl⟩
  | missIssue hpc ht₁ hopen =>
    cases List.mem_singleton.mp hmem
    exact ⟨rfl, rfl, .missed hpc ht₁ hopen, rfl, rfl⟩
  | store hpc hleaves | stale hpc hold hleaves =>
    rcases List.mem_append.mp hmem with hmem | hmem
    · exact absurd hmem hleaves.not_issued
    · cases List.mem_singleton.mp hmem
  | fail | settle => cases List.mem_singleton.mp hmem
  | missStore | missFail =>
    rcases List.mem_cons.mp hmem with heq | hmem
    · cases heq
    · cases List.mem_singleton.mp hmem

theorem Leaves.asked {addrs : List Address} {t : ℕ} (h : Leaves id c addrs t pc events) :
    pc.asked false = true := by
  cases h with
  | returned => rfl
  | missed signer hsigner hnot => rfl

/-- What a call has asked, it has asked. -/
theorem Moves.asked_mono (h : Moves s id c now action pc events cache) {forced : Bool}
    (hasked : c.pc.asked forced = true) : pc.asked forced = true := by
  cases h with
  | lapse hpc | lock hpc | issue hpc =>
    rw [hpc] at hasked
    cases hasked
  | answer hpc | missLock hpc | missAnswer hpc =>
    rw [hpc] at hasked
    exact hasked
  | hit hpc he hfresh hleaves =>
    rcases hpc with ⟨hpc, -⟩ | ⟨hpc, -⟩
    · rw [hpc] at hasked
      cases hasked
    · rw [hpc] at hasked
      cases hasked
  | store hpc hleaves | stale hpc hold hleaves =>
    rw [hpc] at hasked
    obtain rfl : forced = false := by simpa [Pc.asked] using hasked
    exact hleaves.asked
  | fail hpc =>
    rw [hpc] at hasked
    exact hasked
  | settle | missStore | missFail => rfl
  | missIssue => rfl

theorem Moves.not_done (h : Moves s id c now action pc events cache) : c.pc.done = false := by
  cases h with
  | hit hpc =>
    rcases hpc with ⟨hpc, -⟩ | ⟨hpc, -⟩
    · rw [hpc]
      rfl
    · rw [hpc]
      rfl
  | lapse hpc | lock hpc | issue hpc | answer hpc | store hpc | stale hpc | fail hpc | missLock hpc
  | settle hpc | missIssue hpc | missAnswer hpc | missStore hpc | missFail hpc =>
    rw [hpc]
    rfl

theorem tracked_init : Tracked State.init := by
  refine ⟨?_, ?_⟩
  · intro id key forced t hmem
    cases hmem
  · intro id key signer began addrs t hmem
    cases hmem

/-- A call stays at a position that its own steps do not leave. -/
theorem Goes.at {p : Pc → Bool} {key : String} {j : ℕ} (h : Goes s s' id action c pc events)
    (hkeep : p c.pc = true → p pc = true) (hj : At s p key j) : At s' p key j := by
  obtain ⟨c', hc', hkey, hp⟩ := hj
  by_cases hji : j = id
  · subst hji
    cases h.call.symm.trans hc'
    exact ⟨{ c with pc := pc }, by rw [h.calls, Function.update_self], hkey, hkeep hp⟩
  · exact ⟨c', by rw [h.calls, Function.update_of_ne hji, hc'], hkey, hp⟩

theorem Begins.at {p : Pc → Bool} {key : String} {j : ℕ} (h : Begins s s' id action c)
    (hj : At s p key j) : At s' p key j := by
  obtain ⟨c', hc', hkey, hp⟩ := hj
  have hji : j ≠ id := by
    rintro rfl
    cases h.free.symm.trans hc'
  exact ⟨c', by rw [h.calls, Function.update_of_ne hji, hc'], hkey, hp⟩

theorem Goes.at_self {p : Pc → Bool} (h : Goes s s' id action c pc events) (hp : p pc = true) :
    At s' p c.key id :=
  ⟨{ c with pc := pc }, by rw [h.calls, Function.update_self], rfl, hp⟩

theorem Begins.mem_log (h : Begins s s' id action c) {event : Event} (hmem : event ∈ s'.log)
    (hne : event ≠ .began id) : event ∈ s.log := by
  rw [h.log] at hmem
  exact List.mem_of_ne_of_mem hne hmem

theorem Tracked.step (h : Tracked s) {l : ℕ × Action} (hstep : step s l = some s') :
    Tracked s' := by
  obtain ⟨c, hbegins⟩ | ⟨c, pc, events, hgoes⟩ := step_cases hstep
  · refine ⟨?_, ?_⟩
    · intro id key forced t hmem
      exact hbegins.at (h.issued id key forced t (hbegins.mem_log hmem nofun))
    · intro id key signer began addrs t hmem
      obtain ⟨hdone, ht⟩ := h.returned id key signer began addrs t (hbegins.mem_log hmem nofun)
      exact ⟨hbegins.at hdone, le_trans ht hbegins.clock_le⟩
  · refine ⟨?_, ?_⟩
    · intro id key forced t hmem
      rw [hgoes.log] at hmem
      rcases List.mem_append.mp hmem with hnew | hold
      · obtain ⟨rfl, rfl, -, hasked, -⟩ := hgoes.moves.issued_mem hnew
        exact hgoes.at_self hasked
      · exact hgoes.at hgoes.moves.asked_mono (h.issued id key forced t hold)
    · intro id key signer began addrs t hmem
      rw [hgoes.log] at hmem
      rcases List.mem_append.mp hmem with hnew | hold
      · obtain ⟨rfl, rfl, hdone, ht⟩ := hgoes.moves.returned_mem hnew
        exact ⟨hgoes.at_self hdone, ht⟩
      · obtain ⟨hdone, ht⟩ := h.returned id key signer began addrs t hold
        refine ⟨hgoes.at ?_ hdone, le_trans ht hgoes.clock_le⟩
        rw [hgoes.moves.not_done]
        nofun

-- ════════════════════════════════════════════════════════════════════════
-- Forced refreshes are spaced
-- ════════════════════════════════════════════════════════════════════════

/-- The refresh of `key` that a missing signer forced on the call `id` finished at `f`,
    successfully or not. -/
def Finished (log : List Event) (id : ℕ) (key : String) (f : ℕ) : Prop :=
  (∃ t, .issued id key true t ∈ log) ∧
    ∃ signer began addrs, .returned id key signer began addrs f ∈ log

/-- What a forced refresh of `key` that starts at `t` finds on the log: the forced refreshes before
    it have finished, each `missRefreshMin` ago at least. -/
structure Spaced (log : List Event) (key : String) (t : ℕ) : Prop where
  finished : ∀ id t', .issued id key true t' ∈ log → ∃ f, Finished log id key f
  floor : ∀ id f, Finished log id key f → f + missRefreshMin ≤ t

/-- The entry of `key` keeps a refresh that finished at `f` in one of its two stamps. -/
def Covers (cache : Cache) (key : String) (f : ℕ) : Prop :=
  ∃ e, cache.lookup key = some e ∧ (f ≤ e.fetchedAt ∨ ∃ m, e.missRefreshAt = some m ∧ f ≤ m)

theorem covers_insert {key key' : String} {e : NodeListEntry} {f : ℕ} (h : Covers cache key' f)
    (he : f ≤ e.fetchedAt ∨ ∃ m, e.missRefreshAt = some m ∧ f ≤ m) :
    Covers (AList.insert key e cache) key' f := by
  by_cases hkey : key' = key
  · subst hkey
    exact ⟨e, AList.lookup_insert _, he⟩
  · obtain ⟨old, hold, hle⟩ := h
    exact ⟨old, by rw [AList.lookup_insert_ne hkey, hold], hle⟩

/-- No writer loses a stamp: a TTL refresh drops `miss_refresh_at`, but for a later
    `fetched_at`. -/
theorem Moves.covers (h : Moves s id c now action pc events cache) {key : String} {f : ℕ}
    (hf : f ≤ now) (hcovers : Covers s.cache key f) : Covers cache key f := by
  cases h with
  | store => exact covers_insert hcovers (.inl hf)
  | missStore => exact covers_insert hcovers (.inr ⟨now, rfl, hf⟩)
  | missFail hpc hcache =>
    subst hcache
    split
    · exact covers_insert hcovers (.inr ⟨now, rfl, hf⟩)
    · exact hcovers
  | lapse | hit | lock | issue | answer | stale | fail | missLock | settle | missIssue
  | missAnswer => exact hcovers

/-- The end of a forced refresh is kept, since the call got its first list from an entry. -/
theorem Moves.covers_finished (h : Moves s id c now action pc events cache)
    (hasked : c.pc.asked true = true) (hentry : Covers s.cache c.key 0) {id' : ℕ} {key : String}
    {signer : Option Address} {began : ℕ} {addrs : List Address} {f : ℕ}
    (hmem : .returned id' key signer began addrs f ∈ events) : Covers cache c.key f := by
  cases h with
  | hit hpc =>
    rcases hpc with ⟨hpc, -⟩ | ⟨hpc, -⟩
    · rw [hpc] at hasked
      cases hasked
    · rw [hpc] at hasked
      cases hasked
  | lapse hpc | lock hpc | issue hpc | answer hpc | store hpc | stale hpc | fail hpc | missLock hpc
  | settle hpc | missIssue hpc =>
    rw [hpc] at hasked
    cases hasked
  | missAnswer => cases hmem
  | missStore =>
    rcases List.mem_cons.mp hmem with heq | hmem
    · cases heq
      exact ⟨_, AList.lookup_insert _, .inr ⟨now, rfl, le_rfl⟩⟩
    · cases List.mem_singleton.mp hmem
  | missFail hpc hcache =>
    rcases List.mem_cons.mp hmem with heq | hmem
    · cases heq
      subst hcache
      obtain ⟨e, he, -⟩ := hentry
      rw [he]
      exact ⟨_, AList.lookup_insert _, .inr ⟨now, rfl, le_rfl⟩⟩
    · cases List.mem_singleton.mp hmem

/-- A call goes on to the miss from an entry. -/
theorem Moves.covers_missed (h : Moves s id c now action pc events cache)
    (hentry : c.pc.missed?.isSome → Covers s.cache c.key 0) (hmissed : pc.missed?.isSome) :
    Covers cache c.key 0 := by
  cases h with
  | lapse | lock | issue | answer | fail | settle => cases hmissed
  | missStore | missFail => cases hmissed
  | hit hpc he hfresh hleaves => exact ⟨_, he, .inl (Nat.zero_le _)⟩
  | stale hpc hold hleaves => exact ⟨_, hold, .inl (Nat.zero_le _)⟩
  | store => exact ⟨_, AList.lookup_insert _, .inl (Nat.zero_le _)⟩
  | missLock hpc | missIssue hpc | missAnswer hpc =>
    refine hentry ?_
    rw [hpc]
    rfl

/-- What the spacing rests on. -/
structure Stamped (s : State) : Prop where
  missed : ∀ id c, s.calls id = some c → c.pc.missed?.isSome → Covers s.cache c.key 0
  finished : ∀ id key f, Finished s.log id key f → Covers s.cache key f

theorem stamped_init : Stamped State.init := by
  refine ⟨?_, ?_⟩
  · intro id c hc
    cases hc
  · rintro id key f ⟨⟨t, hmem⟩, -⟩
    cases hmem

theorem Goes.missed (h : Goes s s' id action c pc events) (hstamped : Stamped s) :
    ∀ j c', s'.calls j = some c' → c'.pc.missed?.isSome → Covers s'.cache c'.key 0 := by
  intro j c' hc' hmissed
  rcases h.calls_cases hc' with ⟨rfl, rfl⟩ | ⟨-, hc'⟩
  · exact h.moves.covers_missed (hstamped.missed j c h.call) hmissed
  · exact h.moves.covers (Nat.zero_le _) (hstamped.missed j c' hc' hmissed)

theorem missed_of_asked (hasked : pc.asked true = true) (hdone : pc.done = false) :
    pc.missed?.isSome := by
  cases pc with
  | entered | waiting | locked | fetching | fetched | missed | missLocked => cases hasked
  | missFetching | missFetched => rfl
  | returned => cases hdone

theorem Goes.finished (h : Goes s s' id action c pc events) (htracked : Tracked s)
    (hstamped : Stamped s) : ∀ j key f, Finished s'.log j key f → Covers s'.cache key f := by
  rintro j key f ⟨⟨t, hissued⟩, signer, began, addrs, hreturned⟩
  rw [h.log] at hissued hreturned
  rcases List.mem_append.mp hissued with hissued | hissued
  · -- a call that asks now has not returned
    obtain ⟨rfl, -, -, -, rfl⟩ := h.moves.issued_mem hissued
    rcases List.mem_cons.mp hreturned with heq | hreturned
    · cases heq
    obtain ⟨c', hc', -, hdone⟩ := (htracked.returned _ _ _ _ _ _ hreturned).1
    cases h.call.symm.trans hc'
    rw [h.moves.not_done] at hdone
    cases hdone
  · rcases List.mem_append.mp hreturned with hreturned | hreturned
    · obtain ⟨rfl, rfl, -, -⟩ := h.moves.returned_mem hreturned
      obtain ⟨c', hc', -, hasked⟩ := htracked.issued _ _ _ _ hissued
      cases h.call.symm.trans hc'
      have hentry := hstamped.missed _ c h.call (missed_of_asked hasked h.moves.not_done)
      exact h.moves.covers_finished hasked hentry hreturned
    · have hf := (htracked.returned _ _ _ _ _ _ hreturned).2
      exact h.moves.covers (le_trans hf h.clock_le)
        (hstamped.finished j key f ⟨⟨t, hissued⟩, signer, began, addrs, hreturned⟩)

theorem Stamped.step (h : Stamped s) (htracked : Tracked s) {l : ℕ × Action}
    (hstep : step s l = some s') : Stamped s' := by
  obtain ⟨c, hbegins⟩ | ⟨c, pc, events, hgoes⟩ := step_cases hstep
  · refine ⟨?_, ?_⟩
    · intro j c' hc' hmissed
      rw [hbegins.cache]
      rcases hbegins.calls_cases hc' with ⟨-, rfl⟩ | ⟨-, hc'⟩
      · rw [hbegins.pc] at hmissed
        cases hmissed
      · exact h.missed j c' hc' hmissed
    · rintro j key f ⟨⟨t, hissued⟩, signer, began, addrs, hreturned⟩
      rw [hbegins.cache]
      exact h.finished j key f ⟨⟨t, hbegins.mem_log hissued nofun⟩, signer, began, addrs,
        hbegins.mem_log hreturned nofun⟩
  · exact ⟨hgoes.missed h, hgoes.finished htracked h⟩

/-- The check that lets a forced refresh through has waited out both stamps. -/
theorem floor_of_missSettled {e : NodeListEntry} {signer : Address} {t₁ t₂ f : ℕ} (hle : t₁ ≤ t₂)
    (h : e.missSettled signer t₁ t₂ = none)
    (hf : f ≤ e.fetchedAt ∨ ∃ m, e.missRefreshAt = some m ∧ f ≤ m) : f + missRefreshMin ≤ t₂ := by
  have hpos := missRefreshMin_pos
  unfold NodeListEntry.missSettled at h
  split at h
  · cases h
  · next hfetched =>
    split at h
    · cases h
    · next hmissed =>
      rcases hf with hf | ⟨m, hm, hf⟩
      · simp only [Bool.or_eq_true, not_or, recent, decide_eq_true_eq] at hfetched
        omega
      · simp only [hm, Option.any_some, recent, decide_eq_true_eq] at hmissed
        omega

/-- Every forced refresh was spaced when it started. -/
def AllSpaced (log : List Event) : Prop :=
  ∀ later earlier id key t, log = later ++ .issued id key true t :: earlier → Spaced earlier key t

theorem AllSpaced.append {log : List Event} (h : AllSpaced log) (events : List Event)
    (hnone : ∀ id key t, .issued id key true t ∉ events) : AllSpaced (events ++ log) := by
  intro later earlier id key t heq
  rcases List.append_eq_append_iff.mp heq with ⟨more, rfl, hlog⟩ | ⟨more, hevents, hlog⟩
  · exact h more earlier id key t hlog
  · cases more with
    | nil => exact h [] earlier id key t hlog.symm
    | cons event more =>
      rw [List.cons_append, List.cons.injEq] at hlog
      refine absurd ?_ (hnone id key t)
      rw [hevents, ← hlog.1]
      exact List.mem_append_right _ List.mem_cons_self

/-- A forced refresh that starts now is spaced. -/
theorem spaced_of_missIssue (hinv : Inv s) (hguard : Guard s) (htracked : Tracked s)
    (hstamped : Stamped s) (hid : s.calls id = some c) {signer : Address} {addrs : List Address}
    (hpc : c.pc = .missLocked signer addrs) {t₁ : ℕ} (ht₁ : t₁ ≤ now)
    (hopen : ∀ e, s.cache.lookup c.key = some e → e.missSettled signer t₁ now = none) :
    Spaced s.log c.key now := by
  have hself : At s Pc.forcing c.key id := ⟨c, hid, rfl, by rw [hpc]; rfl⟩
  refine ⟨?_, ?_⟩
  · intro id' t' hissued
    obtain ⟨c', hc', hkey, hasked⟩ := htracked.issued id' c.key true t' hissued
    -- the other call no longer holds the miss lock, so it has returned
    have hforcing : c'.pc.forcing = false := by
      by_contra hheld
      have hsame := (hguard.miss c.key).exclusive hself ⟨c', hc', hkey, by simpa using hheld⟩
      subst hsame
      cases hid.symm.trans hc'
      rw [hpc] at hasked
      cases hasked
    obtain ⟨addrs', hdone⟩ : ∃ addrs', c'.pc = .returned (.ok addrs') := by
      cases hpc' : c'.pc with
      | entered | waiting | locked | fetching | fetched | missed | missLocked =>
        rw [hpc'] at hasked
        cases hasked
      | missFetching | missFetched =>
        rw [hpc'] at hforcing
        cases hforcing
      | returned result =>
        rw [hpc'] at hasked
        cases result with
        | ok addrs' => exact ⟨addrs', rfl⟩
        | error e => cases hasked
    obtain ⟨f, hreturned⟩ := (hinv.calls id' c' hc').returned addrs' hdone
    rw [hkey] at hreturned
    exact ⟨f, ⟨t', hissued⟩, _, _, _, hreturned⟩
  · intro id' f hfinished
    obtain ⟨e, he, hf⟩ := hstamped.finished id' c.key f hfinished
    exact floor_of_missSettled ht₁ (hopen e he) hf

theorem Goes.allSpaced (h : Goes s s' id action c pc events) (hinv : Inv s) (hguard : Guard s)
    (htracked : Tracked s) (hstamped : Stamped s) (hspaced : AllSpaced s.log) :
    AllSpaced s'.log := by
  rw [h.log]
  by_cases hissued : ∃ id' key t, .issued id' key true t ∈ events
  · obtain ⟨id', key, t, hmem⟩ := hissued
    obtain ⟨-, -, hasks, -, rfl⟩ := h.moves.issued_mem hmem
    intro later earlier id' key t heq
    cases later with
    | cons event later =>
      rw [List.singleton_append, List.cons_append, List.cons.injEq] at heq
      exact hspaced later earlier id' key t heq.2
    | nil =>
      rw [List.singleton_append, List.nil_append, List.cons.injEq] at heq
      obtain ⟨heq, rfl⟩ := heq
      cases heq
      cases hasks with
      | missed hpc ht₁ hopen =>
        exact spaced_of_missIssue hinv hguard htracked hstamped h.call hpc ht₁ hopen
  · push Not at hissued
    exact hspaced.append events hissued

/-- Everything the spacing needs of a state. -/
structure SpacedInv (s : State) : Prop where
  inv : Inv s
  guard : Guard s
  tracked : Tracked s
  stamped : Stamped s
  spaced : AllSpaced s.log

theorem spacedInv_init : SpacedInv State.init := by
  refine ⟨inv_init, guard_init, tracked_init, stamped_init, ?_⟩
  intro later earlier id key t heq
  simp [State.init] at heq

theorem SpacedInv.step (h : SpacedInv s) {l : ℕ × Action} (hstep : step s l = some s') :
    SpacedInv s' := by
  refine ⟨inv_step l h.inv hstep, h.guard.step hstep, h.tracked.step hstep,
    h.stamped.step h.tracked hstep, ?_⟩
  obtain ⟨c, hbegins⟩ | ⟨c, pc, events, hgoes⟩ := step_cases hstep
  · rw [hbegins.log]
    exact h.spaced.append [.began l.1] (by simp)
  · exact hgoes.allSpaced h.inv h.guard h.tracked h.stamped h.spaced

end

/-- In every run, whatever the RPC answers and however the calls interleave: when a missing signer
    forces a refresh of a key, every forced refresh of the key before it has finished,
    successfully or not, at least `missRefreshMin` earlier. -/
theorem forced_refreshes_spaced (labels : List (ℕ × Action)) (s : State)
    (hrun : exec step State.init labels = some s) (later earlier : List Event) (id : ℕ)
    (key : String) (t : ℕ) (hlog : s.log = later ++ .issued id key true t :: earlier) :
    Spaced earlier key t := by
  have hinv : SpacedInv s := exec_invariant (fun s l s' h => h.step) spacedInv_init hrun
  exact hinv.spaced later earlier id key t hlog

/-- After a signer forced a refresh at 10 s that ended at 11 s, another one forces the next at
    16 s. -/
def spacedRun : List (ℕ × Action) :=
  registeredRun ++
    [(2, .call "rpc" "contract" "app" (some 3) (secs 12)), (2, .look (secs 12)), (2, .missLock),
      (2, .missCheck (secs 16) (secs 16))]

/-- The log of `spacedRun` before its last step. -/
def spacedLog : List Event :=
  [.began 2, .returned 1 "rpc|contract|app" (some 2) (secs 10) [1, 2] (secs 11),
    .fetched "rpc|contract|app" [1, 2] (secs 11), .issued 1 "rpc|contract|app" true (secs 10),
    .began 1, .returned 0 "rpc|contract|app" none 0 [1] 0, .fetched "rpc|contract|app" [1] 0,
    .issued 0 "rpc|contract|app" false 0, .began 0]

theorem forced_refreshes_spaced_registered : ∃ s, exec step State.init spacedRun = some s ∧
    s.log = .issued 2 "rpc|contract|app" true (secs 16) :: spacedLog ∧
    Finished spacedLog 1 "rpc|contract|app" (secs 11) ∧ secs 11 + missRefreshMin ≤ secs 16 := by
  obtain ⟨s, hrun, hlog⟩ : ∃ s, exec step State.init spacedRun = some s ∧
      s.log = .issued 2 "rpc|contract|app" true (secs 16) :: spacedLog := ⟨_, rfl, rfl⟩
  have hfinished : Finished spacedLog 1 "rpc|contract|app" (secs 11) :=
    ⟨⟨secs 10, by simp [spacedLog]⟩, some 2, secs 10, [1, 2], by simp [spacedLog]⟩
  have hspaced := forced_refreshes_spaced spacedRun s hrun [] spacedLog 2 _ _ hlog
  exact ⟨s, hrun, hlog, hfinished, hspaced.floor 1 _ hfinished⟩

-- ════════════════════════════════════════════════════════════════════════
-- What a lapse costs
-- ════════════════════════════════════════════════════════════════════════

/-- `event` is an RPC for `key` that `get_signer_addresses` issued for a call of the burst. -/
def Event.costs (burst : Finset ℕ) (key : String) : Event → Bool
  | .issued id key' false _ => decide (id ∈ burst ∧ key' = key)
  | _ => false

/-- How many RPCs for `key` were issued on behalf of the burst. -/
def rpcs (burst : Finset ℕ) (key : String) (log : List Event) : ℕ :=
  log.countP (·.costs burst key)

/-- One RPC at most was issued on behalf of the burst, and its calls return lists. -/
structure OneRpc (burst : Finset ℕ) (key : String) (s : State) : Prop where
  rpcs_le : rpcs burst key s.log ≤ 1
  listed : ∀ id ∈ burst, ∀ c result, s.calls id = some c → c.key = key →
    c.pc = .returned result → ∃ addrs, result = .ok addrs

/-- The reading with which a step stores the list of a successful RPC for `key`. -/
def stored (key : String) (s : State) (l : ℕ × Action) : Option ℕ :=
  (s.calls l.1).bind fun c =>
    if c.key = key then
      match c.pc, l.2 with
      | .fetched (.ok _), .store t => some t
      | .missFetched _ _ (.ok _), .missStore t _ => some t
      | _, _ => none
    else none

/-- A state with the time at which the list of the last successful RPC for a key was stored, for
    the properties only. -/
structure Watched where
  state : State
  refreshed : Option ℕ

def watchedStep (key : String) (w : Watched) (l : ℕ × Action) : Option Watched :=
  (step w.state l).map fun s => ⟨s, (stored key w.state l).or w.refreshed⟩

/-- A member of the burst that gets the refresh lock after the burst's first RPC was issued gets it
    when an RPC for the key has succeeded, less than `nodeListTtl` after its list was stored. -/
def InTime (burst : Finset ℕ) (key : String) (w : Watched) (l : ℕ × Action) : Prop :=
  ∀ t, l.2 = .recheck t → l.1 ∈ burst → At w.state (fun _ => true) key l.1 →
    (∃ id ∈ burst, ∃ t', .issued id key false t' ∈ w.state.log) →
      ∃ t', w.refreshed = some t' ∧ t < t' + nodeListTtl

/-- A call of the burst that gets the refresh lock when the burst has already asked the chain does
    not find the entry lapsed. -/
def Refreshed (burst : Finset ℕ) (key : String) (s : State) (l : ℕ × Action) : Prop :=
  ∀ t, l.2 = .recheck t → l.1 ∈ burst → At s (fun _ => true) key l.1 → rpcs burst key s.log ≠ 0 →
    ¬ Lapsed s.cache key t

section
variable {s s' : State} {id : ℕ} {c : Call} {now : ℕ} {action : Action} {pc : Pc}
  {events : List Event} {cache : Cache} {burst : Finset ℕ} {key : String}

theorem Event.eq_issued_of_costs {event : Event} (h : event.costs burst key = true) :
    ∃ id t, event = .issued id key false t ∧ id ∈ burst := by
  cases event with
  | issued id key' forced t =>
    cases forced with
    | false =>
      obtain ⟨hid, rfl⟩ := of_decide_eq_true h
      exact ⟨id, t, rfl, hid⟩
    | true => cases h
  | began | fetched | failed | returned => cases h

theorem rpcs_append (events log : List Event) :
    rpcs burst key (events ++ log) = rpcs burst key events + rpcs burst key log :=
  List.countP_append

/-- A step that costs an RPC found the entry lapsed. -/
theorem Moves.lapsed_of_rpcs (h : Moves s id c now action pc events cache)
    (hcosts : rpcs burst key events ≠ 0) :
    id ∈ burst ∧ c.key = key ∧ action = .recheck now ∧ Lapsed s.cache key now ∧
      rpcs burst key events ≤ 1 := by
  obtain ⟨event, hmem, hcost⟩ := List.countP_pos_iff.mp (Nat.pos_of_ne_zero hcosts)
  obtain ⟨id', t, rfl, hid⟩ := Event.eq_issued_of_costs hcost
  obtain ⟨rfl, rfl, hasks, -, rfl⟩ := h.issued_mem hmem
  cases hasks with
  | lapsed hpc hlapsed => exact ⟨hid, rfl, rfl, hlapsed, List.countP_le_length⟩

/-- A recheck that finds the entry lapsed costs an RPC. -/
theorem Moves.rpcs_of_lapsed {t : ℕ} (h : Moves s id c now (.recheck t) pc events cache)
    (hid : id ∈ burst) (hkey : c.key = key) (hlapsed : Lapsed s.cache key t) :
    rpcs burst key events = 1 := by
  subst hkey
  cases h with
  | hit hpc he hfresh hleaves =>
    rcases hpc with ⟨-, hne⟩ | ⟨-, heq⟩
    · cases hne
    · cases heq
      have hlapsed := hlapsed _ he
      omega
  | issue hpc hlapsed' => simp [rpcs, Event.costs, hid]

/-- A step of a run adds at most one RPC to the burst, and none when it meets `Refreshed`, but the
    first. -/
theorem rpcs_step {l : ℕ × Action} (hmeets : Refreshed burst key s l)
    (hstep : step s l = some s') (h : rpcs burst key s.log ≤ 1) : rpcs burst key s'.log ≤ 1 := by
  obtain ⟨c, hbegins⟩ | ⟨c, pc, events, hgoes⟩ := step_cases hstep
  · rw [hbegins.log]
    exact h
  · rw [hgoes.log, rpcs_append]
    by_cases hcosts : rpcs burst key events = 0
    · omega
    · obtain ⟨hid, hkey, haction, hlapsed, hle⟩ := hgoes.moves.lapsed_of_rpcs hcosts
      have hnone : rpcs burst key s.log = 0 := by
        by_contra hsome
        exact hmeets _ haction hid ⟨c, hgoes.call, hkey, rfl⟩ hsome hlapsed
      omega

theorem rpcs_mono {l : ℕ × Action} (hstep : step s l = some s') :
    rpcs burst key s.log ≤ rpcs burst key s'.log := by
  obtain ⟨c, hbegins⟩ | ⟨c, pc, events, hgoes⟩ := step_cases hstep
  · rw [hbegins.log]
    exact le_rfl
  · rw [hgoes.log, rpcs_append]
    omega

/-- A step that does not meet `Refreshed` costs the burst another RPC. -/
theorem rpcs_of_not_refreshed {l : ℕ × Action} (hnot : ¬ Refreshed burst key s l)
    (hstep : step s l = some s') : 2 ≤ rpcs burst key s'.log := by
  unfold Refreshed at hnot
  push Not at hnot
  obtain ⟨t, haction, hid, ⟨c, hc, hkey, -⟩, hsome, hlapsed⟩ := hnot
  obtain ⟨c', hbegins⟩ | ⟨c', pc, events, hgoes⟩ := step_cases hstep
  · cases hbegins.free.symm.trans hc
  · cases hgoes.call.symm.trans hc
    have hmoves := hgoes.moves
    rw [haction] at hmoves
    rw [hgoes.log, rpcs_append, hmoves.rpcs_of_lapsed hid hkey hlapsed]
    omega

/-- While there is an entry, no call for its key fails. -/
structure Served (burst : Finset ℕ) (key : String) (s : State) : Prop where
  entry : Covers s.cache key 0
  listed : ∀ id ∈ burst, ∀ c e, s.calls id = some c → c.key = key → c.pc ≠ .returned (.error e)

theorem Moves.not_failed (h : Moves s id c now action pc events cache)
    (hentry : Covers s.cache c.key 0) (e : KmsError) : pc ≠ .returned (.error e) := by
  cases h with
  | hit hpc he hfresh hleaves | stale hpc hold hleaves | store hpc hleaves =>
    cases hleaves with
    | returned => nofun
    | missed => nofun
  | fail hpc hnone =>
    obtain ⟨old, hold, -⟩ := hentry
    cases hnone.symm.trans hold
  | lapse | lock | issue | answer | missLock | settle | missIssue | missAnswer | missStore
  | missFail => nofun

theorem Served.step (h : Served burst key s) {l : ℕ × Action} (hstep : step s l = some s') :
    Served burst key s' := by
  obtain ⟨c, hbegins⟩ | ⟨c, pc, events, hgoes⟩ := step_cases hstep
  · refine ⟨by rw [hbegins.cache]; exact h.entry, ?_⟩
    intro j hj c' e hc' hkey
    rcases hbegins.calls_cases hc' with ⟨-, rfl⟩ | ⟨-, hc'⟩
    · rw [hbegins.pc]
      nofun
    · exact h.listed j hj c' e hc' hkey
  · refine ⟨hgoes.moves.covers (Nat.zero_le _) h.entry, ?_⟩
    intro j hj c' e hc' hkey
    rcases hgoes.calls_cases hc' with ⟨-, rfl⟩ | ⟨-, hc'⟩
    · exact hgoes.moves.not_failed (hkey ▸ h.entry) e
    · exact h.listed j hj c' e hc' hkey

theorem rpcs_ne_zero_iff {log : List Event} : rpcs burst key log ≠ 0 ↔
    ∃ id ∈ burst, ∃ t, .issued id key false t ∈ log := by
  rw [rpcs, Ne, List.countP_eq_zero]
  push Not
  constructor
  · rintro ⟨event, hmem, hcost⟩
    obtain ⟨id, t, rfl, hid⟩ := Event.eq_issued_of_costs hcost
    exact ⟨id, hid, t, hmem⟩
  · rintro ⟨id, hid, t, hmem⟩
    exact ⟨_, hmem, decide_eq_true ⟨hid, rfl⟩⟩

/-- A step that stores the list of a successful RPC dates the entry; the others, a failed RPC
    included, leave its date. -/
theorem Moves.fetchedAt (h : Moves s id c now action pc events cache)
    (hid : s.calls id = some c) (key : String) : (cache.lookup key).map (·.fetchedAt) =
      (stored key s (id, action)).or ((s.cache.lookup key).map (·.fetchedAt)) := by
  have hstored : stored key s (id, action) = if c.key = key then
      match c.pc, action with
      | .fetched (.ok _), .store t => some t
      | .missFetched _ _ (.ok _), .missStore t _ => some t
      | _, _ => none
    else none := by
    rw [stored, hid]
    rfl
  rw [hstored]
  cases h with
  | store hpc | missStore hpc =>
    by_cases hkey : c.key = key
    · subst hkey
      simp [hpc, AList.lookup_insert]
    · simp [hkey, AList.lookup_insert_ne (Ne.symm hkey)]
  | missFail hpc hcache =>
    subst hcache
    by_cases hkey : c.key = key
    · subst hkey
      cases hold : s.cache.lookup c.key with
      | none => simp [hpc, hold]
      | some e => simp [hpc, AList.lookup_insert]
    · rw [if_neg hkey, Option.none_or]
      cases s.cache.lookup c.key with
      | none => rfl
      | some e => rw [AList.lookup_insert_ne (Ne.symm hkey)]
  | hit hpc =>
    rcases hpc with ⟨hpc, rfl⟩ | ⟨hpc, rfl⟩
    · simp [hpc]
    · simp [hpc]
  | lapse hpc | lock hpc | issue hpc | answer hpc | stale hpc | fail hpc | missLock hpc | settle hpc
  | missIssue hpc | missAnswer hpc => simp [hpc]

/-- The entry was fetched at `f` before the burst began, and lapsed then; since then it is as old as
    the last RPC that succeeded. -/
structure Watching (key : String) (f : ℕ) (w : Watched) : Prop where
  fetchedAt : (w.state.cache.lookup key).map (·.fetchedAt) = w.refreshed.or (some f)
  lapsed : f + nodeListTtl ≤ w.state.clock

theorem watchedStep_eq_some {w w' : Watched} {l : ℕ × Action} :
    watchedStep key w l = some w' ↔
      ∃ s, step w.state l = some s ∧ w' = ⟨s, (stored key w.state l).or w.refreshed⟩ := by
  rw [watchedStep, Option.map_eq_some_iff]
  constructor
  · rintro ⟨s, hs, rfl⟩
    exact ⟨s, hs, rfl⟩
  · rintro ⟨s, hs, rfl⟩
    exact ⟨s, hs, rfl⟩

theorem watching_step {w w' : Watched} {l : ℕ × Action} {f : ℕ} (h : Watching key f w)
    (hstep : watchedStep key w l = some w') : Watching key f w' := by
  obtain ⟨s, hs, rfl⟩ := watchedStep_eq_some.mp hstep
  obtain ⟨c, hbegins⟩ | ⟨c, pc, events, hgoes⟩ := step_cases hs
  · refine ⟨?_, le_trans h.lapsed hbegins.clock_le⟩
    have hnone : stored key w.state l = none := by rw [stored, hbegins.free]; rfl
    rw [hbegins.cache, h.fetchedAt, hnone, Option.none_or]
  · refine ⟨?_, le_trans h.lapsed hgoes.clock_le⟩
    rw [hgoes.moves.fetchedAt hgoes.call key, h.fetchedAt, Option.or_assoc]

/-- The entry has lapsed when no RPC has succeeded since, or none soon enough. -/
theorem Watching.lapsed_iff {w : Watched} {f t : ℕ} (h : Watching key f w)
    (ht : w.state.clock ≤ t) : Lapsed w.state.cache key t ↔
      ¬ ∃ t', w.refreshed = some t' ∧ t < t' + nodeListTtl := by
  have hpos : 0 < nodeListTtl := by decide
  have hlapsed := h.lapsed
  obtain ⟨e, he, hfetched⟩ : ∃ e, w.state.cache.lookup key = some e ∧
      some e.fetchedAt = w.refreshed.or (some f) := by
    have hentry := h.fetchedAt
    cases hlookup : w.state.cache.lookup key with
    | none =>
      rw [hlookup] at hentry
      cases hrefreshed : w.refreshed <;> simp [hrefreshed] at hentry
    | some e => exact ⟨e, rfl, by rw [← hentry, hlookup]; rfl⟩
  have hage : Lapsed w.state.cache key t ↔ nodeListTtl ≤ t - e.fetchedAt := by
    constructor
    · intro hl
      exact hl e he
    · intro hl e' he'
      cases he.symm.trans he'
      exact hl
  rw [hage]
  cases hrefreshed : w.refreshed with
  | none =>
    rw [hrefreshed, Option.none_or, Option.some.injEq] at hfetched
    simp only [reduceCtorEq, false_and, exists_false, not_false_eq_true, iff_true]
    omega
  | some t' =>
    rw [hrefreshed, Option.some_or, Option.some.injEq] at hfetched
    simp only [Option.some.injEq, exists_eq_left', not_lt]
    omega

/-- The second look reads the clock once. -/
theorem Moves.recheck_now {t : ℕ} (h : Moves s id c now (.recheck t) pc events cache) :
    t = now := by
  cases h with
  | hit hpc =>
    rcases hpc with ⟨-, heq⟩ | ⟨-, heq⟩
    · cases heq
    · exact Action.recheck.inj heq
  | issue => rfl

theorem clock_le_of_recheck {l : ℕ × Action} (hstep : step s l = some s') {t : ℕ}
    (haction : l.2 = .recheck t) : s.clock ≤ t := by
  obtain ⟨c, hbegins⟩ | ⟨c, pc, events, hgoes⟩ := step_cases hstep
  · cases haction.symm.trans hbegins.action
  · have hmoves := hgoes.moves
    rw [haction] at hmoves
    rw [hmoves.recheck_now]
    exact hgoes.clock_le

/-- The guard under the lock lets a member through exactly when it is in time. -/
theorem Watching.refreshed_iff {w : Watched} {l : ℕ × Action} {f : ℕ} (h : Watching key f w)
    (hstep : step w.state l = some s') : Refreshed burst key w.state l ↔ InTime burst key w l := by
  constructor
  · intro hmeets t haction hid hat hasked
    by_contra hnot
    exact hmeets t haction hid hat (rpcs_ne_zero_iff.mpr hasked)
      ((h.lapsed_iff (clock_le_of_recheck hstep haction)).mpr hnot)
  · intro hmeets t haction hid hat hasked hlapsed
    exact (h.lapsed_iff (clock_le_of_recheck hstep haction)).mp hlapsed
      (hmeets t haction hid hat (rpcs_ne_zero_iff.mp hasked))

end

/-- A key has an entry that has lapsed, in a state that a run reached, and a burst of calls begins.
    In every run from there, however the calls interleave with others and whatever the RPC
    answers, one RPC at most is issued for the burst and its calls return lists exactly when each
    member that gets the lock after the burst's first RPC was issued gets it less than
    `nodeListTtl` after a successful RPC's list was stored: not after that RPC failed, unless
    another one has succeeded since, and not after a wait of `nodeListTtl`. -/
theorem burst_one_rpc_iff {before labels : List (ℕ × Action)} {s₀ s : State}
    (hreach : exec step State.init before = some s₀) {key : String} {e : NodeListEntry}
    (hentry : s₀.cache.lookup key = some e) (hlapsed : e.fetchedAt + nodeListTtl ≤ s₀.clock)
    {burst : Finset ℕ} (hburst : ∀ id ∈ burst, s₀.calls id = none)
    (hrun : exec step s₀ labels = some s) :
    OneRpc burst key s ↔ Meets (watchedStep key) (InTime burst key) ⟨s₀, none⟩ labels := by
  have htracked : Tracked s₀ := exec_invariant (fun s l s' h => h.step) tracked_init hreach
  have hnone : rpcs burst key s₀.log = 0 := by
    by_contra hsome
    obtain ⟨id, hid, t, hmem⟩ := rpcs_ne_zero_iff.mp hsome
    obtain ⟨c, hc, -⟩ := htracked.issued id key false t hmem
    cases (hburst id hid).symm.trans hc
  have hserved₀ : Served burst key s₀ := by
    refine ⟨⟨e, hentry, .inl (Nat.zero_le _)⟩, ?_⟩
    intro id hid c e hc
    cases (hburst id hid).symm.trans hc
  have hserved : Served burst key s := exec_invariant (fun s l s' h => h.step) hserved₀ hrun
  have hwatching₀ : Watching key e.fetchedAt ⟨s₀, none⟩ := ⟨by rw [hentry]; rfl, hlapsed⟩
  obtain ⟨w, hwatched, hstate⟩ : ∃ w, exec (watchedStep key) ⟨s₀, none⟩ labels = some w ∧
      w.state = s :=
    exec_lift (f := Watched.state)
      (fun w l s hs => ⟨_, watchedStep_eq_some.mpr ⟨s, hs, rfl⟩, rfl⟩) hrun
  constructor
  · intro hone
    by_contra hnot
    obtain ⟨pre, l, post, m, m', rfl, hm, hm', hpost, hviolated⟩ :=
      exists_step_of_not_meets hwatched hnot
    have hwatching : Watching key e.fetchedAt m :=
      exec_invariant (fun w l w' h => watching_step h) hwatching₀ hm
    obtain ⟨s', hs', rfl⟩ := watchedStep_eq_some.mp hm'
    have htwo := rpcs_of_not_refreshed (fun h => hviolated ((hwatching.refreshed_iff hs').mp h)) hs'
    have hle : 2 ≤ rpcs burst key w.state.log :=
      exec_invariant (I := fun w => 2 ≤ rpcs burst key w.state.log) (fun w l w' h hstep => by
        obtain ⟨s', hs', rfl⟩ := watchedStep_eq_some.mp hstep
        exact le_trans h (rpcs_mono hs')) htwo hpost
    have hone := hone.rpcs_le
    rw [← hstate] at hone
    omega
  · intro hmeets
    refine ⟨?_, ?_⟩
    · rw [← hstate]
      refine (exec_invariant_of_meets (I := fun w => Watching key e.fetchedAt w ∧
        rpcs burst key w.state.log ≤ 1) ?_ ⟨hwatching₀, hnone.le.trans zero_le_one⟩ hmeets
        hwatched).2
      intro w l w' h hmeets hstep
      obtain ⟨s', hs', rfl⟩ := watchedStep_eq_some.mp hstep
      exact ⟨watching_step h.1 hstep, rpcs_step ((h.1.refreshed_iff hs').mpr hmeets) hs' h.2⟩
    · intro id hid c result hc hkey hpc
      cases result with
      | ok addrs => exact ⟨addrs, rfl⟩
      | error e => exact absurd hpc (hserved.listed id hid c e hc hkey)

/-- Call 0 fills the cache. -/
def filledRun : List (ℕ × Action) :=
  [(0, .call "rpc" "contract" "app" none 0), (0, .look 0), (0, .lock), (0, .recheck 0),
    (0, .answer (.ok [1]) 0), (0, .store 0)]

/-- Calls 1 and 2 find the entry lapsed and wait for the refresh lock; call 1 gets it and asks the
    chain. -/
def lapsedRun : List (ℕ × Action) :=
  [(1, .call "rpc" "contract" "app" none (secs 31)),
    (2, .call "rpc" "contract" "app" none (secs 31)), (1, .look (secs 31)),
    (2, .look (secs 31)), (1, .lock), (1, .recheck (secs 31))]

/-- The RPC succeeds and call 2 reads the refreshed entry. -/
def refreshedRun : List (ℕ × Action) :=
  lapsedRun ++ [(1, .answer (.ok [1]) (secs 32)), (1, .store (secs 32)), (2, .lock),
    (2, .recheck (secs 33))]

/-- Evaluates `InTime`. -/
def inTime (burst : Finset ℕ) (key : String) (w : Watched) (l : ℕ × Action) : Bool :=
  match l.2 with
  | .recheck t => rpcs burst key w.state.log == 0 ||
      w.refreshed.any fun t' => decide (t < t' + nodeListTtl)
  | _ => true

theorem inTime_sound {burst : Finset ℕ} {key : String} (w : Watched) (l : ℕ × Action)
    (h : inTime burst key w l = true) : InTime burst key w l := by
  intro t haction _ _ hasked
  have hsome : rpcs burst key w.state.log ≠ 0 := rpcs_ne_zero_iff.mpr hasked
  simp only [inTime, haction, Bool.or_eq_true, beq_iff_eq, hsome, false_or] at h
  obtain ⟨t', ht', hlt⟩ := (Option.any_eq_true _ _).mp h
  exact ⟨t', ht', of_decide_eq_true hlt⟩

/-- A call for another app 31 seconds later: by then the entry of the first has lapsed. -/
def agedRun : List (ℕ × Action) :=
  filledRun ++ [(3, .call "rpc" "contract" "other" none (secs 31))]

/-- The RPC of call 1 succeeds and call 2, which waited for it, reads the refreshed entry. -/
theorem burst_one_rpc_refreshed : ∃ s₀ e s, exec step State.init agedRun = some s₀ ∧
    s₀.cache.lookup "rpc|contract|app" = some e ∧ e.fetchedAt + nodeListTtl ≤ s₀.clock ∧
    exec step s₀ refreshedRun = some s ∧ OneRpc {1, 2} "rpc|contract|app" s := by
  obtain ⟨s₀, s, e, hreach, hentry, hfetched, hclock, hone, htwo, hrun⟩ :
      ∃ s₀ s e, exec step State.init agedRun = some s₀ ∧
        s₀.cache.lookup "rpc|contract|app" = some e ∧ e.fetchedAt = 0 ∧ s₀.clock = secs 31 ∧
        s₀.calls 1 = none ∧ s₀.calls 2 = none ∧ exec step s₀ refreshedRun = some s :=
    ⟨_, _, _, rfl, rfl, rfl, rfl, rfl, rfl, rfl⟩
  have hlapsed : e.fetchedAt + nodeListTtl ≤ s₀.clock := by
    rw [hfetched, hclock]
    decide
  have hburst : ∀ id ∈ ({1, 2} : Finset ℕ), s₀.calls id = none := by
    intro id hid
    rcases Finset.mem_insert.mp hid with rfl | hid
    · exact hone
    · rw [Finset.mem_singleton.mp hid]
      exact htwo
  have hcheck : (exec step State.init agedRun).any (fun s₀ =>
      check (watchedStep "rpc|contract|app") (inTime {1, 2} "rpc|contract|app") ⟨s₀, none⟩
        refreshedRun) = true := by decide +kernel
  rw [hreach] at hcheck
  exact ⟨s₀, e, s, hreach, hentry, hlapsed, hrun,
    (burst_one_rpc_iff hreach hentry hlapsed hburst hrun).mpr (meets_of_check inTime_sound hcheck)⟩

/-- The RPC fails and call 2 repeats it. -/
def failedRun : List (ℕ × Action) :=
  lapsedRun ++ [(1, .answer (.error (.chainError "getNodeList failed: timeout")) (secs 32)),
    (1, .fallBack), (2, .lock), (2, .recheck (secs 33))]

/-- Two calls of a burst that both start before the first RPC ends cost two RPCs when it fails. -/
theorem failed_refresh_repeated : ∃ s₀ e s, exec step State.init agedRun = some s₀ ∧
    s₀.cache.lookup "rpc|contract|app" = some e ∧ e.fetchedAt + nodeListTtl ≤ s₀.clock ∧
    s₀.calls 1 = none ∧ s₀.calls 2 = none ∧ exec step s₀ failedRun = some s ∧
    rpcs {1, 2} "rpc|contract|app" s.log = 2 :=
  ⟨_, _, _, rfl, rfl, by decide, rfl, rfl, rfl, rfl⟩

end KmsCluster.NodeList
