import KmsCluster.Lib.AssocMap
import KmsCluster.Lib.Runs
import KmsCluster.Membership

/-!
# Round buffers of a DKG session

Model of `DkgSession` (`src/server.rs`) and of the round barrier `await_round` (`src/dkg.rs`),
over an arbitrary type of round messages.
-/

namespace KmsCluster

variable {M : Type}

/-- Inbound messages of one session, by round and sender. -/
abbrev DkgSession (M : Type) := AList (fun _ : ℕ × ℕ => M)

namespace DkgSession

/-- Store a received round message; a later one of the same sender and round replaces it. -/
def record (s : DkgSession M) (round sender : ℕ) (msg : M) : DkgSession M :=
  AList.insert (round, sender) msg s

/-- All messages buffered for a round, with their senders. -/
def roundMessages (s : DkgSession M) (round : ℕ) : List (ℕ × M) :=
  s.entries.filterMap fun e => if e.1.1 = round then some (e.1.2, e.2) else none

/-- The barrier of `await_round`: once every expected sender is there, the whole round is
    returned. A round without messages has no entry and stays closed, whoever is expected. -/
def awaitRound (s : DkgSession M) (round : ℕ) (expected : List ℕ) : Option (List (ℕ × M)) :=
  if s.roundMessages round = [] then none
  else if expected.all fun id => (s.lookup (round, id)).isSome then some (s.roundMessages round)
  else none

theorem mem_roundMessages {s : DkgSession M} {round sender : ℕ} {msg : M} :
    (sender, msg) ∈ s.roundMessages round ↔ s.lookup (round, sender) = some msg := by
  simp only [roundMessages, List.mem_filterMap]
  rw [← Option.mem_def, AList.mem_lookup_iff]
  constructor
  · rintro ⟨⟨⟨r, q⟩, m⟩, hmem, heq⟩
    split at heq
    · next hround =>
      cases heq
      dsimp only at hround
      subst hround
      exact hmem
    · cases heq
  · intro hmem
    exact ⟨⟨(round, sender), msg⟩, hmem, if_pos rfl⟩

theorem awaitRound_eq_some {s : DkgSession M} {round : ℕ} {expected : List ℕ}
    {msgs : List (ℕ × M)} : s.awaitRound round expected = some msgs ↔
      s.roundMessages round ≠ [] ∧ (∀ id ∈ expected, ∃ msg, s.lookup (round, id) = some msg) ∧
        msgs = s.roundMessages round := by
  simp only [awaitRound, Option.ite_none_left_eq_some, Option.ite_none_right_eq_some,
    List.all_eq_true, Option.isSome_iff_exists, Option.some.injEq, eq_comm (b := msgs), ne_eq]

theorem awaitRound_eq_none {s : DkgSession M} {round : ℕ} {expected : List ℕ} :
    s.awaitRound round expected = none ↔
      (∀ id, s.lookup (round, id) = none) ∨ ∃ id ∈ expected, s.lookup (round, id) = none := by
  have hnil : s.roundMessages round = [] ↔ ∀ id, s.lookup (round, id) = none := by
    rw [List.eq_nil_iff_forall_not_mem, Prod.forall]
    refine forall_congr' fun id => ?_
    rw [Option.eq_none_iff_forall_ne_some]
    exact forall_congr' fun msg => not_congr mem_roundMessages
  rw [← hnil]
  by_cases hround : s.roundMessages round = []
  · simp [awaitRound, hround]
  · simp [awaitRound, hround]

/-- Every expected sender's message is in what the barrier returns. -/
theorem awaitRound_expected {s : DkgSession M} {round : ℕ} {expected : List ℕ}
    {msgs : List (ℕ × M)} (h : s.awaitRound round expected = some msgs) {id : ℕ}
    (hid : id ∈ expected) : ∃ msg, (id, msg) ∈ msgs := by
  obtain ⟨-, hall, rfl⟩ := awaitRound_eq_some.mp h
  obtain ⟨msg, hmsg⟩ := hall id hid
  exact ⟨msg, mem_roundMessages.mpr hmsg⟩

theorem mem_senders {s : DkgSession M} {round id : ℕ} :
    id ∈ (s.roundMessages round).map Prod.fst ↔ ∃ msg, s.lookup (round, id) = some msg := by
  rw [List.mem_map]
  constructor
  · rintro ⟨⟨_, msg⟩, hmem, rfl⟩
    exact ⟨msg, mem_roundMessages.mp hmem⟩
  · rintro ⟨msg, hmsg⟩
    exact ⟨(id, msg), mem_roundMessages.mpr hmsg, rfl⟩

theorem exists_lookup_record {s : DkgSession M} {round id : ℕ}
    (h : ∃ msg, s.lookup (round, id) = some msg) (r q : ℕ) (m : M) :
    ∃ msg, (s.record r q m).lookup (round, id) = some msg := by
  by_cases hkey : (round, id) = (r, q)
  · cases hkey
    exact ⟨m, AList.lookup_insert _⟩
  · rw [record, AList.lookup_insert_ne hkey]
    exact h

/-- An open barrier stays open, and no sender leaves it. -/
theorem awaitRound_record {s : DkgSession M} {round : ℕ} {expected : List ℕ}
    {msgs : List (ℕ × M)} (h : s.awaitRound round expected = some msgs) (r q : ℕ) (m : M) :
    ∃ msgs', (s.record r q m).awaitRound round expected = some msgs' ∧
      ∀ id ∈ msgs.map Prod.fst, id ∈ msgs'.map Prod.fst := by
  obtain ⟨hround, hall, rfl⟩ := awaitRound_eq_some.mp h
  have hkept : ∀ id ∈ (s.roundMessages round).map Prod.fst,
      id ∈ ((s.record r q m).roundMessages round).map Prod.fst := by
    intro id hid
    exact mem_senders.mpr (exists_lookup_record (mem_senders.mp hid) r q m)
  refine ⟨_, awaitRound_eq_some.mpr ⟨?_, ?_, rfl⟩, hkept⟩
  · obtain ⟨first, hfirst⟩ := List.exists_mem_of_ne_nil _ hround
    have hmem := hkept first.1 (List.mem_map_of_mem hfirst)
    intro hnil
    rw [hnil] at hmem
    cases hmem
  · intro id hid
    exact exists_lookup_record (hall id hid) r q m

theorem lookup_record {s : DkgSession M} {round sender r q : ℕ} {msg m : M}
    (h : (s.record round sender msg).lookup (r, q) = some m) :
    (r = round ∧ q = sender ∧ m = msg) ∨ s.lookup (r, q) = some m := by
  by_cases hkey : (r, q) = (round, sender)
  · cases hkey
    rw [record, AList.lookup_insert] at h
    exact .inl ⟨rfl, rfl, (Option.some.inj h).symm⟩
  · rw [record, AList.lookup_insert_ne hkey] at h
    exact .inr h

end DkgSession

end KmsCluster
