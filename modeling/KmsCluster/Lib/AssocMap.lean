import Mathlib.Data.List.AList

/-!
# Association maps

Operations of hash maps that `AList` lacks: `retain`, an update of all values, and maps whose
values are lists, with the empty list for an absent key, as `entry(k).or_default().push(a)`
treats them.
-/

namespace AssocMap

variable {κ : Type} {β : κ → Type} [DecidableEq κ]

/-- Keep the entries that satisfy `keep`. -/
def retain (keep : (k : κ) → β k → Bool) (m : AList β) : AList β :=
  ⟨m.entries.filter fun e => keep e.1 e.2, m.nodupKeys.sublist List.filter_sublist⟩

theorem lookup_retain {keep : (k : κ) → β k → Bool} {m : AList β} {k : κ} {b : β k} :
    (retain keep m).lookup k = some b ↔ m.lookup k = some b ∧ keep k b = true := by
  rw [← Option.mem_def, ← Option.mem_def, AList.mem_lookup_iff, AList.mem_lookup_iff]
  exact List.mem_filter

theorem kerase_filter (keep : κ → Bool) (a : κ) (l : List (Sigma β)) :
    (List.kerase a l).filter (fun e => keep e.1) =
      if keep a then List.kerase a (l.filter fun e => keep e.1)
      else l.filter fun e => keep e.1 := by
  induction l with
  | nil => simp
  | cons e l ih =>
    by_cases hkey : a = e.1
    · subst hkey
      cases hkeep : keep e.1 with
      | true => simp [hkeep]
      | false => simp [hkeep]
    · cases hkeep : keep e.1 with
      | true =>
        rw [List.kerase_cons_ne hkey, List.filter_cons_of_pos (by simpa using hkeep), ih,
          List.filter_cons_of_pos (by simpa using hkeep)]
        split
        · rw [List.kerase_cons_ne hkey]
        · rfl
      | false =>
        rw [List.kerase_cons_ne hkey, List.filter_cons_of_neg (by simp [hkeep]), ih,
          List.filter_cons_of_neg (by simp [hkeep])]

/-- Insertion commutes with a retain that looks at the keys only. -/
theorem retain_insert (keep : κ → Bool) (a : κ) (b : β a) (m : AList β) :
    retain (fun k _ => keep k) (AList.insert a b m) =
      if keep a then AList.insert a b (retain (fun k _ => keep k) m)
      else retain (fun k _ => keep k) m := by
  apply AList.ext
  show List.filter (fun e => keep e.1) (⟨a, b⟩ :: List.kerase a m.entries) = _
  cases hkeep : keep a with
  | true =>
    rw [List.filter_cons_of_pos (by simpa using hkeep), kerase_filter, hkeep, if_pos rfl,
      if_pos rfl]
    rfl
  | false =>
    rw [List.filter_cons_of_neg (by simp [hkeep]), kerase_filter, hkeep]
    rfl

/-- Update every value in place. -/
def mapValues (f : (k : κ) → β k → β k) (m : AList β) : AList β where
  entries := m.entries.map fun e => ⟨e.1, f e.1 e.2⟩
  nodupKeys := by
    have hkeys : (m.entries.map fun e => (⟨e.1, f e.1 e.2⟩ : Sigma β)).keys = m.entries.keys := by
      simp [List.keys, Function.comp_def]
    rw [List.NodupKeys, hkeys]
    exact m.nodupKeys

@[simp] theorem lookup_mapValues (f : (k : κ) → β k → β k) (m : AList β) (k : κ) :
    (mapValues f m).lookup k = (m.lookup k).map (f k) :=
  List.dlookup_map₂ k

end AssocMap

abbrev Multimap (κ α : Type) := AList (fun _ : κ => List α)

namespace Multimap

variable {κ α : Type} [DecidableEq κ]

def get (m : Multimap κ α) (k : κ) : List α := (m.lookup k).getD []

/-- Append `a` to the list of `k`. -/
def push (m : Multimap κ α) (k : κ) (a : α) : Multimap κ α := AList.insert k (get m k ++ [a]) m

/-- The length of the longest list. -/
def longest (m : Multimap κ α) : ℕ := (m.entries.map fun e => e.2.length).foldr max 0

@[simp] theorem get_empty (k : κ) : get (∅ : Multimap κ α) k = [] := by simp [get]

@[simp] theorem get_push_self (m : Multimap κ α) (k : κ) (a : α) :
    get (push m k a) k = get m k ++ [a] := by
  simp [get, push]

theorem get_push_of_ne (m : Multimap κ α) {k k' : κ} (a : α) (h : k' ≠ k) :
    get (push m k a) k' = get m k' := by
  simp [get, push, AList.lookup_insert_ne h]

end Multimap
