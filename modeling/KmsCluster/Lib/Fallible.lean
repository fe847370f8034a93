import Mathlib.Tactic.Common

/-!
# Inversion of fallible computations

When a `do` block in `Except` returns `.ok`, each of its steps did. These lemmas peel such a
block one step at a time; `FailsIn` says which errors it can end with.
-/

namespace Fallible

variable {ε ε' α β : Type}

/-- Fail with `e` unless `c` holds. -/
def ensure (c : Prop) [Decidable c] (e : ε) : Except ε Unit := if c then .ok () else .error e

/-- `Option::ok_or`. -/
def okOr (o : Option α) (e : ε) : Except ε α :=
  match o with
  | some a => .ok a
  | none => .error e

theorem bind_eq_ok {x : Except ε α} {f : α → Except ε β} {b : β} :
    (x >>= f) = .ok b ↔ ∃ a, x = .ok a ∧ f a = .ok b := by
  cases x with
  | error e => simp [bind, Except.bind]
  | ok a => simp [bind, Except.bind]

@[simp] theorem ok_bind (a : α) (f : α → Except ε β) : ((.ok a : Except ε α) >>= f) = f a := rfl

@[simp] theorem mapError_eq_ok {x : Except ε α} {g : ε → ε'} {a : α} :
    x.mapError g = .ok a ↔ x = .ok a := by
  cases x <;> simp [Except.mapError]

@[simp] theorem mapError_ok (a : α) (g : ε → ε') : (Except.ok a).mapError g = .ok a := rfl

@[simp] theorem ensure_eq_ok {c : Prop} [Decidable c] {e : ε} {u : Unit} :
    ensure c e = .ok u ↔ c := by
  by_cases hc : c <;> simp [ensure, hc]

theorem ensure_of {c : Prop} [Decidable c] (hc : c) (e : ε) : ensure c e = .ok () := if_pos hc

@[simp] theorem okOr_eq_ok {o : Option α} {e : ε} {a : α} : okOr o e = .ok a ↔ o = some a := by
  cases o <;> simp [okOr]

@[simp] theorem okOr_some (a : α) (e : ε) : okOr (some a) e = .ok a := rfl

theorem bind_eq_error {x : Except ε α} {f : α → Except ε β} {e : ε} :
    (x >>= f) = .error e ↔ x = .error e ∨ ∃ a, x = .ok a ∧ f a = .error e := by
  cases x with
  | error e' => simp [bind, Except.bind]
  | ok a => simp [bind, Except.bind]

@[simp] theorem mapError_eq_error {x : Except ε α} {g : ε → ε'} {e : ε'} :
    x.mapError g = .error e ↔ ∃ e', x = .error e' ∧ g e' = e := by
  cases x <;> simp [Except.mapError]

@[simp] theorem ensure_eq_error {c : Prop} [Decidable c] {e e' : ε} :
    ensure c e = .error e' ↔ ¬ c ∧ e = e' := by
  by_cases hc : c <;> simp [ensure, hc]

@[simp] theorem okOr_eq_error {o : Option α} {e e' : ε} :
    okOr o e = .error e' ↔ o = none ∧ e = e' := by
  cases o <;> simp [okOr]

/-- When this fails, it is with an error of this kind. -/
def FailsIn (P : ε → Prop) (x : Except ε α) : Prop := ∀ e, x = .error e → P e

variable {P : ε → Prop}

theorem FailsIn.bind {x : Except ε α} {f : α → Except ε β} (hx : FailsIn P x)
    (hf : ∀ a, x = .ok a → FailsIn P (f a)) : FailsIn P (x >>= f) := by
  intro e h
  rcases bind_eq_error.mp h with h | ⟨a, ha, h⟩
  · exact hx e h
  · exact hf a ha e h

theorem FailsIn.ok (a : α) : FailsIn P (.ok a : Except ε α) := nofun

theorem FailsIn.error {e : ε} (he : P e) : FailsIn P (.error e : Except ε α) := by
  intro e' h
  cases h
  exact he

theorem FailsIn.ensure {c : Prop} [Decidable c] {e : ε} (he : P e) : FailsIn P (ensure c e) := by
  intro e' h
  exact (ensure_eq_error.mp h).2 ▸ he

theorem FailsIn.okOr {o : Option α} {e : ε} (he : P e) : FailsIn P (okOr o e) := by
  intro e' h
  exact (okOr_eq_error.mp h).2 ▸ he

theorem FailsIn.mapError {P : ε' → Prop} {x : Except ε α} {g : ε → ε'} (hg : ∀ e, P (g e)) :
    FailsIn P (x.mapError g) := by
  intro e' h
  obtain ⟨e, -, rfl⟩ := mapError_eq_error.mp h
  exact hg e

theorem mapM_eq_ok_map {f : α → Except ε β} {g : α → β} {xs : List α}
    (h : ∀ x ∈ xs, f x = .ok (g x)) : xs.mapM f = .ok (xs.map g) := by
  induction xs with
  | nil => rfl
  | cons x xs ih =>
    rw [List.mapM_cons, h x List.mem_cons_self,
      ih fun y hy => h y (List.mem_cons_of_mem _ hy)]
    rfl

theorem exists_of_mem_mapM {f : α → Except ε β} {xs : List α} :
    ∀ {ys : List β}, xs.mapM f = .ok ys → ∀ y ∈ ys, ∃ x ∈ xs, f x = .ok y := by
  induction xs with
  | nil =>
    intro ys h y hy
    cases h
    cases hy
  | cons x xs ih =>
    intro ys h y hy
    rw [List.mapM_cons] at h
    obtain ⟨y', hy', h⟩ := bind_eq_ok.mp h
    obtain ⟨ys', hys', h⟩ := bind_eq_ok.mp h
    cases h
    cases hy with
    | head => exact ⟨x, List.mem_cons_self, hy'⟩
    | tail _ hy =>
      obtain ⟨x', hx', heq⟩ := ih hys' y hy
      exact ⟨x', List.mem_cons_of_mem _ hx', heq⟩

end Fallible
