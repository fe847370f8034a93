import Mathlib.Logic.Function.Basic

/-!
# Mutual exclusion by a lock

A lock is the party that holds it, if any. `Passes` is what one step of a party may do to it, and
`Guarded` the invariant: whoever is in the section holds the lock.

## Main results

- `Guarded.exclusive`: at most one party is in the section.
- `Guarded.pass`: a step that passes the lock on keeps the section guarded.
-/

namespace Mutex

variable {I : Type*}

/-- What a step of `i` does to a lock that it holds before (`held`) and after (`held'`). -/
def Passes (i : I) (held held' : Bool) (lock lock' : Option I) : Prop :=
  match held, held' with
  | false, true => lock = none ∧ lock' = some i
  | true, false => lock' = none
  | _, _ => lock' = lock

/-- Whoever is in the section holds the lock. -/
def Guarded (inside : I → Prop) (lock : Option I) : Prop := ∀ i, inside i → lock = some i

variable {inside inside' : I → Prop} {lock lock' : Option I}

theorem Guarded.exclusive (h : Guarded inside lock) {i j : I} (hi : inside i) (hj : inside j) :
    i = j :=
  Option.some.inj ((h i hi).symm.trans (h j hj))

/-- A step of a party that is the only one to enter or leave the section. -/
theorem Guarded.pass (h : Guarded inside lock) {i : I} {held held' : Bool}
    (hlock : Passes i held held' lock lock') (hheld : held = true → inside i)
    (hheld' : inside' i → held' = true) (hothers : ∀ j, j ≠ i → inside' j → inside j) :
    Guarded inside' lock' := by
  intro j hj
  by_cases hji : j = i
  · subst hji
    obtain rfl := hheld' hj
    cases held with
    | false => exact hlock.2
    | true => exact hlock.trans (h j (hheld rfl))
  · have hlocked := h j (hothers j hji hj)
    cases held with
    | false =>
      cases held' with
      | false => exact hlock.trans hlocked
      | true =>
        rw [hlock.1] at hlocked
        cases hlocked
    | true => exact absurd (Option.some.inj (hlocked.symm.trans (h i (hheld rfl)))) hji

end Mutex
