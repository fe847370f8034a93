import Mathlib.Data.List.Infix

/-!
# Correspondences

Protocols are specified by what must have happened before: whenever this event occurs, some other
one occurred earlier. A log holds the events of a run, the newest first.

## Main results

- `Justified.of_suffix`: what an event needs holds of the log as it was before.
- `Justified.exists_earlier`: the same from an event that is somewhere in the log.
- `since_cons`: how "not interrupted since" goes on with the log.
-/

namespace Correspondence

variable {E : Type*}

/-- Every event of the log has what it needs among the events before it. -/
def Justified (needs : E → List E → Prop) : List E → Prop
  | [] => True
  | event :: log => needs event log ∧ Justified needs log

variable {needs : E → List E → Prop} {log log' : List E}

theorem Justified.suffix (h : Justified needs log) (hsuffix : log' <:+ log) :
    Justified needs log' := by
  induction log with
  | nil =>
    obtain rfl := List.suffix_nil.mp hsuffix
    exact h
  | cons event log ih =>
    rcases List.suffix_cons_iff.mp hsuffix with rfl | hrest
    · exact h
    · exact ih h.2 hrest

theorem Justified.of_suffix (h : Justified needs log) {event : E} {earlier : List E}
    (hsuffix : (event :: earlier) <:+ log) : needs event earlier :=
  (h.suffix hsuffix).1

/-- An event of the log, the log as it was before, and what the event needs of it. -/
theorem Justified.exists_earlier (h : Justified needs log) {event : E} (hmem : event ∈ log) :
    ∃ earlier, (event :: earlier) <:+ log ∧ needs event earlier := by
  obtain ⟨later, earlier, rfl⟩ := List.append_of_mem hmem
  have hsuffix : (event :: earlier) <:+ later ++ event :: earlier := List.suffix_append _ _
  exact ⟨earlier, hsuffix, h.of_suffix hsuffix⟩

/-- Some event of the log is `Q`, and all that came after it are `P`. -/
def Since (P Q : E → Prop) (log : List E) : Prop :=
  ∃ later event earlier, log = later ++ event :: earlier ∧ (∀ e ∈ later, P e) ∧ Q event

variable {P Q : E → Prop}

theorem since_nil : ¬ Since P Q [] := by
  rintro ⟨later, event, earlier, heq, -⟩
  exact List.append_ne_nil_of_right_ne_nil later (List.cons_ne_nil event earlier) heq.symm

theorem since_cons {event : E} :
    Since P Q (event :: log) ↔ Q event ∨ P event ∧ Since P Q log := by
  constructor
  · rintro ⟨later, e, earlier, heq, hlater, he⟩
    cases later with
    | nil =>
      obtain ⟨rfl, rfl⟩ := List.cons.inj heq
      exact .inl he
    | cons first later =>
      obtain ⟨rfl, rfl⟩ := List.cons.inj heq
      obtain ⟨hfirst, hrest⟩ := List.forall_mem_cons.mp hlater
      exact .inr ⟨hfirst, later, e, earlier, rfl, hrest, he⟩
  · rintro (he | ⟨hevent, later, e, earlier, rfl, hlater, he⟩)
    · exact ⟨[], event, log, rfl, nofun, he⟩
    · exact ⟨event :: later, e, earlier, rfl, List.forall_mem_cons.mpr ⟨hevent, hlater⟩, he⟩

end Correspondence
