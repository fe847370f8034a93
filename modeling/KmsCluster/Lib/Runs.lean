import Mathlib.Data.List.Induction

/-!
# Runs of a partial step function

A transition system is a step function `S → L → Option S`: a label is a choice of the
scheduler and the environment, `none` means that it is not enabled. `exec` runs a list of
labels, `Meets` says that a condition holds in the state before each step of a run, and `check`
evaluates such a condition.

## Main results

- `exec_invariant`: an invariant of the steps is an invariant of the runs.
- `exec_invariant_of_meets`: the same for runs whose steps all meet a condition.
- `exec_map`, `exec_lift`: runs under a map of the states that takes steps to steps, or covers them.
- `exec_of_mark`, `exec_of_marks`: what certain steps bring about, at once or by the next of them.
- `exec_simulates_of_meets`, `exec_lockstep_of_meets`: forward simulation, for runs whose steps all
  meet a condition.
- `Meets.of_invariant`: what an invariant and a condition give of each step.
- `meets_iff_of_invariant`: conditions that agree under an invariant are met by the same runs.
- `forall_prefix_iff`: a property of every state of a run.
- `exec_history`: the same for invariants that speak of the labels executed so far.
-/

namespace Runs

variable {S L : Type*}

/-- Execute a list of labels from a state. -/
def exec (step : S → L → Option S) : S → List L → Option S
  | s, [] => some s
  | s, l :: ls => (step s l).bind fun s' => exec step s' ls

/-- Every step of the run meets `G` in the state before it. -/
def Meets (step : S → L → Option S) (G : S → L → Prop) : S → List L → Prop
  | _, [] => True
  | s, l :: ls => G s l ∧ ∀ s', step s l = some s' → Meets step G s' ls

/-- Evaluate a condition along a run. -/
def check (step : S → L → Option S) (g : S → L → Bool) : S → List L → Bool
  | _, [] => true
  | s, l :: ls => g s l && (step s l).all fun s' => check step g s' ls

variable {step : S → L → Option S} {G : S → L → Prop}

theorem exec_cons_eq_some {s s' : S} {l : L} {ls : List L} :
    exec step s (l :: ls) = some s' ↔ ∃ m, step s l = some m ∧ exec step m ls = some s' := by
  simp [exec, Option.bind_eq_some_iff]

/-- A condition along a run whose first step is known. -/
theorem Meets.cons {s m : S} {l : L} {ls : List L} (hG : G s l) (hstep : step s l = some m)
    (h : Meets step G m ls) : Meets step G s (l :: ls) := by
  refine ⟨hG, fun s' hs' => ?_⟩
  cases hstep.symm.trans hs'
  exact h

theorem exec_append {s : S} (ls ls' : List L) :
    exec step s (ls ++ ls') = (exec step s ls).bind fun m => exec step m ls' := by
  induction ls generalizing s with
  | nil => rfl
  | cons l ls ih =>
    simp only [List.cons_append, exec, Option.bind_assoc]
    congr 1
    funext m
    exact ih

/-- A condition is met along the run when a test that implies it, in the states that satisfy an
    invariant, evaluates to true. -/
theorem meets_of_check_of_invariant {I : S → Prop} {g : S → L → Bool}
    (hstep : ∀ s l s', I s → step s l = some s' → I s')
    (hg : ∀ s l, I s → g s l = true → G s l) {ls : List L} :
    ∀ {s : S}, I s → check step g s ls = true → Meets step G s ls := by
  induction ls with
  | nil =>
    intro s _ _
    trivial
  | cons l ls ih =>
    intro s hI h
    simp only [check, Bool.and_eq_true] at h
    refine ⟨hg s l hI h.1, fun s' hs' => ih (hstep s l s' hI hs') ?_⟩
    simpa [hs'] using h.2

/-- A condition that evaluates to true along the run is met. -/
theorem meets_of_check {g : S → L → Bool} (hg : ∀ s l, g s l = true → G s l) {ls : List L} {s : S}
    (h : check step g s ls = true) : Meets step G s ls :=
  meets_of_check_of_invariant (I := fun _ => True) (fun _ _ _ _ _ => trivial)
    (fun s l _ => hg s l) trivial h

/-- A condition on the labels alone. -/
theorem meets_of_forall {P : L → Prop} {ls : List L} (h : ∀ l ∈ ls, P l) (s : S) :
    Meets step (fun _ l => P l) s ls := by
  induction ls generalizing s with
  | nil => trivial
  | cons l ls ih =>
    exact ⟨h l List.mem_cons_self,
      fun s' _ => ih (fun l' hl' => h l' (List.mem_cons_of_mem _ hl')) s'⟩

theorem Meets.and {P : S → L → Prop} {ls : List L} {s : S} (hG : Meets step G s ls)
    (hP : Meets step P s ls) : Meets step (fun s l => G s l ∧ P s l) s ls := by
  induction ls generalizing s with
  | nil => trivial
  | cons l ls ih => exact ⟨⟨hG.1, hP.1⟩, fun s' hs' => ih (hG.2 s' hs') (hP.2 s' hs')⟩

theorem meets_append {s : S} (ls ls' : List L) : Meets step G s (ls ++ ls') ↔
    Meets step G s ls ∧ ∀ m, exec step s ls = some m → Meets step G m ls' := by
  induction ls generalizing s with
  | nil =>
    constructor
    · intro h
      refine ⟨trivial, fun m hm => ?_⟩
      cases hm
      exact h
    · intro h
      exact h.2 s rfl
  | cons l ls ih =>
    constructor
    · intro h
      refine ⟨⟨h.1, fun s' hs' => (ih.mp (h.2 s' hs')).1⟩, fun m hm => ?_⟩
      obtain ⟨s', hs', hrest⟩ := exec_cons_eq_some.mp hm
      exact (ih.mp (h.2 s' hs')).2 m hrest
    · intro h
      refine ⟨h.1.1, fun s' hs' => ih.mpr ⟨h.1.2 s' hs', fun m hm => ?_⟩⟩
      exact h.2 m (exec_cons_eq_some.mpr ⟨s', hs', hm⟩)

/-- The first step of a run that does not meet the condition. -/
theorem exists_of_not_meets {ls : List L} : ∀ {s : S}, ¬ Meets step G s ls →
    ∃ pre l post m, ls = pre ++ l :: post ∧ Meets step G s pre ∧ exec step s pre = some m ∧
      ¬ G m l := by
  induction ls with
  | nil =>
    intro s h
    exact absurd trivial h
  | cons l ls ih =>
    intro s h
    by_cases hl : G s l
    · obtain ⟨s', hs', hrest⟩ : ∃ s', step s l = some s' ∧ ¬ Meets step G s' ls := by
        by_contra hnone
        push Not at hnone
        exact h ⟨hl, hnone⟩
      obtain ⟨pre, l', post, m, rfl, hpre, hrun, hviolated⟩ := ih hrest
      refine ⟨l :: pre, l', post, m, rfl, ⟨hl, ?_⟩, exec_cons_eq_some.mpr ⟨s', hs', hrun⟩,
        hviolated⟩
      intro s'' hs''
      cases hs'.symm.trans hs''
      exact hpre
    · exact ⟨[], l, ls, s, rfl, trivial, rfl, hl⟩

/-- The same within a run that goes on. -/
theorem exists_step_of_not_meets {ls : List L} {s s' : S} (hrun : exec step s ls = some s')
    (h : ¬ Meets step G s ls) : ∃ pre l post m m', ls = pre ++ l :: post ∧
      exec step s pre = some m ∧ step m l = some m' ∧ exec step m' post = some s' ∧ ¬ G m l := by
  obtain ⟨pre, l, post, m, rfl, -, hpre, hviolated⟩ := exists_of_not_meets h
  rw [exec_append, hpre, Option.bind_some] at hrun
  obtain ⟨m', hm', hpost⟩ := exec_cons_eq_some.mp hrun
  exact ⟨pre, l, post, m, m', rfl, hpre, hm', hpost, hviolated⟩

/-- What every step that meets `G` preserves, every run whose steps meet `G` preserves. -/
theorem exec_invariant_of_meets {I : S → Prop}
    (hstep : ∀ s l s', I s → G s l → step s l = some s' → I s') :
    ∀ {ls : List L} {s s' : S}, I s → Meets step G s ls → exec step s ls = some s' → I s' := by
  intro ls
  induction ls with
  | nil =>
    intro s s' hI _ hrun
    cases hrun
    exact hI
  | cons l ls ih =>
    intro s s' hI hmeets hrun
    obtain ⟨m, hm, hrest⟩ := exec_cons_eq_some.mp hrun
    exact ih (hstep s l m hI hmeets.1 hm) (hmeets.2 m hm) hrest

/-- What every step preserves, every run preserves. -/
theorem exec_invariant {I : S → Prop}
    (hstep : ∀ s l s', I s → step s l = some s' → I s') {ls : List L} {s s' : S} (hI : I s)
    (hrun : exec step s ls = some s') : I s' := by
  have hmeets : Meets step (fun _ _ => True) s ls := meets_of_forall (fun _ _ => trivial) s
  exact exec_invariant_of_meets (fun s l s' hI _ => hstep s l s' hI) hI hmeets hrun

/-- When every step is one of another system, so is every run. -/
theorem exec_map {S' L' : Type*} {step' : S' → L' → Option S'} {f : S → S'}
    (hstep : ∀ s l s', step s l = some s' → ∃ l', step' (f s) l' = some (f s')) :
    ∀ {ls : List L} {s s' : S}, exec step s ls = some s' →
      ∃ ls', exec step' (f s) ls' = some (f s') := by
  intro ls
  induction ls with
  | nil =>
    intro s s' hrun
    cases hrun
    exact ⟨[], rfl⟩
  | cons l ls ih =>
    intro s s' hrun
    obtain ⟨m, hm, hrest⟩ := exec_cons_eq_some.mp hrun
    obtain ⟨l', hl'⟩ := hstep s l m hm
    obtain ⟨ls', hls'⟩ := ih hrest
    exact ⟨l' :: ls', exec_cons_eq_some.mpr ⟨f m, hl', hls'⟩⟩

/-- When every step can be followed by a step of a system with more in its states, so can every
    run. -/
theorem exec_lift {S' : Type*} {step' : S' → L → Option S'} {f : S' → S}
    (hstep : ∀ t l s', step (f t) l = some s' → ∃ t', step' t l = some t' ∧ f t' = s') :
    ∀ {ls : List L} {t : S'} {s' : S}, exec step (f t) ls = some s' →
      ∃ t', exec step' t ls = some t' ∧ f t' = s' := by
  intro ls
  induction ls with
  | nil =>
    intro t s' hrun
    cases hrun
    exact ⟨t, rfl, rfl⟩
  | cons l ls ih =>
    intro t s' hrun
    obtain ⟨m, hm, hrest⟩ := exec_cons_eq_some.mp hrun
    obtain ⟨t', ht', rfl⟩ := hstep t l m hm
    obtain ⟨t'', hrun', hstate⟩ := ih hrest
    exact ⟨t'', exec_cons_eq_some.mpr ⟨t', ht', hrun'⟩, hstate⟩

/-- Forward simulation: when every step that meets `G` is followed by some steps of another system,
    which keep the two states related, so is every run whose steps meet `G`. -/
theorem exec_simulates_of_meets {S' L' : Type*} {step' : S' → L' → Option S'} {R : S → S' → Prop}
    (hstep : ∀ s t l s', R s t → G s l → step s l = some s' →
      ∃ ls' t', exec step' t ls' = some t' ∧ R s' t') :
    ∀ {ls : List L} {s s' : S} {t : S'}, R s t → Meets step G s ls → exec step s ls = some s' →
      ∃ ls' t', exec step' t ls' = some t' ∧ R s' t' := by
  intro ls
  induction ls with
  | nil =>
    intro s s' t hrel _ hrun
    cases hrun
    exact ⟨[], t, rfl, hrel⟩
  | cons l ls ih =>
    intro s s' t hrel hmeets hrun
    obtain ⟨m, hm, hrest⟩ := exec_cons_eq_some.mp hrun
    obtain ⟨first, t₁, hfirst, hrel₁⟩ := hstep s t l m hrel hmeets.1 hm
    obtain ⟨rest, t', hrest', hrel'⟩ := ih hrel₁ (hmeets.2 m hm) hrest
    refine ⟨first ++ rest, t', ?_, hrel'⟩
    rw [exec_append, hfirst]
    exact hrest'

/-- The same when every step is followed by one with the same label. -/
theorem exec_lockstep_of_meets {S' : Type*} {step' : S' → L → Option S'} {R : S → S' → Prop}
    (hstep : ∀ s t l s', R s t → G s l → step s l = some s' →
      ∃ t', step' t l = some t' ∧ R s' t') :
    ∀ {ls : List L} {s s' : S} {t : S'}, R s t → Meets step G s ls → exec step s ls = some s' →
      ∃ t', exec step' t ls = some t' ∧ R s' t' := by
  intro ls
  induction ls with
  | nil =>
    intro s s' t hrel _ hrun
    cases hrun
    exact ⟨t, rfl, hrel⟩
  | cons l ls ih =>
    intro s s' t hrel hmeets hrun
    obtain ⟨m, hm, hrest⟩ := exec_cons_eq_some.mp hrun
    obtain ⟨t₁, ht₁, hrel₁⟩ := hstep s t l m hrel hmeets.1 hm
    obtain ⟨t', hrest', hrel'⟩ := ih hrel₁ (hmeets.2 m hm) hrest
    exact ⟨t', exec_cons_eq_some.mpr ⟨t₁, ht₁, hrest'⟩, hrel'⟩

/-- What a marked step brings about, and no step undoes, holds once a run has had such a step. -/
theorem exec_of_mark {I Q : S → Prop} {mark : L → Prop}
    (hstep : ∀ s l s', I s → G s l → step s l = some s' → I s')
    (hstable : ∀ s l s', I s → G s l → step s l = some s' → Q s → Q s')
    (hmark : ∀ s l s', I s → G s l → step s l = some s' → mark l → Q s') :
    ∀ {ls : List L} {s s' : S}, (∃ l ∈ ls, mark l) → I s → Meets step G s ls →
      exec step s ls = some s' → Q s' := by
  intro ls
  induction ls with
  | nil =>
    rintro s s' ⟨l, hl, -⟩ _ _ _
    cases hl
  | cons l ls ih =>
    rintro s s' ⟨l', hl', hmarked⟩ hI hmeets hrun
    obtain ⟨m, hm, hrest⟩ := exec_cons_eq_some.mp hrun
    have hIm := hstep s l m hI hmeets.1 hm
    rcases List.mem_cons.mp hl' with rfl | htail
    · have hboth : I s' ∧ Q s' := exec_invariant_of_meets (I := fun s => I s ∧ Q s)
        (fun s l s' h hG hs => ⟨hstep s l s' h.1 hG hs, hstable s l s' h.1 hG hs h.2⟩)
        ⟨hIm, hmark s _ m hI hmeets.1 hm hmarked⟩ (hmeets.2 m hm) hrest
      exact hboth.2
    · exact ih ⟨l', htail, hmarked⟩ hIm (hmeets.2 m hm) hrest

/-- What a marked step sets going stays under way until it is done, and it is done by the next
    marked step. -/
theorem exec_of_marks {I P Q : S → Prop} {mark : L → Prop}
    (hstep : ∀ s l s', I s → G s l → step s l = some s' → I s')
    (hdone : ∀ s l s', I s → G s l → step s l = some s' → Q s → Q s')
    (hpend : ∀ s l s', I s → G s l → step s l = some s' → P s → P s' ∨ Q s')
    (hstart : ∀ s l s', I s → G s l → step s l = some s' → mark l → P s' ∨ Q s')
    (hend : ∀ s l s', I s → G s l → step s l = some s' → mark l → ¬P s)
    {first second : List L} {s s' : S} (hfirst : ∃ l ∈ first, mark l)
    (hsecond : ∃ l ∈ second, mark l) (hI : I s) (hmeets : Meets step G s (first ++ second))
    (hrun : exec step s (first ++ second) = some s') : Q s' := by
  rw [exec_append, Option.bind_eq_some_iff] at hrun
  obtain ⟨m, hm, hrest⟩ := hrun
  obtain ⟨hmeetsFirst, hmeetsSecond⟩ := (meets_append first second).mp hmeets
  have hgoing : ∀ s l s', I s → G s l → step s l = some s' → P s ∨ Q s →
      P s' ∨ Q s' := by
    intro s l s' hI hG hs h
    rcases h with h | h
    · exact hpend s l s' hI hG hs h
    · exact .inr (hdone s l s' hI hG hs h)
  have hset : P m ∨ Q m := exec_of_mark hstep hgoing hstart hfirst hI hmeetsFirst hm
  have hIm : I m := exec_invariant_of_meets hstep hI hmeetsFirst hm
  refine exec_of_mark (I := fun s => I s ∧ (P s ∨ Q s))
    (fun s l s' h hG hs => ⟨hstep s l s' h.1 hG hs, hgoing s l s' h.1 hG hs h.2⟩)
    (fun s l s' h hG hs => hdone s l s' h.1 hG hs)
    (fun s l s' h hG hs hmarked => ?_) hsecond ⟨hIm, hset⟩ (hmeetsSecond m hm) hrest
  exact hdone s l s' h.1 hG hs (h.2.resolve_left (hend s l s' h.1 hG hs hmarked))

/-- What holds of a step that meets `G` under an invariant of such steps holds along the runs that
    meet `G`. -/
theorem Meets.of_invariant {I : S → Prop} {P : S → L → Prop}
    (hstep : ∀ s l s', I s → G s l → step s l = some s' → I s')
    (hP : ∀ s l, I s → G s l → P s l) :
    ∀ {ls : List L} {s : S}, I s → Meets step G s ls → Meets step P s ls := by
  intro ls
  induction ls with
  | nil =>
    intro s _ _
    trivial
  | cons l ls ih =>
    intro s hI h
    exact ⟨hP s l hI h.1, fun s' hs' => ih (hstep s l s' hI h.1 hs') (h.2 s' hs')⟩

theorem Meets.imp {P : S → L → Prop} {ls : List L} {s : S} (hG : Meets step G s ls)
    (h : ∀ s l, G s l → P s l) : Meets step P s ls :=
  Meets.of_invariant (I := fun _ => True) (fun _ _ _ _ _ _ => trivial) (fun s l _ => h s l) trivial
    hG

/-- Two conditions that agree on the enabled steps of the states that satisfy an invariant are met
    by the same runs. -/
theorem meets_iff_of_invariant {I : S → Prop} {P : S → L → Prop}
    (hstep : ∀ s l s', I s → G s l → step s l = some s' → I s')
    (hiff : ∀ s l s', I s → step s l = some s' → (P s l ↔ G s l)) :
    ∀ {ls : List L} {s s' : S}, I s → exec step s ls = some s' →
      (Meets step P s ls ↔ Meets step G s ls) := by
  intro ls
  induction ls with
  | nil =>
    intro s s' _ _
    exact Iff.rfl
  | cons l ls ih =>
    intro s s' hI hrun
    obtain ⟨m, hm, hrest⟩ := exec_cons_eq_some.mp hrun
    have hhead := hiff s l m hI hm
    constructor
    · intro h
      have hG := hhead.mp h.1
      refine ⟨hG, fun m' hm' => ?_⟩
      cases hm.symm.trans hm'
      exact (ih (hstep s l m hI hG hm) hrest).mp (h.2 m hm)
    · intro h
      refine ⟨hhead.mpr h.1, fun m' hm' => ?_⟩
      cases hm.symm.trans hm'
      exact (ih (hstep s l m hI h.1 hm) hrest).mpr (h.2 m hm)

/-- A property of every state of a run, the first one and the one after each step. -/
theorem forall_prefix_iff {P : S → Prop} {ls : List L} : ∀ {s : S},
    (∀ pre m, pre <+: ls → exec step s pre = some m → P m) ↔
      P s ∧ Meets step (fun m l => ∀ m', step m l = some m' → P m') s ls := by
  induction ls with
  | nil =>
    intro s
    constructor
    · intro h
      exact ⟨h [] s List.nil_prefix rfl, trivial⟩
    · rintro ⟨hs, -⟩ pre m hpre hm
      rw [List.prefix_nil.mp hpre] at hm
      cases hm
      exact hs
  | cons l ls ih =>
    intro s
    constructor
    · intro h
      have hrest : ∀ m, step s l = some m →
          ∀ pre m', pre <+: ls → exec step m pre = some m' → P m' := by
        intro m hm pre m' hpre hm'
        exact h (l :: pre) m' (List.cons_prefix_cons.mpr ⟨rfl, hpre⟩)
          (exec_cons_eq_some.mpr ⟨m, hm, hm'⟩)
      exact ⟨h [] s List.nil_prefix rfl, fun m hm => (ih.mp (hrest m hm)).1,
        fun m hm => (ih.mp (hrest m hm)).2⟩
    · rintro ⟨hs, hl, hls⟩ pre m hpre hm
      cases pre with
      | nil =>
        cases hm
        exact hs
      | cons l' pre =>
        obtain ⟨rfl, htail⟩ := List.cons_prefix_cons.mp hpre
        obtain ⟨m', hm', hrest⟩ := exec_cons_eq_some.mp hm
        exact ih.mpr ⟨hl m' hm', hls m' hm'⟩ pre m htail hrest

/-- An invariant that also speaks of the labels executed so far. -/
theorem exec_history {I : List L → S → Prop} {s₀ : S} (hinit : I [] s₀)
    (hstep : ∀ ls s l s', I ls s → step s l = some s' → I (ls ++ [l]) s') :
    ∀ {ls : List L} {s : S}, exec step s₀ ls = some s → I ls s := by
  intro ls
  induction ls using List.reverseRecOn with
  | nil =>
    intro s hrun
    cases hrun
    exact hinit
  | append_singleton ls l ih =>
    intro s hrun
    rw [exec_append, Option.bind_eq_some_iff] at hrun
    obtain ⟨m, hm, hl⟩ := hrun
    obtain ⟨s', hs', hnil⟩ := exec_cons_eq_some.mp hl
    cases hnil
    exact hstep ls m l s (ih hm) hs'

end Runs
