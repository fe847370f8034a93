import Mathlib.LinearAlgebra.Lagrange

/-!
# Interpolation at zero over lists of points

Executable interpolation at zero, for points given as a list, with values in a module over
the field of the abscissas. The proofs go through `Lagrange.basis`.

## Main results

- `atZero_eval`: interpolating a polynomial of degree below the number of points gives its
  value at zero.
- `atZero_ne_zero`: a single value that is not zero shows.
- `exists_poly_with_constant`: fewer values leave the constant term open.
- `eval_toPoly`: Horner evaluation of a coefficient list is evaluation of its polynomial.
-/

open Polynomial

namespace Interpolation

variable {F M : Type*} [Field F]

section Horner

/-- Horner evaluation of a coefficient list, constant term first. -/
def horner (cs : List F) (x : F) : F := cs.foldr (fun c acc => c + x * acc) 0

/-- The polynomial of a coefficient list, constant term first. -/
noncomputable def toPoly (cs : List F) : F[X] := cs.foldr (fun c p => C c + X * p) 0

@[simp] theorem horner_nil (x : F) : horner [] x = 0 := rfl

@[simp] theorem horner_cons (c : F) (cs : List F) (x : F) :
    horner (c :: cs) x = c + x * horner cs x := rfl

theorem horner_cons_zero (c : F) (cs : List F) : horner (c :: cs) 0 = c := by simp

theorem eval_toPoly (cs : List F) (x : F) : (toPoly cs).eval x = horner cs x := by
  induction cs with
  | nil => simp [toPoly]
  | cons c cs ih =>
    have hcons : toPoly (c :: cs) = C c + X * toPoly cs := rfl
    rw [hcons, eval_add, eval_mul, eval_C, eval_X, ih, horner_cons]

theorem degree_toPoly_lt (cs : List F) : (toPoly cs).degree < cs.length := by
  induction cs with
  | nil => simp [toPoly]
  | cons c cs ih =>
    have hcons : toPoly (c :: cs) = C c + X * toPoly cs := rfl
    have hconst : (C c : F[X]).degree < ((c :: cs).length : WithBot ℕ) :=
      lt_of_le_of_lt degree_C_le (by exact_mod_cast Nat.succ_pos cs.length)
    have hshift : (X * toPoly cs).degree < ((c :: cs).length : WithBot ℕ) := by
      by_cases hzero : toPoly cs = 0
      · simp [hzero]
      · rw [degree_mul, degree_X, degree_eq_natDegree hzero] at *
        have : (toPoly cs).natDegree < cs.length := by exact_mod_cast ih
        rw [List.length_cons]
        exact_mod_cast (by omega : 1 + (toPoly cs).natDegree < cs.length + 1)
    rw [hcons]
    exact lt_of_le_of_lt (degree_add_le _ _) (max_lt hconst hshift)

theorem degree_list_sum_lt {gs : List F[X]} {t : ℕ} (h : ∀ g ∈ gs, g.degree < t) :
    gs.sum.degree < t := by
  rw [← mem_degreeLT]
  exact list_sum_mem fun g hg => mem_degreeLT.mpr (h g hg)

/-- A sum of functions that are polynomials of degree below `t` is one too. -/
theorem exists_poly_sum {ι : Type*} {ids : List ι} {c : ι → F → F} {t : ℕ} {intercept : ι → F}
    (h : ∀ i ∈ ids, ∃ g : F[X], g.degree < t ∧ g.eval 0 = intercept i ∧ ∀ x, c i x = g.eval x) :
    ∃ f : F[X], f.degree < t ∧ f.eval 0 = (ids.map intercept).sum ∧
      ∀ x, (ids.map fun i => c i x).sum = f.eval x := by
  have hchoose : ∀ i, ∃ g : F[X], i ∈ ids → g.degree < t ∧ g.eval 0 = intercept i ∧
      ∀ x, c i x = g.eval x := by
    intro i
    by_cases hi : i ∈ ids
    · obtain ⟨g, hg⟩ := h i hi
      exact ⟨g, fun _ => hg⟩
    · exact ⟨0, fun hi' => absurd hi' hi⟩
  choose g hg using hchoose
  have heval : ∀ x, (ids.map g).sum.eval x = (ids.map fun i => (g i).eval x).sum := by
    intro x
    rw [eval_listSum, List.map_map]
    rfl
  refine ⟨(ids.map g).sum, ?_, ?_, ?_⟩
  · apply degree_list_sum_lt
    intro p hp
    obtain ⟨i, hi, rfl⟩ := List.mem_map.mp hp
    exact (hg i hi).1
  · rw [heval, List.map_congr_left fun i hi => (hg i hi).2.1]
  · intro x
    rw [heval]
    exact congrArg List.sum (List.map_congr_left fun i hi => (hg i hi).2.2 x)

end Horner

section AtZero

variable [DecidableEq F] [AddCommGroup M] [Module F M]

/-- Weight of the abscissa `x` among `xs` when interpolating at zero. -/
def weight (xs : List F) (x : F) : F := ((xs.erase x).map fun y => y / (y - x)).prod

/-- Value at zero of the interpolation through a list of points. -/
def atZero (ps : List (F × M)) : M :=
  (ps.map fun p => weight (ps.map Prod.fst) p.1 • p.2).sum

/-- On distinct abscissas the weight is the Lagrange basis polynomial at zero. -/
theorem weight_eq_basis {xs : List F} (hnodup : xs.Nodup) (x : F) :
    weight xs x = (Lagrange.basis xs.toFinset id x).eval 0 := by
  have herase : (xs.erase x).Nodup := hnodup.erase x
  have hset : xs.toFinset.erase x = (xs.erase x).toFinset := by
    ext y
    simp [hnodup.mem_erase_iff]
  rw [Lagrange.basis, eval_prod, hset, List.prod_toFinset _ herase, weight]
  congr 1
  apply List.map_congr_left
  intro y hy
  have hne : y ≠ x := (hnodup.mem_erase_iff.mp hy).1
  have hyx : y - x ≠ 0 := sub_ne_zero.mpr hne
  have hxy : x - y ≠ 0 := sub_ne_zero.mpr hne.symm
  simp only [Lagrange.basisDivisor, id, eval_mul, eval_C, eval_sub, eval_X]
  field_simp
  ring

/-- The weights recover the constant term of a polynomial of small degree. -/
theorem sum_weight_mul_eval {xs : List F} (hnodup : xs.Nodup) (f : F[X])
    (hdeg : f.degree < xs.length) :
    (xs.map fun x => weight xs x * f.eval x).sum = f.eval 0 := by
  have hcard : f.degree < xs.toFinset.card := by rwa [List.toFinset_card_of_nodup hnodup]
  have hf := Lagrange.eq_interpolate (s := xs.toFinset) (v := id) (Set.injOn_id _) hcard
  have hzero : f.eval 0 = ∑ x ∈ xs.toFinset, weight xs x * f.eval x := by
    conv_lhs => rw [hf, Lagrange.interpolate_apply, eval_finsetSum]
    apply Finset.sum_congr rfl
    intro x _
    rw [eval_mul, eval_C, weight_eq_basis hnodup, mul_comm]
    rfl
  rw [hzero, List.sum_toFinset _ hnodup]

/-- Interpolating multiples `f x • h` of one point gives `f 0 • h`. -/
theorem atZero_eval {xs : List F} (hnodup : xs.Nodup) (f : F[X]) (hdeg : f.degree < xs.length)
    (h : M) : atZero (xs.map fun x => (x, f.eval x • h)) = f.eval 0 • h := by
  have hfst : (xs.map fun x => (x, f.eval x • h)).map Prod.fst = xs := by simp [Function.comp_def]
  rw [← sum_weight_mul_eval hnodup f hdeg, atZero, hfst, List.sum_smul, List.map_map, List.map_map]
  congr 1
  apply List.map_congr_left
  intro x _
  simp [mul_smul]

/-- Interpolation is additive in the values. -/
theorem atZero_add {α : Type*} (l : List α) (x : α → F) (u v : α → M) :
    atZero (l.map fun a => (x a, u a + v a)) =
      atZero (l.map fun a => (x a, u a)) + atZero (l.map fun a => (x a, v a)) := by
  simp only [atZero, List.map_map, Function.comp_def, smul_add, List.sum_map_add]

theorem weight_ne_zero {xs : List F} (hnodup : xs.Nodup) (hzero : 0 ∉ xs) (x : F) :
    weight xs x ≠ 0 := by
  apply List.prod_ne_zero
  intro hmem
  obtain ⟨y, hy, hdiv⟩ := List.mem_map.mp hmem
  obtain ⟨hne, hyxs⟩ := hnodup.mem_erase_iff.mp hy
  rcases div_eq_zero_iff.mp hdiv with rfl | hsub
  · exact hzero hyxs
  · exact hne (sub_eq_zero.mp hsub)

/-- One value that is not zero does not interpolate to zero. -/
theorem atZero_ne_zero {ps : List (F × M)} (hnodup : (ps.map Prod.fst).Nodup)
    (hzero : 0 ∉ ps.map Prod.fst) {p : F × M} (hp : p ∈ ps) (hvalue : p.2 ≠ 0)
    (hothers : ∀ q ∈ ps, q ≠ p → q.2 = 0) : atZero ps ≠ 0 := by
  classical
  have hterm : atZero ps = weight (ps.map Prod.fst) p.1 • p.2 := by
    have hcount := @List.count_eq_one_of_mem _ instBEqOfDecidableEq _ _ _
      (List.Nodup.of_map _ hnodup) hp
    rw [atZero, List.sum_map_eq_nsmul_single p, hcount, one_smul]
    intro q hne hq
    rw [hothers q hq hne, smul_zero]
  rw [hterm]
  exact smul_ne_zero (weight_ne_zero hnodup hzero p.1) hvalue

end AtZero

section Mask

/-- The polynomial that is one at zero and vanishes on `xs`. -/
noncomputable def mask (xs : List F) : F[X] := (xs.map fun x => 1 - C x⁻¹ * X).prod

theorem mask_cons (x : F) (xs : List F) : mask (x :: xs) = (1 - C x⁻¹ * X) * mask xs :=
  List.prod_cons

theorem eval_mask_zero (xs : List F) : (mask xs).eval 0 = 1 := by
  induction xs with
  | nil => exact eval_one
  | cons x xs ih => simp [mask_cons, ih]

theorem eval_mask_of_mem {xs : List F} {x : F} (hx : x ∈ xs) (hzero : x ≠ 0) :
    (mask xs).eval x = 0 := by
  induction xs with
  | nil => cases hx
  | cons y ys ih =>
    rw [mask_cons, eval_mul]
    rcases List.mem_cons.mp hx with rfl | hys
    · simp [inv_mul_cancel₀ hzero]
    · rw [ih hys, mul_zero]

theorem degree_mask_le (xs : List F) : (mask xs).degree ≤ xs.length := by
  induction xs with
  | nil => exact degree_one_le
  | cons x xs ih =>
    have hlinear : (1 - C x⁻¹ * X : F[X]).degree ≤ 1 :=
      le_trans (degree_sub_le _ _) (max_le (degree_one_le.trans zero_le_one) (degree_C_mul_X_le _))
    rw [mask_cons, List.length_cons, Nat.cast_add, Nat.cast_one, add_comm]
    exact le_trans (degree_mul_le _ _) (add_le_add hlinear ih)

/-- Fewer values than coefficients are those of polynomials with any constant term. -/
theorem exists_poly_with_constant {xs : List F} (hzero : 0 ∉ xs) {f : F[X]} {n : ℕ}
    (hf : f.degree < n) (hlength : xs.length < n) (c : F) :
    ∃ g : F[X], g.degree < n ∧ g.eval 0 = c ∧ ∀ x ∈ xs, g.eval x = f.eval x := by
  refine ⟨f + C (c - f.eval 0) * mask xs, ?_, ?_, fun x hx => ?_⟩
  · refine lt_of_le_of_lt (degree_add_le _ _) (max_lt hf ?_)
    calc (C (c - f.eval 0) * mask xs).degree ≤ (mask xs).degree := by
          rw [C_mul']
          exact degree_smul_le _ _
      _ ≤ xs.length := degree_mask_le xs
      _ < n := by exact_mod_cast hlength
  · simp [eval_mask_zero]
  · have hne : x ≠ 0 := fun h => hzero (h ▸ hx)
    simp [eval_mask_of_mem hx hne]

end Mask

end Interpolation
