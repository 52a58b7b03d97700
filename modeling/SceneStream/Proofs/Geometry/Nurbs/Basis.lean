import Mathlib.Algebra.Polynomial.Derivative
import Mathlib.Tactic.LinearCombination
import SceneStream.Proofs.Geometry.Nurbs.Accepted

/-! The basis functions of a span in exact arithmetic. They are the polynomials of the Cox-de Boor recursion on that
span, where only the constant function of the span itself begins as one. -/
namespace SceneStream.Geometry
open Knots Polynomial
variable {α : Type} [Field α] [LinearOrder α] [Roots α]

namespace NurbsAxis

/-- The function of a degree that begins at knot `j`, on a span. What is divided by zero is zero. -/
noncomputable def spline (knots : List α) (span : Nat) : Nat → Nat → α[X]
  | 0, j => if j = span then 1 else 0
  | degree + 1, j =>
    C (knot knots (j + degree + 1) - knot knots j)⁻¹ * (X - C (knot knots j)) * spline knots span degree j +
      C (knot knots (j + degree + 2) - knot knots (j + 1))⁻¹ * (C (knot knots (j + degree + 2)) - X) *
        spline knots span degree (j + 1)

theorem splineNext (knots : List α) (span degree j : Nat) :
    spline knots span (degree + 1) j =
      C (knot knots (j + degree + 1) - knot knots j)⁻¹ * (X - C (knot knots j)) * spline knots span degree j +
        C (knot knots (j + degree + 2) - knot knots (j + 1))⁻¹ * (C (knot knots (j + degree + 2)) - X) *
          spline knots span degree (j + 1) := rfl

theorem splineBeyond (knots : List α) {span degree j : Nat} (beyond : span < j ∨ j + degree < span) :
    spline knots span degree j = 0 := by
  induction degree generalizing j with
  | zero => exact if_neg (by omega)
  | succ degree ih =>
    rw [splineNext, ih (by omega), ih (by omega), mul_zero, mul_zero, add_zero]

theorem inverseWithin [IsStrictOrderedRing α] {x y : α} (low : 0 ≤ x) (within : x ≤ y) : y * y⁻¹ * x⁻¹ = x⁻¹ := by
  rcases low.eq_or_lt with rfl | positive
  · rw [inv_zero, mul_zero]
  · rw [mul_inv_cancel₀ (positive.trans_le within).ne', one_mul]

def Rising (knots : List α) : Prop := ∀ i j, i ≤ j → j < knots.length → knot knots i ≤ knot knots j

theorem splineSlope [IsStrictOrderedRing α] {knots : List α} (rising : Rising knots) (span degree j : Nat)
    (inside : j + degree + 2 < knots.length) :
    derivative (spline knots span (degree + 1) j) =
      C ((degree + 1 : Nat) : α) *
        (C (knot knots (j + degree + 1) - knot knots j)⁻¹ * spline knots span degree j -
          C (knot knots (j + degree + 2) - knot knots (j + 1))⁻¹ * spline knots span degree (j + 1)) := by
  induction degree generalizing j with
  | zero =>
    have flat (j : Nat) : derivative (spline knots span 0 j) = 0 := by
      rw [spline]
      split <;> simp
    rw [splineNext]
    simp only [derivative_add, derivative_mul, derivative_sub, derivative_C, derivative_X, flat]
    simp only [Nat.cast_one, map_one, zero_add]
    ring
  | succ degree ih =>
    rw [splineNext]
    simp only [derivative_add, derivative_mul, derivative_sub, derivative_C, derivative_X]
    rw [ih j (by omega), ih (j + 1) (by omega)]
    have up : j + (degree + 1) + 1 = j + degree + 2 ∧ j + (degree + 1) + 2 = j + degree + 3 := by omega
    have on : j + 1 + degree + 1 = j + degree + 2 ∧ j + 1 + degree + 2 = j + degree + 3 := by omega
    -- where the inner length is not zero, neither are the two that it lies within
    have inner := sub_nonneg.mpr (rising (j + 1) (j + degree + 2) (by omega) (by omega))
    have first := inverseWithin inner (sub_le_sub_left (rising j (j + 1) (by omega) (by omega)) _)
    have second := inverseWithin inner
      (sub_le_sub_right (rising (j + degree + 2) (j + degree + 3) (by omega) (by omega)) _)
    have first := congrArg C first
    have second := congrArg C second
    simp only [up, on, splineNext, Nat.cast_add, Nat.cast_one, map_mul, map_sub, map_add, map_one] at first second ⊢
    linear_combination (C (degree : α) + 1) * spline knots span degree (j + 1) * (second - first)

theorem partExact (n x : α) : (if Scalar.same x 0 then 0 else n / x) = n / x := by
  rw [sameExact]
  split
  · rename_i zero
    rw [of_decide_eq_true zero, div_zero]
  · rfl

theorem raiseCons (knots : List α) (t : α) (span degree r : Nat) (saved n : α) (row : List α) :
    raise knots t span degree r saved (n :: row) =
      (saved + (knot knots (span + r + 1) - t) *
          (n / (knot knots (span + r + 1) - knot knots (span + 1 + r - degree)))) ::
        raise knots t span degree (r + 1) ((t - knot knots (span + 1 + r - degree)) *
          (n / (knot knots (span + r + 1) - knot knots (span + 1 + r - degree)))) row := by
  rw [raise]
  rw [partExact, sub_add_sub_cancel]

theorem raiseMap (knots : List α) (t : α) (span degree : Nat) {f : Nat → α} (carry : Nat → α)
    (carried : ∀ r, carry (r + 1) = (t - knot knots (span + 1 + r - degree)) *
      (f r / (knot knots (span + r + 1) - knot knots (span + 1 + r - degree)))) (m r : Nat) :
    raise knots t span degree r (carry r) ((List.range' r m).map f) =
      (List.range' r m).map (fun r => carry r + (knot knots (span + r + 1) - t) *
        (f r / (knot knots (span + r + 1) - knot knots (span + 1 + r - degree)))) ++ [carry (r + m)] := by
  -- A row out of a row that is listed by its places: each entry has a part of the one before it and one of its own.
  induction m generalizing r with
  | zero => rfl
  | succ m ih =>
    rw [List.range'_succ, List.map_cons, raiseCons, ← carried, ih, List.map_cons, List.cons_append, Nat.add_assoc r,
      Nat.add_comm 1]

noncomputable def carry (knots : List α) (t : α) (span degree : Nat) : Nat → α
  | 0 => 0
  | r + 1 => (t - knot knots (span + 1 + r - (degree + 1))) *
      ((spline knots span degree (span - degree + r)).eval t /
        (knot knots (span + r + 1) - knot knots (span + 1 + r - (degree + 1))))

theorem splineCarry {knots : List α} (t : α) {span degree : Nat} (short : degree + 1 ≤ span) (r : Nat) :
    (spline knots span (degree + 1) (span - (degree + 1) + r)).eval t =
      carry knots t span degree r + (knot knots (span + r + 1) - t) *
        ((spline knots span degree (span - degree + r)).eval t /
          (knot knots (span + r + 1) - knot knots (span + 1 + r - (degree + 1)))) := by
  rw [splineNext]
  have later : span - (degree + 1) + r + 1 = span - degree + r ∧ span - (degree + 1) + r + degree + 2 = span + r + 1 ∧
      span + 1 + r - (degree + 1) = span - degree + r := by omega
  simp only [eval_add, eval_mul, eval_C, eval_sub, eval_X, later.1, later.2.1, later.2.2]
  congr 1
  · cases r with
    | zero =>
      rw [splineBeyond knots (.inr (by omega)), eval_zero, mul_zero]
      rfl
    | succ r =>
      have place : span - (degree + 1) + (r + 1) = span - degree + r ∧ span - degree + r + degree + 1 = span + r + 1 ∧
          span + 1 + r - (degree + 1) = span - degree + r := by omega
      rw [carry]
      simp only [place]
      ring
  · ring

theorem rowSpline (knots : List α) (t : α) {span degree : Nat} (short : degree ≤ span) :
    row knots t span degree =
      (List.range (degree + 1)).map fun r => (spline knots span degree (span - degree + r)).eval t := by
  induction degree with
  | zero => simp [row, spline]
  | succ degree ih =>
    have raised := raiseMap knots t span (degree + 1) (carry knots t span degree) (fun _ => rfl) (degree + 1) 0
    rw [List.range_succ, List.map_append, List.map_singleton, row, ih (by omega), List.range_eq_range']
    refine raised.trans ?_
    simp only [splineCarry t short, Nat.zero_add]
    rw [splineBeyond knots (.inl (show span < span - degree + (degree + 1) by omega)), eval_zero, zero_div, mul_zero,
      add_zero]

section Span
variable [IsStrictOrderedRing α] {knots : List α} {span degree : Nat}

/-- A span that has a length, with all knots about it that functions of a degree are made from. -/
structure Wide (knots : List α) (span degree : Nat) : Prop where
  rising : Rising knots
  extent : knot knots span < knot knots (span + 1)
  before : degree ≤ span
  after : span + degree + 1 < knots.length

omit [IsStrictOrderedRing α] in
theorem wideLess (wide : Wide knots span (degree + 1)) : Wide knots span degree :=
  ⟨wide.rising, wide.extent, Nat.le_of_succ_le wide.before, Nat.lt_of_succ_lt wide.after⟩

theorem wideLength (wide : Wide knots span (degree + 1)) {r : Nat} (inside : r ≤ degree) :
    0 < knot knots (span + r + 1) - knot knots (span + 1 + r - (degree + 1)) := by
  have after := wide.after
  have first := wide.rising (span + 1 + r - (degree + 1)) span (by omega) (by omega)
  have last := wide.rising (span + 1) (span + r + 1) (by omega) (by omega)
  exact sub_pos.mpr ((first.trans_lt wide.extent).trans_le last)

theorem carrySum (wide : Wide knots span (degree + 1)) (t : α) (n : Nat) (inside : n ≤ degree + 1) :
    ((List.range n).map fun r => (spline knots span (degree + 1) (span - (degree + 1) + r)).eval t).sum +
      carry knots t span degree n =
    ((List.range n).map fun r => (spline knots span degree (span - degree + r)).eval t).sum := by
  induction n with
  | zero => simp [carry]
  | succ n ih =>
    have length := (wideLength wide (r := n) (by omega)).ne'
    have shares (x : α) : (knot knots (span + n + 1) - t) *
        (x / (knot knots (span + n + 1) - knot knots (span + 1 + n - (degree + 1)))) +
        (t - knot knots (span + 1 + n - (degree + 1))) *
        (x / (knot knots (span + n + 1) - knot knots (span + 1 + n - (degree + 1)))) = x := by
      rw [← add_mul, sub_add_sub_cancel, mul_div_cancel₀ _ length]
    rw [List.range_succ, List.map_append, List.map_append, List.sum_append, List.sum_append, ← ih (by omega),
      List.map_singleton, List.map_singleton, List.sum_singleton, List.sum_singleton, splineCarry t wide.before, carry]
    linear_combination shares ((spline knots span degree (span - degree + n)).eval t)

theorem splinesSum (wide : Wide knots span degree) (t : α) :
    ((List.range (degree + 1)).map fun r => (spline knots span degree (span - degree + r)).eval t).sum = 1 := by
  induction degree with
  | zero => simp [spline]
  | succ degree ih =>
    have last := carrySum wide t (degree + 1) le_rfl
    rw [ih (wideLess wide)] at last
    rw [List.range_succ, List.map_append, List.sum_append, List.map_singleton, List.sum_singleton, ← last,
      splineCarry t wide.before, splineBeyond knots (.inl (show span < span - degree + (degree + 1) by omega)),
      eval_zero, zero_div, mul_zero, add_zero]

theorem splinePositive (wide : Wide knots span degree) {t : α} (low : knot knots span ≤ t)
    (high : t ≤ knot knots (span + 1)) (r : Nat) (inside : r ≤ degree) :
    0 ≤ (spline knots span degree (span - degree + r)).eval t := by
  induction degree generalizing r with
  | zero =>
    rw [spline]
    split <;> simp
  | succ degree ih =>
    have after := wide.after
    have before := wide.before
    have part {q : Nat} (within : q ≤ degree) :
        0 ≤ (spline knots span degree (span - degree + q)).eval t /
          (knot knots (span + q + 1) - knot knots (span + 1 + q - (degree + 1))) :=
      div_nonneg (ih (wideLess wide) q within) (wideLength wide within).le
    have right {q : Nat} (within : q ≤ degree) : 0 ≤ knot knots (span + q + 1) - t :=
      sub_nonneg.mpr (high.trans (wide.rising (span + 1) (span + q + 1) (by omega) (by omega)))
    have left {q : Nat} (within : q ≤ degree) : 0 ≤ t - knot knots (span + 1 + q - (degree + 1)) :=
      sub_nonneg.mpr ((wide.rising (span + 1 + q - (degree + 1)) span (by omega) (by omega)).trans low)
    have carried : 0 ≤ carry knots t span degree r := by
      cases r with
      | zero => exact le_rfl
      | succ r => exact mul_nonneg (left (by omega)) (part (by omega))
    rw [splineCarry t before]
    refine add_nonneg carried ?_
    rcases Nat.le_or_eq_of_le_succ inside with within | rfl
    · exact mul_nonneg (right within) (part within)
    · rw [splineBeyond knots (.inl (show span < span - degree + (degree + 1) by omega)), eval_zero, zero_div, mul_zero]

noncomputable def rate (knots : List α) (t : α) (span degree r : Nat) : α :=
  (spline knots span degree (span - (degree + 1) + r)).eval t /
    (knot knots (span - (degree + 1) + r + degree + 1) - knot knots (span - (degree + 1) + r))

omit [IsStrictOrderedRing α] in
theorem rateEnds (knots : List α) (t : α) (before : degree + 1 ≤ span) :
    rate knots t span degree 0 = 0 ∧ rate knots t span degree (degree + 2) = 0 := by
  constructor
  · rw [rate, splineBeyond knots (.inr (by omega)), eval_zero, zero_div]
  · rw [rate, splineBeyond knots (.inl (by omega)), eval_zero, zero_div]

theorem slopeRate (wide : Wide knots span (degree + 1)) (t : α) {r : Nat} (inside : r ≤ degree + 1) :
    (derivative (spline knots span (degree + 1) (span - (degree + 1) + r))).eval t =
      ((degree + 1 : Nat) : α) * (rate knots t span degree r - rate knots t span degree (r + 1)) := by
  have before := wide.before
  have after := wide.after
  have place : span - (degree + 1) + (r + 1) = span - (degree + 1) + r + 1 ∧
      span - (degree + 1) + r + 1 + degree + 1 = span - (degree + 1) + r + degree + 2 := by omega
  rw [splineSlope wide.rising _ _ _ (by omega), rate, rate]
  simp only [eval_mul, eval_sub, eval_C, place]
  ring

omit [IsStrictOrderedRing α] in
theorem slopesRate (t : α) (before : degree + 1 ≤ span) :
    slopes knots span (degree + 1) (row knots t span degree) =
      (List.range (degree + 1)).map fun r => rate knots t span degree (r + 1) := by
  rw [rowSpline knots t (by omega), slopes]
  refine List.ext_getElem (by simp) fun r first second => ?_
  have inside : r < degree + 1 := by simpa using second
  have place : span - (degree + 1) + (r + 1) = span - degree + r ∧ span - degree + r + degree + 1 = span + r + 1 ∧
      span + r + 1 - (degree + 1) = span - degree + r := by omega
  simp only [List.getElem_map, List.getElem_zipIdx, List.getElem_range, Nat.zero_add, partExact, rate, place]

end Span

theorem telescope (c : α) (g : Nat → α) (n : Nat) :
    ((List.range n).map fun r => c * (g r - g (r + 1))).sum = c * (g 0 - g n) := by
  induction n with
  | zero => simp
  | succ n ih =>
    rw [List.range_succ, List.map_append, List.sum_append, ih, List.map_singleton, List.sum_singleton]
    ring

theorem basisRates {a : NurbsAxis α} {span degree : Nat} (t : α) (same : a.degree = degree + 1)
    (before : degree + 1 ≤ span) :
    (a.basis span t).2 = (List.range (degree + 2)).map fun r =>
      ((degree + 1 : Nat) : α) * (rate a.knots t span degree r - rate a.knots t span degree (r + 1)) := by
  have first : (0 : α) :: (List.range (degree + 1)).map (fun r => rate a.knots t span degree (r + 1)) =
      (List.range (degree + 2)).map (rate a.knots t span degree) := by
    rw [List.range_succ_eq_map (n := degree + 1), List.map_cons, List.map_map, (rateEnds _ t before).1]
    rfl
  have second : (List.range (degree + 1)).map (fun r => rate a.knots t span degree (r + 1)) ++ [0] =
      (List.range (degree + 2)).map (fun r => rate a.knots t span degree (r + 1)) := by
    rw [List.range_succ (n := degree + 1), List.map_append, List.map_singleton, (rateEnds _ t before).2]
  unfold basis
  simp only [same, Nat.succ_ne_zero, if_false, Nat.add_sub_cancel]
  rw [slopesRate t before, first, second, List.zipWith_map, List.zipWith_self]
  rfl

end NurbsAxis
end SceneStream.Geometry
