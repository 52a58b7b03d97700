import Mathlib.Algebra.Polynomial.Derivative
import SceneStream.Geometry.Nurbs.Table
import SceneStream.Proofs.Geometry.Nurbs.Basis

/-! The table of basis functions. On a span that has a length every look finds a knot or an entry and no length that a
value is divided by is zero, so that the table holds the rows of the recursion. -/
namespace SceneStream.Geometry.NurbsAxis
open Knots Polynomial
variable {α : Type} [Field α] [LinearOrder α] [Roots α] {knots : List α} {t : α} {span degree : Nat}

theorem knotFound {i : Nat} (inside : i < knots.length) : knots[i]? = some (knot knots i) := by
  rw [List.getElem?_eq_getElem inside, knot, List.getD_eq_getElem _ _ inside]

namespace Table

def filled (knots : List α) (t : α) (span degree : Nat) : Table α where
  left := 0 :: (List.range degree).map fun m => t - knot knots (span - m)
  right := 0 :: (List.range degree).map fun m => knot knots (span + 1 + m) - t
  rows := (List.range (degree + 1)).map (row knots t span)

theorem filledLeft (knots : List α) (t : α) (span : Nat) {m : Nat} (inside : m < degree) :
    (filled knots t span degree).left[m + 1]? = some (t - knot knots (span - m)) := by
  simp [filled, inside]

theorem filledRight (knots : List α) (t : α) (span : Nat) {m : Nat} (inside : m < degree) :
    (filled knots t span degree).right[m + 1]? = some (knot knots (span + 1 + m) - t) := by
  simp [filled, inside]

theorem filledRow {m : Nat} (inside : m ≤ degree) :
    (filled knots t span degree).rows[m]? = some (row knots t span m) := by
  simp [filled, Nat.lt_succ_of_le inside]

section Enter
variable [IsStrictOrderedRing α] (wide : Wide knots span (degree + 1)) {x : Table α} {lower : List α}
  (left : ∀ m ≤ degree, x.left[m + 1]? = some (t - knot knots (span - m)))
  (right : ∀ m ≤ degree, x.right[m + 1]? = some (knot knots (span + 1 + m) - t))
include wide left right

theorem enterNext {n : α} {r : Nat} (inside : r ≤ degree) (entry : lower[r]? = some n) (row : List α) (saved : α) :
    enter x (degree + 1) lower (row, saved) r =
      some (row ++ [saved + (knot knots (span + r + 1) - t) *
          (n / (knot knots (span + r + 1) - knot knots (span + 1 + r - (degree + 1))))],
        (t - knot knots (span + 1 + r - (degree + 1))) *
          (n / (knot knots (span + r + 1) - knot knots (span + 1 + r - (degree + 1))))) := by
  have before := wide.before
  have places : degree + 1 - r = degree - r + 1 ∧ span - (degree - r) = span + 1 + r - (degree + 1) := by omega
  have first := left (degree - r) (Nat.sub_le ..)
  have second := right r inside
  rw [places.2] at first
  rw [Nat.add_right_comm] at second
  simp [enter, places.1, first, second, entry, sameExact, (wideLength wide inside).ne']

theorem enterRow {rest : List α} {r : Nat} (drops : lower.drop r = rest) (size : r + rest.length = degree + 1)
    (done : List α) (saved : α) : ∃ row last, raise knots t span (degree + 1) r saved rest = row ++ [last] ∧
      (List.range' r rest.length).foldlM (enter x (degree + 1) lower) (done, saved) = some (done ++ row, last) := by
  induction rest generalizing r done saved with
  | nil => exact ⟨[], saved, rfl, by simp⟩
  | cons n rest ih =>
    rw [List.length_cons] at size
    have entry : lower[r]? = some n := by
      rw [← Nat.add_zero r, ← List.getElem?_drop, drops]
      rfl
    have later : lower.drop (r + 1) = rest := by
      rw [← List.drop_drop, drops]
      rfl
    have entered := enterNext wide left right (by omega) entry done saved
    obtain ⟨row, last, raised, folded⟩ := ih later (by omega) _ _
    refine ⟨_ :: row, last, (raiseCons ..).trans (congrArg (List.cons _) raised), ?_⟩
    rw [List.length_cons, List.range'_succ, List.foldlM_cons, entered, Option.bind_eq_bind, Option.bind_some, folded,
      List.append_assoc, List.singleton_append]

end Enter

theorem fillNext [IsStrictOrderedRing α] (wide : Wide knots span (degree + 1)) :
    fill knots t span (filled knots t span degree) (degree + 1) = some (filled knots t span (degree + 1)) := by
  have before := wide.before
  have after := wide.after
  have low : knots[span + 1 - (degree + 1)]? = some (knot knots (span - degree)) := by
    rw [Nat.add_sub_add_right]
    exact knotFound (by omega)
  have high : knots[span + (degree + 1)]? = some (knot knots (span + 1 + degree)) := by
    rw [Nat.add_right_comm]
    exact knotFound (by omega)
  have next : filled knots t span (degree + 1) =
      ⟨(filled knots t span degree).left ++ [t - knot knots (span - degree)],
        (filled knots t span degree).right ++ [knot knots (span + 1 + degree) - t],
        (filled knots t span degree).rows ++ [row knots t span (degree + 1)]⟩ := by
    simp [filled, List.range_succ]
  have left (m : Nat) (inside : m ≤ degree) := next ▸ filledLeft knots t span (Nat.lt_succ_of_le inside)
  have right (m : Nat) (inside : m ≤ degree) := next ▸ filledRight knots t span (Nat.lt_succ_of_le inside)
  have size : (row knots t span degree).length = degree + 1 := by simp [rowSpline knots t (Nat.le_of_succ_le before)]
  obtain ⟨row, last, raised, entered⟩ := enterRow wide (x := { filled knots t span degree with
      left := (filled knots t span degree).left ++ [t - knot knots (span - degree)]
      right := (filled knots t span degree).right ++ [knot knots (span + 1 + degree) - t] })
    left right List.drop_zero ((Nat.zero_add _).trans size) [] 0
  rw [size, ← List.range_eq_range'] at entered
  unfold fill
  rw [if_neg (by omega), low, high, Nat.add_sub_cancel, filledRow le_rfl]
  simp only [Option.bind_eq_bind, Option.bind_some]
  rw [entered, next, NurbsAxis.row, raised]
  rfl

theorem degreeFilled [IsStrictOrderedRing α] (wide : Wide knots span degree) :
    ofDegree knots t span degree = some (filled knots t span degree) := by
  induction degree with
  | zero => rfl
  | succ degree ih =>
    have before := ih (wideLess wide)
    rw [ofDegree] at before ⊢
    rw [List.range'_concat, List.foldlM_append, before]
    simp only [Option.bind_eq_bind, Option.bind_some, List.foldlM_cons, List.foldlM_nil, Nat.one_mul, Nat.add_comm 1]
    rw [fillNext wide]
    rfl

end Table

theorem shareRate [IsStrictOrderedRing α] (wide : Wide knots span (degree + 1)) {r : Nat} (inside : r ≤ degree) :
    share knots (row knots t span degree) (degree + 1) (span - (degree + 1) + (r + 1)) r =
      some (rate knots t span degree (r + 1)) := by
  have before := wide.before
  have after := wide.after
  have entry : (row knots t span degree)[r]? =
      some ((spline knots span degree (span - (degree + 1) + (r + 1))).eval t) := by
    have place : span - (degree + 1) + (r + 1) = span - degree + r := by omega
    rw [rowSpline knots t (Nat.le_of_succ_le before), place]
    simp [Nat.lt_succ_of_le inside]
  have high := knotFound (show span - (degree + 1) + (r + 1) + (degree + 1) < knots.length by omega)
  have low := knotFound (show span - (degree + 1) + (r + 1) < knots.length by omega)
  rw [share, entry, high, low]
  simp only [Option.bind_eq_bind, Option.bind_some, partExact]
  rfl

theorem slopeFound [IsStrictOrderedRing α] (wide : Wide knots span (degree + 1)) {r : Nat} (inside : r ≤ degree + 1) :
    slope knots (row knots t span degree) span (degree + 1) r =
      some (((degree + 1 : Nat) : α) * (rate knots t span degree r - rate knots t span degree (r + 1))) := by
  have ends := rateEnds knots t wide.before
  have rising : (if 0 < r then share knots (row knots t span degree) (degree + 1) (span - (degree + 1) + r) (r - 1)
      else some 0) = some (rate knots t span degree r) := by
    cases r with
    | zero => rw [if_neg (Nat.lt_irrefl 0), ends.1]
    | succ r => rw [if_pos r.succ_pos, Nat.add_sub_cancel, shareRate wide (by omega)]
  have falling : (if r < degree + 1 then share knots (row knots t span degree) (degree + 1)
      (span - (degree + 1) + r + 1) r else some 0) = some (rate knots t span degree (r + 1)) := by
    rcases inside.eq_or_lt with rfl | less
    · rw [if_neg (Nat.lt_irrefl _), ends.2]
    · rw [if_pos less]
      exact shareRate wide (Nat.le_of_lt_succ less)
  unfold slope
  rw [if_neg (Nat.not_lt.mpr wide.before)]
  simp only
  rw [rising, falling]
  rfl

variable {a : NurbsAxis α}

theorem tableIsBasis [IsStrictOrderedRing α] (order : 0 < a.order) (wide : Wide a.knots span a.degree) :
    a.basis? span t = some (a.basis span t) := by
  have table := Table.degreeFilled (t := t) wide
  unfold basis?
  rw [if_neg order.ne', table]
  simp only [Option.bind_eq_bind, Option.bind_some, Table.filledRow le_rfl]
  cases same : a.degree with
  | zero => simp [basis, same, Scalar.ofNat]
  | succ degree =>
    rw [same] at wide table
    rw [if_neg degree.succ_ne_zero, Nat.add_sub_cancel, Table.filledRow degree.le_succ, Option.bind_some]
    have found := Outcome.mapsAll (List.range (degree + 2)) (e := id)
      (f := slope a.knots (row a.knots t span degree) span (degree + 1))
      (g := fun r => ((degree + 1 : Nat) : α) * (rate a.knots t span degree r - rate a.knots t span degree (r + 1)))
      fun r mem => slopeFound wide (Nat.le_of_lt_succ (List.mem_range.mp mem))
    rw [List.map_id] at found
    rw [found, ← basisRates t same wide.before]
    simp [basis, same]

theorem admissibleWide (admissible : a.Admissible) (low : a.degree ≤ span) (high : span < a.count)
    (extent : knot a.knots span < knot a.knots (span + 1)) : Wide a.knots span a.degree := by
  have order := admissible.order
  have knots := admissible.knots
  refine ⟨fun i j order inside => knotsRise admissible order inside, extent, low, ?_⟩
  rw [knots, degree]
  omega

theorem slopesSum (before : a.degree ≤ span) : (a.basis span t).2.sum = 0 := by
  cases same : a.degree with
  | zero => simp [basis, same, Scalar.ofNat]
  | succ degree =>
    rw [same] at before
    rw [basisRates t same before, telescope, (rateEnds _ t before).1, (rateEnds _ t before).2, sub_zero, mul_zero]

variable [IsStrictOrderedRing α]

theorem slopesAre (wide : Wide a.knots span a.degree) :
    (a.basis span t).2 = (List.range (a.degree + 1)).map fun r =>
      (derivative (spline a.knots span a.degree (span - a.degree + r))).eval t := by
  cases same : a.degree with
  | zero => simp [basis, same, Scalar.ofNat, spline]
  | succ degree =>
    rw [same] at wide
    rw [basisRates t same wide.before]
    refine List.map_congr_left fun r mem => ?_
    rw [slopeRate wide t (Nat.le_of_lt_succ (List.mem_range.mp mem))]

/-- On a span that has a length the table finds all that it looks for and no zero to divide by, its values are those of
the Cox-de Boor recursion, and its slopes those of the derivatives. -/
theorem basisSplines {side : Side} (valid : a.validate side = .ok ()) (low : a.degree ≤ span) (high : span < a.count)
    (extent : knot a.knots span < knot a.knots (span + 1)) (t : α) :
    a.basis? span t = some (a.basis span t) ∧
      (a.basis span t).1 = (List.range a.order).map (fun r =>
        (spline a.knots span a.degree (span - a.degree + r)).eval t) ∧
      (a.basis span t).2 = (List.range a.order).map (fun r =>
        (derivative (spline a.knots span a.degree (span - a.degree + r))).eval t) ∧
      (a.basis span t).1.sum = 1 ∧ (a.basis span t).2.sum = 0 ∧
      (knot a.knots span ≤ t → t ≤ knot a.knots (span + 1) → ∀ x ∈ (a.basis span t).1, 0 ≤ x) := by
  have admissible := validateAdmissible.mp valid
  have wide := admissibleWide admissible low high extent
  have order : a.degree + 1 = a.order := Nat.sub_add_cancel admissible.order
  have values : (a.basis span t).1 = (List.range (a.degree + 1)).map fun r =>
      (spline a.knots span a.degree (span - a.degree + r)).eval t := rowSpline a.knots t low
  rw [← order]
  refine ⟨tableIsBasis admissible.order wide, values, slopesAre wide, ?_, slopesSum low, fun first last x mem => ?_⟩
  · rw [values, splinesSum wide]
  · rw [values] at mem
    obtain ⟨r, inside, rfl⟩ := List.mem_map.mp mem
    exact splinePositive wide first last r (Nat.le_of_lt_succ (List.mem_range.mp inside))

/-- A curve of degree two with its inner knot given twice. -/
def twice : NurbsAxis ℚ := ⟨5, 3, [0, 0, 0, 1, 1, 2, 2, 2], 0, 2⟩

theorem twiceSplines : twice.validate .u = .ok () ∧ twice.basis 4 (3 / 2) = ([1 / 4, 1 / 2, 1 / 4], [-1, 0, 1]) ∧
    twice.basis? 4 (3 / 2) = some (twice.basis 4 (3 / 2)) := by
  have valid : twice.validate .u = .ok () := by decide +kernel
  exact ⟨valid, by decide +kernel, (basisSplines valid (by decide) (by decide) (by decide +kernel) (3 / 2)).1⟩

end SceneStream.Geometry.NurbsAxis
