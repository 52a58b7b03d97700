import Mathlib
import SceneStream.Geometry.Scalar

/-! What comparisons of numbers are like. Doubles are in order but for the one that is not a number, which compares
with none; in exact arithmetic all numbers are those of an ordered field. -/
namespace SceneStream.Geometry

/-- Numbers are those that are at most themselves. -/
class Comparable (α : Type) [Scalar α] : Prop where
  trans {x y z : α} : x ≤ y → y ≤ z → x ≤ z
  ends {x y : α} : x ≤ y → x ≤ x ∧ y ≤ y
  total {x y : α} : x ≤ x → y ≤ y → x ≤ y ∨ y ≤ x
  less {x y : α} : x < y ↔ x ≤ y ∧ ¬y ≤ x

namespace Comparable
variable {α : Type} [Scalar α] [Comparable α] {x y z : α}

theorem le (order : x < y) : x ≤ y := (less.mp order).1

theorem notLe (order : x < y) : ¬y ≤ x := (less.mp order).2

theorem lessOr (first : x ≤ x) (second : y ≤ y) : x < y ∨ y ≤ x := by
  by_cases above : y ≤ x
  · exact Or.inr above
  · exact Or.inl (less.mpr ⟨(total first second).resolve_right above, above⟩)

theorem leLess (first : x ≤ y) (second : y < z) : x < z :=
  less.mpr ⟨trans first (le second), fun above => notLe second (trans above first)⟩

theorem lessLe (first : x < y) (second : y ≤ z) : x < z :=
  less.mpr ⟨trans (le first) second, fun above => notLe first (trans second above)⟩

section Numbers
variable (first : x ≤ x) (second : y ≤ y)
include first second

theorem leastBounds : Scalar.least x y ≤ x ∧ Scalar.least x y ≤ y := by
  unfold Scalar.least
  by_cases order : x ≤ y
  · rw [if_pos order]
    exact ⟨first, order⟩
  · rw [if_neg order]
    exact ⟨(total first second).resolve_left order, second⟩

theorem greatestBounds : x ≤ Scalar.greatest x y ∧ y ≤ Scalar.greatest x y := by
  unfold Scalar.greatest
  by_cases order : x ≤ y
  · rw [if_pos order]
    exact ⟨order, second⟩
  · rw [if_neg order]
    exact ⟨first, (total first second).resolve_left order⟩

end Numbers

omit [Comparable α] in
theorem leastEither {P : α → Prop} (first : P x) (second : P y) : P (Scalar.least x y) := by
  unfold Scalar.least
  split <;> assumption

omit [Comparable α] in
theorem greatestEither {P : α → Prop} (first : P x) (second : P y) : P (Scalar.greatest x y) := by
  unfold Scalar.greatest
  split <;> assumption

end Comparable

/-- How doubles follow one another. Whatever is further from zero has the larger exponent, or else the larger
mantissa; those below zero run backwards. -/
def doubleRank : Float.Model.UnpackedFloat → ℤ ×ₗ ℤ ×ₗ ℤ
  | .infinity .negative => toLex (0, toLex (0, 0))
  | .finite .negative m e _ => toLex (1, toLex (-e, -m))
  | .zero _ => toLex (2, toLex (0, 0))
  | .finite .positive m e _ => toLex (3, toLex (e, m))
  | .infinity .positive => toLex (4, toLex (0, 0))
  | .notANumber => toLex (5, toLex (0, 0))

theorem compareUp (e e' : ℤ) (m m' : ℕ) :
    (((compare e e').then (compare m m')).isLE = true ↔ e < e' ∨ e = e' ∧ m ≤ m') ∧
      ((compare e e').then (compare m m') = .lt ↔ e < e' ∨ e = e' ∧ m < m') := by
  rcases lt_trichotomy e e' with less | same | more
  · simp [Int.compare_eq_lt.mpr less, less, less.ne, Ordering.then]
  · subst same
    simp [Ordering.then, Nat.isLE_compare, Nat.compare_eq_lt]
  · simp [Int.compare_eq_gt.mpr more, more.not_gt, more.ne', Ordering.then]

theorem compareDown (e e' : ℤ) (m m' : ℕ) :
    (((compare e e').then (compare m m')).isGE = true ↔ e' < e ∨ e = e' ∧ m' ≤ m) ∧
      ((compare e e').then (compare m m') = .gt ↔ e' < e ∨ e = e' ∧ m' < m) := by
  rcases lt_trichotomy e e' with less | same | more
  · simp [Int.compare_eq_lt.mpr less, less.not_gt, less.ne, Ordering.then]
  · subst same
    simp [Ordering.then, Nat.isGE_compare, Nat.compare_eq_gt]
  · simp [Int.compare_eq_gt.mpr more, more, Ordering.then]

open Float.Model (UnpackedFloat)

theorem compareRank {x y : UnpackedFloat} (first : x.isNaN = false) (second : y.isNaN = false) :
    (x.le y = true ↔ doubleRank x ≤ doubleRank y) ∧ (x.lt y = true ↔ doubleRank x < doubleRank y) := by
  rcases x with (_ | _) | _ | _ | ⟨_ | _, m, e, _⟩ <;> rcases y with (_ | _) | _ | _ | ⟨_ | _, m', e', _⟩ <;>
    simp_all [UnpackedFloat.le, UnpackedFloat.lt, UnpackedFloat.compare, doubleRank, UnpackedFloat.isNaN,
      Prod.Lex.toLex_le_toLex, Prod.Lex.toLex_lt_toLex, compareUp, compareDown]
  all_goals decide

theorem compareNone {x y : UnpackedFloat} (none : x.isNaN = true ∨ y.isNaN = true) :
    x.le y = false ∧ x.lt y = false := by
  rcases x with _ | _ | _ | _ <;> rcases y with _ | _ | _ | _ <;>
    simp_all [UnpackedFloat.le, UnpackedFloat.lt, UnpackedFloat.compare, UnpackedFloat.isNaN]

theorem floatLe {x y : Float} : x ≤ y ↔ x.toModel.unpack.le y.toModel.unpack = true :=
  decide_eq_true_iff (p := x.toModel ≤ y.toModel)

theorem floatLt {x y : Float} : x < y ↔ x.toModel.unpack.lt y.toModel.unpack = true :=
  decide_eq_true_iff (p := x.toModel < y.toModel)

/-- The order of doubles that are numbers is that of their ranks. -/
theorem floatOrder {x y : Float} :
    (x ≤ y ↔ (x.isNaN = false ∧ y.isNaN = false) ∧ doubleRank x.toModel.unpack ≤ doubleRank y.toModel.unpack) ∧
      (x < y ↔ (x.isNaN = false ∧ y.isNaN = false) ∧ doubleRank x.toModel.unpack < doubleRank y.toModel.unpack) := by
  rw [floatLe, floatLt]
  by_cases numbers : x.isNaN = false ∧ y.isNaN = false
  · have order := compareRank numbers.1 numbers.2
    exact ⟨order.1.trans (and_iff_right numbers).symm, order.2.trans (and_iff_right numbers).symm⟩
  · have none : x.toModel.unpack.isNaN = true ∨ y.toModel.unpack.isNaN = true := by
      by_contra both
      rw [not_or, Bool.not_eq_true, Bool.not_eq_true] at both
      exact numbers both
    have order := compareNone none
    rw [order.1, order.2]
    exact ⟨iff_of_false Bool.false_ne_true fun both => numbers both.1,
      iff_of_false Bool.false_ne_true fun both => numbers both.1⟩

instance : Comparable Float where
  trans first second := by
    rw [floatOrder.1] at *
    exact ⟨⟨first.1.1, second.1.2⟩, first.2.trans second.2⟩
  ends order := by
    rw [floatOrder.1] at *
    rw [floatOrder.1]
    exact ⟨⟨⟨order.1.1, order.1.1⟩, le_rfl⟩, ⟨order.1.2, order.1.2⟩, le_rfl⟩
  total first second := by
    rw [floatOrder.1] at *
    rw [floatOrder.1]
    exact (le_total (doubleRank _) (doubleRank _)).imp (⟨⟨first.1.1, second.1.1⟩, ·⟩) (⟨⟨second.1.1, first.1.1⟩, ·⟩)
  less := by
    intro x y
    rw [floatOrder.1, floatOrder.1, floatOrder.2, lt_iff_le_not_ge]
    tauto

theorem floatBelow {x y : Float} (order : x ≤ y) (finite : y.isFinite = true) :
    x.isFinite = true ∨ x.isInf = true ∧ ∀ z : Float, z.isFinite = true → x < z := by
  rw [floatLe] at order
  have finite : y.toModel.unpack.isFinite = true := finite
  show x.toModel.unpack.isFinite = true ∨ x.toModel.unpack.isInf = true ∧ _
  simp only [floatLt]
  cases first : x.toModel.unpack with
  | notANumber => simp [first, UnpackedFloat.le, UnpackedFloat.compare] at order
  | zero s => exact Or.inl rfl
  | finite s m e positive => exact Or.inl rfl
  | infinity s =>
    cases s with
    | positive =>
      cases second : y.toModel.unpack <;>
        simp [first, second, UnpackedFloat.le, UnpackedFloat.compare, UnpackedFloat.isFinite] at order finite
    | negative =>
      refine Or.inr ⟨rfl, fun z inside => ?_⟩
      have inside : z.toModel.unpack.isFinite = true := inside
      cases third : z.toModel.unpack <;>
        simp_all [UnpackedFloat.lt, UnpackedFloat.compare, UnpackedFloat.isFinite]

/-- What exact numbers do not have by themselves. -/
class Roots (α : Type) where
  root : α → α
  angle : α → α → α

instance exact {α : Type} [Field α] [LinearOrder α] [Roots α] : Scalar α where
  ofNat := Nat.cast
  sqrt := Roots.root
  angle := Roots.angle
  isFinite _ := true
  precedes x y := x ≤ y
  decideLE := inferInstance
  decideLT := inferInstance

instance : Roots ℚ where
  root := Rat.sqrt
  angle y x := 1 - x / (|x| + |y|)

section Exact
variable {α : Type} [Field α] [LinearOrder α] [Roots α]

instance : Comparable α where
  trans := le_trans
  ends _ := ⟨le_rfl, le_rfl⟩
  total _ _ := le_total _ _
  less := lt_iff_le_not_ge

theorem sameExact (x y : α) : Scalar.same x y = decide (x = y) := by
  rw [Scalar.same, ← Bool.decide_and]
  exact decide_eq_decide.mpr antisymm_iff

theorem absExact [IsStrictOrderedRing α] (x : α) : Scalar.abs x = |x| := by
  unfold Scalar.abs
  split
  · exact (abs_of_neg ‹_›).symm
  · exact (abs_of_nonneg (not_lt.mp ‹_›)).symm

theorem leastExact (x y : α) : Scalar.least x y = min x y := (min_def x y).symm

theorem greatestExact (x y : α) : Scalar.greatest x y = max x y := (max_def x y).symm

theorem weightedExact (ws xs : List α) : Scalar.weighted ws xs = (List.zipWith (· * ·) ws xs).sum := by
  have start (l : List (α × α)) (s : α) : l.foldl (fun s p => s + p.1 * p.2) s = s + (l.map fun p => p.1 * p.2).sum := by
    induction l generalizing s with
    | nil => exact (add_zero s).symm
    | cons p l ih =>
      rw [List.foldl_cons, ih, List.map_cons, List.sum_cons, add_assoc]
  refine (start _ 0).trans ?_
  rw [zero_add, List.zip, List.map_zipWith]

end Exact

end SceneStream.Geometry
