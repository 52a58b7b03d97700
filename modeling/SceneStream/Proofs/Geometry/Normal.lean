import SceneStream.Proofs.Geometry.Plane.Simple
import SceneStream.Proofs.Geometry.Scalar
import SceneStream.Geometry.Triangulation

/-! Normals of loops in exact arithmetic. A loop in a plane has its normal across the plane, and is seen along an axis with
the area that the normal has there. -/
namespace SceneStream.Geometry
open Plane (sweptArea)

def Vec.seen {α : Type} (p : Vec α) : Axis → α × α
  | .x => (p.y, p.z)
  | .y => (p.z, p.x)
  | .z => (p.x, p.y)

section Field
variable {α β : Type} [Field α]

theorem sweptMap (f : β → α × α) (l : List β) : sweptArea (l.map f) =
    ((edges l).map fun e => (f e.1).1 * (f e.2).2 - (f e.2).1 * (f e.1).2).sum := by
  rw [sweptArea, edgesMap, List.map_map]
  rfl

theorem sweptBelow (f g : β → α) (l : List β) :
    ((edges l).map fun e => (f e.1 - f e.2) * (g e.1 + g e.2)).sum = sweptArea (l.map fun p => (f p, g p)) := by
  have parts : ((edges l).map fun e => (f e.1 - f e.2) * (g e.1 + g e.2) + f e.2 * g e.2).sum =
      ((edges l).map fun e => (f e.1 * g e.2 - f e.2 * g e.1) + f e.1 * g e.1).sum :=
    congrArg List.sum (List.map_congr_left fun e _ => by ring)
  rw [List.sum_map_add, List.sum_map_add, edgesBalance fun p => f p * g p] at parts
  rw [sweptMap]
  exact add_right_cancel parts

theorem sweptLevel (f g h : β → α) {k m n d : α} {l : List β} (level : ∀ p ∈ l, k * f p + m * g p + n * h p = d) :
    m * sweptArea (l.map fun p => (f p, g p)) = n * sweptArea (l.map fun p => (h p, f p)) := by
  have each : ∀ e ∈ edges l, m * (f e.1 * g e.2 - f e.2 * g e.1) + d * f e.2 =
      n * (h e.1 * f e.2 - h e.2 * f e.1) + d * f e.1 := by
    intro e mem
    have inside := edgesInside mem
    linear_combination f e.1 * level e.2 inside.2 - f e.2 * level e.1 inside.1
  have total := congrArg List.sum (List.map_congr_left each)
  rw [List.sum_map_add, List.sum_map_add, edgesBalance fun p => d * f p] at total
  rw [sweptMap, sweptMap, ← List.sum_map_mul_left, ← List.sum_map_mul_left]
  exact add_right_cancel total

end Field

section Exact
variable {α : Type} [Field α] [LinearOrder α] [Roots α]

theorem normalSums (points : List (Vec α)) : loopNormal points =
    ⟨((edges points).map fun e => (e.1.y - e.2.y) * (e.1.z + e.2.z)).sum,
      ((edges points).map fun e => (e.1.z - e.2.z) * (e.1.x + e.2.x)).sum,
      ((edges points).map fun e => (e.1.x - e.2.x) * (e.1.y + e.2.y)).sum⟩ := by
  have start (es : List (Vec α × Vec α)) (n : Vec α) : es.foldl (fun n e =>
      ⟨n.x + (e.1.y - e.2.y) * (e.1.z + e.2.z), n.y + (e.1.z - e.2.z) * (e.1.x + e.2.x),
        n.z + (e.1.x - e.2.x) * (e.1.y + e.2.y)⟩) n =
      (⟨n.x + (es.map fun e => (e.1.y - e.2.y) * (e.1.z + e.2.z)).sum,
        n.y + (es.map fun e => (e.1.z - e.2.z) * (e.1.x + e.2.x)).sum,
        n.z + (es.map fun e => (e.1.x - e.2.x) * (e.1.y + e.2.y)).sum⟩ : Vec α) := by
    induction es generalizing n with
    | nil => simp
    | cons e es ih => simp only [List.foldl_cons, ih, List.map_cons, List.sum_cons, add_assoc]
  refine (start (edges points) Vec.zero).trans ?_
  simp only [Vec.zero, zero_add]

theorem normalSeen (points : List (Vec α)) (axis : Axis) :
    (loopNormal points).get axis = sweptArea (points.map (·.seen axis)) := by
  rw [normalSums]
  cases axis with
  | x => exact sweptBelow Vec.y Vec.z points
  | y => exact sweptBelow Vec.z Vec.x points
  | z => exact sweptBelow Vec.x Vec.y points

/-- The points of a plane across a direction. -/
def InPlane (normal : Vec α) (d : α) (points : List (Vec α)) : Prop := ∀ p ∈ points, normal.dot p = d

theorem normalAcross {n : Vec α} {d : α} {points : List (Vec α)} (level : InPlane n d points) (i j : Axis) :
    n.get i * (loopNormal points).get j = n.get j * (loopNormal points).get i := by
  have sum (p : Vec α) (mem : p ∈ points) : n.x * p.x + n.y * p.y + n.z * p.z = d := level p mem
  have yz := sweptLevel Vec.x Vec.y Vec.z sum
  have zx := sweptLevel Vec.y Vec.z Vec.x fun p mem =>
    (by linear_combination sum p mem : n.y * p.y + n.z * p.z + n.x * p.x = d)
  have xy := sweptLevel Vec.z Vec.x Vec.y fun p mem =>
    (by linear_combination sum p mem : n.z * p.z + n.x * p.x + n.y * p.y = d)
  rw [normalSeen, normalSeen]
  cases i <;> cases j
  · rfl
  · exact xy
  · exact zx.symm
  · exact xy.symm
  · rfl
  · exact yz
  · exact zx
  · exact yz.symm
  · rfl

omit [Field α] [LinearOrder α] [Roots α] in
theorem sameVec {a b : Vec α} (same : ∀ i, a.get i = b.get i) : a = b := by
  obtain ⟨x, y, z⟩ := a
  obtain ⟨u, v, w⟩ := b
  congr
  · exact same .x
  · exact same .y
  · exact same .z

theorem someAxis {n : Vec α} (some : n ≠ Vec.zero) : ∃ i, n.get i ≠ 0 := by
  by_contra none
  push Not at none
  exact some (sameVec fun i => (none i).trans (by cases i <;> rfl))

section Level
variable {n : Vec α} {d : α} {points : List (Vec α)} (some : n ≠ Vec.zero) (level : InPlane n d points) {m : Axis}
include some level

theorem normalAxis (seen : (loopNormal points).get m ≠ 0) : n.get m ≠ 0 := by
  obtain ⟨i, here⟩ := someAxis some
  intro zero
  have across := normalAcross level i m
  rw [zero, zero_mul] at across
  exact (mul_ne_zero here seen) across

theorem normalShare {loop : List (Vec α)} (within : InPlane n d loop) (seen : (loopNormal points).get m ≠ 0) :
    loopNormal loop = loopNormal points * ((loopNormal loop).get m / (loopNormal points).get m) := by
  have here := normalAxis some level seen
  refine sameVec fun j => ?_
  have scaled (a : Vec α) (s : α) : (a * s).get j = a.get j * s := by cases j <;> rfl
  rw [scaled]
  field_simp
  refine mul_left_cancel₀ here ?_
  linear_combination (loopNormal points).get m * normalAcross within m j - (loopNormal loop).get m * normalAcross level m j

end Level

theorem dominantMost (n : Vec α) (i : Axis) : Scalar.abs (n.get i) ≤ Scalar.abs (n.get n.dominantAxis) := by
  have second {x y z : α} (not : ¬(y ≤ x ∧ z ≤ x)) (less : z ≤ y) : x ≤ y := by
    by_contra more
    exact not ⟨(not_le.mp more).le, less.trans (not_le.mp more).le⟩
  have third {x y z : α} (not : ¬(y ≤ x ∧ z ≤ x)) (less : ¬z ≤ y) : x ≤ z ∧ y ≤ z := by
    refine ⟨?_, (not_le.mp less).le⟩
    by_contra more
    exact not ⟨(not_le.mp less).le.trans (not_le.mp more).le, (not_le.mp more).le⟩
  unfold Vec.dominantAxis
  dsimp only
  split_ifs with x y <;> rw [Bool.and_eq_true, decide_eq_true_iff, decide_eq_true_iff] at x
  · cases i
    · exact le_rfl
    · exact x.1
    · exact x.2
  · cases i
    · exact second x y
    · exact le_rfl
    · exact y
  · cases i
    · exact (third x y).1
    · exact (third x y).2
    · exact le_rfl

theorem dominantSome [IsStrictOrderedRing α] {n : Vec α} (some : n ≠ Vec.zero) : n.get n.dominantAxis ≠ 0 := by
  obtain ⟨i, here⟩ := someAxis some
  intro zero
  have most := dominantMost n i
  rw [zero, absExact, absExact, abs_zero] at most
  exact here (abs_nonpos_iff.mp most)

theorem seenApart {n p q : Vec α} {m : Axis} (here : n.get m ≠ 0) (level : n.dot p = n.dot q)
    (same : p.seen m = q.seen m) : p = q := by
  obtain ⟨first, second⟩ := Prod.ext_iff.mp same
  have sum : n.x * p.x + n.y * p.y + n.z * p.z = n.x * q.x + n.y * q.y + n.z * q.z := level
  have last : p.get m = q.get m := by
    refine mul_left_cancel₀ here ?_
    cases m <;> simp only [Vec.seen, Vec.get] at first second ⊢
    · linear_combination sum - n.y * first - n.z * second
    · linear_combination sum - n.z * first - n.x * second
    · linear_combination sum - n.x * first - n.y * second
  refine sameVec fun i => ?_
  cases m <;> cases i <;> assumption

end Exact

end SceneStream.Geometry
