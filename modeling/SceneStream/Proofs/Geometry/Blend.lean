import Mathlib.Tactic.FieldSimp
import Mathlib.Tactic.Ring
import SceneStream.Proofs.Geometry.Grid
import SceneStream.Proofs.Geometry.Scalar

/-! Values that follow the positions of control points, blended over a patch in exact arithmetic. They follow the
positions of the surface. -/
namespace SceneStream.Geometry

/-- A number for each position: a part of each coordinate and a constant. -/
structure Affine (α : Type) where
  x : α
  y : α
  z : α
  constant : α
  deriving DecidableEq, Repr

section Exact
variable {α : Type} [Field α] [LinearOrder α] [Roots α]

namespace Affine

def value (f : Affine α) (p : Vec α) : α := f.x * p.x + f.y * p.y + f.z * p.z + f.constant

def values (fs : List (Affine α)) (p : Vec α) : List α := fs.map (·.value p)

def axes : List (Affine α) := [⟨1, 0, 0, 0⟩, ⟨0, 1, 0, 0⟩, ⟨0, 0, 1, 0⟩]

theorem axesValues (p : Vec α) : values axes p = p.toList := by
  simp [values, axes, value, Vec.toList]

end Affine

theorem weightedCons (w x : α) (ws xs : List α) :
    Scalar.weighted (w :: ws) (x :: xs) = w * x + Scalar.weighted ws xs := by
  simp only [weightedExact, List.zipWith_cons_cons, List.sum_cons]

theorem weightedAffine (f : Affine α) (ws : List α) (points : List (Vec α)) (sized : ws.length = points.length) :
    Scalar.weighted ws (points.map f.value) = f.x * Scalar.weighted ws (points.map Vec.x) +
      f.y * Scalar.weighted ws (points.map Vec.y) + f.z * Scalar.weighted ws (points.map Vec.z) +
      f.constant * ws.sum := by
  induction ws generalizing points with
  | nil =>
    rw [List.eq_nil_of_length_eq_zero sized.symm]
    simp [weightedExact]
  | cons w ws ih =>
    cases points with
    | nil => cases sized
    | cons p points =>
      simp only [List.map_cons, weightedCons, List.sum_cons, ih points (Nat.succ.inj sized), Affine.value]
      ring

namespace Patch

theorem mixValues (fs : List (Affine α)) (a b : Vec α) (t : α) :
    (Affine.values fs a).zipWith (mix · · t) (Affine.values fs b) = Affine.values fs (a + (b - a) * t) := by
  rw [Affine.values, Affine.values, List.zipWith_map, List.zipWith_self]
  refine List.map_congr_left fun f _ => ?_
  show mix (f.value a) (f.value b) t = f.value ⟨a.x + (b.x - a.x) * t, a.y + (b.y - a.y) * t, a.z + (b.z - a.z) * t⟩
  simp only [mix, Affine.value]
  ring

theorem bilinearFollows (fs : List (Affine α)) (some : fs ≠ []) (corners : Quad (Vec α)) (tu tv : Nat) :
    bilinearBlend (corners.toList.flatMap (Affine.values fs)) fs.length tu tv =
      (bilinearGrid corners tu tv).map fun g => g.points.flatMap (Affine.values fs) := by
  have each (p : Vec α) : (Affine.values fs p).length = fs.length := List.length_map ..
  have sized : (corners.toList.flatMap (Affine.values fs)).length = 4 * fs.length := lengthEach fun p _ => each p
  unfold bilinearBlend bilinearGrid
  dsimp only
  rw [if_neg (List.length_pos_iff.mpr some).ne', if_neg (not_not.mpr sized), quartersMap _ each]
  cases (Grid.check tu tv).mapError PatchFault.grid with
  | error f => rfl
  | ok _ =>
    refine congrArg Except.ok ?_
    simp only [Grid.sample, List.map_map, List.flatMap_map]
    refine congrArg (List.flatMap · _) (funext fun p => ?_)
    simp only [bilinearAt, Quad.map, mixValues]
    rfl

theorem netValues (fs : List (Affine α)) {control : List (Vec α)} (net : control.length = 16)
    (sized : (control.flatMap (Affine.values fs)).toArray.size = 16 * fs.length) :
    netColumns (control.flatMap (Affine.values fs)).toArray sized = fs.map fun f => control.map f.value := by
  have each (p : Vec α) : (Affine.values fs p).length = fs.length := List.length_map ..
  refine List.ext_getElem (by simp [netColumns]) fun k first second => ?_
  refine List.ext_getElem (by simp [netColumns, net]) fun n row point => ?_
  have inside : k < fs.length := by simpa using second
  have within : n < control.length := by simpa using point
  have found := valueAt (fun p _ => each p) (List.getElem?_eq_getElem within) inside
  simp only [Affine.values, List.getElem?_map, List.getElem?_eq_getElem inside, Option.map_some] at found
  simp only [netColumns, List.getElem_map, List.getElem_finRange]
  exact (List.getElem_eq_iff _).mpr found

theorem productsSum (wu wv : Quad α) : (products wu wv).sum = wu.toList.sum * wv.toList.sum := by
  simp [products, Quad.toList]
  ring

theorem bicubicFollows (fs : List (Affine α)) (some : fs ≠ []) (control : List (Vec α)) (ub vb : Basis α) (tu tv : Nat)
    (follows : ∀ p ∈ (Grid.parameters tu tv : List (α × α)), ∀ f ∈ fs,
      f.constant = 0 ∨ (ub.weights p.1).1.toList.sum * (vb.weights p.2).1.toList.sum = 1) :
    (bicubicBlend (control.flatMap (Affine.values fs)) fs.length ub vb tu tv).toOption =
      ((bicubicGrid control ub vb tu tv).map fun g => g.points.flatMap (Affine.values fs)).toOption := by
  have each (p : Vec α) : (Affine.values fs p).length = fs.length := List.length_map ..
  have positive := List.length_pos_iff.mpr some
  have size : (control.flatMap (Affine.values fs)).length = control.length * fs.length := lengthEach fun p _ => each p
  unfold bicubicBlend bicubicGrid
  dsimp only
  rw [if_neg positive.ne']
  by_cases net : control.length = 16
  · have sized : (control.flatMap (Affine.values fs)).length = 16 * fs.length := net ▸ size
    rw [dif_pos sized, dif_pos net]
    cases (Grid.check tu tv).mapError PatchFault.grid with
    | error f => rfl
    | ok _ =>
      refine congrArg (Except.toOption ∘ Except.ok) ?_
      simp only [Grid.sample, List.map_map, List.flatMap_map, netValues fs net sized]
      refine List.flatMap_congr fun p mem => List.map_congr_left fun f inside => ?_
      have whole := follows p mem f inside
      have all : (products (ub.weights p.1).1 (vb.weights p.2).1).length = control.length := by
        simp [products, Quad.toList, net]
      have one : f.constant * (products (ub.weights p.1).1 (vb.weights p.2).1).sum = f.constant := by
        rw [productsSum]
        rcases whole with zero | one
        · rw [zero, zero_mul]
        · rw [one, mul_one]
      show Scalar.weighted _ (control.map f.value) = f.value (combine _ _)
      rw [weightedAffine f _ control all, one]
      rfl
  · rw [dif_neg net, dif_neg]
    · rfl
    · rw [size]
      exact fun same => net (Nat.eq_of_mul_eq_mul_right positive same)

end Patch
end Exact
end SceneStream.Geometry
