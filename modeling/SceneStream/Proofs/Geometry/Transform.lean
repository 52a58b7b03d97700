import Mathlib.Tactic.Ring
import SceneStream.Geometry.Transform
import SceneStream.Proofs.Geometry.Scalar

/-! Transforms in exact arithmetic. One that is composed onto another is applied before it, and a matrix that a
stream writes acts on rows. -/
namespace SceneStream.Geometry

section Homogeneous
variable {α : Type} [Scalar α]

def Vec.row (p : Vec α) : Quad α := ⟨p.x, p.y, p.z, 1⟩

/-- The point that is meant; one that has no place keeps its coordinates. -/
def Quad.place (q : Quad α) : Vec α := if Scalar.same q.w 0 then ⟨q.x, q.y, q.z⟩ else q.point

def Quad.rowImage (m : Quad (Quad α)) (p : Vec α) : Vec α := (p.row.times m).place

/-- The last row is that of the identity, so that points stay points. -/
def Transform.Affine (t : Transform α) : Prop := t.rows.w = ⟨0, 0, 0, 1⟩

namespace Transform

theorem translateAffine (v : Vec α) : (translate v).Affine := rfl

theorem scaleAffine (v : Vec α) : (scale v).Affine := rfl

theorem rotateAffine {degrees : Float} {axis : Vec Float} {t : Transform Float}
    (turned : rotate? degrees axis = some t) : t.Affine := by
  obtain ⟨_, -, rfl⟩ := Option.map_eq_some_iff.mp turned
  rfl

theorem skewAffine {degrees : Float} {d e : Vec Float} {t : Transform Float}
    (sheared : skew? degrees d e = some t) : t.Affine := by
  simp only [skew?, bind, Option.bind_eq_some_iff] at sheared
  obtain ⟨_, -, _, -, _, -, last⟩ := sheared
  split at last
  · cases last
  · cases last
    rfl

end Transform
end Homogeneous

namespace Transform
variable {α : Type} [Field α] [LinearOrder α] [Roots α]

theorem applyPlace (t : Transform α) (p : Vec α) : t.apply p = (t.rows.map (·.dot p.row)).place := rfl

theorem dotExact (a b : Quad α) : a.dot b = a.x * b.x + a.y * b.y + a.z * b.z + a.w * b.w := rfl

theorem dotComm (a b : Quad α) : a.dot b = b.dot a := by
  rw [dotExact, dotExact]
  ring

theorem timesDot (a q : Quad α) (m : Quad (Quad α)) : (a.times m).dot q = a.dot (m.map (·.dot q)) := by
  simp only [Quad.times, Quad.transpose, Quad.map, dotExact]
  ring

variable [IsStrictOrderedRing α]

theorem pointPlace (p : Vec α) : p.row.place = p := by
  have finite : Scalar.same (1 : α) 0 = false := by
    rw [sameExact]
    exact decide_eq_false one_ne_zero
  rw [Quad.place, Vec.row, finite]
  simp [Quad.point]

theorem applyImage {t : Transform α} {p q : Vec α} (image : t.rows.map (·.dot p.row) = q.row) : t.apply p = q := by
  rw [applyPlace, image, pointPlace]

theorem affineRow {t : Transform α} (affine : t.Affine) (p : Vec α) :
    t.rows.map (·.dot p.row) = (t.apply p).row := by
  have last : t.rows.w.dot p.row = 1 := by
    rw [affine, dotExact, Vec.row]
    ring
  have image : t.rows.map (·.dot p.row) =
      Vec.row ⟨t.rows.x.dot p.row, t.rows.y.dot p.row, t.rows.z.dot p.row⟩ :=
    congrArg (Quad.mk _ _ _) last
  rw [applyImage image, image]

/-- What is composed onto a transform is applied before it. -/
theorem composeApply (a : Transform α) {b : Transform α} (affine : b.Affine) (p : Vec α) :
    (a.compose b).apply p = a.apply (b.apply p) := by
  rw [applyPlace, applyPlace a, ← affineRow affine]
  refine congrArg Quad.place ?_
  simp only [compose, Quad.map, timesDot]

theorem identityApply (p : Vec α) : identity.apply p = p := by
  refine applyImage ?_
  simp only [identity, Quad.identity, Quad.map, dotExact, Vec.row, Quad.mk.injEq]
  refine ⟨?_, ?_, ?_, ?_⟩ <;> ring

theorem translateApply (v p : Vec α) : (translate v).apply p = p + v := by
  refine applyImage (q := ⟨p.x + v.x, p.y + v.y, p.z + v.z⟩) ?_
  simp only [translate, Quad.map, dotExact, Vec.row, Quad.mk.injEq]
  refine ⟨?_, ?_, ?_, ?_⟩ <;> ring

theorem scaleApply (v p : Vec α) : (scale v).apply p = ⟨p.x * v.x, p.y * v.y, p.z * v.z⟩ := by
  refine applyImage ?_
  simp only [scale, Quad.map, dotExact, Vec.row, Quad.mk.injEq]
  refine ⟨?_, ?_, ?_, ?_⟩ <;> ring

omit [IsStrictOrderedRing α] in
theorem transposeApply (m : Quad (Quad α)) (p : Vec α) : apply ⟨m.transpose⟩ p = m.rowImage p := by
  rw [applyPlace, Quad.rowImage, Quad.times, funext fun q : Quad α => dotComm q p.row]

end Transform
end SceneStream.Geometry
