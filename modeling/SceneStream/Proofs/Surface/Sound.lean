import SceneStream.Proofs.Geometry.Grid
import SceneStream.Surface

/-! When a surface has no fault but in its normals. -/
namespace SceneStream.Surface
open SceneStream.Geometry

structure Sound (s : Surface) : Prop where
  indices : ∀ i ∈ s.indices, i < s.positions.length
  topology : match s.topology with
    | .triangles => s.indices.length % 3 = 0
    | .strips lengths => lengths.sum = s.indices.length
  vars : ∀ y ∈ s.vars, y.2.count = if y.2.perVertex then s.positions.length else 1

def Normal (s : Surface) : Prop := s.normals = [] ∨ s.normals.length = s.positions.length

theorem faultless {s : Surface} (sound : s.Sound) (normal : s.Normal) : s.fault? = none := by
  obtain ⟨indices, topology, vars⟩ := sound
  have normals : ¬ ((!s.normals.isEmpty && s.normals.length ≠ s.positions.length) = true) := by
    rcases normal with none | each
    · simp [none]
    · simp [each]
  have inside : s.indices.find? (s.positions.length ≤ ·) = none := by
    refine List.find?_eq_none.mpr fun i mem => ?_
    have below := indices i mem
    simp only [decide_eq_true_eq]
    omega
  unfold fault?
  dsimp only
  rw [if_neg normals, inside]
  cases shape : s.topology with
  | triangles | strips _ =>
    rw [shape] at topology
    simp only [topology, if_true, Option.none_or]
    exact List.findSome?_eq_none_iff.mpr fun y mem => if_pos (vars y mem)

theorem wrongNormals {s : Surface} (some' : s.normals ≠ [])
    (differ : s.normals.length ≠ s.positions.length) :
    s.fault? = some (.normals s.normals.length s.positions.length) := by
  unfold fault?
  simp [some', differ]

theorem gridSound {tu tv : Nat} (kind : RequestKind) (layout : Layout) {g : Grid Float}
    (full : g.Full tu tv) : (ofGrid kind layout g).Sound := by
  obtain ⟨uCount, vCount, points, -⟩ := full
  have size : (ofGrid kind layout g).positions.length = g.uCount * g.vCount := by
    cases layout <;> simp [ofGrid, ofTriangles, points, uCount, vCount]
  cases layout with
  | triangles => exact ⟨fun i mem => size ▸ Grid.trianglesInside _ _ i mem, triplesLength _, nofun⟩
  | strips =>
    exact ⟨fun i mem => size ▸ Grid.stripsInside _ _ i mem, (List.length_flatten ..).symm, nofun⟩

theorem gridPositions {tu tv : Nat} (kind : RequestKind) (layout : Layout) {g : Grid Float}
    (full : g.Full tu tv) : (ofGrid kind layout g).positions.length = (tu + 1) * (tv + 1) := by
  cases layout <;> simp [ofGrid, ofTriangles, full.points]

theorem gridNormal {tu tv : Nat} (kind : RequestKind) (layout : Layout) {g : Grid Float}
    (full : g.Full tu tv) : (ofGrid kind layout g).Normal := by
  refine .inr ?_
  cases layout <;> simp [ofGrid, ofTriangles, full.points, full.normals]

end SceneStream.Surface
