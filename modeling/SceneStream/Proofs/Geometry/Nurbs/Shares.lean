import Mathlib.Tactic.LinearCombination
import SceneStream.Proofs.Geometry.Blend
import SceneStream.Proofs.Geometry.Nurbs.Accepted

/-! The shares that control points have in a sample of a rational patch, in exact arithmetic. What follows the positions
of the control points follows the sample by these shares. -/
namespace SceneStream.Geometry.NuPatch
variable {α : Type}

section Sample
variable [Scalar α]

/-- Where a control point is, its weight divided out. -/
def position (p : NuPatch α) (i : Nat) : Vec α := (p.points.getD i ⟨0, 0, 0, 1⟩).point

def held (p : NuPatch α) (seg : Segment α) : List (Nat × Quad α) :=
  (p.block seg).filterMap fun i => (p.points.toArray[i]?).map (i, ·)

/-- The sum of the control points by their basis functions, of which a sample is the point. -/
def homogeneous (p : NuPatch α) (seg : Segment α) (s t : α) : Quad α :=
  let points := (p.held seg).map (·.2)
  combine (products (p.u.basis seg.u.knot s).1 (p.v.basis seg.v.knot t).1)
    ⟨points.map Quad.x, points.map Quad.y, points.map Quad.z, points.map Quad.w⟩

def place (seg : Segment α) (part : α × α) : α × α :=
  (seg.u.low + part.1 * (seg.u.high - seg.u.low), seg.v.low + part.2 * (seg.v.high - seg.v.low))

theorem sampleAt {p : NuPatch α} {seg : Segment α} {tu tv : Nat} {g : SegmentGrid α}
    (done : p.sample seg tu tv = .ok g) {k : Nat} {part : α × α} (found : g.grid.params[k]? = some part) :
    g.grid.points[k]? = some (p.evaluate seg (p.held seg) (place seg part).1 (place seg part).2).point ∧
      g.influences[k]? = some (p.evaluate seg (p.held seg) (place seg part).1 (place seg part).2).influences := by
  obtain ⟨_, -, last⟩ := Outcome.okBind done
  cases last
  have there : (Grid.parameters tu tv : List (α × α))[k]? = some part := found
  simp only [List.getElem?_map, there, Option.map_some]
  exact ⟨rfl, rfl⟩

theorem heldBlock {p : NuPatch α} (fits : p.Fits) {seg : Segment α} (has : p.Has seg) :
    p.held seg = (p.block seg).map fun i => (i, p.points.getD i ⟨0, 0, 0, 1⟩) := by
  refine (List.filterMap_congr fun i mem => ?_).trans (congrFun List.filterMap_eq_map _)
  have inside : i < p.points.length := fits.points ▸ blockInside has i mem
  simp [inside]

theorem influenceNames {p : NuPatch α} (fits : p.Fits) {seg : Segment α} (has : p.Has seg) (s t : α) :
    ∀ i ∈ (p.evaluate seg (p.held seg) s t).influences,
      (p.block seg)[i.place]? = some i.control ∧ i.control < p.points.length := by
  intro i mem
  obtain ⟨⟨⟨w, n, c⟩, place⟩, inside, rfl⟩ := List.mem_map.mp mem
  have entry := List.mem_zipIdx_iff_getElem?.mp inside
  obtain ⟨-, entry⟩ := List.getElem?_zip_eq_some.mp entry
  rw [heldBlock fits has, List.getElem?_map] at entry
  obtain ⟨m, found, same⟩ := Option.map_eq_some_iff.mp entry
  cases same
  exact ⟨found, fits.points ▸ blockInside has n (List.mem_of_getElem? found)⟩

end Sample

variable [Field α] [LinearOrder α] [Roots α]

theorem sharesSum (f : Affine α) (h : α) (ws : List α) {qs : List (Quad α)} (weigh : ∀ q ∈ qs, q.w ≠ 0) :
    (ws.zipWith (fun w q => w * q.w / h * f.value q.point) qs).sum =
      (f.x * Scalar.weighted ws (qs.map Quad.x) + f.y * Scalar.weighted ws (qs.map Quad.y) +
        f.z * Scalar.weighted ws (qs.map Quad.z) + f.constant * Scalar.weighted ws (qs.map Quad.w)) / h := by
  induction ws generalizing qs with
  | nil => simp [weightedExact]
  | cons w ws ih =>
    cases qs with
    | nil => simp [weightedExact]
    | cons q qs =>
      obtain ⟨first, rest⟩ := List.forall_mem_cons.mp weigh
      have own : q.w * f.value q.point = f.x * q.x + f.y * q.y + f.z * q.z + f.constant * q.w := by
        simp only [Affine.value, Quad.point]
        field_simp
      simp only [List.zipWith_cons_cons, List.map_cons, List.sum_cons, weightedCons, ih rest]
      linear_combination w / h * own

theorem influenceSum {p : NuPatch α} (fits : p.Fits) (weigh : ∀ q ∈ p.points, q.w ≠ 0) {seg : Segment α}
    (has : p.Has seg) {s t : α} (weight : (p.homogeneous seg s t).w ≠ 0) (f : Affine α) :
    ((p.evaluate seg (p.held seg) s t).influences.map fun i => i.weight * f.value (p.position i.control)).sum =
      f.value (p.evaluate seg (p.held seg) s t).point := by
  let ws := products (p.u.basis seg.u.knot s).1 (p.v.basis seg.v.knot t).1
  have known : ∀ q ∈ (p.held seg).map (·.2), q.w ≠ 0 := by
    rw [heldBlock fits has, List.map_map]
    refine List.forall_mem_map.mpr fun i mem => weigh _ ?_
    have inside : i < p.points.length := fits.points ▸ blockInside has i mem
    show p.points.getD i _ ∈ p.points
    rw [List.getD_eq_getElem _ _ inside]
    exact List.getElem_mem ..
  have listed : (p.evaluate seg (p.held seg) s t).influences.map (fun i => i.weight * f.value (p.position i.control)) =
      ws.zipWith (fun w q => w * q.w / (p.homogeneous seg s t).w * f.value q.point) ((p.held seg).map (·.2)) := by
    let part (x : α × Nat × Quad α) : α :=
      x.1 * x.2.2.w / (p.homogeneous seg s t).w * f.value (p.position x.2.1)
    calc _ = ((ws.zip (p.held seg)).zipIdx.map Prod.fst).map part := by
          rw [List.map_map, NuPatch.evaluate, List.map_map]
          rfl
      _ = ws.zipWith (Function.curry part) (p.held seg) := by
          rw [List.zipIdx_map_fst, List.map_zip_eq_zipWith]
      _ = _ := by
          rw [heldBlock fits has, List.map_map, List.zipWith_map_right, List.zipWith_map_right]
          rfl
  have point : (p.evaluate seg (p.held seg) s t).point = (p.homogeneous seg s t).point := rfl
  rw [listed, sharesSum f _ ws known, point, Quad.point, Affine.value, div_eq_iff weight]
  show f.x * (p.homogeneous seg s t).x + f.y * (p.homogeneous seg s t).y + f.z * (p.homogeneous seg s t).z +
    f.constant * (p.homogeneous seg s t).w = _
  field_simp

end SceneStream.Geometry.NuPatch
