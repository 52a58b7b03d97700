import SceneStream.Primitive.Patch
import SceneStream.Proofs.Primitive.Carry

/-! Patches and meshes of patches. Every sample has its normal. A mesh reads its positions by their place
in the net, so it needs as many of them as the net has points. -/
namespace SceneStream.Primitive
open SceneStream.Work SceneStream.Args SceneStream.Geometry
open SceneStream.Variables (Bound Fit)

def Short (kind : RequestKind) (counts : ValueCounts) (vars : Variables) : Prop :=
  ∃ points, positions kind vars = .ok points ∧ points.length < counts.vertex

theorem patchSurfaceEnds (kind : RequestKind) (s : Setting) (shape : PatchKind)
    (control : List (Vec Float)) {vars : Variables} (whole : Wholes vars) :
    Outcome.Yields (Emits vars false) (patchSurface kind s shape control vars) := by
  have finish (x : Except PatchFault (Grid Float))
      (full : ∀ g, x = .ok g → g.Full s.attributes.tessellation.1 s.attributes.tessellation.2) :
      Outcome.Yields (Emits vars false) (do
        let grid ← x.mapError fun f => reject kind f.kind f.message
        carry vars (patchSpread kind s.attributes.uBasis s.attributes.vBasis
          s.attributes.tessellation) (Surface.ofGrid kind s.layout grid)) := by
    refine Outcome.endsBind
      (Outcome.endsMapError (fun f => rejectExpected (patchFaultKind f) _ _) full) fun g full => ?_
    refine Outcome.endsMono (carryEnds ?_ whole fun y _ _ => ?_) (fun _ => id) fun t carries => ?_
    · cases s.layout <;> rfl
    · rw [Surface.gridPositions kind s.layout full]
      exact patchSpreadEnds ..
    · exact emitsCarried carries (Surface.gridSound kind s.layout full)
        (Surface.gridNormal kind s.layout full)
  unfold patchSurface
  dsimp only
  split
  · split
    · exact nofun
    · exact finish _ fun g => Patch.bilinearGridFull
  · exact finish _ fun g => Patch.bicubicGridFull

theorem patchEnds (s : Setting) (r : Request) (d : Dictionary) :
    Declaring.Ends (Fails fun _ _ => False) (Gives fun _ => false) (patch s r) d := by
  refine readBind ?_ fun x => boundBind fun e vars bound => boundLift bound ?_
  · exact safeBind (safeWord _ _) fun _ => safeBind safeTokenList fun _ => safePure _
  · refine Outcome.endsMono (F := fun p => p.Expected ∨ _) (E := Problem.Expected) ?_
      (fun _ => .inl) fun _ => id
    refine Outcome.endsBind (safePositions r.kind vars) fun control _ => ?_
    have one : (ValueCounts.patch x.1).uniform = 1 := by cases x.1 <;> rfl
    refine Outcome.endsBind (patchSurfaceEnds r.kind s x.1 control
      (fitWholes (Variables.boundFit bound) one)) fun t emits => ?_
    rintro _ ⟨⟩ u mem
    rw [List.mem_singleton.mp mem]
    exact emits

namespace Mesh

theorem controlInside {m : Mesh} (wide : 0 < m.u.points) (high : 0 < m.v.points) (i j : Nat) :
    ∀ k ∈ m.control i j, k < m.u.points * m.v.points := by
  intro k mem
  simp only [control, List.mem_flatMap, List.mem_map] at mem
  obtain ⟨r, -, c, -, rfl⟩ := mem
  exact Grid.inColumn wide (Nat.mod_lt _ high)

end Mesh

theorem piecesPoints {cubic : Bool} {wrap : Wrap} {step n pieces : Nat}
    (whole : pieces? cubic wrap step n = some pieces) : 2 ≤ n := by
  unfold pieces? at whole
  split at whole
  all_goals
    split at whole
    · omega
    · cases whole

structure Mesh.Cuts (m : Mesh) (c : Mesh.Cut) : Prop where
  counts : c.counts = ⟨c.patches.1 * c.patches.2, c.ends.1 * c.ends.2, m.u.points * m.v.points,
    c.patches.1 * c.patches.2 * 4, c.patches.1 * c.patches.2 * (m.shape.order * m.shape.order)⟩
  points : 2 ≤ m.u.points ∧ 2 ≤ m.v.points
  patches : m.u.patches? m.shape = some c.patches.1 ∧ m.v.patches? m.shape = some c.patches.2
  ends : c.ends = (m.u.wrap.ends c.patches.1, m.v.wrap.ends c.patches.2)

theorem cutEnds (kind : RequestKind) (m : Mesh) : Outcome.Yields m.Cuts (m.cut kind) := by
  unfold Mesh.cut
  dsimp only
  split
  · rename_i pu pv across up counts uPatches vPatches ends all
    simp only [MeshAxis.varying?, uPatches, vPatches, Option.map_some, Prod.mk.injEq,
      Option.some.injEq] at ends
    obtain ⟨rfl, rfl⟩ := ends
    simp only [ValueCounts.patchMesh?, MeshAxis.varying?, uPatches, vPatches, bind,
      Option.bind_some, Option.map_some, Option.some.injEq] at all
    exact ⟨all.symm, ⟨piecesPoints uPatches, piecesPoints vPatches⟩, ⟨uPatches, vPatches⟩, rfl⟩
  · exact nofun

theorem controlEnds {points : List (Vec Float)} {control : List Nat} {n : Nat}
    (inside : ∀ k ∈ control, k < n) :
    Outcome.Ends (fun p => p.isCrash = true ∧ points.length < n) (fun _ => True)
      (control.mapM (Part.item points.toArray)) := by
  refine Outcome.endsMono (Outcome.endsMapM (Q := fun _ => True) fun k mem => ?_) (fun _ => id)
    fun _ _ => trivial
  cases read : Part.item points.toArray k with
  | ok x => exact trivial
  | error p =>
    refine ⟨Part.itemCrash read, Nat.lt_of_not_le fun enough => ?_⟩
    have there : k < points.toArray.size := Nat.lt_of_lt_of_le (inside k mem) enough
    rw [Part.itemInside there] at read
    cases read

theorem safeMesh (s : Setting) : Safe (mesh s) :=
  safeBind (safeWord _ _) fun _ => safeBind (safePositive _) fun _ => safeBind (safeWord _ _) fun _ =>
    safeBind (safePositive _) fun _ => safeBind (safeWord _ _) fun _ =>
      safeBind safeTokenList fun _ => safePure _

theorem placesInside {c : Mesh.Cut} {place : Nat × Nat} (mem : place ∈ c.places) :
    place.1 < c.patches.1 ∧ place.2 < c.patches.2 := by
  simp only [Mesh.Cut.places, List.mem_flatMap, List.mem_map, List.mem_range] at mem
  obtain ⟨j, row, i, column, rfl⟩ := mem
  exact ⟨column, row⟩

theorem patchMeshEnds (s : Setting) (r : Request) (d : Dictionary) :
    Declaring.Ends (Fails (Short r.kind)) (Gives fun _ => false) (patchMesh s r) d := by
  refine readBind (safeMesh s) fun x => ?_
  obtain ⟨m, list⟩ := x
  refine Declaring.endsLiftBind (Outcome.endsMono (cutEnds r.kind m) (fun _ => .inl) fun _ => id)
    fun c _ cuts => ?_
  obtain ⟨wide, high⟩ := cuts.points
  refine boundBind fun e vars bound => boundLift bound ?_
  have fit := Variables.boundFit bound
  refine Outcome.endsBind (Outcome.endsMono (Outcome.safeIs (safePositions r.kind vars))
    (fun _ => .inl) fun _ => id) fun points found => ?_
  refine Outcome.endsMap (Outcome.endsMapM (Q := Emits vars false) fun place mem => ?_) ?_
  · obtain ⟨column, row⟩ := placesInside mem
    have uniform : (m.selectionAt c place).uniform < c.counts.uniform := by
      rw [cuts.counts]
      exact inRow row column
    refine Outcome.endsBind (Outcome.endsMono (controlEnds
      (Mesh.controlInside (by omega) (by omega) _ _)) (fun p failed => .inr ?_)
      fun _ => id) fun control _ => ?_
    · exact ⟨failed.1, points, found, by rw [cuts.counts]; exact failed.2⟩
    · exact Outcome.endsMono (patchSurfaceEnds r.kind s m.shape control
        (selectWholes fit uniform)) (fun _ => .inl) fun t => emitsSelected
  · rintro l each _ ⟨⟩
    exact each

end SceneStream.Primitive
