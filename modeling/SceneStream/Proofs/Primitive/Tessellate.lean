import SceneStream.Primitive
import SceneStream.Proofs.Primitive.Nurbs
import SceneStream.Proofs.Primitive.Patch
import SceneStream.Proofs.Primitive.Polygon

/-! Every geometry request ends in surfaces, or in a problem that it is itself to blame for, unless the
positions or the face normals it is given were declared to be something else. -/
namespace SceneStream.Primitive
open SceneStream.Work SceneStream.Args SceneStream.Geometry
open SceneStream.Variables (Bound Fit BoundBy)

/-! Quadrics, and what is bound without being made into surfaces. -/

theorem quadricFaultKind (f : QuadricFault) : ¬ f.kind.Unexpected := by
  cases f with
  | grid f => exact gridFaultKind f
  | _ => nofun

theorem safeShape {kind : RequestKind} {shape : Args.Read Quadric} (found : shape? kind = some shape) :
    Safe shape := by
  unfold shape? at found
  dsimp only at found
  split at found
  all_goals cases found
  · exact safeBind safeDouble fun _ => safeBind safeDouble fun _ => safeBind safeDouble fun _ =>
      safeBind safeDouble fun _ => safePure _
  · exact safeBind safeDouble fun _ => safeBind safeDouble fun _ => safeBind safeDouble fun _ =>
      safePure _
  · exact safeBind safeDouble fun _ => safeBind safeDouble fun _ => safeBind safeDouble fun _ =>
      safeBind safeDouble fun _ => safePure _
  · exact safeBind safeVec fun _ => safeBind safeVec fun _ => safeBind safeDouble fun _ => safePure _
  · exact safeBind safeDouble fun _ => safeBind safeDouble fun _ => safeBind safeDouble fun _ =>
      safeBind safeDouble fun _ => safePure _
  · exact safeBind safeDouble fun _ => safeBind safeDouble fun _ => safeBind safeDouble fun _ =>
      safePure _
  · exact safeBind safeDouble fun _ => safeBind safeDouble fun _ => safeBind safeDouble fun _ =>
      safeBind safeDouble fun _ => safeBind safeDouble fun _ => safePure _

theorem quadricEnds (s : Setting) (r : Request) {shape : Args.Read Quadric} (safe : Safe shape)
    (d : Dictionary) :
    Declaring.Ends (Fails fun _ _ => False) (Gives fun _ => false) (quadric s r shape) d := by
  refine readBind ?_ fun x => boundBind fun e vars bound => boundLift bound ?_
  · exact safeBind safe fun _ => safeBind safeTokenList fun _ => safePure _
  · refine Outcome.endsMono (E := Problem.Expected) ?_ (fun _ => .inl) fun _ => id
    refine Outcome.endsBind (Outcome.endsMapError
      (fun f => rejectExpected (quadricFaultKind f) _ _) fun g => Quadric.sampleFull) fun g full => ?_
    refine Outcome.endsBind (carryEnds ?_ (fitWholes (Variables.boundFit bound) rfl)
      fun y _ _ => ?_) fun t carries => ?_
    · cases s.layout <;> rfl
    · rw [Surface.gridPositions r.kind s.layout full]
      exact patchSpreadEnds ..
    · rintro _ ⟨⟩ u mem
      rw [List.mem_singleton.mp mem]
      exact emitsCarried carries (Surface.gridSound r.kind s.layout full)
        (Surface.gridNormal r.kind s.layout full)

abbrev Binds (m : Declaring Outcome) (d : Dictionary) : Prop :=
  Declaring.Ends (Fails fun _ _ => False) (fun o _ => ∀ l, o ≠ .surfaces l) m d

theorem bindsPositions (kind : RequestKind) (vars : Variables) (d : Dictionary) :
    Binds (do
      let _ ← Declaring.lift (positions kind vars)
      return .bound vars) d := by
  refine Declaring.endsLiftBind (R := fun _ => True) ?_ fun _ _ _ => Declaring.endsPure nofun
  exact Outcome.endsMono (safePositions kind vars) (fun _ => .inl) fun _ => id

theorem pointsBinds (r : Request) (d : Dictionary) : Binds (points r) d := by
  refine readBind safeTokenList fun list => ?_
  refine Declaring.endsBind (Declaring.endsMono (pointCountEnds list d) (fun _ _ => .inl)
    fun _ _ => id) fun n e _ _ _ => ?_
  exact boundBind fun f vars _ => bindsPositions r.kind vars f

theorem curvesBinds (s : Setting) (r : Request) (d : Dictionary) : Binds (curves s r) d := by
  refine readBind ?_ fun x => ?_
  · exact safeBind (safeWord _ _) fun _ => safeBind safeCountArray fun _ =>
      safeBind (safeWord _ _) fun _ => safeBind safeTokenList fun _ => safePure _
  · obtain ⟨shape, sizes, wrap, list⟩ := x
    dsimp only
    split
    · exact boundBind fun f vars _ => bindsPositions r.kind vars f
    · exact Declaring.endsRun rfl .refl (.inl nofun)

theorem safeLeaves : Safe leaves := by
  refine safeBind safeGet fun a => safeBind safeInt fun n => ?_
  have finish : Safe (do
      let code ← Args.intArray
      let _ ← Args.floatArray
      let _ ← Args.stringArray
      if code.isEmpty ∧ 0 < n then
        throw (reject a.kind .missingData s!"{n.toInt} leaves without code")
      return n.toInt.toNat : Args.Read Nat) := by
    refine safeBind safeIntArray fun code => safeBind safeFloatArray fun _ => ?_
    refine safeBind safeStringArray fun _ => ?_
    split
    · exact yieldsThrowBind (by nofun) _
    · exact safePure _
  dsimp only
  split
  · exact yieldsThrowBind (by nofun) _
  · exact finish

theorem blobbyBinds (r : Request) (d : Dictionary) : Binds (blobby r) d := by
  refine readBind ?_ fun x => boundBind fun e vars _ => Declaring.endsPure nofun
  exact safeBind safeLeaves fun _ => safeBind safeTokenList fun _ => safePure _

def isFaces : RequestKind → Bool
  | .polygon | .generalPolygon | .pointsPolygons | .pointsGeneralPolygons | .subdivisionMesh => true
  | _ => false

inductive Cause (kind : RequestKind) (counts : ValueCounts) (vars : Variables) : Prop where
  | textNormal (faces : isFaces kind = true) (text : textNormal vars = true)
  | short (mesh : kind = .patchMesh) (short : Short kind counts vars)

abbrev Tessellates (kind : RequestKind) (m : Declaring Outcome) (d : Dictionary) : Prop :=
  Declaring.Ends (Fails (Cause kind)) (Gives fun vars => isFaces kind && loneNormal vars) m d

section Tessellates
variable {kind : RequestKind} {m : Declaring Outcome} {d : Dictionary}

theorem tessellatesFor {cause : ValueCounts → Variables → Prop} {lone : Variables → Bool}
    (ends : Declaring.Ends (Fails cause) (Gives lone) m d)
    (causes : ∀ counts vars, cause counts vars → Cause kind counts vars)
    (same : ∀ vars, lone vars = (isFaces kind && loneNormal vars)) : Tessellates kind m d := by
  refine Declaring.endsMono ends (fun p e failed => ?_) fun o e gives l surfaces => ?_
  · exact failed.imp_right fun ⟨crash, counts, vars, bound, why⟩ =>
      ⟨crash, counts, vars, bound, causes counts vars why⟩
  · obtain ⟨counts, vars, bound, each⟩ := gives l surfaces
    refine ⟨counts, vars, bound, ?_⟩
    dsimp only
    rw [← same vars]
    exact each

theorem facesTessellate (faces : isFaces kind = true) (ends : PolygonEnds m d) :
    Tessellates kind m d :=
  tessellatesFor ends (fun _ _ => .textNormal faces) fun vars => by rw [faces, Bool.true_and]

theorem gridsTessellate {cause : ValueCounts → Variables → Prop} (grids : isFaces kind = false)
    (ends : Declaring.Ends (Fails cause) (Gives fun _ => false) m d)
    (causes : ∀ counts vars, cause counts vars → Cause kind counts vars) : Tessellates kind m d :=
  tessellatesFor ends causes fun vars => by rw [grids, Bool.false_and]

theorem bindsTessellates (binds : Binds m d) : Tessellates kind m d := by
  refine Declaring.endsMono binds (fun p e failed => ?_) fun o e none l same => absurd same (none l)
  exact failed.imp_right fun ⟨_, _, _, _, never⟩ => never.elim

end Tessellates

theorem shapeGrids {kind : RequestKind} {shape : Args.Read Quadric} (found : shape? kind = some shape) :
    isFaces kind = false := by
  unfold shape? at found
  dsimp only at found
  split at found <;> first | rfl | cases found

theorem tessellateEnds (s : Setting) (r : Request) (d : Dictionary) :
    Tessellates r.kind (tessellate s r) d := by
  unfold tessellate
  split
  · rename_i kind
    exact facesTessellate (by rw [kind]; rfl) (polygonEnds s r d)
  · rename_i kind
    exact facesTessellate (by rw [kind]; rfl) (generalPolygonEnds s r d)
  · rename_i kind
    exact facesTessellate (by rw [kind]; rfl) (pointsPolygonsEnds s r d)
  · rename_i kind
    exact facesTessellate (by rw [kind]; rfl) (pointsGeneralPolygonsEnds s r d)
  · rename_i kind
    exact facesTessellate (by rw [kind]; rfl) (subdivisionMeshEnds s r d)
  · rename_i kind
    exact gridsTessellate (by rw [kind]; rfl) (patchEnds s r d) fun _ _ => False.elim
  · rename_i kind
    exact gridsTessellate (by rw [kind]; rfl) (patchMeshEnds s r d) fun _ _ => .short kind
  · rename_i kind
    exact gridsTessellate (by rw [kind]; rfl) (nuPatchEnds s r d) fun _ _ => False.elim
  · exact bindsTessellates (pointsBinds r d)
  · exact bindsTessellates (curvesBinds s r d)
  · exact bindsTessellates (blobbyBinds r d)
  · split
    · rename_i shape found
      exact gridsTessellate (shapeGrids found) (quadricEnds s r (safeShape found) d)
        fun _ _ => False.elim
    · exact bindsTessellates (Declaring.endsPure nofun)

/-- A declaration that is in force and can make a request of the kind crash: face normals that are texts,
or positions that are texts or do not belong to the points of a net. -/
inductive Hazard (kind : RequestKind) (d : Dictionary) : Prop where
  | textNormal {x : Declaration} (faces : isFaces kind = true) (stands : d.Stands x)
      (normal : x.name = "Np" ∧ d.width x = 3) (text : x.kind = .string)
  | short {x : Declaration} (mesh : kind = .patchMesh) (stands : d.Stands x)
      (position : x.name = "P" ∧ d.width x = 3 ∨ x.name = "Pw" ∧ d.width x = 4)
      (other : x.kind = .string ∨ x.storage ≠ .vertex)

theorem ofWidthStands {counts : ValueCounts} {vars : Variables} {d : Dictionary}
    (bound : Bound counts d vars) {name : String} {width : Nat} {v : Variable}
    (found : ofWidth? vars name width = some v) :
    ∃ x, d.Stands x ∧ (x.name = name ∧ d.width x = width) ∧ x.kind = v.kind ∧
      x.storage = v.storage ∧ v.Fits (counts.get v.storage) := by
  obtain ⟨mem, same⟩ := ofWidthOk found
  obtain ⟨x, named, source⟩ := bound _ mem
  exact ⟨x, source.stands, ⟨named, source.width.symm.trans same⟩, source.kind.symm,
    source.storage.symm, source.fits⟩

theorem textHazard {kind : RequestKind} {counts : ValueCounts} {vars : Variables} {d : Dictionary}
    (bound : Bound counts d vars) (faces : isFaces kind = true) (text : textNormal vars = true) :
    Hazard kind d := by
  obtain ⟨-, any⟩ := Bool.and_eq_true_iff.mp text
  cases found : ofWidth? vars "Np" 3 with
  | none =>
    rw [found] at any
    cases any
  | some v =>
    rw [found] at any
    obtain ⟨x, stands, normal, same, -, -⟩ := ofWidthStands bound found
    exact .textNormal faces stands normal (same.trans (eq_of_beq any))

theorem enoughPoints {counts : ValueCounts} {v : Variable} (fits : v.Fits (counts.get v.storage))
    (vertex : v.storage = .vertex) (numbers : v.kind ≠ .string) {width : Nat} (wide : 0 < width)
    (same : v.width = width) : v.doubles.length / width = counts.vertex := by
  have length := Variable.fitsNumbers fits numbers
  rw [vertex, same] at length
  rw [length]
  exact Nat.mul_div_cancel _ wide

theorem shortHazard {kind : RequestKind} {counts : ValueCounts} {vars : Variables} {d : Dictionary}
    (bound : Bound counts d vars) (mesh : kind = .patchMesh) (short : Short kind counts vars) :
    Hazard kind d := by
  obtain ⟨points, found, few⟩ := short
  obtain ⟨all, net, rest⟩ := Outcome.okBind found
  have length : points.length = all.length := by
    split at rest
    · cases rest
    · cases rest
      exact List.length_map ..
  have lacks {name : String} {width : Nat} {v : Variable} (wide : 0 < width)
      (given : ofWidth? vars name width = some v) (count : all.length = v.doubles.length / width) :
      v.kind = .string ∨ v.storage ≠ .vertex := by
    refine Decidable.or_iff_not_imp_left.mpr fun numbers vertex => ?_
    obtain ⟨mem, same⟩ := ofWidthOk given
    have enough := enoughPoints (Variables.boundFit bound (name, v) mem) vertex numbers wide same
    exact absurd few (by rw [length, count, enough]; exact Nat.lt_irrefl _)
  unfold homogeneous at net
  cases given : ofWidth? vars "P" 3 with
  | some v =>
    rw [given] at net
    cases net
    obtain ⟨x, stands, named, kind, storage, -⟩ := ofWidthStands bound given
    refine .short mesh stands (.inl named) ?_
    rw [kind, storage]
    exact lacks (by decide) given (by rw [List.length_map, triplesLength])
  | none =>
    cases other : ofWidth? vars "Pw" 4 with
    | some v =>
      rw [given, other] at net
      cases net
      obtain ⟨x, stands, named, kind, storage, -⟩ := ofWidthStands bound other
      refine .short mesh stands (.inr named) ?_
      rw [kind, storage]
      exact lacks (by decide) other (quadruplesLength _)
    | none =>
      rw [given, other] at net
      cases net

/-- Whatever the dictionary, a geometry request only adds inline declarations to it, and does not fail
but by its own fault; it crashes only where a hazardous declaration is in force. -/
theorem crashNeedsHazard (s : Setting) (r : Request) (d : Dictionary) :
    d.Grows ((tessellate s r).run d).2 ∧
    ∀ p, ((tessellate s r).run d).1 = .error p →
      p.Expected ∨ p.isCrash = true ∧ Hazard r.kind ((tessellate s r).run d).2 := by
  obtain ⟨grows, outcome⟩ := tessellateEnds s r d
  refine ⟨grows, fun p failed => ?_⟩
  rw [failed] at outcome
  refine Or.imp_right (fun ⟨crash, counts, vars, bound, cause⟩ => ⟨crash, ?_⟩) outcome
  cases cause with
  | textNormal faces text => exact textHazard bound faces text
  | short mesh short => exact shortHazard bound mesh short

/-- Three texts are the points of a net of four. -/
def textNet : Request := ⟨.patchMesh, 3, [.of (.strings ["bilinear"]) false,
  .of (.integers [2]) false, .of (.strings ["nonperiodic"]) false, .of (.integers [2]) false,
  .of (.strings ["nonperiodic"]) false, .of (.strings ["constant string[3] P"]) false,
  .of (.strings ["a", "b", "c"]) true]⟩

theorem textNetCrashes : Outcome.Ends (fun p => p.isCrash = true) (fun _ => False)
    ((tessellate ⟨.initial 3 (16, 16), .triangles, Geometry.tolerance⟩ textNet).run .initial).1 := by
  decide +kernel

end SceneStream.Primitive
