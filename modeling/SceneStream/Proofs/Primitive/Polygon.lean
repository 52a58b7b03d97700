import SceneStream.Primitive.Polygon
import SceneStream.Proofs.Geometry.Triangulation
import SceneStream.Proofs.Primitive.Carry

/-! Faces of polygons and meshes. The corners of a face are among those of the whole, so what belongs to
it is there. Two declarations of normals are out of the ordinary: a single one is not spread over the
corners, and one that is a text cannot be read. -/
namespace SceneStream.Primitive
open SceneStream.Work SceneStream.Args SceneStream.Geometry
open SceneStream.Variables (Bound Fit)

def loneNormal (vars : Variables) : Bool :=
  (ofWidth? vars "N" 3).any fun v => v.storage.isWhole && v.kind != .string

def textNormal (vars : Variables) : Bool :=
  (ofWidth? vars "N" 3).isNone && (ofWidth? vars "Np" 3).any fun v => v.kind == .string

theorem triangulationFaultKind (f : TriangulationFault) : ¬ f.kind.Unexpected := by
  cases f <;> nofun

namespace Face

structure Of (counts : ValueCounts) (f : Face) : Prop where
  loops : f.loops.sum = f.corners.length
  inside : f.selection.Inside counts

theorem elementsPart (f : Face) {c : StorageClass} (part : c.isWhole = false) :
    f.selection.elements c = f.corners.length := by
  cases c with
  | constant | uniform => cases part
  | varying | vertex | faceVarying | faceVertex => rfl

theorem elementsWhole (f : Face) {c : StorageClass} (whole : c.isWhole = true) :
    f.selection.elements c = 1 := by
  cases c with
  | constant | uniform => rfl
  | varying | vertex | faceVarying | faceVertex => cases whole

theorem selectedNumbers {counts : ValueCounts} {f : Face} {v : Variable} (of : f.Of counts)
    (fits : v.Fits (counts.get v.storage)) (numbers : v.kind ≠ .string) :
    (v.select f.selection).doubles.length =
      (if v.storage.isWhole then 1 else f.corners.length) * v.width := by
  have selected := Variable.fitsNumbers (Variable.selectFits fits of.inside) numbers
  rw [selected]
  cases whole : v.storage.isWhole with
  | true =>
    rw [elementsWhole f whole]
    rfl
  | false =>
    rw [elementsPart f whole]
    rfl

theorem givenNormals {counts : ValueCounts} {f : Face} {v : Variable} (of : f.Of counts)
    (fits : v.Fits (counts.get v.storage)) (width : v.width = 3) :
    (triples (v.select f.selection).doubles).length =
      if v.kind = .string then 0 else if v.storage.isWhole then 1 else f.corners.length := by
  rw [triplesLength]
  split
  · rename_i text
    have selected := Variable.selectFits fits of.inside
    rw [Variable.fitsText selected text]
    rfl
  · rename_i numbers
    rw [selectedNumbers of fits numbers, width, Nat.mul_div_cancel _ (by decide)]

theorem faceNormalItem {counts : ValueCounts} {f : Face} {v : Variable} (of : f.Of counts)
    (cornered : 0 < f.corners.length) (fits : v.Fits (counts.get v.storage)) (width : v.width = 3)
    {i : Nat} (below : i < 3) :
    Outcome.Ends (fun p => p.isCrash = true ∧ (v.kind == .string) = true) (fun _ => True)
      (Part.item (v.select f.selection).doubles.toArray i) := by
  by_cases text : v.kind = .string
  · cases read : Part.item (v.select f.selection).doubles.toArray i with
    | ok x => exact trivial
    | error p => exact ⟨Part.itemCrash read, by simp [text]⟩
  · have length := selectedNumbers of fits text
    rw [width] at length
    have inside : i < (v.select f.selection).doubles.toArray.size := by
      rw [List.size_toArray, length]
      split <;> omega
    rw [Part.itemInside inside]
    exact trivial

theorem normalsEnds {counts : ValueCounts} {vars : Variables} {f : Face} {points : List (Vec Float)}
    (fit : Fit counts vars) (of : f.Of counts) (cornered : 0 < f.corners.length)
    (sized : points.length = f.corners.length) :
    Outcome.Ends (fun p => p.isCrash = true ∧ textNormal vars = true)
      (fun l => if loneNormal vars then l.length = 1 else l = [] ∨ l.length = f.corners.length)
      (f.normals (vars.select f.selection) points) := by
  unfold normals loneNormal textNormal
  rw [ofWidthSelect, ofWidthSelect]
  cases given : ofWidth? vars "N" 3 with
  | some v =>
    obtain ⟨mem, width⟩ := ofWidthOk given
    have length := givenNormals of (fit _ mem) width
    show if _ then _ else _
    by_cases text : v.kind = .string
    · rw [if_pos text] at length
      simp [text, List.eq_nil_of_length_eq_zero length]
    · cases whole : v.storage.isWhole <;> simp [text, whole, length]
  | none =>
    cases face : ofWidth? vars "Np" 3 with
    | some v =>
      obtain ⟨mem, width⟩ := ofWidthOk face
      have item {i : Nat} (below : i < 3) := faceNormalItem of cornered (fit _ mem) width below
      refine Outcome.endsBind (item (by decide)) fun x _ => ?_
      refine Outcome.endsBind (item (by decide)) fun y _ => ?_
      refine Outcome.endsBind (item (by decide)) fun z _ => ?_
      exact .inr List.length_replicate
    | none =>
      -- There are as many points as corners, or the face would not have been triangulated.
      have enough : min (f.loops.headD f.corners.length) f.corners.length ≤ points.length := by
        rw [sized]
        exact Nat.min_le_right ..
      show Outcome.Ends _ _ (Part.leading _ points >>= _)
      rw [Part.leadingInside enough]
      exact .inr List.length_replicate

theorem surfaceEnds (kind : RequestKind) (tolerance : Float) {counts : ValueCounts}
    {vars : Variables} {f : Face} (fit : Fit counts vars) (of : f.Of counts) :
    Outcome.Ends (fun p => p.Expected ∨ p.isCrash = true ∧ textNormal vars = true)
      (Emits vars (loneNormal vars)) (f.surface kind vars tolerance) := by
  refine Outcome.endsBind (Outcome.endsMono (safePositions kind _) (fun _ => .inl) fun _ => id) ?_
  intro points _
  refine Outcome.endsBind (P := Triangulated points f.loops) (Outcome.endsMapError
    (fun e => .inl (rejectExpected (triangulationFaultKind e) _ _)) fun ts => triangulateOk) ?_
  intro ts ⟨sizes, enough, inside⟩
  have sized : points.length = f.corners.length := by rw [← sizes, of.loops]
  refine Outcome.endsBind (Outcome.endsMono (normalsEnds fit of (by omega) sized)
    (fun _ => .inr) fun _ => id) fun normals count => ?_
  refine Outcome.endsMono (carryEnds rfl (selectWholes fit of.inside.uniform) ?_) (fun _ => id)
    fun t carries => ?_
  · intro y mem ⟨part, numbers⟩
    obtain ⟨v, bound, same⟩ := Variables.selectFrom mem
    rw [same] at part numbers ⊢
    have length := selectedNumbers of (fit _ bound) numbers
    rw [show v.storage.isWhole = false from part] at length
    have positions : (points.map Surface.stored).length = f.corners.length := by simp [sized]
    exact length.trans (congrArg (· * v.width) positions.symm)
  · refine emitsSelected (emitsCarried carries ⟨fun i mem => ?_, ?_, nofun⟩ ?_)
    · exact (List.length_map ..).symm ▸ inside i mem
    · exact Geometry.triplesLength ts
    · simp only [Surface.ofTriangles, Surface.Normal, List.length_map, sized]
      split at count
      · rename_i lone
        rw [if_pos lone]
        omega
      · rename_i each
        rw [if_neg each]
        exact count

structure Cut (index offset faces : Nat) (verts : List Nat) (f : Face) : Prop where
  loops : f.loops.sum = f.corners.length
  index : f.index < index + faces
  corners : f.corners ⊆ verts
  offset : f.offset + f.corners.length ≤ offset + verts.length

theorem sumParts (n : Nat) (l : List Nat) : (l.take n).sum + (l.drop n).sum = l.sum := by
  rw [← List.sum_append, List.take_append_drop]

theorem splitEnds {index offset : Nat} {loops sizes verts : List Nat}
    (loopSum : loops.sum = sizes.length) (sizeSum : sizes.sum = verts.length) :
    Outcome.Ends (fun _ => False) (fun fs => ∀ f ∈ fs, Cut index offset loops.length verts f)
      (split index offset loops sizes verts) := by
  induction loops generalizing index offset sizes verts with
  | nil => exact nofun
  | cons n loops ih =>
    rw [List.sum_cons] at loopSum
    have own := sumParts n sizes
    have corners : (verts.take (sizes.take n).sum).length = (sizes.take n).sum := by
      rw [List.length_take]
      omega
    unfold split
    rw [Part.leadingInside (by omega : n ≤ sizes.length)]
    refine Outcome.endsBind (P := (· = sizes.take n)) rfl ?_
    rintro _ rfl
    rw [Part.leadingInside (by omega : (sizes.take n).sum ≤ verts.length)]
    refine Outcome.endsBind (P := (· = verts.take (sizes.take n).sum)) rfl ?_
    rintro _ rfl
    have rest : Outcome.Ends (fun _ => False) (fun fs => ∀ f ∈ fs, Cut (index + 1)
          (offset + (sizes.take n).sum) loops.length (verts.drop (sizes.take n).sum) f)
        (split (index + 1) (offset + (sizes.take n).sum) loops (sizes.drop n)
          (verts.drop (sizes.take n).sum)) :=
      ih (by rw [List.length_drop]; omega) (by rw [List.length_drop]; omega)
    refine Outcome.endsBind rest fun fs cuts f mem => ?_
    rcases List.mem_cons.mp mem with rfl | later
    · refine ⟨corners.symm, ?_, List.take_subset .., ?_⟩
      · simp only [List.length_cons]
        omega
      · simp only [corners]
        omega
    · obtain ⟨loops, number, inside, place⟩ := cuts f later
      rw [List.length_drop] at place
      refine ⟨loops, ?_, fun v mem => List.drop_subset _ _ (inside mem), by omega⟩
      rw [List.length_cons]
      omega

theorem indexedBound {i : Nat} {verts : List Nat} (mem : i ∈ verts) :
    i < ValueCounts.indexed verts := by
  have grows (l : List Nat) (n : Nat) : n ≤ l.foldl (fun n v => max n (v + 1)) n ∧
      ∀ i ∈ l, i < l.foldl (fun n v => max n (v + 1)) n := by
    induction l generalizing n with
    | nil => exact ⟨Nat.le_refl n, nofun⟩
    | cons v l ih =>
      obtain ⟨start, all⟩ := ih (max n (v + 1))
      refine ⟨Nat.le_trans (Nat.le_max_left ..) start, fun i mem => ?_⟩
      rcases List.mem_cons.mp mem with rfl | later
      · exact Nat.le_trans (Nat.le_max_right n (i + 1)) start
      · exact all i later
  exact (grows verts 0).2 i mem

theorem cutOf {faces : Nat} {sizes verts : List Nat} {f : Face} (cut : Cut 0 0 faces verts f)
    (sizeSum : sizes.sum = verts.length) : f.Of (.faces faces sizes verts) := by
  obtain ⟨loops, index, corners, offset⟩ := cut
  rw [Nat.zero_add] at index offset
  have place : f.offset + f.corners.length ≤ sizes.sum := sizeSum ▸ offset
  exact ⟨loops, index, fun i mem => indexedBound (corners mem),
    fun i mem => indexedBound (corners mem), place, place⟩

theorem loneOf {n : Nat} {sizes : List Nat} (sum : sizes.sum = n) :
    Of (.single n) ⟨0, sizes, List.range n, 0⟩ := by
  have corner (i : Nat) (mem : i ∈ List.range n) : i < n := List.mem_range.mp mem
  have all : 0 + (List.range n).length ≤ n := by simp
  exact ⟨by simp [sum], Nat.one_pos, corner, corner, all, all⟩

end Face

theorem facesEnds (kind : RequestKind) (tolerance : Float) {counts : ValueCounts}
    {vars : Variables} {l : List Face} (fit : Fit counts vars) (of : ∀ f ∈ l, f.Of counts) :
    Outcome.Ends (fun p => p.Expected ∨ p.isCrash = true ∧ textNormal vars = true)
      (fun o => ∀ l, o = .surfaces l → ∀ t ∈ l, Emits vars (loneNormal vars) t)
      (faces kind vars tolerance l) := by
  refine Outcome.endsMap
    (Outcome.endsMapM fun f mem => Face.surfaceEnds kind tolerance fit (of f mem)) ?_
  intro l each _ same
  cases same
  exact each

theorem meshEnds (kind : RequestKind) (tolerance : Float) {vars : Variables}
    {loops sizes verts : List Nat} (fit : Fit (.faces loops.length sizes verts) vars)
    (loopSum : loops.sum = sizes.length) (sizeSum : sizes.sum = verts.length) :
    Outcome.Ends (fun p => p.Expected ∨ p.isCrash = true ∧ textNormal vars = true)
      (fun o => ∀ l, o = .surfaces l → ∀ t ∈ l, Emits vars (loneNormal vars) t)
      (do faces kind vars tolerance (← Face.split 0 0 loops sizes verts)) := by
  refine Outcome.endsBind
    (Outcome.endsMono (Face.splitEnds loopSum sizeSum) (fun _ => False.elim) fun _ => id) ?_
  exact fun fs cuts => facesEnds kind tolerance fit fun f mem => Face.cutOf (cuts f mem) sizeSum

theorem simpleFacesEnds (kind : RequestKind) (tolerance : Float) {vars : Variables}
    {sizes verts : List Nat} (fit : Fit (.pointsPolygons sizes verts) vars) :
    Outcome.Ends (fun p => p.Expected ∨ p.isCrash = true ∧ textNormal vars = true)
      (fun o => ∀ l, o = .surfaces l → ∀ t ∈ l, Emits vars (loneNormal vars) t)
      (simpleFaces kind vars tolerance sizes verts) := by
  have lone : (sizes.map fun _ => 1).length = sizes.length := List.length_map ..
  unfold simpleFaces simpleSplit
  split
  · exact .inl nofun
  · rename_i sizeSum
    refine meshEnds kind tolerance ?_ ?_ (Decidable.not_not.mp sizeSum)
    · rw [lone]
      exact fit
    · simp [List.map_const']

abbrev PolygonEnds (m : Declaring Outcome) (d : Dictionary) : Prop :=
  Declaring.Ends (Fails fun _ vars => textNormal vars = true) (Gives loneNormal) m d

theorem polygonEnds (s : Setting) (r : Request) (d : Dictionary) : PolygonEnds (polygon s r) d := by
  refine readBind safeTokenList fun list => ?_
  refine Declaring.endsBind (Declaring.endsMono (pointCountEnds list d) (fun _ _ => .inl)
    fun _ _ => id) fun n e _ _ _ => ?_
  refine boundBind fun e vars bound => boundLift bound ?_
  refine facesEnds r.kind s.tolerance (Variables.boundFit bound) fun f mem => ?_
  cases List.mem_singleton.mp mem
  exact Face.loneOf (by simp)

theorem generalPolygonEnds (s : Setting) (r : Request) (d : Dictionary) :
    PolygonEnds (generalPolygon s r) d := by
  refine readBind ?_ fun x => ?_
  · exact safeBind safeCountArray fun _ => safeBind safeTokenList fun _ => safePure _
  · refine boundBind fun e vars bound => boundLift bound ?_
    refine facesEnds r.kind s.tolerance (Variables.boundFit bound) fun f mem => ?_
    cases List.mem_singleton.mp mem
    exact Face.loneOf rfl

theorem safeFacesArgs : Safe facesArgs :=
  safeBind safeCountArray fun _ => safeBind safeCountArray fun _ =>
    safeBind safeTokenList fun _ => safePure _

theorem pointsPolygonsEnds (s : Setting) (r : Request) (d : Dictionary) :
    PolygonEnds (pointsPolygons s r) d := by
  refine readBind safeFacesArgs fun x => boundBind fun e vars bound => boundLift bound ?_
  exact simpleFacesEnds r.kind s.tolerance (Variables.boundFit bound)

theorem safeLoopedArgs : Safe loopedArgs :=
  safeBind safeCountArray fun _ => safeBind safeFacesArgs fun _ => safePure _

theorem loopsFitEnds (kind : RequestKind) (loops sizes verts : List Nat) :
    Outcome.Yields (fun _ => loops.sum = sizes.length ∧ sizes.sum = verts.length)
      (loopsFit kind loops sizes verts) := by
  unfold loopsFit
  dsimp only
  split
  · exact nofun
  · rename_i loopSum
    split
    · exact nofun
    · rename_i sizeSum
      exact ⟨Decidable.not_not.mp loopSum, Decidable.not_not.mp sizeSum⟩

theorem pointsGeneralPolygonsEnds (s : Setting) (r : Request) (d : Dictionary) :
    PolygonEnds (pointsGeneralPolygons s r) d := by
  refine readBind safeLoopedArgs fun x => ?_
  obtain ⟨loops, sizes, verts, list⟩ := x
  refine Declaring.endsLiftBind (Outcome.endsMono (loopsFitEnds r.kind loops sizes verts)
    (fun _ => .inl) fun _ => id) fun _ _ ⟨loopSum, sizeSum⟩ => ?_
  refine boundBind fun e vars bound => boundLift bound ?_
  exact meshEnds r.kind s.tolerance (Variables.boundFit bound) loopSum sizeSum

theorem safeTags : Safe tags := by
  refine safeBind safeGet fun a => ?_
  dsimp only
  split
  · refine safeBind safeStringArray fun tags => safeBind safeCountArray fun counts => ?_
    refine safeBind safeIntArray fun ints => safeBind safeFloatArray fun floats => ?_
    split
    · exact yieldsThrowBind (by nofun) _
    · split
      · exact safeThrow (by nofun)
      · exact safePure _
  · exact safePure _

theorem safeSubdivisionArgs : Safe subdivisionArgs :=
  safeBind safeString fun _ => safeBind safeCountArray fun _ => safeBind safeCountArray fun _ =>
    safeBind safeTags fun _ => safeBind safeTokenList fun _ => safePure _

theorem subdivisionMeshEnds (s : Setting) (r : Request) (d : Dictionary) :
    PolygonEnds (subdivisionMesh s r) d := by
  refine readBind safeSubdivisionArgs fun x => boundBind fun e vars bound => boundLift bound ?_
  exact simpleFacesEnds r.kind s.tolerance (Variables.boundFit bound)

end SceneStream.Primitive
