import SceneStream.Proofs.Primitive.Nurbs
import SceneStream.Proofs.Primitive.Patch
import SceneStream.Proofs.Primitive.Polygon
import SceneStream.Proofs.Variable.Element
import SceneStream.Primitive

/-! Primitives that are cut into pieces. What a piece selects of the variables is there, in the amount its
shape asks for; the pieces of a mesh use up all that is counted for faces, those of a rational patch do
not share any of it. -/
namespace SceneStream

/-! Ranges, each by its start and its length. -/

/-- One after the other, without a gap. -/
inductive Tiles : Nat → List (Nat × Nat) → Nat → Prop where
  | nil (start : Nat) : Tiles start [] start
  | cons {start n stop : Nat} {rest : List (Nat × Nat)} (tail : Tiles (start + n) rest stop) :
      Tiles start ((start, n) :: rest) stop

theorem tilesAppend {a b c : Nat} {first second : List (Nat × Nat)} (left : Tiles a first b)
    (right : Tiles b second c) : Tiles a (first ++ second) c := by
  induction left with
  | nil => exact right
  | cons tail ih => exact .cons (ih right)

theorem tilesBlocks (n each : Nat) :
    Tiles 0 ((List.range n).map fun i => (i * each, each)) (n * each) := by
  induction n with
  | zero =>
    rw [Nat.zero_mul]
    exact .nil 0
  | succ n ih =>
    rw [List.range_succ, List.map_append, Nat.succ_mul]
    exact tilesAppend ih (.cons (.nil _))

/-- None begins before the end of those ahead of it. -/
def Ordered (l : List (Nat × Nat)) : Prop := l.Pairwise fun x y => x.1 + x.2 ≤ y.1

theorem orderedBlocks {l : List Nat} (rising : l.Pairwise (· < ·)) (each : Nat) :
    Ordered (l.map fun i => (i * each, each)) := by
  refine List.pairwise_map.mpr (rising.imp fun {i j} below => ?_)
  rw [← Nat.succ_mul]
  exact Nat.mul_le_mul_right each below

theorem rangeRows (rows columns : Nat) :
    ((List.range rows).flatMap fun j => (List.range columns).map fun i => j * columns + i) =
      List.range (columns * rows) := by
  induction rows with
  | zero => simp
  | succ rows ih =>
    rw [List.range_succ, List.flatMap_append, ih, Nat.mul_succ, List.range_add]
    simp [Nat.mul_comm]

namespace Primitive
open SceneStream.Geometry

/-- A surface to be: what it selects of the variables, and how it is made of that. -/
structure Piece where
  selection : FaceSelection
  make : Variables → Except Problem Surface

inductive Cutting where
  | faces (sizes verts : List Nat)
  | patches (order : Nat)
  | segments (across up : Nat)

structure Plan where
  counts : ValueCounts
  list : List TokenValue
  cutting : Cutting
  pieces : Variables → Except Problem (List Piece)

def Plan.tessellate (p : Plan) : Declaring Outcome := do
  let vars ← Variables.bind p.counts p.list
  Declaring.lift do
    let pieces ← p.pieces vars
    .surfaces <$> pieces.mapM fun x => x.make (vars.select x.selection)

inductive Cuttable where
  | pointsPolygons | pointsGeneralPolygons | subdivisionMesh | patchMesh | nuPatch
  deriving DecidableEq, Repr

namespace Cuttable

def kind : Cuttable → RequestKind
  | pointsPolygons => .pointsPolygons
  | pointsGeneralPolygons => .pointsGeneralPolygons
  | subdivisionMesh => .subdivisionMesh
  | patchMesh => .patchMesh
  | nuPatch => .nuPatch

end Cuttable

def facePiece (s : Setting) (r : Request) (f : Face) : Piece :=
  ⟨f.selection, f.make r.kind s.tolerance⟩

def simplePlan (s : Setting) (r : Request) (x : List Nat × List Nat × List TokenValue) : Plan :=
  ⟨.pointsPolygons x.1 x.2.1, x.2.2, .faces x.1 x.2.1, fun _ =>
    (simpleSplit r.kind x.1 x.2.1).map (List.map (facePiece s r))⟩

def faceSizes : List Nat → List Nat → List Nat
  | [], _ => []
  | n :: loops, sizes => (sizes.take n).sum :: faceSizes loops (sizes.drop n)

def loopedPlan (s : Setting) (r : Request) (loops sizes verts : List Nat) (list : List TokenValue) :
    Plan :=
  ⟨.pointsGeneralPolygons loops sizes verts, list, .faces (faceSizes loops sizes) verts, fun _ =>
    (Face.split 0 0 loops sizes verts).map (List.map (facePiece s r))⟩

def patchPiece (s : Setting) (r : Request) (m : Mesh) (c : Mesh.Cut) (points : List (Vec Float))
    (place : Nat × Nat) : Piece :=
  ⟨m.selectionAt c place, m.make r.kind s points.toArray place⟩

def meshPlan (s : Setting) (r : Request) (m : Mesh) (list : List TokenValue) (c : Mesh.Cut) : Plan :=
  ⟨c.counts, list, .patches m.shape.order, fun vars =>
    (positions r.kind vars).map fun points => c.places.map (patchPiece s r m c points)⟩

def segmentPiece (s : Setting) (r : Request) (p : NuPatch Float) (seg : Segment Float) : Piece :=
  ⟨segmentSelection p seg, segmentMake r.kind s p seg⟩

def rationalPlan (s : Setting) (r : Request) (u v : NurbsAxis Float) (list : List TokenValue) : Plan :=
  ⟨.nuPatch u.count u.order u.knots v.count v.order v.knots, list, .segments u.order v.order,
    fun vars => (homogeneous r.kind vars >>= rational r.kind u v).map fun p =>
      p.segments.map (segmentPiece s r p)⟩

/-- What a request asks for, before its variables are bound. -/
def Cuttable.plan (s : Setting) (r : Request) : Cuttable → Except Problem Plan
  | .pointsPolygons => (Args.read r facesArgs).map (simplePlan s r)
  | .subdivisionMesh => (Args.read r subdivisionArgs).map (simplePlan s r)
  | .pointsGeneralPolygons => do
    let (loops, sizes, verts, list) ← Args.read r loopedArgs
    loopsFit r.kind loops sizes verts
    return loopedPlan s r loops sizes verts list
  | .patchMesh => do
    let (m, list) ← Args.read r (mesh s)
    return meshPlan s r m list (← m.cut r.kind)
  | .nuPatch => (Args.read r nuPatchArgs).map fun (u, v, list) => rationalPlan s r u v list

/-! What the pieces of each primitive select. -/

/-- Everything that is counted for faces belongs to one piece each, in order. -/
structure Tiled (counts : ValueCounts) (l : List FaceSelection) : Prop where
  uniform : l.map FaceSelection.uniform = List.range counts.uniform
  faceVarying : Tiles 0 (l.map FaceSelection.faceVarying) counts.faceVarying
  faceVertex : Tiles 0 (l.map FaceSelection.faceVertex) counts.faceVertex

/-- Nothing that is counted for faces belongs to two pieces. -/
structure Apart (l : List FaceSelection) : Prop where
  uniform : (l.map FaceSelection.uniform).Pairwise (· < ·)
  faceVarying : Ordered (l.map FaceSelection.faceVarying)
  faceVertex : Ordered (l.map FaceSelection.faceVertex)

/-- Four corners over a net of control points. -/
structure Netted (controls : Nat) (s : FaceSelection) : Prop where
  varying : s.varying.length = 4
  vertex : s.vertex.length = controls
  faceVarying : s.faceVarying.2 = 4
  faceVertex : s.faceVertex.2 = controls

/-- The same corners in each storage class. -/
structure Cornered (s : FaceSelection) : Prop where
  vertex : s.vertex = s.varying
  faceVarying : s.faceVarying.2 = s.varying.length
  faceVertex : s.faceVertex = s.faceVarying

def Cutting.Covers (counts : ValueCounts) (l : List FaceSelection) : Cutting → Prop
  | .faces sizes verts => l.map (·.varying.length) = sizes ∧ l.flatMap FaceSelection.varying = verts ∧
      (∀ s ∈ l, Cornered s) ∧ Tiled counts l
  | .patches order => (∀ s ∈ l, Netted (order * order) s) ∧ Tiled counts l
  | .segments across up => (∀ s ∈ l, Netted (across * up) s) ∧ Apart l

/-! A primitive is its plan. -/

theorem piecesMade {α β : Type} (x : Except Problem α) (list : α → List β) (piece : α → β → Piece)
    (vars : Variables) :
    (x >>= fun a => Outcome.surfaces <$> (list a).mapM fun b =>
      (piece a b).make (vars.select (piece a b).selection)) =
    (x.map fun a => (list a).map (piece a)) >>= fun pieces =>
      Outcome.surfaces <$> pieces.mapM fun y => y.make (vars.select y.selection) := by
  cases x with
  | error p => rfl
  | ok a =>
    show Except.map _ _ = Except.map _ (((list a).map (piece a)).mapM _)
    rw [List.mapM_map]
    rfl

theorem boundPlanned {counts : ValueCounts} {list : List TokenValue}
    {f g : Variables → Except Problem Outcome} (same : ∀ vars, f vars = g vars) :
    (do Declaring.lift (f (← Variables.bind counts list))) =
      (do Declaring.lift (g (← Variables.bind counts list))) := by
  rw [funext same]

theorem simplePlanned (s : Setting) (r : Request)
    (read : Except Problem (List Nat × List Nat × List TokenValue)) :
    (do
      let (sizes, verts, list) ← Declaring.lift read
      let vars ← Variables.bind (.pointsPolygons sizes verts) list
      Declaring.lift (simpleFaces r.kind vars s.tolerance sizes verts)) =
    (do (← Declaring.lift (read.map (simplePlan s r))).tessellate) := by
  cases read with
  | error p => rfl
  | ok x =>
    obtain ⟨sizes, verts, list⟩ := x
    exact boundPlanned fun vars =>
      piecesMade (simpleSplit r.kind sizes verts) id (fun _ => facePiece s r) vars

theorem liftBind {α β γ : Type} (x : Except Problem α) (f : α → Except Problem β)
    (g : β → Declaring γ) :
    Declaring.lift (x >>= f) >>= g = Declaring.lift x >>= fun a => Declaring.lift (f a) >>= g := by
  cases x <;> rfl

theorem loopedPlanned (s : Setting) (r : Request) :
    pointsGeneralPolygons s r =
      (do (← Declaring.lift (Cuttable.pointsGeneralPolygons.plan s r)).tessellate) := by
  unfold pointsGeneralPolygons Cuttable.plan
  rw [liftBind]
  refine bind_congr fun ⟨loops, sizes, verts, list⟩ => ?_
  rw [liftBind]
  refine bind_congr fun _ => ?_
  exact boundPlanned fun vars =>
    piecesMade (Face.split 0 0 loops sizes verts) id (fun _ => facePiece s r) vars

theorem meshPlanned (s : Setting) (r : Request) :
    patchMesh s r = (do (← Declaring.lift (Cuttable.patchMesh.plan s r)).tessellate) := by
  unfold patchMesh Cuttable.plan
  rw [liftBind]
  refine bind_congr fun ⟨m, list⟩ => ?_
  rw [liftBind]
  refine bind_congr fun c => ?_
  exact boundPlanned fun vars =>
    piecesMade (positions r.kind vars) (fun _ => c.places) (patchPiece s r m c) vars

theorem rationalPlanned (s : Setting) (r : Request) :
    nuPatch s r = (do (← Declaring.lift (Cuttable.nuPatch.plan s r)).tessellate) := by
  unfold nuPatch Cuttable.plan
  cases Args.read r nuPatchArgs with
  | error p => rfl
  | ok x =>
    obtain ⟨u, v, list⟩ := x
    refine boundPlanned fun vars => ?_
    exact (bind_assoc ..).symm.trans (piecesMade (homogeneous r.kind vars >>= rational r.kind u v)
      NuPatch.segments (segmentPiece s r) vars)

theorem tessellatePlanned (k : Cuttable) {s : Setting} {r : Request} (of : r.kind = k.kind) :
    tessellate s r = (do (← Declaring.lift (k.plan s r)).tessellate) := by
  unfold tessellate
  rw [of]
  cases k with
  | pointsPolygons => exact simplePlanned s r (Args.read r facesArgs)
  | pointsGeneralPolygons => exact loopedPlanned s r
  | subdivisionMesh => exact simplePlanned s r (Args.read r subdivisionArgs)
  | patchMesh => exact meshPlanned s r
  | nuPatch => exact rationalPlanned s r

/-! Faces. -/

theorem leadingTakes {α : Type} {n : Nat} {l own : List α} (taken : Part.leading n l = .ok own) :
    own = l.take n ∧ n ≤ l.length := by
  unfold Part.leading at taken
  split at taken
  · rename_i enough
    exact ⟨(Except.ok.inj taken).symm, enough⟩
  · cases taken

theorem splitCovers {index offset : Nat} {loops sizes verts : List Nat} {fs : List Face}
    (split : Face.split index offset loops sizes verts = .ok fs) :
    fs.map Face.index = List.range' index loops.length ∧
    fs.map (·.corners.length) = faceSizes loops sizes ∧
    (∃ rest, verts = fs.flatMap Face.corners ++ rest) ∧
    Tiles offset (fs.map fun f => (f.offset, f.corners.length)) (offset + (faceSizes loops sizes).sum) := by
  induction loops generalizing index offset sizes verts fs with
  | nil =>
    cases split
    exact ⟨rfl, rfl, ⟨verts, rfl⟩, .nil offset⟩
  | cons n loops ih =>
    unfold Face.split at split
    obtain ⟨own, first, split⟩ := Outcome.okBind split
    obtain ⟨corners, second, split⟩ := Outcome.okBind split
    obtain ⟨rest, others, split⟩ := Outcome.okBind split
    cases split
    obtain ⟨rfl, -⟩ := leadingTakes first
    obtain ⟨rfl, enough⟩ := leadingTakes second
    have length : (verts.take (sizes.take n).sum).length = (sizes.take n).sum := by
      rw [List.length_take]
      omega
    obtain ⟨indices, counts, ⟨left, all⟩, tiles⟩ := ih others
    refine ⟨?_, ?_, ⟨left, ?_⟩, ?_⟩
    · rw [List.map_cons, indices, List.length_cons, List.range'_succ]
    · rw [List.map_cons, counts, length]
      rfl
    · rw [List.flatMap_cons, List.append_assoc, ← all, List.take_append_drop]
    · rw [List.map_cons, faceSizes, List.sum_cons, ← Nat.add_assoc, length]
      exact .cons tiles

theorem sizesSum {loops sizes : List Nat} (sum : loops.sum = sizes.length) :
    (faceSizes loops sizes).sum = sizes.sum := by
  induction loops generalizing sizes with
  | nil => simp [faceSizes, List.eq_nil_of_length_eq_zero sum.symm]
  | cons n loops ih =>
    rw [List.sum_cons] at sum
    rw [faceSizes, List.sum_cons, ih (by rw [List.length_drop]; omega)]
    exact Face.sumParts n sizes

theorem loneSizes (sizes : List Nat) : faceSizes (sizes.map fun _ => 1) sizes = sizes := by
  induction sizes with
  | nil => rfl
  | cons n sizes ih => simpa [faceSizes] using ih

theorem facesCover {loops sizes verts : List Nat} {fs : List Face}
    (split : Face.split 0 0 loops sizes verts = .ok fs) (loopSum : loops.sum = sizes.length)
    (sizeSum : sizes.sum = verts.length) :
    (∀ f ∈ fs, f.selection.Inside (.faces loops.length sizes verts)) ∧
    (Cutting.faces (faceSizes loops sizes) verts).Covers (.faces loops.length sizes verts)
      (fs.map Face.selection) := by
  obtain ⟨indices, counts, ⟨rest, all⟩, tiles⟩ := splitCovers split
  have cuts : Outcome.Ends _ _ (Face.split 0 0 loops sizes verts) :=
    Face.splitEnds loopSum sizeSum
  rw [split] at cuts
  have none : rest = [] := by
    have lengths := congrArg List.length all
    have sum := sizesSum loopSum
    rw [List.length_append, List.length_flatMap, counts] at lengths
    exact List.eq_nil_of_length_eq_zero (by omega)
  refine ⟨fun f mem => (Face.cutOf (cuts f mem) sizeSum).inside, ?_, ?_, ?_, ?_, ?_, ?_⟩
  · rw [List.map_map]
    exact counts
  · rw [all, none, List.append_nil, List.flatMap_map]
    rfl
  · intro _ mem
    obtain ⟨f, -, rfl⟩ := List.mem_map.mp mem
    exact ⟨rfl, rfl, rfl⟩
  · rw [List.map_map, List.range_eq_range']
    exact indices
  · rw [sizesSum loopSum, Nat.zero_add] at tiles
    rw [List.map_map]
    exact tiles
  · rw [sizesSum loopSum, Nat.zero_add] at tiles
    rw [List.map_map]
    exact tiles

/-! Meshes of patches. -/

theorem placesRange (c : Mesh.Cut) :
    c.places.map (fun place => place.2 * c.patches.1 + place.1) =
      List.range (c.patches.1 * c.patches.2) := by
  rw [← rangeRows]
  simp [Mesh.Cut.places, List.map_flatMap, Function.comp_def]

theorem endsPositive {wrap : Wrap} {pieces : Nat} (some : 0 < pieces) : 0 < wrap.ends pieces := by
  cases wrap <;> simp [Wrap.ends, some]

theorem meshCorners {across up : Nat} (wide : 0 < across) (high : 0 < up) (i j : Nat) :
    ∀ k ∈ Mesh.corners across up i j, k < across * up := by
  intro k mem
  obtain ⟨place, -, rfl⟩ := List.mem_map.mp mem
  exact Grid.inColumn wide (Nat.mod_lt _ high)

theorem meshInside {m : Mesh} {c : Mesh.Cut} (cuts : m.Cuts c) {place : Nat × Nat}
    (mem : place ∈ c.places) : (m.selectionAt c place).Inside c.counts := by
  obtain ⟨column, row⟩ := placesInside mem
  have own : place.2 * c.patches.1 + place.1 < c.patches.1 * c.patches.2 := inRow row column
  have rows (n : Nat) : (place.2 * c.patches.1 + place.1) * n + n ≤ c.patches.1 * c.patches.2 * n := by
    rw [← Nat.succ_mul]
    exact Nat.mul_le_mul_right n own
  have wide : 0 < c.ends.1 := by
    rw [cuts.ends]
    exact endsPositive (Nat.zero_lt_of_lt column)
  have high : 0 < c.ends.2 := by
    rw [cuts.ends]
    exact endsPositive (Nat.zero_lt_of_lt row)
  obtain ⟨uPoints, vPoints⟩ := cuts.points
  rw [cuts.counts]
  exact ⟨own, meshCorners wide high _ _, Mesh.controlInside (by omega) (by omega) _ _, rows 4,
    rows (m.shape.order * m.shape.order)⟩

theorem meshCover {m : Mesh} {c : Mesh.Cut} (cuts : m.Cuts c) :
    (Cutting.patches m.shape.order).Covers c.counts (c.places.map (m.selectionAt c)) := by
  have blocks (each : Nat) : Tiles 0
      (c.places.map fun place => ((place.2 * c.patches.1 + place.1) * each, each))
      (c.patches.1 * c.patches.2 * each) := by
    have all := tilesBlocks (c.patches.1 * c.patches.2) each
    rw [← placesRange, List.map_map] at all
    exact all
  refine ⟨?_, ?_, ?_, ?_⟩
  · intro _ mem
    obtain ⟨place, -, rfl⟩ := List.mem_map.mp mem
    refine ⟨rfl, ?_, rfl, rfl⟩
    simp [Mesh.selectionAt, Mesh.selection, Mesh.control, List.length_flatMap, List.map_const']
  · rw [List.map_map, cuts.counts]
    exact placesRange c
  · rw [List.map_map, cuts.counts]
    exact blocks 4
  · rw [List.map_map, cuts.counts]
    exact blocks (m.shape.order * m.shape.order)

/-! Segments. -/

theorem segmentsCover {p : NuPatch Float} (fits : p.Fits) :
    (Cutting.segments p.u.order p.v.order).Covers (patchCounts p)
      (p.segments.map (segmentSelection p)) := by
  have rising := NuPatch.segmentsRise fits
  have blocks (each : Nat) : Ordered (p.segments.map fun x => (x.index * each, each)) := by
    have all := orderedBlocks rising each
    rw [List.map_map] at all
    exact all
  refine ⟨?_, ?_, ?_, ?_⟩
  · intro _ mem
    obtain ⟨seg, -, rfl⟩ := List.mem_map.mp mem
    exact ⟨rfl, NuPatch.blockLength p seg, rfl, rfl⟩
  · rw [List.map_map]
    exact rising
  · rw [List.map_map]
    exact blocks 4
  · rw [List.map_map]
    exact blocks (p.u.order * p.v.order)

/-! Counts and selections. -/

structure Plan.Pieces (p : Plan) (pieces : List Piece) : Prop where
  inside : ∀ x ∈ pieces, x.selection.Inside p.counts
  covers : p.cutting.Covers p.counts (pieces.map Piece.selection)

theorem facesPieces {s : Setting} {r : Request} {loops sizes verts : List Nat} {fs : List Face}
    {p : Plan} (counts : p.counts = .faces loops.length sizes verts)
    (cutting : p.cutting = .faces (faceSizes loops sizes) verts)
    (split : Face.split 0 0 loops sizes verts = .ok fs) (loopSum : loops.sum = sizes.length)
    (sizeSum : sizes.sum = verts.length) : p.Pieces (fs.map (facePiece s r)) := by
  obtain ⟨inside, covers⟩ := facesCover split loopSum sizeSum
  refine ⟨?_, ?_⟩
  · intro _ mem
    obtain ⟨f, own, rfl⟩ := List.mem_map.mp mem
    rw [counts]
    exact inside f own
  · rw [counts, cutting, List.map_map]
    exact covers

theorem simplePieces (s : Setting) (r : Request) (x : List Nat × List Nat × List TokenValue)
    {vars : Variables} {pieces : List Piece} (made : (simplePlan s r x).pieces vars = .ok pieces) :
    (simplePlan s r x).Pieces pieces := by
  obtain ⟨sizes, verts, list⟩ := x
  obtain ⟨fs, split, rfl⟩ := Outcome.okMap made
  unfold simpleSplit at split
  split at split
  · cases split
  · rename_i sizeSum
    refine facesPieces ?_ ?_ split (by simp [List.map_const']) (Decidable.not_not.mp sizeSum)
    · rw [List.length_map]
      rfl
    · rw [loneSizes]
      rfl

theorem loopedPieces {s : Setting} {r : Request} {loops sizes verts : List Nat}
    {list : List TokenValue} (fit : loopsFit r.kind loops sizes verts = .ok ()) {vars : Variables}
    {pieces : List Piece} (made : (loopedPlan s r loops sizes verts list).pieces vars = .ok pieces) :
    (loopedPlan s r loops sizes verts list).Pieces pieces := by
  have sums := loopsFitEnds r.kind loops sizes verts
  rw [fit] at sums
  obtain ⟨fs, split, rfl⟩ := Outcome.okMap made
  exact facesPieces rfl rfl split sums.1 sums.2

theorem meshPieces {s : Setting} {r : Request} {m : Mesh} {list : List TokenValue} {c : Mesh.Cut}
    (cuts : m.Cuts c) {vars : Variables} {pieces : List Piece}
    (made : (meshPlan s r m list c).pieces vars = .ok pieces) :
    (meshPlan s r m list c).Pieces pieces := by
  obtain ⟨points, -, rfl⟩ := Outcome.okMap made
  refine ⟨?_, ?_⟩
  · intro _ mem
    obtain ⟨place, own, rfl⟩ := List.mem_map.mp mem
    exact meshInside cuts own
  · rw [List.map_map]
    exact meshCover cuts

theorem rationalPieces {s : Setting} {r : Request} {u v : NurbsAxis Float} {list : List TokenValue}
    {vars : Variables} {pieces : List Piece}
    (made : (rationalPlan s r u v list).pieces vars = .ok pieces) :
    (rationalPlan s r u v list).Pieces pieces := by
  obtain ⟨p, net, rfl⟩ := Outcome.okMap made
  obtain ⟨points, -, valid⟩ := Outcome.okBind net
  have ends := rationalEnds r.kind u v points
  rw [valid] at ends
  obtain ⟨rfl, rfl, fits⟩ := ends
  refine ⟨?_, ?_⟩
  · intro _ mem
    obtain ⟨seg, own, rfl⟩ := List.mem_map.mp mem
    exact selectionInside fits (NuPatch.segmentsHave fits own)
  · rw [List.map_map]
    exact segmentsCover fits

theorem Cuttable.planPieces {k : Cuttable} {s : Setting} {r : Request} {p : Plan}
    (planned : k.plan s r = .ok p) {vars : Variables} {pieces : List Piece}
    (made : p.pieces vars = .ok pieces) : p.Pieces pieces := by
  cases k with
  | pointsPolygons | subdivisionMesh =>
    obtain ⟨x, -, rfl⟩ := Outcome.okMap planned
    exact simplePieces s r x made
  | pointsGeneralPolygons =>
    obtain ⟨⟨loops, sizes, verts, list⟩, -, planned⟩ := Outcome.okBind planned
    obtain ⟨_, fit, planned⟩ := Outcome.okBind planned
    cases planned
    exact loopedPieces fit made
  | patchMesh =>
    obtain ⟨⟨m, list⟩, -, planned⟩ := Outcome.okBind planned
    obtain ⟨c, cut, planned⟩ := Outcome.okBind planned
    cases planned
    have cuts := cutEnds r.kind m
    rw [cut] at cuts
    exact meshPieces cuts made
  | nuPatch =>
    obtain ⟨⟨u, v, list⟩, -, rfl⟩ := Outcome.okMap planned
    exact rationalPieces made

/-- What a selection takes of a bound variable: as many elements as it asks for, each of them one that
the variable has. -/
structure Takes (counts : ValueCounts) (s : FaceSelection) (v : Variable) : Prop where
  bound : v.values.length = counts.get v.storage * v.width
  taken : (v.select s).values.length = s.elements v.storage * v.width
  each : ∀ k < s.elements v.storage, ∃ i < counts.get v.storage,
    s.source? v.storage k = some i ∧ (v.select s).element k = v.element i

theorem insideTakes {counts : ValueCounts} {s : FaceSelection} {v : Variable}
    (fits : v.Fits (counts.get v.storage)) (inside : s.Inside counts) : Takes counts s v := by
  refine ⟨fits.length, (Variable.selectFits fits inside).length, fun k below => ?_⟩
  obtain ⟨i, source⟩ := Option.isSome_iff_exists.mp ((s.sourceBelow v.storage k).mpr below)
  exact ⟨i, s.sourceInside inside source, source, Variable.selectElement fits inside source⟩

/-- A primitive that falls into pieces binds its variables and makes a surface of what each piece
selects of them, by a plan of its own; the counts that the variables are bound with and the selections
agree. -/
theorem selectionsMatchCounts (k : Cuttable) (s : Setting) (r : Request) (of : r.kind = k.kind) :
    (tessellate s r = do (← Declaring.lift (k.plan s r)).tessellate) ∧
    ∀ p, k.plan s r = .ok p → ∀ d vars, ((Variables.bind p.counts p.list).run d).1 = .ok vars →
      ∀ pieces, p.pieces vars = .ok pieces →
        p.Pieces pieces ∧ ∀ x ∈ pieces, ∀ y ∈ vars, Takes p.counts x.selection y.2 := by
  refine ⟨tessellatePlanned k of, fun p planned d vars run pieces made => ?_⟩
  have all := Cuttable.planPieces planned made
  have bound := (Variables.bindEnds p.counts p.list d).outcome
  rw [run] at bound
  have fit := Variables.boundFit bound
  exact ⟨all, fun x own y mem => insideTakes (fit y mem) (all.inside x own)⟩

def halves : Request := ⟨.pointsPolygons, 4, [.of (.integers [3, 3]) true,
  .of (.integers [0, 1, 2, 0, 2, 3]) true, .of (.strings ["vertex integer mark"]) false,
  .of (.integers [10, 20, 30, 40]) true]⟩

theorem halvesMatchCounts : ∃ s p, Cuttable.pointsPolygons.plan s halves = .ok p ∧
    ∃ vars, ((Variables.bind p.counts p.list).run .initial).1 = .ok vars ∧
    ∃ pieces, p.pieces vars = .ok pieces ∧
      pieces.map Piece.selection = [⟨0, [0, 1, 2], [0, 1, 2], (0, 3), (0, 3)⟩,
        ⟨1, [0, 2, 3], [0, 2, 3], (3, 3), (3, 3)⟩] ∧
      vars.map (·.2.values) = [.integers [10, 20, 30, 40]] ∧
      p.Pieces pieces ∧ ∀ x ∈ pieces, ∀ y ∈ vars, Takes p.counts x.selection y.2 := by
  have read : (Args.read halves facesArgs).toOption = some ([3, 3], [0, 1, 2, 0, 2, 3],
      [⟨"vertex integer mark", .of (.integers [10, 20, 30, 40]) true⟩]) := by decide +kernel
  have bound : ((Variables.bind (.pointsPolygons [3, 3] [0, 1, 2, 0, 2, 3])
      [⟨"vertex integer mark", .of (.integers [10, 20, 30, 40]) true⟩]).run .initial).1.toOption =
      some [("mark", ⟨.vertex, .integer, 1, .integers [10, 20, 30, 40]⟩)] := by decide +kernel
  let s : Setting := ⟨.initial 3 (16, 16), .triangles, Geometry.tolerance⟩
  have planned : Cuttable.pointsPolygons.plan s halves = .ok (simplePlan s halves ([3, 3],
      [0, 1, 2, 0, 2, 3], [⟨"vertex integer mark", .of (.integers [10, 20, 30, 40]) true⟩])) := by
    simp only [Cuttable.plan, Outcome.optionOk read]
    rfl
  have binds := Outcome.optionOk bound
  exact ⟨s, _, planned, _, binds, _, rfl, rfl, rfl,
    (selectionsMatchCounts .pointsPolygons s halves rfl).2 _ planned _ _ binds _ rfl⟩

end Primitive
end SceneStream
