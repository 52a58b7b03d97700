import SceneStream.Geometry.Ring.Bridge
import SceneStream.Geometry.Ring.Ear

/-! Triangulation of planar polygons with holes. The polygon is laid into a coordinate plane so that
its outer loop runs to the left; holes are turned the other way, joined to the outer ring from left
to right, and ears are cut off the ring that results. -/
namespace SceneStream.Geometry

inductive TriangulationFault where
  | tooFewVertices (place count : Nat)
  | loopMismatch (expected found : Nat)
  | nonFinite
  | degenerate
  | noBridge (hole : Nat)
  | noEar (left : Nat)
  deriving DecidableEq, Repr

namespace TriangulationFault

def message : TriangulationFault → String
  | tooFewVertices place count => s!"loop {place} has {count} vertices, at least 3 are required"
  | loopMismatch expected found =>
    s!"loop sizes add up to {expected} vertices, {found} were given"
  | nonFinite => "polygon vertices must be finite"
  | degenerate => "polygon has no area"
  | noBridge hole => s!"hole {hole} cannot be connected to the outer loop"
  | noEar left => s!"no ear left with {left} vertices remaining"

def kind : TriangulationFault → ProblemKind
  | loopMismatch _ _ | noBridge _ | noEar _ => .consistency
  | tooFewVertices _ _ | nonFinite | degenerate => .range

end TriangulationFault

namespace Triangulation
variable {α : Type} [Scalar α]

def pieces {β : Type} : List Nat → List β → List (List β)
  | [], _ => []
  | n :: sizes, l => l.take n :: pieces sizes (l.drop n)

/-- The plane that a polygon is laid into, flipped if its normal points down the axis. -/
structure Plane where
  axis : Axis
  flipped : Bool
  deriving DecidableEq, Repr

def Plane.of (normal : Vec α) : Plane :=
  let axis := normal.dominantAxis
  ⟨axis, normal.get axis < 0⟩

def Plane.project (plane : Plane) (index : Nat) (p : Vec α) : Node α :=
  let (u, v) := match plane.axis with
    | .x => (p.y, p.z)
    | .y => (p.z, p.x)
    | .z => (p.x, p.y)
  ⟨index, if plane.flipped then -u else u, v⟩

/-- A hole as it is joined: turned against the outer loop, from its leftmost point on. One that has
no area is none. -/
def hole? (eps : α) (r : Ring α) : Option (Ring α) := do
  let r ← r.distinct? eps
  let area := r.area
  if Scalar.abs area ≤ eps then none
  else
    let r := if 0 < area then r.reversed else r
    some (Ring.startAt r.leftmost r)

def before (a b : Nat × Ring α) : Bool :=
  match a.2.head?, b.2.head? with
  | some p, some q =>
    let left := Scalar.precedes p.u q.u
    if left && Scalar.precedes q.u p.u then Scalar.precedes p.v q.v else left
  | none, _ => true
  | some _, none => false

/-- Joins a hole; it is told by its number if there is no way to it. -/
def attach (eps : α) (outer : Ring α) (hole : Nat × Ring α) : Except TriangulationFault (Ring α) :=
  match hole.2 with
  | [] => .ok outer
  | h :: _ => match Ring.bridge? eps h outer with
    | some i => .ok (outer.join i hole.2)
    | none => .error (.noBridge hole.1)

def ofRings (eps : α) (outer : Ring α) (holes : List (Nat × Ring α)) :
    Except TriangulationFault (List Triangle) := do
  let some outer := outer.distinct? eps | throw .degenerate
  if outer.area ≤ eps then throw .degenerate
  let holes := holes.filterMap fun (i, r) => (hole? eps r).map (i, ·)
  let ring ← (holes.mergeSort before).foldlM (attach eps) outer
  match ring.clip eps (ring.length - 3) with
  | .ok [] => throw .degenerate
  | .ok ts => return ts
  | .error left => throw (.noEar left)

end Triangulation

/-- Triangles over the points of a polygon, wound like its outer loop. The first loop is the outer
one and the others are holes; `loops` are their sizes. -/
def triangulate {α : Type} [Scalar α] (eps : α) (points : List (Vec α)) (loops : List Nat) :
    Except TriangulationFault (List Triangle) :=
  let total := loops.sum
  if total ≠ points.length then .error (.loopMismatch total points.length)
  else match loops.zipIdx.find? (·.1 < 3) with
  | some (count, place) => .error (.tooFewVertices place count)
  | none =>
    if points.any (!·.isFinite) then .error .nonFinite
    else
      let normal := loopNormal (points.take (loops.headD 0))
      let plane := Triangulation.Plane.of normal
      let nodes := points.zipIdx.map fun (p, i) => plane.project i p
      match Triangulation.pieces loops nodes with
      | [] => .error (.tooFewVertices 0 0)
      | outer :: holes =>
        if normal.length ≤ eps then .error .degenerate
        else Triangulation.ofRings eps outer ((holes.zipIdx 1).map fun (r, i) => (i, r))

end SceneStream.Geometry
