import SceneStream.Declaration
import SceneStream.Geometry.Grid
import SceneStream.Geometry.Transform
import SceneStream.Named
import SceneStream.Request.Kind

/-! Surfaces: what a primitive becomes. A surface is a mesh with stored numbers, the variables
carried along with it, and the transform that places it in the world. -/
namespace SceneStream
open SceneStream.Geometry

inductive Layout where
  | triangles | strips
  deriving DecidableEq, Repr

def Layout.ofName? : String → Option Layout
  | "triangles" => some triangles
  | "strips" => some strips
  | _ => none

inductive Topology where
  | triangles
  | strips (lengths : List Nat)
  deriving DecidableEq, Repr

/-- A variable carried along: one element for the whole surface, or one for each vertex. -/
structure SurfaceVariable where
  kind : TypeKind
  width : Nat
  perVertex : Bool
  values : Values
  deriving DecidableEq

/-- Elements held; nothing is an element of width zero. -/
def SurfaceVariable.count (v : SurfaceVariable) : Nat := v.values.length / v.width

structure Surface where
  primitive : RequestKind
  topology : Topology
  indices : List Nat
  positions : List (Vec Single)
  /-- One for each position, or none at all. -/
  normals : List (Vec Single)
  vars : Named SurfaceVariable
  /-- As streams write it. -/
  transform : Quad (Quad Single)
  /-- The front is on the other side than the winding tells. -/
  reversed : Bool
  twoSided : Bool
  deriving DecidableEq

inductive SurfaceFault where
  | normals (found expected : Nat)
  | index (bad count : Nat)
  | ragged
  | uncovered
  | elements (name : String) (found expected : Nat)
  deriving DecidableEq, Repr

def SurfaceFault.message : SurfaceFault → String
  | normals found expected => s!"{found} normals for {expected} positions"
  | index bad count => s!"index {bad} out of range for {count} positions"
  | ragged => "triangle index count is not a multiple of 3"
  | uncovered => "strip lengths do not cover the index buffer"
  | elements name found expected => s!"variable {name} holds {found} elements, expected {expected}"

namespace Surface

def stored (v : Vec Float) : Vec Single := v.map Single.ofFloat

def identity : Quad (Quad Single) := Transform.matrix Transform.identity

def ofTriangles (primitive : RequestKind) (positions : List (Vec Single)) (indices : List Nat) :
    Surface :=
  ⟨primitive, .triangles, indices, positions, [], [], identity, false, false⟩

def ofGrid (primitive : RequestKind) (layout : Layout) (g : Grid Float) : Surface :=
  let positions := g.points.map stored
  let bare (t : Topology) (indices : List Nat) : Surface :=
    { ofTriangles primitive positions indices with topology := t, normals := g.normals.map stored }
  match layout with
  | .triangles => bare .triangles ((Grid.triangles g.uCount g.vCount).flatMap Triangle.toList)
  | .strips =>
    let strips := Grid.strips g.uCount g.vCount
    bare (.strips (strips.map List.length)) strips.flatten

def triangleCount (s : Surface) : Nat :=
  match s.topology with
  | .triangles => s.indices.length / 3
  | .strips lengths => (lengths.map (· - 2)).sum

def grouped : List Nat → List Triangle
  | a :: b :: c :: rest => ⟨a, b, c⟩ :: grouped rest
  | _ => []

/-- The triangles of a strip; every second one is turned, so that all wind alike. -/
def unrolled (turned : Bool) : List Nat → List Triangle
  | a :: b :: c :: rest =>
    (if turned then ⟨b, a, c⟩ else ⟨a, b, c⟩) :: unrolled (!turned) (b :: c :: rest)
  | _ => []

def unrolledAll : List Nat → List Nat → List Triangle
  | [], _ => []
  | n :: lengths, indices => unrolled false (indices.take n) ++ unrolledAll lengths (indices.drop n)

def triangles (s : Surface) : List Triangle :=
  match s.topology with
  | .triangles => grouped s.indices
  | .strips lengths => unrolledAll lengths s.indices

def fault? (s : Surface) : Option SurfaceFault :=
  let n := s.positions.length
  if !s.normals.isEmpty && s.normals.length ≠ n then some (.normals s.normals.length n)
  else match s.indices.find? (n ≤ ·) with
  | some bad => some (.index bad n)
  | none =>
    let covered : Option SurfaceFault := match s.topology with
      | .triangles => if s.indices.length % 3 = 0 then none else some .ragged
      | .strips lengths => if lengths.sum = s.indices.length then none else some .uncovered
    covered.or (s.vars.findSome? fun (name, v) =>
      let expected := if v.perVertex then n else 1
      if v.count = expected then none else some (.elements name v.count expected))

end Surface
end SceneStream
