import SceneStream.Geometry.Triangulation
import SceneStream.Primitive.Basic

/-! Polygons, alone and in meshes. Each face becomes a surface of its own, with the points of its
own corners. -/
namespace SceneStream.Primitive
open SceneStream.Geometry

/-- One face: the sizes of its loops, its corners as indices of points, and where its corners start
among those of the whole primitive. -/
structure Face where
  index : Nat
  loops : List Nat
  corners : List Nat
  offset : Nat
  deriving DecidableEq, Repr

namespace Face

def selection (f : Face) : FaceSelection :=
  let range := (f.offset, f.corners.length)
  ⟨f.index, f.corners, f.corners, range, range⟩

/-- The normals given with the face, or else the one of its outer loop for all corners. -/
def normals (f : Face) (vars : Variables) (points : List (Vec Float)) :
    Except Problem (List (Vec Single)) := do
  let n := f.corners.length
  match ofWidth? vars "N" 3, ofWidth? vars "Np" 3 with
  | some v, _ => return (triples v.doubles).map Surface.stored
  | none, some v =>
    let l := v.doubles.toArray
    let normal : Vec Float := ⟨← Part.item l 0, ← Part.item l 1, ← Part.item l 2⟩
    return List.replicate n (Surface.stored normal)
  | none, none =>
    let normal := loopNormal (← Part.leading (min (f.loops.headD n) n) points)
    return List.replicate n (Surface.stored (normal.unit?.getD Vec.up))

def make (kind : RequestKind) (tolerance : Float) (f : Face) (selected : Variables) :
    Except Problem Surface := do
  let points ← positions kind selected
  let triangles ← (triangulate tolerance points f.loops).mapError fun e =>
    reject kind e.kind e.message
  let bare := Surface.ofTriangles kind (points.map Surface.stored)
    (triangles.flatMap Triangle.toList)
  let normals ← f.normals selected points
  carry selected (fun v => .ok v.doubles) { bare with normals }

def surface (kind : RequestKind) (vars : Variables) (tolerance : Float) (f : Face) :
    Except Problem Surface :=
  f.make kind tolerance (vars.select f.selection)

def split (index offset : Nat) : List Nat → List Nat → List Nat → Except Problem (List Face)
  | [], _, _ => return []
  | n :: loops, sizes, verts => do
    let own ← Part.leading n sizes
    let corners ← Part.leading own.sum verts
    let rest ← split (index + 1) (offset + own.sum) loops (sizes.drop n) (verts.drop own.sum)
    return ⟨index, own, corners, offset⟩ :: rest

end Face

def faces (kind : RequestKind) (vars : Variables) (tolerance : Float) (l : List Face) :
    Except Problem Outcome :=
  (l.mapM (Face.surface kind vars tolerance)).map .surfaces

def polygon (s : Setting) (r : Request) : Declaring Outcome := do
  let list ← Declaring.lift (Args.read r Args.tokenList)
  let n ← pointCount list
  let vars ← Variables.bind (.polygon n) list
  Declaring.lift (faces r.kind vars s.tolerance [⟨0, [n], List.range n, 0⟩])

def generalPolygon (s : Setting) (r : Request) : Declaring Outcome := do
  let (sizes, list) ← Declaring.lift (Args.read r do
    let sizes ← Args.countArray
    return (sizes, ← Args.tokenList))
  let vars ← Variables.bind (.generalPolygon sizes) list
  Declaring.lift (faces r.kind vars s.tolerance [⟨0, sizes, List.range sizes.sum, 0⟩])

def simpleSplit (kind : RequestKind) (sizes verts : List Nat) : Except Problem (List Face) :=
  if sizes.sum ≠ verts.length then
    .error (inconsistent kind s!"{verts.length} vertex indices for {sizes.sum} face corners")
  else Face.split 0 0 (sizes.map fun _ => 1) sizes verts

def simpleFaces (kind : RequestKind) (vars : Variables) (tolerance : Float)
    (sizes verts : List Nat) : Except Problem Outcome := do
  faces kind vars tolerance (← simpleSplit kind sizes verts)

def facesArgs : Args.Read (List Nat × List Nat × List TokenValue) := do
  let sizes ← Args.countArray
  let verts ← Args.countArray
  return (sizes, verts, ← Args.tokenList)

def pointsPolygons (s : Setting) (r : Request) : Declaring Outcome := do
  let (sizes, verts, list) ← Declaring.lift (Args.read r facesArgs)
  let vars ← Variables.bind (.pointsPolygons sizes verts) list
  Declaring.lift (simpleFaces r.kind vars s.tolerance sizes verts)

/-- How many loops each face has, before the sizes of the loops. -/
def loopedArgs : Args.Read (List Nat × List Nat × List Nat × List TokenValue) := do
  let loops ← Args.countArray
  return (loops, ← facesArgs)

def loopsFit (kind : RequestKind) (loops sizes verts : List Nat) : Except Problem Unit := do
  if loops.sum ≠ sizes.length then
    throw (inconsistent kind s!"{sizes.length} loop sizes for {loops.sum} loops")
  if sizes.sum ≠ verts.length then
    throw (inconsistent kind s!"{verts.length} vertex indices for {sizes.sum} loop corners")

def pointsGeneralPolygons (s : Setting) (r : Request) : Declaring Outcome := do
  let (loops, sizes, verts, list) ← Declaring.lift (Args.read r loopedArgs)
  Declaring.lift (loopsFit r.kind loops sizes verts)
  let vars ← Variables.bind (.pointsGeneralPolygons loops sizes verts) list
  Declaring.lift do faces r.kind vars s.tolerance (← Face.split 0 0 loops sizes verts)

def everySecond {α : Type} : List α → List α
  | [] => []
  | [a] => [a]
  | a :: _ :: rest => a :: everySecond rest

/-- Tags of a mesh with their arguments, if they are given: each tag says how many integers and how
many floats it takes. -/
def tags : Args.Read Unit := do
  let a ← get
  let present := a.peek.any fun p => p.isArray && (p.length == 0 || p.basic == .string)
  if present then
    let tags ← Args.stringArray
    let counts ← Args.countArray
    let ints ← Args.intArray
    let floats ← Args.floatArray
    if counts.length ≠ tags.length * 2 then
      throw (inconsistent a.kind s!"{counts.length} argument counts for {tags.length} tags")
    let i := (everySecond counts).sum
    let f := (everySecond counts.tail).sum
    if i ≠ ints.length ∨ f ≠ floats.length then
      let needed := s!"tags need {i} integer and {f} float arguments"
      throw (inconsistent a.kind s!"{needed}, found {ints.length} and {floats.length}")

def subdivisionArgs : Args.Read (List Nat × List Nat × List TokenValue) := do
  let _ ← Args.string
  let sizes ← Args.countArray
  let verts ← Args.countArray
  tags
  return (sizes, verts, ← Args.tokenList)

/-- A subdivision mesh stands for its control hull. -/
def subdivisionMesh (s : Setting) (r : Request) : Declaring Outcome := do
  let (sizes, verts, list) ← Declaring.lift (Args.read r subdivisionArgs)
  let vars ← Variables.bind (.subdivisionMesh sizes verts) list
  Declaring.lift (simpleFaces r.kind vars s.tolerance sizes verts)

end SceneStream.Primitive
