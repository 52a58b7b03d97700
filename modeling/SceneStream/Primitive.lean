import SceneStream.Primitive.Nurbs
import SceneStream.Primitive.Patch
import SceneStream.Primitive.Polygon
import SceneStream.Primitive.Quadric

/-! Primitives. A request is read, its variables are bound, and it becomes surfaces; points, curves
and blobs are bound and checked but stay as they are. -/
namespace SceneStream.Primitive

def points (r : Request) : Declaring Outcome := do
  let list ← Declaring.lift (Args.read r Args.tokenList)
  let n ← pointCount list
  let vars ← Variables.bind (.points n) list
  let _ ← Declaring.lift (positions r.kind vars)
  return .bound vars

def listed (l : List Nat) : String := "[" ++ ", ".intercalate (l.map toString) ++ "]"

def curves (s : Setting) (r : Request) : Declaring Outcome := do
  let (shape, sizes, wrap, list) ← Declaring.lift (Args.read r do
    let shape ← Args.word "curve type" CurveKind.ofName?
    let sizes ← Args.countArray
    let wrap ← wrap
    return (shape, sizes, wrap, ← Args.tokenList))
  let some counts := ValueCounts.curves? shape sizes wrap s.attributes.vBasis.step
    | throw (inconsistent r.kind s!"vertex counts {listed sizes} do not fit {shape.name} curves")
  let vars ← Variables.bind counts list
  let _ ← Declaring.lift (positions r.kind vars)
  return .bound vars

def leaves : Args.Read Nat := do
  let kind := (← get).kind
  let n ← Args.int
  if n < 0 then throw (reject kind .range s!"negative leaf count {n.toInt}")
  let code ← Args.intArray
  let _ ← Args.floatArray
  let _ ← Args.stringArray
  if code.isEmpty ∧ 0 < n then
    throw (reject kind .missingData s!"{n.toInt} leaves without code")
  return n.toInt.toNat

def blobby (r : Request) : Declaring Outcome := do
  let (n, list) ← Declaring.lift (Args.read r do
    let n ← leaves
    return (n, ← Args.tokenList))
  return .bound (← Variables.bind (.blobby n) list)

def tessellate (s : Setting) (r : Request) : Declaring Outcome :=
  match r.kind with
  | .polygon => polygon s r
  | .generalPolygon => generalPolygon s r
  | .pointsPolygons => pointsPolygons s r
  | .pointsGeneralPolygons => pointsGeneralPolygons s r
  | .subdivisionMesh => subdivisionMesh s r
  | .patch => patch s r
  | .patchMesh => patchMesh s r
  | .nuPatch => nuPatch s r
  | .points => points r
  | .curves => curves s r
  | .blobby => blobby r
  | kind => match shape? kind with
    | some shape => quadric s r shape
    | none => return .deferred

end SceneStream.Primitive
