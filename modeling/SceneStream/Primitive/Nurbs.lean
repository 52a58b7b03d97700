import SceneStream.Geometry.Nurbs
import SceneStream.Primitive.Basic
import SceneStream.Request.Spatial

/-! Rational B-spline patches. Each segment becomes a surface of its own. -/
namespace SceneStream.Primitive
open SceneStream.Geometry

def nurbsAxis (side : Side) : Args.Read (NurbsAxis Float) := do
  let count ← positive s!"n{side.name}"
  let order ← positive s!"{side.name}order"
  let knots ← Args.floatArray
  let min ← Args.double
  let max ← Args.double
  return ⟨count, order, knots.map Single.toFloat, min, max⟩

/-- Values at the knots lie in a row for each knot along v; a segment has four of them as corners.
-/
def segmentCorners (p : NuPatch Float) (seg : Segment Float) : List Nat :=
  let across := p.u.count - p.u.degree + 1
  [(0, 0), (1, 0), (0, 1), (1, 1)].map fun (a, b) =>
    (seg.v.knot - p.v.degree + b) * across + (seg.u.knot - p.u.degree) + a

def segmentSelection (p : NuPatch Float) (seg : Segment Float) : FaceSelection :=
  let each := p.u.order * p.v.order
  ⟨seg.index, segmentCorners p seg, p.block seg, (seg.index * 4, 4), (seg.index * each, each)⟩

section Shared
variable {α : Type} [Scalar α] (table : Array α) (width : Nat) (l : List (Influence α))

def sharedAt (k : Nat) : Except Problem α := do
  let values ← l.mapM fun i => Part.item table (i.place * width + k)
  return Scalar.weighted (l.map Influence.weight) values

def shared : Except Problem (List α) := (List.range width).mapM (sharedAt table width l)

end Shared

/-- Values at the corners follow the span, those of control points follow their shares. -/
def segmentSpread (g : SegmentGrid Float) : Spread := fun v => do
  match v.storage with
  | .varying | .faceVarying =>
    let corners := Patch.quarters (← Part.leading (4 * v.width) v.doubles) v.width
    return g.spanParams.flatMap fun (s, t) => Patch.bilinearAt corners s t
  | _ => g.influences.flatMapM (shared v.doubles.toArray v.width)

def segmentMake (kind : RequestKind) (s : Setting) (p : NuPatch Float) (seg : Segment Float)
    (selected : Variables) : Except Problem Surface := do
  let (tu, tv) := s.attributes.tessellation
  if !p.reaches seg then throw (.crash "index out of bounds: a knot or a control point")
  let g ← (p.sample seg tu tv).mapError fun f => reject kind f.kind f.message
  carry selected (segmentSpread g) (Surface.ofGrid kind s.layout g.grid)

def segmentSurface (kind : RequestKind) (s : Setting) (p : NuPatch Float) (vars : Variables)
    (seg : Segment Float) : Except Problem Surface :=
  segmentMake kind s p seg (vars.select (segmentSelection p seg))

def nuPatchArgs : Args.Read (NurbsAxis Float × NurbsAxis Float × List TokenValue) := do
  let u ← nurbsAxis .u
  let v ← nurbsAxis .v
  return (u, v, ← Args.tokenList)

def rational (kind : RequestKind) (u v : NurbsAxis Float) (points : List (Quad Float)) :
    Except Problem (NuPatch Float) := do
  let p ← (NuPatch.make u v points).mapError fun f => reject kind f.kind f.message
  if !(p.u.spansFit && p.v.spansFit) then throw (.crash "index out of bounds: a knot")
  return p

def nuPatch (s : Setting) (r : Request) : Declaring Outcome := do
  let (u, v, list) ← Declaring.lift (Args.read r nuPatchArgs)
  let vars ← Variables.bind (.nuPatch u.count u.order u.knots v.count v.order v.knots) list
  Declaring.lift do
    let p ← rational r.kind u v (← homogeneous r.kind vars)
    .surfaces <$> p.segments.mapM (segmentSurface r.kind s p vars)

end SceneStream.Primitive
