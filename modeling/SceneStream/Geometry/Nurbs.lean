import SceneStream.Geometry.Grid
import SceneStream.Geometry.Knots
import SceneStream.Number.Shortest

/-! Rational B-spline patches. A patch falls into segments, one for each pair of knot spans; a
segment is sampled on a grid, and each sample knows how much every control point weighs in it. -/
namespace SceneStream.Geometry
open Knots

inductive Side where
  | u | v
  deriving DecidableEq, Repr

def Side.name : Side → String
  | u => "u"
  | v => "v"

inductive NurbsFault (α : Type) where
  | order (side : Side) (order count : Nat)
  | knotCount (side : Side) (expected found : Nat)
  | nonMonotonic (side : Side) (place : Nat)
  | range (side : Side) (least greatest : α)
  | controlCount (expected found : Nat)
  | weight (place : Nat)
  | grid (f : GridFault)
  deriving DecidableEq, Repr

namespace NurbsFault

def message : NurbsFault Float → String
  | order side n count =>
    s!"{side.name} order {n} needs at least {n} control points, found {count}"
  | knotCount side expected found =>
    s!"{side.name} knot vector needs {expected} values, found {found}"
  | nonMonotonic side place => s!"{side.name} knot vector decreases at index {place}"
  | range side least greatest =>
    s!"{side.name} parameter range {doubleText least}..{doubleText greatest} is empty or inverted"
  | controlCount expected found => s!"expected {expected} control points, found {found}"
  | weight place => s!"control point {place} has a zero or non-finite weight"
  | grid f => f.message

def kind {α : Type} : NurbsFault α → ProblemKind
  | knotCount _ _ _ | controlCount _ _ => .consistency
  | order _ _ _ | nonMonotonic _ _ | range _ _ _ | weight _ => .range
  | grid f => f.kind

end NurbsFault

structure NurbsAxis (α : Type) where
  count : Nat
  order : Nat
  knots : List α
  min : α
  max : α
  deriving DecidableEq, Repr

structure Span (α : Type) where
  knot : Nat
  ordinal : Nat
  low : α
  high : α
  deriving DecidableEq, Repr

namespace NurbsAxis
variable {α : Type} [Scalar α]

def degree (a : NurbsAxis α) : Nat := a.order - 1

/-- The place of the first knot that is less than the one before it, or not a finite number. -/
def decrease? (knots : List α) : Option Nat :=
  ((knots.zip knots.tail).findIdx? fun (x, y) => !(x ≤ y && Scalar.isFinite y)).map (· + 1)

def validate (side : Side) (a : NurbsAxis α) : Except (NurbsFault α) Unit := do
  if a.order = 0 ∨ a.count < a.order then throw (.order side a.order a.count)
  let expected := a.count + a.order
  if a.knots.length ≠ expected then throw (.knotCount side expected a.knots.length)
  if let some place := decrease? a.knots then throw (.nonMonotonic side place)
  if a.min < a.max then return else throw (.range side a.min a.max)

def spansFit (a : NurbsAxis α) : Bool :=
  0 < a.order && a.degree < a.knots.length && a.count < a.knots.length

def reaches (a : NurbsAxis α) (span : Nat) : Bool :=
  0 < a.order && a.degree ≤ span && span + 1 < a.knots.length &&
    span + a.degree < a.knots.length

/-- All spans that have a length, in the order of their knots. Their numbers do not depend on the
range. -/
def spans (a : NurbsAxis α) : List (Span α) :=
  let low := Scalar.greatest a.min (knot a.knots a.degree)
  let high := Scalar.least a.max (knot a.knots a.count)
  (starts a.count a.order a.knots).zipIdx.map fun (i, ordinal) =>
    ⟨i, ordinal, Scalar.greatest (knot a.knots i) low, Scalar.least (knot a.knots (i + 1)) high⟩

def raise (knots : List α) (t : α) (span degree : Nat) : Nat → α → List α → List α
  | _, saved, [] => [saved]
  | r, saved, n :: row =>
    let right := knot knots (span + r + 1) - t
    let left := t - knot knots (span + 1 + r - degree)
    let whole := right + left
    let part := if Scalar.same whole 0 then 0 else n / whole
    (saved + right * part) :: raise knots t span degree (r + 1) (left * part) row

def row (knots : List α) (t : α) (span : Nat) : Nat → List α
  | 0 => [1]
  | degree + 1 => raise knots t span (degree + 1) 0 0 (row knots t span degree)

def slopes (knots : List α) (span degree : Nat) (lower : List α) : List α :=
  lower.zipIdx.map fun (n, r) =>
    let length := knot knots (span + r + 1) - knot knots (span + r + 1 - degree)
    if Scalar.same length 0 then 0 else n / length

def basis (a : NurbsAxis α) (span : Nat) (t : α) : List α × List α :=
  let p := a.degree
  let lower := if p = 0 then [] else slopes a.knots span p (row a.knots t span (p - 1))
  (row a.knots t span p, (0 :: lower).zipWith (fun x y => Scalar.ofNat p * (x - y)) (lower ++ [0]))

end NurbsAxis

structure NuPatch (α : Type) where
  u : NurbsAxis α
  v : NurbsAxis α
  /-- Homogeneous, row by row along u. -/
  points : List (Quad α)
  deriving DecidableEq, Repr

structure Segment (α : Type) where
  u : Span α
  v : Span α
  index : Nat
  deriving DecidableEq, Repr

structure Influence (α : Type) where
  control : Nat
  place : Nat
  weight : α
  deriving DecidableEq, Repr

structure SegmentGrid (α : Type) where
  grid : Grid α
  influences : List (List (Influence α))
  /-- For each sample, its place in the spans as they are before they are cut. -/
  spanParams : List (α × α)
  deriving DecidableEq, Repr

namespace NuPatch
variable {α : Type} [Scalar α]

def make (u v : NurbsAxis α) (points : List (Quad α)) : Except (NurbsFault α) (NuPatch α) := do
  u.validate .u
  v.validate .v
  if points.length ≠ u.count * v.count then
    throw (.controlCount (u.count * v.count) points.length)
  match points.findIdx? fun p => Scalar.same p.w 0 || !p.toList.all Scalar.isFinite with
  | some place => throw (.weight place)
  | none => return ⟨u, v, points⟩

def segments (p : NuPatch α) : List (Segment α) :=
  let us := p.u.spans
  p.v.spans.flatMap fun v =>
    (us.filter fun u => u.low < u.high && v.low < v.high).map fun u =>
      ⟨u, v, v.ordinal * us.length + u.ordinal⟩

def block (p : NuPatch α) (s : Segment α) : List Nat :=
  (List.range p.v.order).flatMap fun b =>
    (List.range p.u.order).map fun a =>
      (s.v.knot - p.v.degree + b) * p.u.count + s.u.knot - p.u.degree + a

def reaches (p : NuPatch α) (s : Segment α) : Bool :=
  p.u.reaches s.u.knot && p.v.reaches s.v.knot && p.u.degree ≤ p.u.count &&
    (p.block s).all (· < p.points.length)

def products (nu nv : List α) : List α := nv.flatMap fun y => nu.map fun x => x * y

def combine (ws : List α) (points : Quad (List α)) : Quad α := points.map (Scalar.weighted ws)

structure Sample (α : Type) where
  point : Vec α
  normal : Option (Vec α)
  influences : List (Influence α)

def evaluate (p : NuPatch α) (seg : Segment α) (block : List (Nat × Quad α)) (s t : α) : Sample α :=
  let points := block.map (·.2)
  let columns : Quad (List α) :=
    ⟨points.map Quad.x, points.map Quad.y, points.map Quad.z, points.map Quad.w⟩
  let (nu, su) := p.u.basis seg.u.knot s
  let (nv, sv) := p.v.basis seg.v.knot t
  let ws := products nu nv
  let h := combine ws columns
  let point := h.point
  let derive (d : Quad α) : Vec α :=
    ⟨(d.x - d.w * point.x) / h.w, (d.y - d.w * point.y) / h.w, (d.z - d.w * point.z) / h.w⟩
  let du := derive (combine (products su nv) columns)
  let dv := derive (combine (products nu sv) columns)
  ⟨point, (du.cross dv).unit?, ((ws.zip block).zipIdx.map fun ((w, i, c), place) =>
    ⟨i, place, w * c.w / h.w⟩)⟩

def sample (p : NuPatch α) (seg : Segment α) (tu tv : Nat) :
    Except (NurbsFault α) (SegmentGrid α) := do
  (Grid.check tu tv).mapError .grid
  let table := p.points.toArray
  let block := (p.block seg).filterMap fun i => (table[i]?).map (i, ·)
  let params := Grid.parameters tu tv
  let places := params.map fun (a, b) =>
    (seg.u.low + a * (seg.u.high - seg.u.low), seg.v.low + b * (seg.v.high - seg.v.low))
  let samples := places.map fun (s, t) => p.evaluate seg block s t
  let part (knots : List α) (i : Nat) (x : α) :=
    (x - knot knots i) / (knot knots (i + 1) - knot knots i)
  let normals := Grid.fill (tu + 1) (tv + 1) (samples.map Sample.normal) Vec.up (Nat.succ_pos tu)
    (by simp [samples, places, params, Grid.parametersLength])
  return ⟨⟨tu + 1, tv + 1, params, samples.map Sample.point, normals⟩,
    samples.map Sample.influences,
    places.map fun (s, t) => (part p.u.knots seg.u.knot s, part p.v.knots seg.v.knot t)⟩

end NuPatch
end SceneStream.Geometry
