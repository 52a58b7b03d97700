import SceneStream.Geometry.Basis
import SceneStream.Geometry.Grid

/-! Bilinear and bicubic patches. Positions are blended like any other values, with the same
weights, so a variable that follows the positions of the control points follows those of the
surface. -/
namespace SceneStream.Geometry

inductive PatchFault where
  | controlCount (expected found : Nat)
  | width
  | unknownBasis (name : String)
  | grid (f : GridFault)
  deriving DecidableEq, Repr

namespace PatchFault

def message : PatchFault → String
  | controlCount expected found => s!"patch needs {expected} control values, found {found}"
  | width => "element width must be positive"
  | unknownBasis name => s!"unknown basis \"{name}\""
  | grid f => f.message

def kind : PatchFault → ProblemKind
  | controlCount _ _ => .consistency
  | width => .range
  | unknownBasis _ => .badToken
  | grid f => f.kind

end PatchFault

namespace Patch
variable {α : Type} [Scalar α]

def mix (a b t : α) : α := a * (1 - t) + b * t

/-- Corner values in the order (0,0) (1,0) (0,1) (1,1), blended at a point of the unit square. -/
def bilinearAt (corners : Quad (List α)) (u v : α) : List α :=
  let bottom := corners.x.zipWith (mix · · u) corners.y
  let top := corners.z.zipWith (mix · · u) corners.w
  bottom.zipWith (mix · · v) top

def quarters (values : List α) (width : Nat) : Quad (List α) :=
  let part (n : Nat) := (values.drop (n * width)).take width
  ⟨part 0, part 1, part 2, part 3⟩

def bilinearBlend (values : List α) (width tu tv : Nat) : Except PatchFault (List α) := do
  if width = 0 then throw .width
  if values.length ≠ 4 * width then throw (.controlCount (4 * width) values.length)
  (Grid.check tu tv).mapError .grid
  let corners := quarters values width
  return (Grid.parameters tu tv).flatMap fun (u, v) => bilinearAt corners u v

def overall (a b c d : Vec α) : Vec α := ((loopNormal [a, b, c, d]).unit?).getD Vec.up

def bilinearGrid (p : Quad (Vec α)) (tu tv : Nat) : Except PatchFault (Grid α) := do
  (Grid.check tu tv).mapError .grid
  return Grid.sample tu tv (fun u v =>
    let bottom := p.x + (p.y - p.x) * u
    let top := p.z + (p.w - p.z) * u
    let du := (p.y - p.x) * (1 - v) + (p.w - p.z) * v
    (bottom + (top - bottom) * v, (du.cross (top - bottom)).unit?)) (overall p.x p.y p.w p.z)

def products (wu wv : Quad α) : List α :=
  wv.toList.flatMap fun r => wu.toList.map fun c => r * c

theorem inNet {width n k : Nat} (row : n < 16) (place : k < width) : n * width + k < 16 * width := by
  have rows : (n + 1) * width ≤ 16 * width := Nat.mul_le_mul_right _ row
  rw [Nat.add_mul] at rows
  omega

def netColumns {width : Nat} (net : Array α) (sized : net.size = 16 * width) : List (List α) :=
  (List.finRange width).map fun (k : Fin width) => (List.finRange 16).map fun (n : Fin 16) =>
    have inside : n.val * width + k.val < net.size := sized ▸ inNet n.isLt k.isLt
    net[n.val * width + k.val]

def bicubicBlend (control : List α) (width : Nat) (ub vb : Basis α) (tu tv : Nat) :
    Except PatchFault (List α) := do
  if width = 0 then throw .width
  if sized : control.length = 16 * width then
    (Grid.check tu tv).mapError .grid
    let columns := netColumns control.toArray sized
    return (Grid.parameters tu tv).flatMap fun (u, v) =>
      let ws := products (ub.weights u).1 (vb.weights v).1
      columns.map (Scalar.weighted ws)
  else throw (.controlCount (16 * width) control.length)

def combine (ws : List α) (points : Vec (List α)) : Vec α := points.map (Scalar.weighted ws)

def bicubicGrid (control : List (Vec α)) (ub vb : Basis α) (tu tv : Nat) :
    Except PatchFault (Grid α) := do
  if sized : control.length = 16 then
    (Grid.check tu tv).mapError .grid
    let columns : Vec (List α) := ⟨control.map Vec.x, control.map Vec.y, control.map Vec.z⟩
    return Grid.sample tu tv (fun u v =>
      let (wu, su) := ub.weights u
      let (wv, sv) := vb.weights v
      let du := combine (products su wv) columns
      let dv := combine (products wu sv) columns
      (combine (products wu wv) columns, (du.cross dv).unit?))
      (overall control[0] control[3] control[15] control[12])
  else throw (.controlCount 16 control.length)

end Patch
end SceneStream.Geometry
