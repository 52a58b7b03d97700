import SceneStream.Geometry.Vector
import SceneStream.Number.Single

/-! Transforms of space. They act on columns, while streams write matrices that act on rows; the one
is the transpose of the other. A transform composed onto another is applied to points before it. -/
namespace SceneStream.Geometry

structure Transform (α : Type) where
  rows : Quad (Quad α)
  deriving DecidableEq, Repr

namespace Transform
variable {α : Type} [Scalar α]

def identity : Transform α := ⟨Quad.identity⟩

def compose (a b : Transform α) : Transform α := ⟨a.rows.map (·.times b.rows)⟩

def translate (v : Vec α) : Transform α :=
  ⟨⟨1, 0, 0, v.x⟩, ⟨0, 1, 0, v.y⟩, ⟨0, 0, 1, v.z⟩, ⟨0, 0, 0, 1⟩⟩

def scale (v : Vec α) : Transform α :=
  ⟨⟨v.x, 0, 0, 0⟩, ⟨0, v.y, 0, 0⟩, ⟨0, 0, v.z, 0⟩, ⟨0, 0, 0, 1⟩⟩

def turn (s c : α) (a : Vec α) : Transform α :=
  let t := 1 - c
  ⟨⟨t * a.x * a.x + c, t * a.x * a.y - s * a.z, t * a.x * a.z + s * a.y, 0⟩,
   ⟨t * a.x * a.y + s * a.z, t * a.y * a.y + c, t * a.y * a.z - s * a.x, 0⟩,
   ⟨t * a.x * a.z - s * a.y, t * a.y * a.z + s * a.x, t * a.z * a.z + c, 0⟩,
   ⟨0, 0, 0, 1⟩⟩

def shear (amount : α) (d n : Vec α) : Transform α :=
  let row (base : Vec α) (s : α) : Quad α :=
    ⟨base.x + amount * s * n.x, base.y + amount * s * n.y, base.z + amount * s * n.z, 0⟩
  ⟨row ⟨1, 0, 0⟩ d.x, row ⟨0, 1, 0⟩ d.y, row ⟨0, 0, 1⟩ d.z, ⟨0, 0, 0, 1⟩⟩

/-- Points that have no place after a projection keep their coordinates. -/
def apply (t : Transform α) (p : Vec α) : Vec α :=
  let q := t.rows.map (·.dot ⟨p.x, p.y, p.z, 1⟩)
  if Scalar.same q.w 0 then ⟨q.x, q.y, q.z⟩ else q.point

def handedness (t : Transform α) : α :=
  let part (r : Quad α) : Vec α := ⟨r.x, r.y, r.z⟩
  (part t.rows.x).dot ((part t.rows.y).cross (part t.rows.z))

def rotate? (degrees : Float) (axis : Vec Float) : Option (Transform Float) :=
  let a := radians degrees
  axis.unit?.map (turn a.sin a.cos)

/-- Turns the direction `d` towards `e`. The two must not be parallel, and the turned direction has
to stay within the half-plane that they span. -/
def skew? (degrees : Float) (d e : Vec Float) : Option (Transform Float) := do
  let d ← d.unit?
  let e ← e.unit?
  let along := d.dot e
  let across ← (d - e * along).unit?
  let out := d.dot across
  let turned := along.atan2 out + radians degrees
  if pi / 2 ≤ turned || turned ≤ -(pi / 2) then none
  else some (shear (turned.tan - along / out) e across)

def perspective? (degrees : Float) : Option (Transform Float) :=
  let half := (radians (degrees * 0.5)).tan
  if half.isFinite && 0 < half then
    let f := 1 / half
    some ⟨⟨f, 0, 0, 0⟩, ⟨0, f, 0, 0⟩, ⟨0, 0, 1, -1⟩, ⟨0, 0, 1, 0⟩⟩
  else none

def ofMatrix (m : Quad (Quad Single)) : Transform Float :=
  ⟨m.transpose.map fun r => r.map Single.toFloat⟩

def matrix (t : Transform Float) : Quad (Quad Single) :=
  t.rows.transpose.map fun r => r.map Single.ofFloat

end Transform
end SceneStream.Geometry
