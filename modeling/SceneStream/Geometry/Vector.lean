import SceneStream.Geometry.Scalar

/-! Points and directions in space, and rows of four numbers: homogeneous points, weights, and the
rows of matrices. -/
namespace SceneStream.Geometry

structure Vec (α : Type) where
  x : α
  y : α
  z : α
  deriving DecidableEq, Repr

inductive Axis where
  | x | y | z
  deriving DecidableEq, Repr

namespace Vec
variable {α β : Type}

def map (f : α → β) (a : Vec α) : Vec β := ⟨f a.x, f a.y, f a.z⟩
def toList (a : Vec α) : List α := [a.x, a.y, a.z]

def get (a : Vec α) : Axis → α
  | .x => a.x
  | .y => a.y
  | .z => a.z

variable [Scalar α]

instance : Add (Vec α) := ⟨fun a b => ⟨a.x + b.x, a.y + b.y, a.z + b.z⟩⟩
instance : Sub (Vec α) := ⟨fun a b => ⟨a.x - b.x, a.y - b.y, a.z - b.z⟩⟩
instance : Neg (Vec α) := ⟨fun a => ⟨-a.x, -a.y, -a.z⟩⟩
instance : HMul (Vec α) α (Vec α) := ⟨fun a s => ⟨a.x * s, a.y * s, a.z * s⟩⟩

def zero : Vec α := ⟨0, 0, 0⟩
def up : Vec α := ⟨0, 0, 1⟩

def dot (a b : Vec α) : α := a.x * b.x + a.y * b.y + a.z * b.z

def cross (a b : Vec α) : Vec α :=
  ⟨a.y * b.z - a.z * b.y, a.z * b.x - a.x * b.z, a.x * b.y - a.y * b.x⟩

def length (a : Vec α) : α := Scalar.sqrt (a.dot a)
def isFinite (a : Vec α) : Bool := a.toList.all Scalar.isFinite

def unit? (a : Vec α) : Option (Vec α) :=
  let l := a.length
  if Scalar.isFinite l && 0 < l then some (a * (1 / l)) else none

def dominantAxis (a : Vec α) : Axis :=
  let x := Scalar.abs a.x
  let y := Scalar.abs a.y
  let z := Scalar.abs a.z
  if y ≤ x && z ≤ x then .x else if z ≤ y then .y else .z

def near (eps : α) (a b : Vec α) : Bool := (a - b).dot (a - b) ≤ eps * eps

end Vec

def tolerance : Float := 1e-9

def looseTolerance : Float := 1e-6

def edges {β : Type} : List β → List (β × β)
  | [] => []
  | a :: l => (a :: l).zip (l ++ [a])

/-- The normal of a closed loop; its length is twice the area of the loop. -/
def loopNormal {α : Type} [Scalar α] (points : List (Vec α)) : Vec α :=
  (edges points).foldl (fun n (a, b) =>
    ⟨n.x + (a.y - b.y) * (a.z + b.z), n.y + (a.z - b.z) * (a.x + b.x),
      n.z + (a.x - b.x) * (a.y + b.y)⟩) Vec.zero

structure Quad (α : Type) where
  x : α
  y : α
  z : α
  w : α
  deriving DecidableEq, Repr

namespace Quad
variable {α β : Type}

def map (f : α → β) (a : Quad α) : Quad β := ⟨f a.x, f a.y, f a.z, f a.w⟩
def toList (a : Quad α) : List α := [a.x, a.y, a.z, a.w]

def ofList? : List α → Option (Quad α)
  | [a, b, c, d] => some ⟨a, b, c, d⟩
  | _ => none

def transpose (m : Quad (Quad α)) : Quad (Quad α) :=
  ⟨m.map Quad.x, m.map Quad.y, m.map Quad.z, m.map Quad.w⟩

def entries (m : Quad (Quad α)) : List α := m.toList.flatMap toList

variable [Scalar α]

def dot (a b : Quad α) : α := a.x * b.x + a.y * b.y + a.z * b.z + a.w * b.w

def times (a : Quad α) (m : Quad (Quad α)) : Quad α := m.transpose.map a.dot

def identity : Quad (Quad α) := ⟨⟨1, 0, 0, 0⟩, ⟨0, 1, 0, 0⟩, ⟨0, 0, 1, 0⟩, ⟨0, 0, 0, 1⟩⟩

def point (a : Quad α) : Vec α := ⟨a.x / a.w, a.y / a.w, a.z / a.w⟩

end Quad
end SceneStream.Geometry
