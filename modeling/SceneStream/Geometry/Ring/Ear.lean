import SceneStream.Geometry.Grid
import SceneStream.Geometry.Ring

/-! Ears of a ring: corners that can be cut off with a triangle. The sharpest goes first; a flat
corner is dropped without one when no ear is left. -/
namespace SceneStream.Geometry.Ring

structure Corner (α : Type) where
  before : Node α
  node : Node α
  after : Node α

namespace Corner
variable {α : Type} [Scalar α]

def turn (c : Corner α) : α := Node.turn c.before c.node c.after

def angle (c : Corner α) : α :=
  let a := c.before
  let b := c.node
  let d := c.after
  Scalar.angle c.turn ((a.u - b.u) * (d.u - b.u) + (a.v - b.v) * (d.v - b.v))

def triangle (c : Corner α) : Triangle := ⟨c.before.index, c.node.index, c.after.index⟩

/-- Whether the corner at `p` keeps this one from being an ear. Those that share a place with it, as
both sides of a bridge do, never do. -/
def blockedBy (eps : α) (c p : Corner α) : Bool :=
  !(p.node.same eps c.before || p.node.same eps c.node || p.node.same eps c.after) &&
    Node.inTriangle eps c.before c.node c.after p.node && p.turn ≤ eps

end Corner

variable {α : Type} [Scalar α]

def corners (r : Ring α) : List (Corner α) :=
  ((startAt (r.length - 1) r).zip (r.zip (startAt 1 r))).map fun (a, b, c) => ⟨a, b, c⟩

def isEar (eps : α) (cs : List (Corner α)) (i : Nat) (c : Corner α) : Bool :=
  ((startAt i cs).drop 2).dropLast.all fun p => !c.blockedBy eps p

def isSharper (best : Option (α × Nat)) (angle : α) : Bool :=
  match best with
  | none => Scalar.isFinite angle
  | some (a, _) => angle < a

def ear? (eps : α) (cs : List (Corner α)) : Option Nat :=
  (cs.zipIdx.foldl (fun (best : Option (α × Nat)) (c, i) =>
    if eps < c.turn && isSharper best c.angle && isEar eps cs i c then some (c.angle, i)
    else best) none).map (·.2)

def flat? (eps : α) (cs : List (Corner α)) : Option Nat :=
  cs.findIdx? fun c => Scalar.abs c.turn ≤ eps

def lastTriangle (eps : α) (r : Ring α) : List Triangle :=
  match corners r with
  | c :: _ => if eps < c.turn then [c.triangle] else []
  | [] => []

/-- Cuts corners off until three are left, `n` being the number to cut. What is left without an ear
and without a flat corner is told by its length. -/
def clip (eps : α) : Nat → Ring α → Except Nat (List Triangle)
  | 0, r => .ok (lastTriangle eps r)
  | n + 1, r =>
    let cs := corners r
    match ear? eps cs with
    | some i => (clip eps n (r.eraseIdx i)).map ((cs[i]?.map Corner.triangle).toList ++ ·)
    | none => match flat? eps cs with
      | some i => clip eps n (r.eraseIdx i)
      | none => .error r.length

end SceneStream.Geometry.Ring
