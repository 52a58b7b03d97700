import SceneStream.Geometry.Vector

/-! Closed rings of vertices in a plane, each a list that starts anywhere on the ring, with the
tests of plane geometry that triangulation asks of them. -/
namespace SceneStream.Geometry

/-- A vertex of the plane, and the point of space that it is the image of. -/
structure Node (α : Type) where
  index : Nat
  u : α
  v : α
  deriving DecidableEq, Repr

namespace Node
variable {α : Type} [Scalar α]

def same (eps : α) (a b : Node α) : Bool :=
  Scalar.abs (a.u - b.u) ≤ eps && Scalar.abs (a.v - b.v) ≤ eps

/-- Positive where the turn from `a` through `b` to `c` is to the left. -/
def turn (a b c : Node α) : α := (b.u - a.u) * (c.v - a.v) - (b.v - a.v) * (c.u - a.u)

def squaredDistance (a b : Node α) : α := (a.u - b.u) * (a.u - b.u) + (a.v - b.v) * (a.v - b.v)

def inTriangle (eps : α) (a b c p : Node α) : Bool :=
  -eps ≤ turn a b p && -eps ≤ turn b c p && -eps ≤ turn c a p

def between (eps : α) (a p b : Node α) : Bool :=
  Scalar.least a.u b.u - eps ≤ p.u && p.u ≤ Scalar.greatest a.u b.u + eps &&
    Scalar.least a.v b.v - eps ≤ p.v && p.v ≤ Scalar.greatest a.v b.v + eps

def straddle (eps x y : α) : Bool := (eps < x && y < -eps) || (x < -eps && eps < y)

def meet (eps : α) (a b c d : Node α) : Bool :=
  let o₁ := turn a b c
  let o₂ := turn a b d
  let o₃ := turn c d a
  let o₄ := turn c d b
  (Scalar.abs o₁ ≤ eps && between eps a c b) || (Scalar.abs o₂ ≤ eps && between eps a d b) ||
    (Scalar.abs o₃ ≤ eps && between eps c a d) || (Scalar.abs o₄ ≤ eps && between eps c b d) ||
    (straddle eps o₁ o₂ && straddle eps o₃ o₄)

end Node

abbrev Ring (α : Type) := List (Node α)

namespace Ring
variable {α : Type}

def startAt {β : Type} (i : Nat) (l : List β) : List β := l.drop i ++ l.take i

def reversed : Ring α → Ring α
  | [] => []
  | a :: l => a :: l.reverse

variable [Scalar α]

/-- Twice the area is the sum over the edges; positive if the ring runs to the left. -/
def area (r : Ring α) : α :=
  (edges r).foldl (fun s (p, q) => s + (p.u * q.v - q.u * p.v)) 0 / (1 + 1)

def collapse (eps : α) (a : Node α) : List (Node α) → Ring α
  | [] => [a]
  | b :: l => if a.same eps b then collapse eps a l else a :: collapse eps b l

/-- Closes the ring: if the last is the same as the first, it takes its place. -/
def close (eps : α) : Ring α → Ring α
  | [] => []
  | a :: l => match l.getLast? with
    | some z => if z.same eps a then z :: l.dropLast else a :: l
    | none => [a]

def distinct? (eps : α) : Ring α → Option (Ring α)
  | [] => none
  | a :: l =>
    let r := close eps (collapse eps a l)
    if 3 ≤ r.length then some r else none

def isLeftOf (a b : Node α) : Bool := a.u < b.u || (Scalar.same a.u b.u && a.v < b.v)

/-- The place of the leftmost member, the lowest of those and the first of equal ones. -/
def leftmost : Ring α → Nat
  | [] => 0
  | a :: l =>
    ((l.zipIdx 1).foldl (fun (best, i) (b, j) => if isLeftOf b best then (b, j) else (best, i))
      (a, 0)).2

end Ring
end SceneStream.Geometry
