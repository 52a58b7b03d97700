import SceneStream.Geometry.Ring

/-! Bridges from a hole to the ring around it. A bridge makes one ring of the two; it is walked
twice, once each way, so it adds no area. -/
namespace SceneStream.Geometry.Ring

variable {α : Type} [Scalar α]

def isVisible (eps : α) (h t : Node α) (r : Ring α) : Bool :=
  (edges r).all fun (c, d) => c.same eps t || d.same eps t || !(Node.meet eps h t c d)

/-- The furthest crossing so far of the ray from `h` to the left, with the edge that it crosses; ends have the
places they are found at. -/
abbrev Crossing (α : Type) := α × (Node α × Nat) × (Node α × Nat)

def hitStep (eps : α) (h : Node α) (best : Option (Crossing α)) (edge : (Node α × Nat) × (Node α × Nat)) :
    Option (Crossing α) :=
  let (a, b) := edge
  if decide (h.v < a.1.v) == decide (h.v < b.1.v) then best
  else
    let t := (h.v - a.1.v) / (b.1.v - a.1.v)
    let u := a.1.u + t * (b.1.u - a.1.u)
    let further := match best with
      | none => Scalar.isBounded u
      | some (w, _) => w < u
    if u ≤ h.u + eps && further then some (u, a, b) else best

def hit? (eps : α) (h : Node α) (r : Ring α) : Option ((Node α × Nat) × (Node α × Nat)) :=
  ((edges r.zipIdx).foldl (hitStep eps h) none).map (·.2)

def isNearer (best : Option (α × Nat)) (d : α) : Bool :=
  match best with
  | none => Scalar.isFinite d
  | some (e, _) => d < e

def nearest? (eps : α) (h : Node α) (r : Ring α) : Option Nat :=
  (r.zipIdx.foldl (fun (best : Option (α × Nat)) (n, i) =>
    let d := n.squaredDistance h
    if isNearer best d && isVisible eps h n r then some (d, i) else best) none).map (·.2)

def endsByDistance (h : Node α) (edge : (Node α × Nat) × (Node α × Nat)) : List (Node α × Nat) :=
  let (a, b) := edge
  if Scalar.precedes (a.1.squaredDistance h) (b.1.squaredDistance h) then [a, b] else [b, a]

/-- The place of a member visible from `h`: an end of the edge to the left, the nearer one first, or
else the nearest of all. -/
def bridge? (eps : α) (h : Node α) (r : Ring α) : Option Nat :=
  let ends := ((hit? eps h r).map (endsByDistance h)).getD []
  match ends.find? fun c => c.1.u ≤ h.u + eps && isVisible eps h c.1 r with
  | some c => some c.2
  | none => nearest? eps h r

def join (outer : Ring α) (i : Nat) (hole : Ring α) : Ring α :=
  match startAt i outer, hole with
  | a :: l, b :: m => a :: b :: m ++ b :: a :: l
  | r, _ => r

end SceneStream.Geometry.Ring
