import SceneStream.Geometry.Triangulation

/-! Triangulation in one store of links. A ring is a chain of links that leads back to its start, and it is
changed where it is: vertices are taken out of it and joined to it by setting links. What would look
outside of the store, or go on for ever, gives `none`. -/
namespace SceneStream.Geometry

/-- A vertex in its ring, with the places of those before it and after it. -/
structure Link (α : Type) where
  node : Node α
  prev : Nat
  next : Nat
  deriving DecidableEq, Repr

abbrev Links (α : Type) := List (Link α)

namespace Links
variable {α β : Type}

/-- From `p` on until the way is back at `start`. A ring has no more links than the store. -/
def onward (ls : Links α) (start : Nat) (f : β → Nat → Link α → Option β) :
    Nat → Nat → β → Option β
  | 0, _, _ => none
  | fuel + 1, p, s =>
    if p = start then some s
    else do
      let l ← ls[p]?
      onward ls start f fuel l.next (← f s p l)

def around (ls : Links α) (start : Nat) (f : β → Nat → Link α → Option β) (s : β) : Option β := do
  let l ← ls[start]?
  onward ls start f ls.length l.next (← f s start l)

def countFrom (ls : Links α) (start : Nat) : Nat → Nat → Nat → Option Nat
  | 0, _, n => some n
  | fuel + 1, p, n =>
    if p = start then some n
    else do
      let l ← ls[p]?
      countFrom ls start fuel l.next (n + 1)

def count (ls : Links α) (start : Nat) : Option Nat := do
  let l ← ls[start]?
  countFrom ls start ls.length l.next 1

def setNext (ls : Links α) (p next : Nat) : Option (Links α) := do
  let l ← ls[p]?
  return ls.set p { l with next }

def setPrev (ls : Links α) (p prev : Nat) : Option (Links α) := do
  let l ← ls[p]?
  return ls.set p { l with prev }

def unlink (ls : Links α) (p : Nat) : Option (Links α) := do
  let l ← ls[p]?
  (← ls.setNext l.prev l.next).setPrev l.next l.prev

def turnFrom (start : Nat) : Nat → Links α → Nat → Option (Links α)
  | 0, _, _ => none
  | fuel + 1, ls, p => do
    let l ← ls[p]?
    let ls := ls.set p ⟨l.node, l.next, l.prev⟩
    if l.next = start then return ls else turnFrom start fuel ls l.next

def turn (ls : Links α) (start : Nat) : Option (Links α) := turnFrom start ls.length ls start

def join (ls : Links α) (a b : Nat) : Option (Links α) := do
  let x ← ls[a]?
  let y ← ls[b]?
  let c := ls.length
  let ls := ls ++ [⟨x.node, c + 1, x.next⟩, ⟨y.node, y.prev, c⟩]
  let ls ← ls.setNext a b
  let ls ← ls.setPrev b a
  let ls ← ls.setPrev x.next c
  ls.setNext y.prev (c + 1)

inductive Move where
  | drop (p : Nat)
  | turn (start : Nat)
  | join (a b : Nat)
  deriving DecidableEq, Repr

def after (ls : Links α) : Move → Option (Links α)
  | .drop p => ls.unlink p
  | .turn start => ls.turn start
  | .join a b => ls.join a b

structure Run (α : Type) where
  links : Links α
  moves : List Move

def Run.perform (x : Run α) (m : Move) : Option (Run α) := do
  return ⟨← x.links.after m, x.moves ++ [m]⟩

def layOut (ls : Links α) : List (Ring α) → Links α
  | [] => ls
  | r :: rest => layOut (ls ++ r.zipIdx.map fun (n, i) =>
      ⟨n, ls.length + (i + r.length - 1) % r.length, ls.length + (i + 1) % r.length⟩) rest

def cut? : List Nat → List β → Option (List (List β))
  | [], _ => some []
  | n :: sizes, l =>
    if n ≤ l.length then do return l.take n :: (← cut? sizes (l.drop n)) else none

def starts (offset : Nat) : List (Ring α) → List Nat
  | [] => []
  | r :: rest => offset :: starts (offset + r.length) rest

variable [Scalar α]

def distinctFrom (eps : α) (x : Run α) (start cur checked remaining : Nat) :
    Option (Run α × Nat × Nat) :=
  if checked < remaining then do
    let l ← x.links[cur]?
    let n ← x.links[l.next]?
    if 1 < remaining ∧ l.node.same eps n.node then
      let x ← x.perform (.drop l.next)
      distinctFrom eps x (if l.next = start then cur else start) cur checked (remaining - 1)
    else distinctFrom eps x start l.next (checked + 1) remaining
  else some (x, start, remaining)
termination_by remaining - checked

def distinct? (eps : α) (x : Run α) (start : Nat) : Option (Run α × Option Nat) := do
  let (x, start, remaining) ← distinctFrom eps x start start 0 (← x.links.count start)
  return (x, if 3 ≤ remaining then some start else none)

def area (ls : Links α) (start : Nat) : Option α := do
  let sum ← ls.around start (fun s _ l => do
    let n ← ls[l.next]?
    return s + (l.node.u * n.node.v - n.node.u * l.node.v)) 0
  return sum / (1 + 1)

def leftmost (ls : Links α) (start : Nat) : Option Nat := do
  let l ← ls[start]?
  let best ← ls.onward start (fun (best : Node α × Nat) p l =>
    some (if Ring.isLeftOf l.node best.1 then (l.node, p) else best)) ls.length l.next (l.node, start)
  return best.2

def isVisible (eps : α) (ls : Links α) (h t : Node α) (ring : Nat) : Option Bool :=
  ls.around ring (fun clear _ l => do
    let n ← ls[l.next]?
    return clear && (l.node.same eps t || n.node.same eps t || !(Node.meet eps h t l.node n.node))) true

def hit? (eps : α) (ls : Links α) (h : Node α) (ring : Nat) :
    Option (Option ((Node α × Nat) × (Node α × Nat))) := do
  let best ← ls.around ring (fun best p l => do
    let n ← ls[l.next]?
    return Ring.hitStep eps h best ((l.node, p), (n.node, l.next))) none
  return best.map (·.2)

def nearest? (eps : α) (ls : Links α) (h : Node α) (ring : Nat) : Option (Option Nat) := do
  let best ← ls.around ring (fun (best : Option (α × Nat)) p l =>
    let d := l.node.squaredDistance h
    if Ring.isNearer best d then do
      return if ← ls.isVisible eps h l.node ring then some (d, p) else best
    else some best) none
  return best.map (·.2)

def bridge? (eps : α) (ls : Links α) (hole ring : Nat) : Option (Option Nat) := do
  let h ← ls[hole]?
  let ends := ((← ls.hit? eps h.node ring).map (Ring.endsByDistance h.node)).getD []
  let found ← ends.findM? fun c =>
    if c.1.u ≤ h.node.u + eps then ls.isVisible eps h.node c.1 ring else some false
  match found with
  | some c => return some c.2
  | none => ls.nearest? eps h.node ring

def corner? (ls : Links α) (l : Link α) : Option (Ring.Corner α) := do
  return ⟨(← ls[l.prev]?).node, l.node, (← ls[l.next]?).node⟩

def isEar (eps : α) (ls : Links α) (l : Link α) : Option Bool := do
  let c ← ls.corner? l
  let n ← ls[l.next]?
  ls.onward l.prev (fun clear _ m => do
    return clear && !c.blockedBy eps (← ls.corner? m)) ls.length n.next true

def ear? (eps : α) (ls : Links α) (start : Nat) : Option (Option Nat) := do
  let best ← ls.around start (fun (best : Option (α × Nat)) p l => do
    let c ← ls.corner? l
    if eps < c.turn && Ring.isSharper best c.angle then
      return if ← ls.isEar eps l then some (c.angle, p) else best
    else return best) none
  return best.map (·.2)

def flat? (eps : α) (ls : Links α) (start : Nat) : Option (Option Nat) :=
  ls.around start (fun found p l => do
    let c ← ls.corner? l
    return found.or (if Scalar.abs c.turn ≤ eps then some p else none)) none

def clip (eps : α) : Nat → Run α → Nat → Option (Except Nat (List Triangle) × Run α)
  | 0, x, start => do
    let c ← x.links.corner? (← x.links[start]?)
    return (.ok (if eps < c.turn then [c.triangle] else []), x)
  | n + 1, x, start => do
    match ← x.links.ear? eps start with
    | some p =>
      let l ← x.links[p]?
      let c ← x.links.corner? l
      let x ← x.perform (.drop p)
      let (rest, x) ← clip eps n x (if p = start then l.next else start)
      return (rest.map (c.triangle :: ·), x)
    | none =>
      match ← x.links.flat? eps start with
      | some p =>
        let l ← x.links[p]?
        let x ← x.perform (.drop p)
        clip eps n x (if p = start then l.next else start)
      | none => return (.error (n + 4), x)

def hole? (eps : α) (x : Run α) (start : Nat) : Option (Run α × Option Nat) := do
  let (x, kept) ← distinct? eps x start
  match kept with
  | none => return (x, none)
  | some start =>
    let area ← x.links.area start
    if Scalar.abs area ≤ eps then return (x, none)
    else
      let x ← if 0 < area then x.perform (.turn start) else some x
      return (x, some (← x.links.leftmost start))

def holes (eps : α) : List (Nat × Nat) → Run α → Option (Run α × List (Nat × Nat))
  | [], x => some (x, [])
  | (number, start) :: rest, x => do
    let (x, found) ← hole? eps x start
    let (x, later) ← holes eps rest x
    return (x, (found.map (number, ·)).toList ++ later)

def before (a b : Node α) : Bool :=
  let left := Scalar.precedes a.u b.u
  if left && Scalar.precedes b.u a.u then Scalar.precedes a.v b.v else left

def attach (eps : α) : List (Nat × Nat) → Run α → Nat → Option (Except TriangulationFault Nat × Run α)
  | [], x, outer => some (.ok outer, x)
  | (number, hole) :: rest, x, outer => do
    match ← x.links.bridge? eps hole outer with
    | none => return (.error (.noBridge number), x)
    | some a => attach eps rest (← x.perform (.join a hole)) a

def ofStarts (eps : α) (x : Run α) (outer : Nat) (rings : List (Nat × Nat)) :
    Option (Except TriangulationFault (List Triangle) × Run α) := do
  let (x, kept) ← distinct? eps x outer
  match kept with
  | none => return (.error .degenerate, x)
  | some outer =>
    if (← x.links.area outer) ≤ eps then return (.error .degenerate, x)
    else
      let (x, found) ← holes eps rings x
      let placed ← found.mapM fun h => do return (h, (← x.links[h.2]?).node)
      let sorted := (placed.mergeSort fun a b => before a.2 b.2).map (·.1)
      match ← attach eps sorted x outer with
      | (.error f, x) => return (.error f, x)
      | (.ok ring, x) =>
        match ← clip eps ((← x.links.count ring) - 3) x ring with
        | (.ok [], x) => return (.error .degenerate, x)
        | (.ok ts, x) => return (.ok ts, x)
        | (.error left, x) => return (.error (.noEar left), x)

end Links

/-- As `triangulate`, with all that is done to the links of the loops. -/
def triangulateLinks {α : Type} [Scalar α] (eps : α) (points : List (Vec α)) (loops : List Nat) :
    Option (Except TriangulationFault (List Triangle) × Links.Run α) :=
  let total := loops.sum
  let refused (f : TriangulationFault) := some (.error f, ⟨[], []⟩)
  if total ≠ points.length then refused (.loopMismatch total points.length)
  else match loops.zipIdx.find? (·.1 < 3) with
  | some (count, place) => refused (.tooFewVertices place count)
  | none =>
    if points.any (!·.isFinite) then refused .nonFinite
    else do
      let normal := loopNormal (points.take (loops.headD 0))
      let plane := Triangulation.Plane.of normal
      let rings ← Links.cut? loops (points.zipIdx.map fun (p, i) => plane.project i p)
      match Links.starts 0 rings with
      | [] => refused (.tooFewVertices 0 0)
      | outer :: holes =>
        if normal.length ≤ eps then refused .degenerate
        else Links.ofStarts eps ⟨Links.layOut [] rings, []⟩ outer ((holes.zipIdx 1).map fun (s, i) => (i, s))

end SceneStream.Geometry
