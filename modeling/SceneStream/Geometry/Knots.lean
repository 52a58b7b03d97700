import SceneStream.Geometry.Scalar

/-! Knot vectors. The spans of a vector are the intervals between neighbouring knots, and only those
that have a length count. -/
namespace SceneStream.Geometry.Knots
variable {α : Type} [Scalar α]

def knot (knots : List α) (i : Nat) : α := knots.getD i 0

def starts (count order : Nat) (knots : List α) : List Nat :=
  (List.range' (order - 1) (count + 1 - order)).filter fun i => knot knots i < knot knots (i + 1)

def spanCount (count order : Nat) (knots : List α) : Nat :=
  if order = 0 ∨ count < order ∨ knots.length < count + order then 0
  else (starts count order knots).length

end SceneStream.Geometry.Knots
