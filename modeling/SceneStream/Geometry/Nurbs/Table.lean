import SceneStream.Geometry.Nurbs

/-! Basis functions by a table that is filled in place. A row is made from the row of one degree less and from what lies
to the left and to the right of the parameter, one entry at a time. A look outside of what there is gives `none`, and so
does a division by zero on the way to the values. -/
namespace SceneStream.Geometry.NurbsAxis
variable {α : Type} [Scalar α]

structure Table (α : Type) where
  left : List α
  right : List α
  rows : List (List α)

namespace Table

def enter (x : Table α) (degree : Nat) (lower : List α) (filled : List α × α) (r : Nat) : Option (List α × α) := do
  let right ← x.right[r + 1]?
  let left ← x.left[degree - r]?
  let n ← lower[r]?
  let whole := right + left
  if Scalar.same whole 0 then none
  else
    let part := n / whole
    return (filled.1 ++ [filled.2 + right * part], left * part)

def fill (knots : List α) (t : α) (span : Nat) (x : Table α) (degree : Nat) : Option (Table α) := do
  if span + 1 < degree then none
  else
    let before ← knots[span + 1 - degree]?
    let after ← knots[span + degree]?
    let lower ← x.rows[degree - 1]?
    let x : Table α := { x with left := x.left ++ [t - before], right := x.right ++ [after - t] }
    let (row, saved) ← (List.range degree).foldlM (enter x degree lower) ([], 0)
    return { x with rows := x.rows ++ [row ++ [saved]] }

def ofDegree (knots : List α) (t : α) (span degree : Nat) : Option (Table α) :=
  (List.range' 1 degree).foldlM (fill knots t span) ⟨[0], [0], [[1]]⟩

end Table

def share (knots lower : List α) (degree i r : Nat) : Option α := do
  let n ← lower[r]?
  let length := (← knots[i + degree]?) - (← knots[i]?)
  return if Scalar.same length 0 then 0 else n / length

def slope (knots lower : List α) (span degree r : Nat) : Option α := do
  if span < degree then none
  else
    let i := span - degree + r
    let rising ← (if 0 < r then share knots lower degree i (r - 1) else some 0)
    let falling ← (if r < degree then share knots lower degree (i + 1) r else some 0)
    return Scalar.ofNat degree * (rising - falling)

def basis? (a : NurbsAxis α) (span : Nat) (t : α) : Option (List α × List α) := do
  if a.order = 0 then none
  else
    let x ← Table.ofDegree a.knots t span a.degree
    let values ← x.rows[a.degree]?
    if a.degree = 0 then return (values, [0])
    else
      let lower ← x.rows[a.degree - 1]?
      return (values, ← (List.range (a.degree + 1)).mapM (slope a.knots lower span a.degree))

end SceneStream.Geometry.NurbsAxis
