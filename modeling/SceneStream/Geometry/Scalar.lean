import SceneStream.Whole

/-! Numbers that geometry computes with. Shapes that are rational in their input are written for any
such numbers: they run on doubles, and laws of exact arithmetic can be stated of the same
definitions. -/
namespace SceneStream.Geometry

class Scalar (α : Type) extends Add α, Sub α, Mul α, Div α, Neg α, Zero α, One α, LE α, LT α where
  ofNat : Nat → α
  sqrt : α → α
  angle : α → α → α
  isFinite : α → Bool
  /-- A total order on all numbers, the ones that `≤` leaves aside or takes for equal included. -/
  precedes : α → α → Bool
  decideLE : (a b : α) → Decidable (a ≤ b)
  decideLT : (a b : α) → Decidable (a < b)

attribute [reducible, instance] Scalar.decideLE Scalar.decideLT

namespace Scalar
variable {α : Type} [Scalar α]

def abs (x : α) : α := if x < 0 then -x else x
def least (x y : α) : α := if x ≤ y then x else y
def greatest (x y : α) : α := if x ≤ y then y else x

def same (x y : α) : Bool := x ≤ y && y ≤ x

/-- Above every number that is less, negative infinity included. -/
def isBounded (x : α) : Bool := isFinite x || 0 < x

def sum (l : List α) : α := l.foldl (· + ·) 0

def weighted (weights values : List α) : α :=
  (weights.zip values).foldl (fun s (w, x) => s + w * x) 0

end Scalar

/-- Grows with the number, through both zeros and from one infinity to the other. -/
def orderedBits (x : Float) : UInt64 :=
  let b := x.toBits
  if 0x8000000000000000 ≤ b then ~~~b else b ||| 0x8000000000000000

instance : Scalar Float where
  ofNat := Float.ofNat
  sqrt := Float.sqrt
  angle := Float.atan2
  isFinite := Float.isFinite
  precedes x y := orderedBits x ≤ orderedBits y
  decideLE := Float.decLe
  decideLT := Float.decLt

def pi : Float := 3.141592653589793

def radians (degrees : Float) : Float := degrees * (pi / 180)

/-- One or its negative, after the sign of a number, that of a zero included. -/
def signum (x : Float) : Float :=
  if x.isNaN then x else if 0x8000000000000000 ≤ x.toBits then -1 else 1

end SceneStream.Geometry
