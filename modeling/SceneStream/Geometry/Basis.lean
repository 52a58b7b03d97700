import SceneStream.Geometry.Vector
import SceneStream.Number.Single

/-! Cubic bases. The weights of four control values are the row of powers of the parameter times the
matrix of the basis; the step is how far the next patch of a mesh starts. -/
namespace SceneStream.Geometry

structure Basis (α : Type) where
  matrix : Quad (Quad α)
  step : Nat
  deriving DecidableEq, Repr

namespace Basis
variable {α : Type} [Scalar α]

def weights (b : Basis α) (t : α) : Quad α × Quad α :=
  let powers : Quad α := ⟨t * t * t, t * t, t, 1⟩
  let slopes : Quad α := ⟨Scalar.ofNat 3 * t * t, Scalar.ofNat 2 * t, 1, 0⟩
  (powers.times b.matrix, slopes.times b.matrix)

def withStep (b : Basis α) (step : Nat) : Basis α := { b with step }

def bezier : Basis Float :=
  ⟨⟨⟨-1, 3, -3, 1⟩, ⟨3, -6, 3, 0⟩, ⟨-3, 3, 0, 0⟩, ⟨1, 0, 0, 0⟩⟩, 3⟩

def bSpline : Basis Float :=
  ⟨⟨⟨-1 / 6, 3 / 6, -3 / 6, 1 / 6⟩, ⟨3 / 6, -6 / 6, 3 / 6, 0⟩, ⟨-3 / 6, 0, 3 / 6, 0⟩,
    ⟨1 / 6, 4 / 6, 1 / 6, 0⟩⟩, 1⟩

def catmullRom : Basis Float :=
  ⟨⟨⟨-0.5, 1.5, -1.5, 0.5⟩, ⟨1, -2.5, 2, -0.5⟩, ⟨-0.5, 0, 0.5, 0⟩, ⟨0, 1, 0, 0⟩⟩, 1⟩

def hermite : Basis Float :=
  ⟨⟨⟨2, 1, -2, 1⟩, ⟨-3, -2, 3, -1⟩, ⟨0, 1, 0, 0⟩, ⟨1, 0, 0, 0⟩⟩, 2⟩

def power : Basis Float := ⟨Quad.identity, 4⟩

def ofName? : String → Option (Basis Float)
  | "bezier" => some bezier
  | "b-spline" | "bspline" => some bSpline
  | "catmull-rom" | "catmullrom" => some catmullRom
  | "hermite" => some hermite
  | "power" => some power
  | _ => none

def ofMatrix (m : Quad (Quad Single)) (step : Nat) : Basis Float :=
  ⟨m.map fun r => r.map Single.toFloat, step⟩

end Basis
end SceneStream.Geometry
