import SceneStream.Geometry.Basis

/-! Attributes: what an attribute block keeps apart from the transform. -/
namespace SceneStream
open SceneStream.Geometry

inductive Hand where
  | left | right
  deriving DecidableEq, Repr

def Hand.flipped : Hand → Hand
  | left => right
  | right => left

structure Attributes where
  /-- As many components as there are color samples, and so the opacity. -/
  color : List Single
  opacity : List Single
  uBasis : Basis Float
  vBasis : Basis Float
  /-- The hand of the system in which the front faces outwards. -/
  orientation : Hand
  sides : Nat
  tessellation : Nat × Nat

namespace Attributes

def white (samples : Nat) : List Single := List.replicate samples .one

def initial (samples : Nat) (tessellation : Nat × Nat) : Attributes :=
  ⟨white samples, white samples, .bezier, .bezier, .left, 2, tessellation⟩

/-- A new number of color samples makes everything white and opaque. -/
def whiten (samples : Nat) (a : Attributes) : Attributes :=
  { a with color := white samples, opacity := white samples }

def finest : Nat := 4096

end Attributes
end SceneStream
