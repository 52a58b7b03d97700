import SceneStream.Geometry.Basis
import SceneStream.Geometry.Transform
import SceneStream.Request.Args

/-! Points, matrices and bases among the arguments of a request. -/
namespace SceneStream.Args
open SceneStream.Geometry

def double : Read Float := return (← float).toFloat
def vec : Read (Vec Float) := return ⟨← double, ← double, ← double⟩
def quad : Read (Quad Single) := return ⟨← float, ← float, ← float, ← float⟩
def matrix : Read (Quad (Quad Single)) := return ⟨← quad, ← quad, ← quad, ← quad⟩

def outOfRange (kind : RequestKind) (message : String) : Problem :=
  .of .range s!"{kind.name}: {message}"

def word {α : Type} (what : String) (choice : String → Option α) : Read α := do
  let kind := (← get).kind
  let name ← string
  match choice name with
  | some x => return x
  | none => throw (.of .badToken s!"{kind.name}: unknown {what} \"{name}\"")

def packedMatrix : Read (Quad (Quad Single)) := do
  let kind := (← get).kind
  let values ← floatArray
  match values with
  | [a, b, c, d, e, f, g, h, i, j, k, l, m, n, o, p] =>
    return ⟨⟨a, b, c, d⟩, ⟨e, f, g, h⟩, ⟨i, j, k, l⟩, ⟨m, n, o, p⟩⟩
  | l => throw (.of .consistency
      s!"{kind.name}: basis matrix needs 16 values, found {l.length}")

def bareBasis : Read (Basis Float) := do
  if (← get).peekType = some .string then word "basis" Basis.ofName?
  else return .ofMatrix (← packedMatrix) 1

def basis : Read (Basis Float) := do
  let b ← bareBasis
  let kind := (← get).kind
  let step ← int
  if 0 < step then return b.withStep step.toInt.toNat
  else throw (outOfRange kind s!"basis step {step.toInt} must be positive")

end SceneStream.Args
