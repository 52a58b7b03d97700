import SceneStream.Problem
import SceneStream.Value

/-! Arrays in the making. Integers become floats as soon as one float is among them; strings mix
with nothing else, and what does not fit is left out. -/
namespace SceneStream.Stream

structure Collector where
  /-- Values so far, the latest first, and the type of the first piece. -/
  content : Option (Values × BasicType)
  line : Nat
  deriving DecidableEq

namespace Collector

def start (line : Nat) : Collector := ⟨none, line⟩

def mixed (c : Collector) (a b : BasicType) : Problem :=
  (Problem.of .badArray s!"array mixes {a.name} and {b.name} values").atLine c.line

def join? (new old : Values) : Option Values :=
  match new, old with
  | .integers a, .integers b => some (.integers (a ++ b))
  | .strings a, .strings b => some (.strings (a ++ b))
  | .strings _, _ => none
  | _, .strings _ => none
  | new, old => do
    let a ← new.floats?
    let b ← old.floats?
    some (.floats (a ++ b))

def push (c : Collector) (piece : Values) : Collector × Option Problem :=
  match c.content with
  | none => ({ c with content := some (piece.reverse, piece.basic) }, none)
  | some (values, source) => match join? piece.reverse values with
    | some values => ({ c with content := some (values, source) }, none)
    | none => (c, some (c.mixed values.basic piece.basic))

/-- An array without pieces is one of floats. -/
def finish (c : Collector) : Parameter :=
  match c.content with
  | none => .of (.floats []) true
  | some (values, source) => ⟨values.reverse, true, source⟩

end Collector
end SceneStream.Stream
