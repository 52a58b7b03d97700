import SceneStream.Request.Kind
import SceneStream.Value

/-! A request: its kind, the line of its name, and its parameters in order. -/
namespace SceneStream

structure Request where
  kind : RequestKind
  line : Nat
  params : List Parameter
  deriving DecidableEq

/-- Values given by position; an array counts with all its elements. -/
def Request.valueCount (r : Request) : Nat :=
  (r.params.map fun p => if p.isArray then p.length else 1).sum

structure Comment where
  text : String
  structured : Bool
  line : Nat
  deriving DecidableEq, Repr

inductive Entry where
  | request (r : Request)
  | comment (c : Comment)
  deriving DecidableEq

end SceneStream
