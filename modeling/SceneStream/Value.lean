import SceneStream.Number.Shortest

/-! Values and parameters. A parameter is a lone value or an array, all of one basic type; `source`
is the type of its first element as it was read, before integers were made floats. -/
namespace SceneStream

inductive BasicType where
  | integer | float | string
  deriving DecidableEq, Repr

def BasicType.name : BasicType → String
  | integer => "integer"
  | float => "float"
  | string => "string"

inductive Values where
  | integers (l : List Int32)
  | floats (l : List Single)
  | strings (l : List String)
  deriving DecidableEq

namespace Values

def length : Values → Nat
  | integers l => l.length
  | floats l => l.length
  | strings l => l.length

def isEmpty (v : Values) : Bool := v.length == 0

def basic : Values → BasicType
  | integers _ => .integer
  | floats _ => .float
  | strings _ => .string

def emptyLike : Values → Values
  | integers _ => integers []
  | floats _ => floats []
  | strings _ => strings []

def slice (start count : Nat) : Values → Values
  | integers l => integers ((l.drop start).take count)
  | floats l => floats ((l.drop start).take count)
  | strings l => strings ((l.drop start).take count)

def append? : Values → Values → Option Values
  | integers a, integers b => some (integers (a ++ b))
  | floats a, floats b => some (floats (a ++ b))
  | strings a, strings b => some (strings (a ++ b))
  | _, _ => none

def reverse : Values → Values
  | integers l => integers l.reverse
  | floats l => floats l.reverse
  | strings l => strings l.reverse

/-- Numbers as singles; no strings at all count as no numbers. -/
def floats? : Values → Option (List Single)
  | integers l => some (l.map fun n => .ofInt n.toInt)
  | floats l => some l
  | strings l => if l.isEmpty then some [] else none

def clamp (n : Int) : Int32 :=
  if n < Int32.minValue.toInt then Int32.minValue
  else if Int32.maxValue.toInt < n then Int32.maxValue
  else Int32.ofInt n

def integers? : Values → Option (List Int32)
  | integers l => some l
  | floats l => l.mapM fun x => x.integer?.map clamp
  | strings l => if l.isEmpty then some [] else none

def convert? (target : BasicType) (v : Values) : Option Values :=
  match target with
  | .float => v.floats?.map floats
  | .integer => v.integers?.map integers
  | .string => match v with
    | strings l => some (strings l)
    | v => if v.isEmpty then some (strings []) else none

/-- Exact doubles; strings have none. -/
def doubles : Values → List Float
  | integers l => l.map fun n => Float.ofInt n.toInt
  | floats l => l.map Single.toFloat
  | strings _ => []

end Values

structure Parameter where
  values : Values
  isArray : Bool
  source : BasicType
  deriving DecidableEq

namespace Parameter

def of (values : Values) (isArray : Bool) : Parameter := ⟨values, isArray, values.basic⟩
def length (p : Parameter) : Nat := p.values.length
def basic (p : Parameter) : BasicType := p.values.basic

def string? (p : Parameter) : Option String :=
  match p.values with
  | .strings [s] => some s
  | _ => none

end Parameter
end SceneStream
