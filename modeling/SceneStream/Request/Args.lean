import SceneStream.Problem
import SceneStream.Request.Basic

/-! Reading arguments by position. Numbers may stand alone or be packed in arrays, and a reader of
single numbers walks through an array; a reader of a whole array wants to stand before one. -/
namespace SceneStream

structure Args where
  kind : RequestKind
  params : List Parameter
  /-- Elements already taken from the first parameter. -/
  offset : Nat
  deriving DecidableEq

structure TokenValue where
  token : String
  value : Parameter
  deriving DecidableEq

namespace Args

def of (r : Request) : Args := ⟨r.kind, r.params, 0⟩
def peek (a : Args) : Option Parameter := a.params.head?
def peekType (a : Args) : Option BasicType := a.peek.map Parameter.basic
def isDone (a : Args) : Bool := a.params.isEmpty

/-- A reader keeps its place also when it fails. -/
abbrev Read := ExceptT Problem (StateM Args)

def missing (a : Args) (what : String) : Problem :=
  .of .missingData s!"{a.kind.name}: missing {what} argument"

def wrongType (a : Args) (what : String) (found : BasicType) : Problem :=
  .of .consistency s!"{a.kind.name}: expected {what} argument, found {found.name}"

def split (a : Args) : Problem :=
  .of .consistency s!"{a.kind.name}: array argument split across positions"

def advance (a : Args) (p : Parameter) : Args :=
  if p.length ≤ a.offset + 1 then { a with params := a.params.tail, offset := 0 }
  else { a with offset := a.offset + 1 }

def advanceWhole (a : Args) : Args := { a with params := a.params.tail, offset := 0 }

def float : Read Single := do
  let a ← get
  let some p := a.peek | throw (a.missing "float")
  let value ← match p.values with
    | .floats l => pure l[a.offset]?
    | .integers l => pure (l[a.offset]?.map fun n => .ofInt n.toInt)
    | .strings _ => throw (a.wrongType "float" .string)
  let some x := value | throw (a.missing "float")
  set (a.advance p)
  return x

def fits (n : Int) : Bool := Int32.minValue.toInt ≤ n && n ≤ Int32.maxValue.toInt

def int : Read Int32 := do
  let a ← get
  let some p := a.peek | throw (a.missing "integer")
  let value ← match p.values with
    | .integers l => pure l[a.offset]?
    | .floats l => match l[a.offset]? with
      | some x => match x.integer? with
        | some n =>
          if fits n then pure (some (Int32.ofInt n))
          else throw (.of .consistency
            s!"{a.kind.name}: expected integer argument, found {x.text}")
        | none => throw (.of .consistency
            s!"{a.kind.name}: expected integer argument, found {x.text}")
      | none => pure none
    | .strings _ => throw (a.wrongType "integer" .string)
  let some n := value | throw (a.missing "integer")
  set (a.advance p)
  return n

def floatList : Nat → Read (List Single)
  | 0 => return []
  | n + 1 => do
    let x ← float
    let rest ← floatList n
    return x :: rest

def float2 : Read (Single × Single) := return (← float, ← float)
def float3 : Read (Single × Single × Single) := return (← float, ← float2)
def float4 : Read (Single × Single × Single × Single) := return (← float, ← float3)

def whole {α : Type} (what : String) (view : Parameter → Option α) : Read α := do
  let a ← get
  if a.offset ≠ 0 then throw a.split
  let some p := a.peek | throw (a.missing what)
  let some x := view p | throw (a.wrongType what p.basic)
  set a.advanceWhole
  return x

def floatArray : Read (List Single) := whole "float array" fun p => p.values.floats?
def intArray : Read (List Int32) := whole "integer array" fun p => p.values.integers?
def string : Read String := whole "string" Parameter.string?

def stringArray : Read (List String) := whole "string array" fun p =>
  match p.values with
  | .strings l => some l
  | v => if v.isEmpty then some [] else none

def counts (kind : RequestKind) : List Int32 → Except Problem (List Nat)
  | [] => .ok []
  | n :: rest =>
    if n < 0 then .error (.of .range s!"{kind.name}: negative count or index {n.toInt}")
    else (counts kind rest).map (n.toInt.toNat :: ·)

def countArray : Read (List Nat) := do
  let l ← intArray
  let a ← get
  ExceptT.mk (pure (counts a.kind l))

def pairs (kind : RequestKind) : List Parameter → Except Problem (List TokenValue)
  | [] => .ok []
  | p :: rest =>
    match p.string? with
    | none => .error (.of .badToken
        s!"{kind.name}: expected a parameter token, found {p.basic.name} value")
    | some token => match rest with
      | [] => .error (.of .missingData s!"{kind.name}: parameter \"{token}\" has no value")
      | value :: rest => (pairs kind rest).map (⟨token, value⟩ :: ·)

def tokenList : Read (List TokenValue) := do
  let a ← get
  if a.offset ≠ 0 then throw a.split
  ExceptT.mk (pure (pairs a.kind a.params))

def read {α : Type} (r : Request) (m : Read α) : Except Problem α := (m.run (of r)).1

end Args
end SceneStream
