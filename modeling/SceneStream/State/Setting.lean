import SceneStream.State

/-! Requests that set attributes. Those that make no difference to a surface are accepted as they
are. -/
namespace SceneStream.State

def resolution (kind : RequestKind) (x : Single) : Except Problem Nat :=
  let text := doubleText x.toFloat
  if !x.isPositiveCount then
    .error (Args.outOfRange kind s!"tessellation resolution {text} must be positive")
  else if Attributes.finest < x.roundUp then
    .error (Args.outOfRange kind
      s!"tessellation resolution {text} exceeds {Attributes.finest}")
  else .ok x.roundUp

def tessellationParameter (kind : RequestKind) (steps : Nat × Nat) (t : TokenValue) :
    Declaring (Nat × Nat) := do
  let x ← Declaring.resolve t.token
  let some value := t.value.values.floats?.bind List.head?
    | throw (.of .consistency s!"{kind.name}: \"{t.token}\" needs a number")
  let n ← Declaring.lift (resolution kind value)
  match x.name with
  | "u" => return (n, steps.2)
  | "v" => return (steps.1, n)
  | other => throw (.of .badToken s!"{kind.name}: unknown tessellation parameter \"{other}\"")

/-- An orientation by name; two of them depend on the current system. -/
def orientation? (s : State) : String → Option Hand
  | "outside" => some s.hand
  | "inside" => some s.hand.flipped
  | "lh" => some .left
  | "rh" => some .right
  | _ => none

def attributed (kind : RequestKind) (samples : Nat) (s : State) : Args.Read Attributes := do
  let a := s.attributes
  match kind with
  | .color => return { a with color := ← Args.floatList samples }
  | .opacity => return { a with opacity := ← Args.floatList samples }
  | .basis =>
    let u ← Args.basis
    let v ← Args.basis
    return { a with uBasis := u, vBasis := v }
  | .orientation => return { a with orientation := ← Args.word "orientation" s.orientation? }
  | .reverseOrientation => return { a with orientation := a.orientation.flipped }
  | .sides =>
    let n ← Args.int
    if n = 1 ∨ n = 2 then return { a with sides := n.toInt.toNat }
    else throw (Args.outOfRange kind s!"sides must be 1 or 2, found {n.toInt}")
  | .geometricApproximation =>
    let name ← Args.string
    let value ← Args.float
    if name = "tessellation" then
      let n ← ExceptT.mk (pure (resolution kind value))
      return { a with tessellation := (n, n) }
    else return a
  | _ => return a

def applyAttribute (r : Request) (s : State) : Declaring State := do
  if r.kind = .setAttribute then
    let (name, list) ← Declaring.lift (Args.read r do
      let name ← Args.string
      return (name, ← Args.tokenList))
    if name = "tessellation" then
      let steps ← list.foldlM (tessellationParameter r.kind) s.attributes.tessellation
      return { s with attributes := { s.attributes with tessellation := steps } }
    else return s
  else
    let samples := (← get).colorSamples
    let a ← Declaring.lift (Args.read r (s.attributed r.kind samples))
    return { s with attributes := a }

end SceneStream.State
