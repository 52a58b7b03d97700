import SceneStream.Geometry.Patch
import SceneStream.Part
import SceneStream.State.Attributes
import SceneStream.Surface
import SceneStream.Variable

/-! What primitives have in common: where their positions come from, and how the variables bound to
one are carried onto its surfaces. -/
namespace SceneStream.Primitive
open SceneStream.Geometry

structure Setting where
  attributes : Attributes
  layout : Layout
  tolerance : Float

inductive Outcome where
  | surfaces (l : List Surface)
  /-- Bound and found sound, but not made into surfaces. -/
  | bound (vars : Variables)
  | deferred

def reject (kind : RequestKind) (fault : ProblemKind) (message : String) : Problem :=
  .of fault s!"{kind.name}: {message}"

def inconsistent (kind : RequestKind) (message : String) : Problem :=
  reject kind .consistency message

def positive (what : String) : Args.Read Nat := do
  let kind := (← get).kind
  let n ← Args.int
  if 0 < n then return n.toInt.toNat
  else throw (reject kind .range s!"{what} must be positive, found {n.toInt}")

def pointCount : List TokenValue → Declaring Nat
  | [] => return 0
  | t :: rest => do
    match (← get).resolve t.token with
    | .error _ => pointCount rest
    | .ok (d, _, x) =>
      set d
      match x.name with
      | "P" => return t.value.length / 3
      | "Pw" => return t.value.length / 4
      | _ => pointCount rest

def triples {α : Type} : List α → List (Vec α)
  | x :: y :: z :: rest => ⟨x, y, z⟩ :: triples rest
  | _ => []

def quadruples {α : Type} : List α → List (Quad α)
  | x :: y :: z :: w :: rest => ⟨x, y, z, w⟩ :: quadruples rest
  | _ => []

def ofWidth? (vars : Variables) (name : String) (width : Nat) : Option Variable :=
  (vars.get? name).filter (·.width = width)

def homogeneous (kind : RequestKind) (vars : Variables) : Except Problem (List (Quad Float)) :=
  match ofWidth? vars "P" 3, ofWidth? vars "Pw" 4 with
  | some p, _ => .ok ((triples p.doubles).map fun v => ⟨v.x, v.y, v.z, 1⟩)
  | none, some p => .ok (quadruples p.doubles)
  | none, none => .error (reject kind .missingData "\"P\" or \"Pw\" is required")

def positions (kind : RequestKind) (vars : Variables) : Except Problem (List (Vec Float)) := do
  let points ← homogeneous kind vars
  match points.findIdx? fun p => p.w == 0 with
  | some i => throw (reject kind .range s!"point {i} has weight zero")
  | none => return points.map Quad.point

/-- Variables that say where a surface is, and do not travel on it. -/
def isGeometric (name : String) : Bool := ["P", "Pw", "Pz", "N", "Np"].contains name

abbrev Spread := Variable → Except Problem (List Float)

/-- A variable as it travels: whole, or spread over the vertices. Texts cannot be spread. -/
def carried (spread : Spread) (v : Variable) : Except Problem (Option SurfaceVariable) :=
  match v.storage with
  | .constant | .uniform => .ok (some ⟨v.kind, v.width, false, v.values⟩)
  | _ =>
    if v.kind = .string then .ok none
    else (spread v).map fun l =>
      some ⟨v.kind, v.width, true, .floats (l.map Single.ofFloat)⟩

def carry (vars : Variables) (spread : Spread) (s : Surface) : Except Problem Surface := do
  let travelling ← (vars.filter (!isGeometric ·.1)).filterMapM fun (name, v) =>
    return (← carried spread v).map (name, ·)
  return { s with vars := travelling.foldl (fun m (name, v) => m.insert name v) s.vars }

/-- Four values are corners and are spread bilinearly, sixteen are a control net. -/
def patchSpread (kind : RequestKind) (ub vb : Basis Float) (steps : Nat × Nat) : Spread := fun v =>
  let blended := if v.count = 16
    then Patch.bicubicBlend v.doubles v.width ub vb steps.1 steps.2
    else Patch.bilinearBlend v.doubles v.width steps.1 steps.2
  blended.mapError fun f => reject kind f.kind f.message

end SceneStream.Primitive
