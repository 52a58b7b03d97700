import SceneStream.Named
import SceneStream.Request.Spatial
import SceneStream.State.Attributes
import SceneStream.Variable

/-! The graphics state. An attribute block keeps the attributes and the transform, a transform block
the transform alone; coordinate systems are global, except those that belong to the attribute block
in which they were named. -/
namespace SceneStream
open SceneStream.Geometry

structure Frame where
  attributes : Attributes
  transform : Transform Float
  localSystems : List (String × Option (Transform Float))

structure State where
  attributes : Attributes
  transform : Transform Float
  /-- Open attribute blocks, the innermost first. -/
  frames : List Frame
  /-- Transforms kept by open transform blocks, the innermost first. -/
  transforms : List (Transform Float)
  systems : Named (Transform Float)
  /-- Systems of the current attribute block with what they hide, the latest first. -/
  localSystems : List (String × Option (Transform Float))

namespace State

def initial (samples : Nat) (tessellation : Nat × Nat) : State :=
  ⟨.initial samples tessellation, .identity, [], [], [], []⟩

def depth (s : State) : Nat := s.frames.length

def hand (s : State) : Hand := if s.transform.handedness < 0 then .right else .left

def isReversed (s : State) : Bool := s.attributes.orientation != s.hand

def system? (s : State) (name : String) : Option (Transform Float) := s.systems.get? name

def pushAttributes (s : State) : State :=
  { s with frames := ⟨s.attributes, s.transform, s.localSystems⟩ :: s.frames, localSystems := [] }

def restore (systems : Named (Transform Float))
    (localSystems : List (String × Option (Transform Float))) : Named (Transform Float) :=
  localSystems.foldl (fun m (name, hidden) => match hidden with
    | some t => m.insert name t
    | none => m.erase name) systems

def popAttributes (s : State) : Except Problem State :=
  match s.frames with
  | [] => .error (.of .internal "attribute stack underflow")
  | f :: rest => .ok { s with
      attributes := f.attributes, transform := f.transform, frames := rest,
      localSystems := f.localSystems, systems := restore s.systems s.localSystems }

def pushTransform (s : State) : State := { s with transforms := s.transform :: s.transforms }

def popTransform (s : State) : Except Problem State :=
  match s.transforms with
  | [] => .error (.of .internal "transform stack underflow")
  | t :: rest => .ok { s with transform := t, transforms := rest }

/-- What was the current system is the camera now, and the world starts afresh. -/
def beginWorld (s : State) : State :=
  let p := s.pushAttributes
  { p with
    transform := .identity
    systems := (p.systems.insert "camera" s.transform).insert "world" .identity }

def setColorSamples (samples : Nat) (s : State) : State :=
  { s with
    attributes := s.attributes.whiten samples
    frames := s.frames.map fun f => { f with attributes := f.attributes.whiten samples } }

def concat (t : Transform Float) (s : State) : State :=
  { s with transform := s.transform.compose t }

def define (name : String) (s : State) : State :=
  { s with systems := s.systems.insert name s.transform }

def defineScoped (name : String) (s : State) : State :=
  { s.define name with localSystems := (name, s.system? name) :: s.localSystems }

def unknownSystem (kind : RequestKind) (name : String) : Problem :=
  .of .badHandle s!"{kind.name}: unknown coordinate system \"{name}\""

def transformed (kind : RequestKind) (s : State) : Args.Read State := do
  let orRange (t : Option (Transform Float)) (message : String) : Args.Read State :=
    match t with
    | some t => return s.concat t
    | none => throw (Args.outOfRange kind message)
  match kind with
  | .identity => return { s with transform := .identity }
  | .transform => return { s with transform := .ofMatrix (← Args.matrix) }
  | .concatTransform => return s.concat (.ofMatrix (← Args.matrix))
  | .perspective =>
    let fov ← Args.float
    orRange (Transform.perspective? fov.toFloat) s!"field of view {fov.text} must lie in (0, 180)"
  | .translate => return s.concat (.translate (← Args.vec))
  | .scale => return s.concat (.scale (← Args.vec))
  | .rotate =>
    let degrees ← Args.double
    orRange (Transform.rotate? degrees (← Args.vec)) "rotation axis has zero length"
  | .skew =>
    let degrees ← Args.double
    let d ← Args.vec
    let e ← Args.vec
    orRange (Transform.skew? degrees d e) s!"cannot skew by {doubleText degrees} degrees"
  | .coordinateSystem => return s.define (← Args.string)
  | .scopedCoordinateSystem => return s.defineScoped (← Args.string)
  | .coordSysTransform =>
    let name ← Args.string
    match s.system? name with
    | some t => return { s with transform := t }
    | none => throw (unknownSystem kind name)
  | _ => return s

def applyTransform (r : Request) (s : State) : Except Problem State :=
  Args.read r (s.transformed r.kind)

end State
end SceneStream
