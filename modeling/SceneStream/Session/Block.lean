import SceneStream.Session.Basic

/-! Blocks of a session. The mode stack and the graphics state are pushed and popped together. -/
namespace SceneStream.Session

def reset (s : Session) : Session :=
  { s with
    dictionary := .initial
    state := .initial Dictionary.initial.colorSamples s.options.tessellation
    objects := [], archives := [], motion := none, layout := s.options.layout }

def entered (m : Mode) (s : Session) : Session :=
  match m with
  | .context => s.reset
  | .frame | .attributes | .solid => { s with state := s.state.pushAttributes }
  | .world => { s with state := s.state.beginWorld }
  | .transform => { s with state := s.state.pushTransform }
  | .motion => { s with motion := some 0 }
  | .object | .resource | .archive => s

def enter (m : Mode) : Run Unit := do
  let modes ← Run.lift ((← get).modes.push m)
  modify fun s => entered m { s with modes }

def leave (m : Mode) : Run Unit := do
  let modes ← Run.lift ((← get).modes.pop m)
  modify fun s => { s with modes }
  match m with
  | .frame | .world | .attributes | .solid =>
    let state ← Run.lift (← get).state.popAttributes
    modify fun s => { s with state }
  | .transform =>
    let state ← Run.lift (← get).state.popTransform
    modify fun s => { s with state }
  | .motion => modify fun s => { s with motion := none }
  | .context | .object | .resource | .archive => pure ()

def endContext : Run Unit := do
  let (modes, warning) := (← get).modes.teardown
  modify fun s => { s with modes }
  if let some p := warning then Run.report p

def record (target : Target) : Run Unit :=
  modify fun s => { s with recording := some ⟨target, [], 0⟩ }

def keep (x : Recording) : Run Unit := do
  modify fun s => { s with recording := none }
  match x.target with
  | .object h =>
    leave .object
    modify fun s => { s with objects := (h, x.requests.reverse) :: s.objects }
  | .archive name =>
    leave .archive
    modify fun s => { s with archives := (name, x.requests.reverse) :: s.archives }

end SceneStream.Session
