import SceneStream.Primitive
import SceneStream.Session.Block
import SceneStream.State.Setting
import SceneStream.Stream.Item

/-! What each request does to a session. Archives and objects are played one level deeper, by a
player that is given from outside; where there is none, the limit is reached. -/
namespace SceneStream.Session

/-- Carries out the requests of a level. -/
abbrev Player := Option (Session → Request → Session)

def tooDeep (kind : RequestKind) (s : Session) : Problem :=
  .of .limit s!"{kind.name}: nesting deeper than {s.options.maxDepth} levels"

def deeper (play : Player) (kind : RequestKind)
    (work : (Session → Request → Session) → Session → Session) : Run Unit := do
  let s ← get
  match play with
  | none => throw (tooDeep kind s)
  | some f =>
    modify fun s => { work f { s with depth := s.depth + 1 } with depth := s.depth }
    if (← get).crashed then throw (.crash s!"{kind.name}: ended by a request that was played")

def replay (play : Player) (kind : RequestKind) (rs : List Request) : Run Unit :=
  deeper play kind fun f s => rs.foldl f s

def take (f : Session → Request → Session) (s : Session) (x : Stream.Item) : Session :=
  if s.aborted then s
  else match x with
  | .ok (.request r) => f s r
  | .ok (.comment c) => if c.structured then s.tell (.comment c) else s
  | .error p => s.report p

def readWith (f : Session → Request → Session) (source : Stream.Source) (name : String)
    (s : Session) : Session :=
  { source.items.foldl (take f) { s with stream := some name } with stream := s.stream }

def readArchive (play : Player) (name : String) : Run Unit := do
  let s ← get
  match s.archives.lookup name with
  | some rs => replay play .readArchive rs
  | none =>
    if play.isNone then throw (tooDeep .readArchive s)
    let path := s.options.archivePath name
    match s.files.openSource path with
    | .error e =>
      throw (.of .noFile s!"ReadArchive: cannot open {path}: {e.message}")
    | .ok source => deeper play .readArchive fun f s => readWith f source name s

def dressed (s : Session) (surface : Surface) : Surface :=
  let a := s.state.attributes
  let color (values : List Single) : SurfaceVariable :=
    ⟨.color, s.dictionary.colorSamples, false, .floats values⟩
  let withDefault (vars : Named SurfaceVariable) (name : String) (values : List Single) :=
    if vars.contains name then vars else vars.insert name (color values)
  { surface with
    transform := s.state.transform.matrix
    reversed := s.state.isReversed
    twoSided := a.sides == 2
    vars := withDefault (withDefault surface.vars "Cs" a.color) "Os" a.opacity }

/-- Surfaces are checked before they are told. -/
def emit (surface : Surface) : Run Unit := do
  let surface := (← get).dressed surface
  match surface.fault? with
  | some f => throw (.of .internal s!"{surface.primitive.name}: {f.message}")
  | none => Run.tell (.surface surface)

def setting (s : Session) : Primitive.Setting :=
  ⟨s.state.attributes, s.layout, s.options.tolerance⟩

def tessellate (r : Request) : Run Unit := do
  match ← Run.declaring (Primitive.tessellate (← get).setting r) with
  | .surfaces l => l.forM emit
  | .bound vars => Run.tell (.unsupported r.kind vars)
  | .deferred => pure ()

def layoutOption (t : TokenValue) : Run Unit := do
  let x ← Run.declaring (Declaring.resolve t.token)
  if x.name = "layout" then
    let name := t.value.string?.getD ""
    match Layout.ofName? name with
    | some layout => modify fun s => { s with layout }
    | none => throw (.of .badToken s!"Option \"tessellation\": unknown layout \"{name}\"")

def declare (r : Request) : Run Unit := do
  let (name, text) ← Run.lift (Args.read r (return (← Args.string, ← Args.string)))
  let (d, _, replaced) ← Run.lift ((← get).dictionary.declare name text)
  modify fun s => { s with dictionary := d }
  if replaced then
    let p := Problem.of .consistency s!"\"{name}\" redeclared as \"{text}\""
    Run.report ((p.withSeverity .info).atLine r.line)

def colorSamples (r : Request) : Run Unit := do
  let (there, back) ← Run.lift (Args.read r do
    return ((← Args.floatArray).length, (← Args.floatArray).length))
  if there % 3 ≠ 0 ∨ there ≠ back then
    throw (.of .consistency
      s!"ColorSamples: conversion matrices of {there} and {back} values do not match")
  let d ← Run.lift ((← get).dictionary.setColorSamples (there / 3))
  modify fun s => { s with dictionary := d, state := s.state.setColorSamples (there / 3) }

def beginSolid (r : Request) : Run Unit := do
  let operation ← Run.lift (Args.read r Args.string)
  unless ["primitive", "union", "intersection", "difference"].contains operation do
    throw (.of .badToken s!"SolidBegin: unknown operation \"{operation}\"")
  enter .solid
  if operation ≠ "primitive" then
    let p := Problem.of .unimplemented s!"SolidBegin \"{operation}\": members are emitted unchanged"
    Run.report (p.atLine r.line)

def option (r : Request) : Run Unit := do
  let list ← Run.lift (Args.read r do
    if (← Args.string) = "tessellation" then Args.tokenList else return [])
  list.forM layoutOption

def applyPlain (play : Player) (r : Request) : Run Unit := do
  let read {α : Type} (m : Args.Read α) : Run α := Run.lift (Args.read r m)
  match r.kind with
  | .declare => declare r
  | .errorHandler =>
    let errorMode ← read (Args.word "handler" ErrorMode.ofName?)
    modify fun s => { s with errorMode }
  | .objectInstance =>
    let h ← read Handle.read
    match (← get).objects.lookup h with
    | some rs => replay play r.kind rs
    | none => throw (.of .badHandle s!"ObjectInstance: unknown object {h.describe}")
  | .readArchive => readArchive play (← read Args.string)
  | .colorSamples => colorSamples r
  | .setOption => option r
  | .procedural | .geometry =>
    Run.report ((Problem.of .unimplemented s!"{r.kind.name} is passed through").atLine r.line)
  | kind => match kind.group with
    | .transforms =>
      let state ← Run.lift ((← get).state.applyTransform r)
      modify fun s => { s with state }
    | .still | .moving =>
      let state ← Run.declaring ((← get).state.applyAttribute r)
      modify fun s => { s with state }
    | .geometry => tessellate r
    | _ => pure ()

/-- Objects and archives are closed by their definitions; the end of one that is not being written
down is accepted, and its block stays open. -/
def apply (play : Player) (r : Request) : Run Unit := do
  match r.kind with
  | .endContext => endContext
  | .objectEnd | .archiveEnd => pure ()
  | .solidBegin => beginSolid r
  | .objectBegin =>
    let h ← Run.lift (Args.read r Handle.read)
    enter .object
    record (.object h)
  | .archiveBegin =>
    let name ← Run.lift (Args.read r Args.string)
    enter .archive
    record (.archive name)
  | kind => match Mode.openedBy kind, Mode.closedBy kind with
    | some m, _ => enter m
    | none, some m => leave m
    | none, none => applyPlain play r

end SceneStream.Session
