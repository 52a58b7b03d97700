import SceneStream.Session.Request

/-! Sessions. Each request is checked against the open blocks, then carried out or written down, and
then acknowledged; a problem is reported and the request has no effect. Objects and archives are
played back level by level, so their depth bounds the work. -/
namespace SceneStream.Session

def check (s : Session) (r : Request) : Except Problem Unit :=
  let kind := r.kind
  if !s.modes.allows kind then
    let place := ModeStack.place s.modes.top?
    .error (match Mode.closedBy kind with
      | some m => .of .nesting
          s!"{kind.name} without matching {m.name} block (innermost is {place})"
      | none => .of .illegalState s!"{kind.name} is not valid in {place}")
  else if r.valueCount < kind.arity then
    .error (.of .missingData
      s!"{kind.name} needs at least {kind.arity} values, found {r.valueCount}")
  else .ok ()

/-- Counts a request of a motion block; only the first sample of a motion is used. -/
def isLaterSample (r : Request) : Run Bool := do
  match (← get).motion with
  | none => return false
  | some n =>
    if r.kind = .motionEnd then return false
    modify fun s => { s with motion := some (n + 1) }
    return 1 ≤ n

/-- Carries out a request. One that begins a context just confirms the one that is open already by
itself. -/
def execute (play : Player) (r : Request) : Run Unit := do
  let s ← get
  if r.kind = .beginContext ∧ s.isFresh then
    modify fun s => { s with isFresh := false }
  else
    Run.lift (s.check r)
    modify fun s => { s with isFresh := false }
    unless ← isLaterSample r do apply play r
  Run.tell (.done r)

def finishRecording (x : Recording) (r : Request) : Run Unit := do
  keep x
  Run.tell (.done r)

/-- An archive takes everything up to its own end. -/
def recordArchive (x : Recording) (r : Request) : Run Unit := do
  let add (nested : Nat) : Run Unit :=
    modify fun s => { s with recording := some (Recording.add r { x with nested }) }
  match r.kind, x.nested with
  | .archiveBegin, n => add (n + 1)
  | .archiveEnd, 0 => finishRecording x r
  | .archiveEnd, n + 1 => add n
  | _, n => add n

/-- Requests of an object are checked as they come, and its blocks are followed. -/
def recordObject (x : Recording) (r : Request) : Run Unit := do
  Run.lift ((← get).check r)
  if r.kind = .objectEnd then finishRecording x r
  else
    let modes := (← get).modes
    let modes ← Run.lift (match Mode.openedBy r.kind, Mode.closedBy r.kind with
      | some m, _ => modes.push m
      | none, some m => modes.pop m
      | none, none => .ok modes)
    modify fun s => { s with modes, recording := some (x.add r) }

def dispatch (play : Player) (r : Request) : Run Unit := do
  match (← get).recording with
  | none => execute play r
  | some x => match x.target with
    | .archive _ => recordArchive x r
    | .object _ => recordObject x r

def step (play : Player) (s : Session) (r : Request) : Session :=
  if s.aborted then s
  else match (dispatch play r).run s with
  | (.ok _, s) => s
  | (.error p, s) => s.fail (p.atLine r.line)

def processAt : Nat → Session → Request → Session
  | 0, s, r => step none s r
  | n + 1, s, r => step (some (processAt n)) s r

def process (s : Session) (r : Request) : Session := processAt (s.options.maxDepth - s.depth) s r

def readStream (s : Session) (source : Stream.Source) (name : String) : Session :=
  s.readWith process source name

def readBytes (s : Session) (bytes : Stream.Bytes) (name : String) : Session :=
  s.readStream ⟨bytes, none⟩ name

/-- A file that does not open is told to the caller, and to no one else. -/
def readPath (s : Session) (path : String) : Except Problem Session :=
  match s.files.openSource path with
  | .error e => .error (.of .noFile s!"cannot open {path}: {e.message}")
  | .ok source => .ok (s.readStream source path)

def finish (s : Session) : Session :=
  let s := if s.recording.isSome then
      s.report (.of .nesting "stream ended inside an object or archive definition")
    else s
  let (modes, warning) := s.modes.teardown
  match warning with
  | some p => Session.report p { s with modes }
  | none => { s with modes }

end SceneStream.Session
