import SceneStream.Files
import SceneStream.Mode.Stack
import SceneStream.State
import SceneStream.Surface
import SceneStream.Text.Quoted

/-! Sessions: what is carried from request to request, and what is told to whoever listens. -/
namespace SceneStream
open SceneStream.Geometry

structure SessionOptions where
  tessellation : Nat × Nat
  layout : Layout
  tolerance : Float
  /-- How deep archives and objects may stand in each other. -/
  maxDepth : Nat
  searchPath : Option String

def SessionOptions.default : SessionOptions := ⟨(16, 16), .triangles, Geometry.tolerance, 64, none⟩

def SessionOptions.archivePath (o : SessionOptions) (name : String) : String :=
  match o.searchPath with
  | some directory => Files.join directory name
  | none => name

inductive Handle where
  | number (n : Int32)
  | name (s : String)
  deriving DecidableEq

namespace Handle

def read : Args.Read Handle := do
  if (← get).peekType = some .string then return .name (← Args.string)
  else return .number (← Args.int)

def describe : Handle → String
  | number n => "Id(" ++ toString n.toInt ++ ")"
  | name s => "Name(" ++ Text.quoted s ++ ")"

end Handle

inductive Target where
  | object (h : Handle)
  | archive (name : String)
  deriving DecidableEq

structure Recording where
  target : Target
  /-- The latest first. -/
  requests : List Request
  /-- Archives begun inside, and not yet ended. -/
  nested : Nat
  deriving DecidableEq

def Recording.add (r : Request) (x : Recording) : Recording :=
  { x with requests := r :: x.requests }

inductive ErrorMode where
  | ignore | print | abort
  deriving DecidableEq, Repr

def ErrorMode.ofName? : String → Option ErrorMode
  | "ignore" => some ignore
  | "print" => some print
  | "abort" => some abort
  | _ => none

inductive Notice where
  | surface (s : Surface)
  | done (r : Request)
  | comment (c : Comment)
  /-- A primitive was bound, but is not made into surfaces. -/
  | unsupported (kind : RequestKind) (vars : Variables)
  | problem (p : Problem)

structure Session where
  options : SessionOptions
  files : Files
  layout : Layout
  dictionary : Dictionary
  modes : ModeStack
  state : State
  /-- The latest first. -/
  objects : List (Handle × List Request)
  archives : List (String × List Request)
  recording : Option Recording
  /-- Requests met in the open motion block. -/
  motion : Option Nat
  depth : Nat
  stream : Option String
  worst : Option Severity
  errorMode : ErrorMode
  aborted : Bool
  /-- The program has ended in the middle of a request. -/
  crashed : Bool
  /-- The context was opened by itself, and nothing has happened in it yet. -/
  isFresh : Bool
  /-- The latest first. -/
  notices : List Notice

namespace Session

def start (options : SessionOptions) (files : Files) : Session :=
  { options, files, layout := options.layout, dictionary := .initial, modes := ⟨[.context]⟩,
    state := .initial Dictionary.initial.colorSamples options.tessellation, objects := [],
    archives := [], recording := none, motion := none, depth := 0, stream := none, worst := none,
    errorMode := .print, aborted := false, crashed := false, isFresh := true, notices := [] }

def tell (n : Notice) (s : Session) : Session := { s with notices := n :: s.notices }

def since (before now : Session) : List Notice :=
  (now.notices.take (now.notices.length - before.notices.length)).reverse

def report (p : Problem) (s : Session) : Session :=
  let p := match s.stream with
    | some name => p.inStream name
    | none => p
  let s := { s with worst := Severity.worst s.worst p.severity }
  match s.errorMode with
  | .ignore => s
  | .print => s.tell (.problem p)
  | .abort => { s.tell (.problem p) with aborted := 2 ≤ p.severity.rank || s.aborted }

/-- What comes of a request that fails: it is told, unless the program ends by it. -/
def fail (p : Problem) (s : Session) : Session :=
  if p.isCrash then { s with aborted := true, crashed := true } else s.report p

end Session

abbrev Run := ExceptT Problem (StateM Session)

namespace Run

def lift {α : Type} (x : Except Problem α) : Run α := ExceptT.mk (pure x)

def declaring {α : Type} (m : Declaring α) : Run α := do
  let (x, d) := m.run (← get).dictionary
  modify fun s => { s with dictionary := d }
  lift x

def report (p : Problem) : Run Unit := modify (Session.report p)
def tell (n : Notice) : Run Unit := modify (Session.tell n)

end Run
end SceneStream
