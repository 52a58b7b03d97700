import SceneStream.Command.Basic
import SceneStream.Scene
import SceneStream.Session

/-! The figures of a scene. -/
namespace SceneStream.Command

structure StatsOptions where
  session : SessionOptions
  listsErrors : Bool

/-- Decimal digits, with a plus sign or without, that stand for a resolution a session can take. -/
def resolution? (text : String) : Option Nat :=
  let digits := match text.toList with
    | '+' :: rest => rest
    | l => l
  let n := Number.digitsValue digits
  let isNumber := !digits.isEmpty && digits.all Char.isDigit
  if isNumber && 0 < n && n ≤ Attributes.finest then some n else none

def resolution (text : String) : Except Fault Nat :=
  match resolution? text with
  | some n => .ok n
  | none => .error (.badResolution text)

def statsOptions (o : StatsOptions) : List String → Except Fault (Option StatsOptions)
  | [] => .ok (some o)
  | "--tess" :: [] => .error (.missingValue "--tess")
  | "--tess" :: u :: rest => do
    let u ← resolution u
    match rest with
    | [] => throw (.missingValue "--tess")
    | v :: rest =>
      let v ← resolution v
      statsOptions { o with session := { o.session with tessellation := (u, v) } } rest
  | "--strips" :: rest =>
    statsOptions { o with session := { o.session with layout := .strips } } rest
  | "--search" :: [] => .error (.missingValue "--search")
  | "--search" :: directory :: rest =>
    statsOptions { o with session := { o.session with searchPath := some directory } } rest
  | "--errors" :: rest => statsOptions { o with listsErrors := true } rest
  | "-h" :: _ | "--help" :: _ => .ok none
  | name :: _ => .error (.unknownOption name)

def padded (width : Nat) (s : String) : String :=
  s ++ String.ofList (List.replicate (width - s.length) ' ')

def summary (path : String) (s : Scene) : List String :=
  let worst := (s.worst.map Severity.name).getD "none"
  [s!"file:        {path}",
   s!"requests:    {s.requests.length}",
   s!"surfaces:    {s.surfaces.length}",
   s!"triangles:   {s.triangleCount}",
   s!"unsupported: {s.unsupported.length}",
   s!"comments:    {s.comments.length}",
   s!"errors:      {s.problems.length} (worst: {worst})"]

def requestLines (s : Scene) : List String :=
  if s.requests.isEmpty then []
  else "" :: s.counts.map fun (k, n) => s!"  {padded 24 k.name} {n}"

def problemLines (listed : Bool) (s : Scene) : List String :=
  if listed then "" :: s.problems.map fun p => s!"  {p.describe}"
  else if s.problems.any (·.kind == .syntaxFault) then
    ["", "(use --errors to list the reported errors)"]
  else []

def stats : List String → Act Report
  | [] => throw (.missing "input")
  | path :: args => do
    match ← statsOptions ⟨.default, false⟩ args with
    | none => return ⟨usage ++ "\n", ""⟩
    | some o =>
      let s ← look fun files => ((Session.start o.session files).readPath path).mapError .unreadable
      if s.crashed then throw .crash
      let scene := Scene.ofSession s.finish
      let text := summary path scene ++ requestLines scene ++ problemLines o.listsErrors scene
      return ⟨lines text, ""⟩

end SceneStream.Command
