import SceneStream.Session.Basic

/-! Scenes: what a listener has gathered from a session. -/
namespace SceneStream

structure Scene where
  surfaces : List Surface
  comments : List Comment
  requests : List RequestKind
  unsupported : List RequestKind
  problems : List Problem
  deriving DecidableEq

namespace Scene

def empty : Scene := ⟨[], [], [], [], []⟩

def ofNotices : List Notice → Scene
  | [] => empty
  | n :: rest =>
    let s := ofNotices rest
    match n with
    | .surface x => { s with surfaces := x :: s.surfaces }
    | .comment c => { s with comments := c :: s.comments }
    | .done r => { s with requests := r.kind :: s.requests }
    | .unsupported kind _ => { s with unsupported := kind :: s.unsupported }
    | .problem p => { s with problems := p :: s.problems }

def ofSession (s : Session) : Scene := ofNotices s.notices.reverse

def triangleCount (s : Scene) : Nat := (s.surfaces.map Surface.triangleCount).sum

def counts (s : Scene) : List (RequestKind × Nat) :=
  (RequestKind.all.map fun k => (k, s.requests.count k)).filter (0 < ·.2)

def worst (s : Scene) : Option Severity := Severity.worstOf (s.problems.map Problem.severity)

end Scene
end SceneStream
