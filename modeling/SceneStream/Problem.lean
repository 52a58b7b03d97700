/-! Problems: what went wrong, how bad it is, and where. The place is filled in once, by the part
that knows it first; what is added later never moves it. -/
namespace SceneStream

inductive Severity where
  | info | warning | error | severe
  deriving DecidableEq, Repr

namespace Severity

def name : Severity → String
  | info => "info"
  | warning => "warning"
  | error => "error"
  | severe => "severe"

def rank : Severity → Nat
  | info => 0
  | warning => 1
  | error => 2
  | severe => 3

def worse (a b : Severity) : Severity := if a.rank < b.rank then b else a

def worst (a : Option Severity) (b : Severity) : Option Severity :=
  some (match a with | some a => a.worse b | none => b)

def worstOf (l : List Severity) : Option Severity := l.foldl worst none

theorem rankWorse (a b : Severity) : (a.worse b).rank = max a.rank b.rank := by
  cases a <;> cases b <;> rfl

end Severity

inductive ProblemKind where
  | syntaxFault
  | badToken
  | consistency
  | badArray
  | illegalState
  | nesting
  | missingData
  | range
  | badHandle
  | outOfMemory
  | internal
  | noFile
  | system
  | unimplemented
  | limit
  /-- The program ends. Nobody is told, so streams and listeners never see one. -/
  | crash
  deriving DecidableEq, Repr

namespace ProblemKind

def all : List ProblemKind :=
  [syntaxFault, badToken, consistency, badArray, illegalState, nesting, missingData, range,
   badHandle, outOfMemory, internal, noFile, system, unimplemented, limit]

def name : ProblemKind → String
  | syntaxFault => "syntax"
  | badToken => "bad token"
  | consistency => "consistency"
  | badArray => "bad array"
  | illegalState => "illegal state"
  | nesting => "nesting"
  | missingData => "missing data"
  | range => "range"
  | badHandle => "bad handle"
  | outOfMemory => "out of memory"
  | internal => "internal"
  | noFile => "no file"
  | system => "system"
  | unimplemented => "unimplemented"
  | limit => "limit"
  | crash => "crash"

def severity : ProblemKind → Severity
  | unimplemented => .warning
  | outOfMemory | internal | system | crash => .severe
  | _ => .error

end ProblemKind

structure Problem where
  kind : ProblemKind
  severity : Severity
  message : String
  line : Option Nat
  stream : Option String
  deriving DecidableEq, Repr

namespace Problem

def of (kind : ProblemKind) (message : String) : Problem :=
  ⟨kind, kind.severity, message, none, none⟩

def crash (message : String) : Problem := of .crash message

def isCrash (p : Problem) : Bool := p.kind == .crash

def withSeverity (s : Severity) (p : Problem) : Problem := { p with severity := s }
def atLine (n : Nat) (p : Problem) : Problem := { p with line := p.line.or (some n) }
def inStream (s : String) (p : Problem) : Problem := { p with stream := p.stream.or (some s) }
def isSevere (p : Problem) : Bool := p.severity == .severe

def display (p : Problem) : String := s!"{p.severity.name} ({p.kind.name}): {p.message}"

def describe (p : Problem) : String :=
  match p.stream, p.line with
  | some s, some n => s!"{s}:{n}: {p.display}"
  | some s, none => s!"{s}: {p.display}"
  | none, some n => s!"line {n}: {p.display}"
  | none, none => p.display

theorem atLineOnce (m n : Nat) (p : Problem) : (p.atLine m).atLine n = p.atLine m := by
  cases h : p.line <;> simp [atLine, h]

theorem inStreamOnce (s t : String) (p : Problem) : (p.inStream s).inStream t = p.inStream s := by
  cases h : p.stream <;> simp [inStream, h]

inductive LogLevel where
  | info | warning | error
  deriving DecidableEq, Repr

def logLevel (p : Problem) : LogLevel :=
  match p.severity with
  | .info => .info
  | .warning => .warning
  | .error | .severe => .error

def countKind (k : ProblemKind) (ps : List Problem) : Nat := (ps.filter (·.kind == k)).length

end Problem
end SceneStream
