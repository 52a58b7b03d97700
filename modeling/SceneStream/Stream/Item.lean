import SceneStream.Stream.Collector
import SceneStream.Stream.Lexeme

/-! Requests from tokens. Nothing closes a request but the next name, so its parameters, comments
and problems are gathered in a draft until that name or the end is seen. A request with a problem is
given up. After a name that is not known, or a value that belongs to nothing, all values are passed
over up to the next known name. -/
namespace SceneStream.Stream

abbrev Item := Except Problem Entry

def request (r : Request) : Item := .ok (.request r)
def remark (c : Comment) : Item := .ok (.comment c)

structure Draft where
  kind : RequestKind
  line : Nat
  /-- The latest first, as the two below. -/
  params : List Parameter
  problems : List Problem
  comments : List Comment
  array : Option Collector
  deriving DecidableEq

namespace Draft

def start (kind : RequestKind) (line : Nat) : Draft := ⟨kind, line, [], [], [], none⟩
def fail (d : Draft) (p : Problem) : Draft := { d with problems := p :: d.problems }

def value (d : Draft) (v : Values) (isArray : Bool) : Draft :=
  match d.array with
  | none => { d with params := .of v isArray :: d.params }
  | some c => match c.push v with
    | (c, none) => { d with array := some c }
    | (c, some p) => { d with array := some c, problems := p :: d.problems }

def opening (d : Draft) (line : Nat) : Draft :=
  match d.array with
  | none => { d with array := some (.start line) }
  | some _ => d.fail ((Problem.of .badArray "nested array opened").atLine line)

def closing (d : Draft) (line : Nat) : Draft :=
  match d.array with
  | none => d.fail ((Problem.of .badArray "unmatched ']'").atLine line)
  | some c => { d with params := c.finish :: d.params, array := none }

def add (d : Draft) (x : Lexeme) : Draft :=
  match x.token with
  | .name _ => d
  | .integer n => d.value (.integers [n]) false
  | .float v => d.value (.floats [v]) false
  | .string s => d.value (.strings [s]) false
  | .floats l => d.value (.floats l) true
  | .opening => d.opening x.line
  | .closing => d.closing x.line
  | .comment text structured => { d with comments := ⟨text, structured, x.line⟩ :: d.comments }

/-- An array still open is the last problem. -/
def allProblems (d : Draft) : List Problem :=
  d.problems.reverse ++ match d.array with
  | none => []
  | some c => [(Problem.of .badArray "array is not closed").atLine c.line]

def finish (d : Draft) : List Item :=
  let body := match d.allProblems with
    | [] => [request ⟨d.kind, d.line, d.params.reverse⟩]
    | problems => problems.map fun p => .error (p.atLine d.line)
  body ++ d.comments.reverse.map remark

end Draft

def unknownRequest (name : String) (line : Nat) : Problem :=
  let message := match RequestKind.suggest name with
    | some hint => s!"unknown request \"{name}\" (did you mean \"{hint}\"?)"
    | none => s!"unknown request \"{name}\""
  (Problem.of .syntaxFault message).atLine line

def strayValue (line : Nat) : Problem :=
  (Problem.of .syntaxFault "value outside of a request").atLine line

inductive Phase where
  | idle
  /-- Up to the next known name; the items met so far, the latest first. -/
  | skipping (items : List Item)
  | drafting (d : Draft)
  /-- A severe problem ends the stream. -/
  | ended

namespace Phase

def enter (name : String) (line : Nat) : Phase :=
  match RequestKind.ofName? name with
  | some kind => drafting (.start kind line)
  | none => skipping [.error (unknownRequest name line)]

def step (phase : Phase) (x : Except Problem Lexeme) : Phase × List Item :=
  match phase, x with
  | ended, _ => (ended, [])
  | idle, .error p => if p.isSevere then (ended, [.error p]) else (skipping [.error p], [])
  | idle, .ok l => match l.token with
    | .name s => (enter s l.line, [])
    | .comment text structured => (idle, [remark ⟨text, structured, l.line⟩])
    | _ => (skipping [.error (strayValue l.line)], [])
  | skipping items, .error p =>
    let items := .error p :: items
    if p.isSevere then (ended, items.reverse) else (skipping items, [])
  | skipping items, .ok l => match l.token with
    | .name s => match RequestKind.ofName? s with
      | some kind => (drafting (.start kind l.line), items.reverse)
      | none => (skipping (.error (unknownRequest s l.line) :: items), [])
    | .comment text structured => (skipping (remark ⟨text, structured, l.line⟩ :: items), [])
    | _ => (skipping items, [])
  | drafting d, .error p =>
    if p.isSevere then (ended, (d.fail p).finish) else (drafting (d.fail p), [])
  | drafting d, .ok l => match l.token with
    | .name s => (enter s l.line, d.finish)
    | _ => (drafting (d.add l), [])

def finish : Phase → List Item
  | idle | ended => []
  | skipping items => items.reverse
  | drafting d => d.finish

end Phase

structure Placed where
  item : Item
  line : Nat

/-- Items of the lexemes; `done` are those before, the latest first. -/
def itemsFrom (last : Nat) : Phase → List Placed → List Lexed → List Placed
  | phase, done, [] => done.reverse ++ phase.finish.map (⟨·, last⟩)
  | phase, done, x :: rest =>
    let (phase, items) := phase.step x.result
    itemsFrom last phase ((items.map fun i => ⟨i, x.line⟩).reverse ++ done) rest

def Source.placed (s : Source) : List Placed := itemsFrom (lastLine s.bytes) .idle [] s.lexed

def Source.items (s : Source) : List Item := s.placed.map Placed.item

def decode (bytes : Bytes) : List Item := Source.items ⟨bytes, none⟩

def request? : Item → Option Request
  | .ok (.request r) => some r
  | _ => none

def requests (bytes : Bytes) : List Request := (decode bytes).filterMap request?

end SceneStream.Stream
