import SceneStream.Stream.Token

/-! Tokens with short forms resolved. A definition waits for the string that follows it; definitions
may wait for one another, and what is not a string disappoints them all. -/
namespace SceneStream.Stream

structure Lexeme where
  token : Token
  line : Nat
  deriving DecidableEq

/-- A token or a problem, and the line reached after it. -/
structure Lexed where
  result : Except Problem Lexeme
  line : Nat

structure Definitions where
  /-- Short forms and what they stand for, the latest first. -/
  known : List (Slot × String)
  /-- Definitions that wait for their string, the innermost first, with their lines. -/
  waiting : List (Slot × Nat)
  deriving DecidableEq, Repr

namespace Definitions

def empty : Definitions := ⟨[], []⟩

def accept (d : Definitions) (t : Token) (line : Nat) :
    Definitions × Option (Except Problem Lexeme) :=
  match d.waiting with
  | [] => (d, some (.ok ⟨t, line⟩))
  | (slot, at_) :: outer => match t with
    | .string s => (⟨(slot, s) :: d.known, outer⟩, none)
    | _ => (⟨d.known, []⟩, some (.error (Fault.notDefined.problem at_)))

def refuse (d : Definitions) (f : Fault) (line : Nat) :
    Definitions × Option (Except Problem Lexeme) :=
  (⟨d.known, []⟩, some (.error (f.problem line)))

def Slot.token (slot : Slot) (s : String) : Token :=
  match slot with
  | .request _ => .name s
  | .string _ => .string s

def step (d : Definitions) (s : Scan) : Definitions × Option (Except Problem Lexeme) :=
  match s.element with
  | .token t => d.accept t s.line
  | .define slot => (⟨d.known, (slot, s.line) :: d.waiting⟩, none)
  | .recall slot => match d.known.lookup slot with
    | some text => d.accept (Slot.token slot text) s.line
    | none => d.refuse (.undefined slot) s.line
  | .reserved => (d, none)
  | .fault f => d.refuse f s.line

def finish (d : Definitions) (line : Nat) : List Lexed :=
  match d.waiting with
  | [] => []
  | (_, at_) :: _ => [⟨.error (Fault.truncated.problem at_), line⟩]

def run (last : Nat) : Definitions → List Lexed → List Scan → List Lexed
  | d, done, [] => done.reverse ++ d.finish last
  | d, done, s :: rest => match d.step s with
    | (d, none) => run last d done rest
    | (d, some result) => run last d (⟨result, s.after.line⟩ :: done) rest

end Definitions

def Source.lexed (s : Source) : List Lexed :=
  Definitions.run (lastLine s.bytes) .empty [] s.scans

def lexed (bytes : Bytes) : List Lexed := Source.lexed ⟨bytes, none⟩

end SceneStream.Stream
