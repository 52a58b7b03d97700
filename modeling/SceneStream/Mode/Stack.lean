import SceneStream.Mode
import SceneStream.Problem

/-! The stack of open blocks. A push or pop that is refused leaves it as it was; closing the context
empties it and tells what was still open. -/
namespace SceneStream

structure ModeStack where
  /-- Open blocks, the innermost first. -/
  blocks : List Mode
  deriving DecidableEq, Repr

namespace ModeStack

def empty : ModeStack := ⟨[]⟩
def depth (s : ModeStack) : Nat := s.blocks.length
def isEmpty (s : ModeStack) : Bool := s.blocks.isEmpty
def top? (s : ModeStack) : Option Mode := s.blocks.head?
def contains (s : ModeStack) (m : Mode) : Bool := s.blocks.contains m

def modes (s : ModeStack) : List Mode := s.blocks.reverse

def effective? (s : ModeStack) : Option Mode := s.blocks.find? (!·.isTransparent)

def place (m : Option Mode) : String := (m.map Mode.name).getD "outside a context"

def allows (s : ModeStack) (k : RequestKind) : Bool :=
  match s.effective? with
  | none => k == .beginContext
  | some m =>
    if k == .beginContext then false
    else if k == .endContext then true
    else match Mode.closedBy k with
      | some closed => s.top? == some closed
      | none => k.group.allows m

def mayOpen (s : ModeStack) (m : Mode) : Bool :=
  match s.effective? with
  | none => m == .context
  | some e => m != .context && (m.isTransparent || m.group.allows e)

def push (s : ModeStack) (m : Mode) : Except Problem ModeStack :=
  if s.mayOpen m then .ok ⟨m :: s.blocks⟩
  else .error (.of .nesting s!"cannot open {m.name} block in {place s.effective?}")

def pop (s : ModeStack) (m : Mode) : Except Problem ModeStack :=
  match s.blocks with
  | [] => .error (.of .nesting s!"cannot close {m.name} block, no block is open")
  | top :: rest =>
    if top = m then .ok ⟨rest⟩
    else .error (.of .nesting
      s!"cannot close {m.name} block, innermost open block is {top.name}")

def leftOpen (s : ModeStack) : Option Problem :=
  match s.modes with
  | [] | [_] => none
  | _ :: inner =>
    let names := ", ".intercalate (inner.map Mode.name)
    some ((Problem.of .nesting s!"context ended with open blocks: {names}").withSeverity .warning)

def teardown (s : ModeStack) : ModeStack × Option Problem := (empty, s.leftOpen)

end ModeStack
end SceneStream
