import SceneStream.Stream.Cursor

/-! A reader with room for one byte put back. Putting back a newline takes its line back too. -/
namespace SceneStream.Stream

structure Reader where
  held : Option UInt8
  source : Bytes
  line : Nat
  deriving DecidableEq, Repr

namespace Reader

def start (bytes : Bytes) : Reader := ⟨none, bytes, 1⟩

def unread (r : Reader) : Bytes := r.held.toList ++ r.source

def payloadByte? (r : Reader) : Option UInt8 × Reader :=
  match r.held, r.source with
  | some b, _ => (some b, { r with held := none })
  | none, b :: rest => (some b, { r with source := rest })
  | none, [] => (none, r)

def textByte? (r : Reader) : Option UInt8 × Reader :=
  let (b, r) := r.payloadByte?
  (b, if b == some newline then { r with line := r.line + 1 } else r)

/-- Only one byte is held: another takes its place. -/
def putBack (b : UInt8) (r : Reader) : Reader :=
  { r with held := some b, line := if b == newline then r.line - 1 else r.line }

def payload (n : Nat) (r : Reader) : Option Bytes × Reader :=
  match Cursor.takeExactly n [] r.unread with
  | some (bytes, rest) =>
    if n = 0 then (some [], r) else (some bytes, ⟨none, rest, r.line⟩)
  | none => (none, ⟨none, [], r.line⟩)

/-- A big-endian word of at most eight bytes; of more only the last eight count. -/
def number (n : Nat) (r : Reader) : Option UInt64 × Reader :=
  let (bytes, r) := r.payload n
  (bytes.map fun bs => UInt64.ofNat (bigEndian bs), r)

theorem putBackUnread (b : UInt8) (r : Reader) (free : r.held = none) :
    (r.putBack b).unread = b :: r.unread := by simp [putBack, unread, free]

end Reader
end SceneStream.Stream
