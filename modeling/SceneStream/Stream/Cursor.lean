import SceneStream.Whole

/-! Places in a stream: the bytes not yet read and the line they start on. Bytes read as text count
their newlines, the bytes of a payload do not. -/
namespace SceneStream.Stream

abbrev Bytes := List UInt8

def newline : UInt8 := 10
def newlines (bs : Bytes) : Nat := bs.count newline

structure Cursor where
  rest : Bytes
  line : Nat
  deriving DecidableEq, Repr

namespace Cursor

def start (bytes : Bytes) : Cursor := ⟨bytes, 1⟩
def atEnd (c : Cursor) : Bool := c.rest.isEmpty

def textWhile (p : UInt8 → Bool) (c : Cursor) : Bytes × Cursor :=
  let text := c.rest.takeWhile p
  (text, ⟨c.rest.dropWhile p, c.line + newlines text⟩)

def textByte? (c : Cursor) : Option (UInt8 × Cursor) :=
  match c.rest with
  | [] => none
  | b :: rest => some (b, ⟨rest, if b == newline then c.line + 1 else c.line⟩)

def payloadByte? (c : Cursor) : Option (UInt8 × Cursor) :=
  match c.rest with
  | [] => none
  | b :: rest => some (b, ⟨rest, c.line⟩)

def takeExactly : Nat → Bytes → Bytes → Option (Bytes × Bytes)
  | 0, taken, rest => some (taken.reverse, rest)
  | _ + 1, _, [] => none
  | n + 1, taken, b :: rest => takeExactly n (b :: taken) rest

/-- A payload of `n` bytes. One that is not there in full uses up what is left. -/
def payload (n : Nat) (c : Cursor) : Option Bytes × Cursor :=
  match takeExactly n [] c.rest with
  | some (bytes, rest) => (some bytes, ⟨rest, c.line⟩)
  | none => (none, ⟨[], c.line⟩)

theorem takeExactlySound (n : Nat) (taken rest bytes tail : Bytes)
    (h : takeExactly n taken rest = some (bytes, tail)) :
    ∃ new, bytes = taken.reverse ++ new ∧ rest = new ++ tail ∧ new.length = n := by
  induction n generalizing taken rest with
  | zero =>
    simp only [takeExactly, Option.some.injEq, Prod.mk.injEq] at h
    exact ⟨[], by simp [h.1], by simp [h.2], rfl⟩
  | succ n ih =>
    cases rest with
    | nil => simp [takeExactly] at h
    | cons b rest =>
      obtain ⟨new, hb, hr, hn⟩ := ih (b :: taken) rest h
      exact ⟨b :: new, by simp [hb], by simp [hr], by simp [hn]⟩

theorem takeExactlyComplete (new taken tail : Bytes) :
    takeExactly new.length taken (new ++ tail) = some (taken.reverse ++ new, tail) := by
  induction new generalizing taken with
  | nil => simp [takeExactly]
  | cons b new ih => simp [takeExactly, ih]

end Cursor

def bigEndian (bs : Bytes) : Nat := bs.foldl (fun n b => n * 256 + b.toNat) 0

def signedBigEndian (bs : Bytes) : Int :=
  let n := bigEndian bs
  if 2 * n < 256 ^ bs.length then n else n - 256 ^ bs.length

/-- The last `width` base-256 digits of a number, the highest first. -/
def bigEndianBytes : Nat → Nat → Bytes
  | 0, _ => []
  | width + 1, n => bigEndianBytes width (n / 256) ++ [UInt8.ofNat (n % 256)]

end SceneStream.Stream
