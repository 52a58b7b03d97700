/-! Text as bytes. Decoding accepts every byte string: each longest part that can begin a character
but does not end one, and each byte that can begin none, becomes one replacement character. -/
namespace SceneStream.Text.Utf8

def encode (s : String) : List UInt8 := s.toList.flatMap String.utf8EncodeChar

/-- A character begun: continuation bytes still owed, bounds of the next one, bits so far. -/
structure Begun where
  owed : Nat
  low : UInt8
  high : UInt8
  bits : Nat
  deriving DecidableEq, Repr

inductive Lead where
  | char (c : Char)
  | begun (b : Begun)
  | none
  deriving DecidableEq, Repr

def replacement : Char := '\uFFFD'

def lead (b : UInt8) : Lead :=
  let n := b.toNat
  if b < 0x80 then .char (Char.ofNat n)
  else if b < 0xc2 then .none
  else if b < 0xe0 then .begun ⟨1, 0x80, 0xbf, n % 32⟩
  else if b == 0xe0 then .begun ⟨2, 0xa0, 0xbf, 0⟩
  else if b == 0xed then .begun ⟨2, 0x80, 0x9f, 13⟩
  else if b < 0xf0 then .begun ⟨2, 0x80, 0xbf, n % 16⟩
  else if b == 0xf0 then .begun ⟨3, 0x90, 0xbf, 0⟩
  else if b < 0xf4 then .begun ⟨3, 0x80, 0xbf, n % 8⟩
  else if b == 0xf4 then .begun ⟨3, 0x80, 0x8f, 4⟩
  else .none

structure State where
  chars : List Char
  begun : Option Begun
  deriving DecidableEq, Repr

def start (chars : List Char) (b : UInt8) : State :=
  match lead b with
  | .char c => ⟨c :: chars, none⟩
  | .begun p => ⟨chars, some p⟩
  | .none => ⟨replacement :: chars, none⟩

def step (s : State) (b : UInt8) : State :=
  match s.begun with
  | none => start s.chars b
  | some p =>
    if p.low ≤ b && b ≤ p.high then
      let bits := p.bits * 64 + b.toNat % 64
      if p.owed ≤ 1 then ⟨Char.ofNat bits :: s.chars, none⟩
      else ⟨s.chars, some ⟨p.owed - 1, 0x80, 0xbf, bits⟩⟩
    else start (replacement :: s.chars) b

def finish (s : State) : String :=
  String.ofList (if s.begun.isSome then replacement :: s.chars else s.chars).reverse

def decode (bytes : List UInt8) : String := finish (bytes.foldl step ⟨[], none⟩)

end SceneStream.Text.Utf8
