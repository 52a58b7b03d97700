import SceneStream.Number.Format

/-! Stored numbers: the thirty-two bits of a single, kept as they were read, so that nothing in a
stream is lost on the way through, a payload of a NaN included. -/
namespace SceneStream

structure Single where
  bits : UInt32
  deriving DecidableEq, Repr, Inhabited

namespace Single
open Number

def negative (x : Single) : Bool := 0x80000000 ≤ x.bits
def code (x : Single) : Nat := (x.bits &&& 0x7fffffff).toNat
def isFinite (x : Single) : Bool := x.code < Format.single.infinity
def isNaN (x : Single) : Bool := Format.single.infinity < x.code

def ofCode (negative : Bool) (code : Nat) : Single :=
  ⟨(if negative then 0x80000000 else 0) ||| UInt32.ofNat code⟩

def zero : Single := ⟨0⟩
def one : Single := ⟨0x3f800000⟩

def ofInt (n : Int) : Single :=
  ofCode (n < 0) (Format.single.round (n.natAbs <<< Format.single.scale) 1)

def ofFixed (n : Int) (places : Nat) : Single :=
  ofCode (n < 0) (Format.single.round (n.natAbs <<< Format.single.scale) (1 <<< places))

/-- The nearest single; a NaN stays one, is made quiet and keeps the head of its payload. -/
def ofDoubleBits (b : UInt64) : Single :=
  let negative := 0x8000000000000000 ≤ b
  let code := (b &&& 0x7fffffffffffffff).toNat
  if Format.double.infinity < code then
    ofCode negative (0x7fc00000 ||| ((b >>> 29) &&& 0x3fffff).toNat)
  else ofCode negative (Format.double.convert Format.single code)

def toDoubleBits (x : Single) : UInt64 :=
  let sign : UInt64 := if x.negative then 0x8000000000000000 else 0
  let payload : UInt64 := (x.bits.toUInt64 <<< 29) &&& 0x000fffffffffffff
  if x.isNaN then sign ||| (0x7ff8000000000000 : UInt64) ||| payload
  else sign ||| UInt64.ofNat (Format.single.convert Format.double x.code)

def ofFloat (x : Float) : Single := ofDoubleBits x.toBits
def toFloat (x : Single) : Float := Float.ofBits x.toDoubleBits

def integer? (x : Single) : Option Int :=
  let steps := Format.single.steps x.code
  let unit := 2 ^ Format.single.scale
  if x.isFinite && steps % unit == 0 then
    some (if x.negative then -(steps / unit : Nat) else (steps / unit : Nat))
  else none

def isPositiveCount (x : Single) : Bool :=
  x.isFinite && !x.negative && Format.single.one ≤ x.code

/-- The nearest natural number of a non-negative finite single, a half going up. -/
def roundUp (x : Single) : Nat :=
  (2 * Format.single.steps x.code + 2 ^ Format.single.scale) / 2 ^ (Format.single.scale + 1)

/-- Equality of the numbers meant: zeros are equal, and a NaN equals nothing. -/
def sameNumber (x y : Single) : Bool :=
  !x.isNaN && !y.isNaN && (x.bits == y.bits || (x.code == 0 && y.code == 0))

def ofBigEndian (a b c d : UInt8) : Single :=
  ⟨a.toUInt32 <<< 24 ||| b.toUInt32 <<< 16 ||| c.toUInt32 <<< 8 ||| d.toUInt32⟩

def bigEndian (x : Single) : List UInt8 :=
  [(x.bits >>> 24).toUInt8, (x.bits >>> 16).toUInt8, (x.bits >>> 8).toUInt8, x.bits.toUInt8]

end Single
end SceneStream
