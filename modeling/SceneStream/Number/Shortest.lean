import SceneStream.Number.Decimal

/-! The fewest decimal digits that read back as the same code: of all multiples of powers of ten
that round to it, those of the greatest power, and of two such the nearer. -/
namespace SceneStream.Number
namespace Shortest

def digitsAt (f : Format) (code : Nat) (exponent : Int) : Option Nat :=
  let steps := f.steps code
  let (num, den) := match exponent with
    | .ofNat e => (steps, 10 ^ e <<< f.scale)
    | .negSucc e => (steps * 10 ^ (e + 1), 1 <<< f.scale)
  let low := num / den
  let reads (n : Nat) : Bool := n != 0 && f.ofDecimal n exponent == code
  match reads low, reads (low + 1) with
  | true, true => some (if 2 * (num % den) < den then low else low + 1)
  | true, false => some low
  | false, true => some (low + 1)
  | false, false => none

def topExponent (f : Format) (code : Nat) : Int :=
  ((f.steps code).log2 + 1 - f.scale : Int) * 3 / 10 + 3

def search (f : Format) (code : Nat) : Nat → Int → Option (Nat × Int)
  | 0, _ => none
  | fuel + 1, e => match digitsAt f code e with
    | some n => some (n, e)
    | none => search f code fuel (e - 1)

/-- Digits and exponent of a finite code. Every code is a multiple of ten to minus the scale, so the
search ends. -/
def digits (f : Format) (code : Nat) : Nat × Int :=
  let top := topExponent f code
  (search f code (top + f.scale + 1).toNat top).getD (0, 0)

end Shortest

structure Layout where
  /-- Powers of ten of the leading digit that are written without an exponent; `none` is all. -/
  positional : Option (Int × Int)
  keepsPoint : Bool
  deriving DecidableEq, Repr

namespace Layout

/-- In messages no exponent is ever used. -/
def message : Layout := ⟨none, false⟩

/-- In streams a float is told from an integer by its point or exponent. -/
def stream : Layout := ⟨some (-4, 15), true⟩

def zeros (n : Nat) : String := String.ofList (List.replicate n '0')

def plain (l : Layout) (ds : List Char) (e : Int) : String :=
  let point := (ds.length : Int) + e
  if 0 ≤ e then
    String.ofList ds ++ zeros e.toNat ++ (if l.keepsPoint then ".0" else "")
  else if point ≤ 0 then "0." ++ zeros (-point).toNat ++ String.ofList ds
  else String.ofList (ds.take point.toNat) ++ "." ++ String.ofList (ds.drop point.toNat)

def scientific (ds : List Char) (e : Int) : String :=
  let power := toString ((ds.length : Int) + e - 1)
  match ds with
  | [] => "0"
  | [d] => String.singleton d ++ "e" ++ power
  | d :: rest => String.singleton d ++ "." ++ String.ofList rest ++ "e" ++ power

def finite (l : Layout) (f : Format) (code : Nat) : String :=
  if code = 0 then (if l.keepsPoint then "0.0" else "0") else
  let (n, e) := Shortest.digits f code
  let ds := Nat.toDigits 10 n
  let power := (ds.length : Int) + e - 1
  match l.positional with
  | some (low, high) => if low ≤ power && power ≤ high then l.plain ds e else scientific ds e
  | none => l.plain ds e

/-- A NaN has no sign. -/
def write (l : Layout) (f : Format) (negative : Bool) (code : Nat) : String :=
  if f.infinity < code then "NaN" else
  (if negative then "-" else "") ++ (if code = f.infinity then "inf" else l.finite f code)

end Layout
end SceneStream.Number

namespace SceneStream

def Single.text (x : Single) : String := Number.Layout.message.write .single x.negative x.code

def Single.streamText (x : Single) : String := Number.Layout.stream.write .single x.negative x.code

def doubleText (x : Float) : String :=
  Number.Layout.message.write .double (0x8000000000000000 ≤ x.toBits)
    (x.toBits &&& 0x7fffffffffffffff).toNat

end SceneStream
