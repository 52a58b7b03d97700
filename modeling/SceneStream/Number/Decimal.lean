import SceneStream.Number.Single

/-! Decimal literals: a sign, digits with or without a point, and an exponent. They denote exact
numbers; reading one as a single or a double rounds once. -/
namespace SceneStream.Number

structure Decimal where
  negative : Bool
  digits : Nat
  exponent : Int
  deriving DecidableEq, Repr

def isDigit (c : Char) : Bool := '0' ≤ c && c ≤ '9'

def addDigit (n : Nat) (c : Char) : Nat := 10 * n + (c.toNat - '0'.toNat)

/-- The value of digits, long runs of them halved `depth` times. -/
def digitsIn : Nat → List Char → Nat
  | 0, cs => cs.foldl addDigit 0
  | depth + 1, cs =>
    if cs.length ≤ 64 then cs.foldl addDigit 0
    else
      let half := cs.length / 2
      digitsIn depth (cs.take half) * 10 ^ (cs.length - half) + digitsIn depth (cs.drop half)

def digitsValue (cs : List Char) : Nat := digitsIn 32 cs

theorem foldDigits (cs : List Char) (n : Nat) :
    cs.foldl addDigit n = n * 10 ^ cs.length + cs.foldl addDigit 0 := by
  induction cs generalizing n with
  | nil => simp
  | cons c cs ih =>
    simp only [List.foldl_cons, List.length_cons]
    rw [ih (addDigit n c), ih (addDigit 0 c)]
    simp only [addDigit, Nat.pow_succ, Nat.add_mul]
    rw [Nat.mul_comm 10 n, Nat.mul_assoc, Nat.mul_comm 10]
    omega

theorem digitsInFold (depth : Nat) (cs : List Char) : digitsIn depth cs = cs.foldl addDigit 0 := by
  induction depth generalizing cs with
  | zero => rfl
  | succ depth ih =>
    simp only [digitsIn]
    split
    · rfl
    · have whole := foldDigits (cs.drop (cs.length / 2))
        ((cs.take (cs.length / 2)).foldl addDigit 0)
      rw [← List.foldl_append, List.take_append_drop, List.length_drop] at whole
      rw [ih, ih, whole]

theorem digitsValueFold (cs : List Char) : digitsValue cs = cs.foldl addDigit 0 :=
  digitsInFold 32 cs

def splitSign : List Char → Bool × List Char
  | '-' :: cs => (true, cs)
  | '+' :: cs => (false, cs)
  | cs => (false, cs)

def signed? (value : List Char → Nat) (cs : List Char) : Option Int :=
  let (negative, ds) := splitSign cs
  if !ds.isEmpty && ds.all isDigit then some (if negative then -(value ds : Int) else value ds)
  else none

def integer? (cs : List Char) : Option Int := signed? digitsValue cs

/-- An exponent stops growing once it has reached this; the digits that follow are passed over. -/
def exponentLimit : Nat := 0x10000

def exponentValue (cs : List Char) : Nat :=
  cs.foldl (fun n c => if n < exponentLimit then addDigit n c else n) 0

def exponent? : List Char → Option Int
  | [] => some 0
  | c :: cs => if c == 'e' || c == 'E' then signed? exponentValue cs else none

namespace Decimal

def read? (cs : List Char) : Option Decimal := do
  let (negative, cs) := splitSign cs
  let whole := cs.takeWhile isDigit
  let rest := cs.dropWhile isDigit
  let (places, tail) := match rest with
    | '.' :: cs => (cs.takeWhile isDigit, cs.dropWhile isDigit)
    | cs => ([], cs)
  if whole.isEmpty && places.isEmpty then none
  let exponent ← exponent? tail
  some ⟨negative, digitsValue (whole ++ places), exponent - places.length⟩

def farPower : Int := 400

def magnitude (f : Format) (d : Decimal) : Nat :=
  let top := d.exponent + (d.digits.log2 + 1 : Nat) / 3 + 1
  if d.digits = 0 || top < -farPower then 0
  else if farPower < d.exponent then f.infinity
  else f.ofDecimal d.digits d.exponent

def toSingle (d : Decimal) : Single := .ofCode d.negative (d.magnitude .single)

def toDoubleBits (d : Decimal) : UInt64 :=
  (if d.negative then 0x8000000000000000 else 0) ||| UInt64.ofNat (d.magnitude .double)

def toFloat (d : Decimal) : Float := Float.ofBits d.toDoubleBits

end Decimal
end SceneStream.Number
