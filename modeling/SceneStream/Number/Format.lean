import SceneStream.Whole

/-! Binary interchange formats. A finite magnitude is a count of the format's least step, and its
code is the bit pattern without the sign; codes grow with the magnitudes they stand for. -/
namespace SceneStream.Number

structure Format where
  /-- Significant bits, the implicit one included. -/
  precision : Nat
  /-- The least positive magnitude is two to minus this. -/
  scale : Nat
  /-- The code of infinity; greater codes are not numbers. -/
  infinity : Nat
  deriving DecidableEq, Repr

namespace Format

def single : Format := ⟨24, 149, 0x7f800000⟩
def double : Format := ⟨53, 1074, 0x7ff0000000000000⟩

def one (f : Format) : Nat := (f.scale + 2 - f.precision) * 2 ^ (f.precision - 1)

def steps (f : Format) (code : Nat) : Nat :=
  let half := 2 ^ (f.precision - 1)
  let exponent := code / half
  if exponent = 0 then code else (half + code % half) <<< (exponent - 1)

/-- The integer nearest to a quotient, a half going to the even neighbour. -/
def nearest (num den : Nat) : Nat :=
  let whole := num / den
  let twice := 2 * (num % den)
  if twice < den then whole else if den < twice then whole + 1 else whole + whole % 2

/-- The code nearest to `num / den` least steps; what is too large becomes infinity. -/
def round (f : Format) (num den : Nat) : Nat :=
  let excess := (num / den).log2 + 1 - f.precision
  let code := excess * 2 ^ (f.precision - 1) + nearest num (den <<< excess)
  if code < f.infinity then code else f.infinity

def ofDecimal (f : Format) (digits : Nat) (exponent : Int) : Nat :=
  match exponent with
  | .ofNat e => f.round ((digits * 10 ^ e) <<< f.scale) 1
  | .negSucc e => f.round (digits <<< f.scale) (10 ^ (e + 1))

def convert (f g : Format) (code : Nat) : Nat :=
  if f.infinity ≤ code then g.infinity
  else if f.scale ≤ g.scale then g.round (f.steps code <<< (g.scale - f.scale)) 1
  else g.round (f.steps code) (1 <<< (f.scale - g.scale))

end Format
end SceneStream.Number
