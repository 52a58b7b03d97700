import SceneStream.Geometry.Grid
import SceneStream.Number.Shortest

/-! Quadrics and tori: surfaces that a profile sweeps out around the z axis. The parameter u follows
the sweep, v the profile; angles are in degrees. -/
namespace SceneStream.Geometry

inductive Quadric where
  | sphere (radius zmin zmax sweep : Float)
  | cone (height radius sweep : Float)
  | cylinder (radius zmin zmax sweep : Float)
  | hyperboloid (p q : Vec Float) (sweep : Float)
  | paraboloid (radius zmin zmax sweep : Float)
  | disk (height radius sweep : Float)
  | torus (major minor phimin phimax sweep : Float)
  deriving Repr

inductive QuadricFault where
  | nonPositive (what : String)
  | zeroSweep
  | emptyRange (least greatest : Float)
  | grid (f : GridFault)
  | nonFinite
  deriving Repr

namespace QuadricFault

def message : QuadricFault → String
  | nonPositive what => s!"{what} must be positive"
  | zeroSweep => "sweep angle must not be zero"
  | emptyRange least greatest =>
    s!"parametric range {doubleText least}..{doubleText greatest} is empty or inverted"
  | grid f => f.message
  | nonFinite => "quadric parameters must be finite"

def kind : QuadricFault → ProblemKind
  | grid f => f.kind
  | _ => .range

end QuadricFault

namespace Quadric

def sweep : Quadric → Float
  | sphere _ _ _ t | cone _ _ t | cylinder _ _ _ t | hyperboloid _ _ t | paraboloid _ _ _ t
  | disk _ _ t | torus _ _ _ _ t => t

def parameters : Quadric → List Float
  | sphere a b c t | cylinder a b c t | paraboloid a b c t => [a, b, c, t]
  | cone a b t | disk a b t => [a, b, t]
  | hyperboloid p q t => p.toList ++ q.toList ++ [t]
  | torus a b c d t => [a, b, c, d, t]

def positive (x : Float) (what : String) : Except QuadricFault Unit :=
  if 0 < x then .ok () else .error (.nonPositive what)

def ordered (least greatest : Float) : Except QuadricFault Unit :=
  if least < greatest then .ok () else .error (.emptyRange least greatest)

def validate (q : Quadric) : Except QuadricFault Unit := do
  if q.parameters.any (!·.isFinite) then throw .nonFinite
  if q.sweep == 0 then throw .zeroSweep
  match q with
  | sphere radius zmin zmax _ =>
    positive radius "sphere radius"
    ordered (Scalar.greatest zmin (-radius)) (Scalar.least zmax radius)
  | cone height radius _ =>
    positive radius "cone radius"
    if height == 0 then throw (.nonPositive "cone height")
  | cylinder radius zmin zmax _ =>
    positive radius "cylinder radius"
    ordered zmin zmax
  | hyperboloid p q _ => if (q - p).length == 0 then throw (.emptyRange 0 0)
  | paraboloid radius zmin zmax _ =>
    positive radius "paraboloid radius"
    positive zmax "paraboloid zmax"
    if zmin < 0 then throw (.emptyRange zmin zmax)
    ordered zmin zmax
  | disk _ radius _ => positive radius "disk radius"
  | torus major minor phimin phimax _ =>
    positive minor "torus minor radius"
    if major < 0 then throw (.nonPositive "torus major radius")
    if phimin == phimax then throw (.emptyRange phimin phimax)

def clampUnit (x : Float) : Float := if x < -1 then -1 else if 1 < x then 1 else x

/-- What is below zero, or no number at all, counts as zero. -/
def rootOrZero (x : Float) : Float := (if 0 < x then x else 0).sqrt

def around (s c r z : Float) : Vec Float := ⟨r * c, r * s, z⟩

def theta (q : Quadric) (u : Float) : Float := radians (u * q.sweep)

def pointAt (q : Quadric) (u v : Float) : Vec Float :=
  let s := (q.theta u).sin
  let c := (q.theta u).cos
  match q with
  | sphere radius zmin zmax _ =>
    let low := (clampUnit (zmin / radius)).asin
    let high := (clampUnit (zmax / radius)).asin
    let phi := low + v * (high - low)
    around s c (radius * phi.cos) (radius * phi.sin)
  | cone height radius _ => around s c (radius * (1 - v)) (v * height)
  | cylinder radius zmin zmax _ => around s c radius (zmin + v * (zmax - zmin))
  | hyperboloid p q _ =>
    let x := p.x + v * (q.x - p.x)
    let y := p.y + v * (q.y - p.y)
    ⟨x * c - y * s, x * s + y * c, p.z + v * (q.z - p.z)⟩
  | paraboloid radius zmin zmax _ =>
    let z := zmin + v * (zmax - zmin)
    around s c (radius * rootOrZero (z / zmax)) z
  | disk height radius _ => around s c (radius * (1 - v)) height
  | torus major minor phimin phimax _ =>
    let phi := radians (phimin + v * (phimax - phimin))
    around s c (major + minor * phi.cos) (minor * phi.sin)

/-- The unit normal on the side that the derivatives along u and v make right-handed; a hyperboloid
has none where its profile crosses the axis. -/
def normalAt (q : Quadric) (u v : Float) : Option (Vec Float) :=
  let s := (q.theta u).sin
  let c := (q.theta u).cos
  let p := q.pointAt u v
  let n : Vec Float := match q with
    | sphere radius _ _ _ => p * (1 / radius)
    | cylinder _ _ _ _ => ⟨c, s, 0⟩
    | cone height radius _ => ⟨height * c, height * s, radius⟩
    | disk _ _ _ => Vec.up
    | paraboloid radius _ zmax _ => ⟨p.x, p.y, -radius * radius / (2 * zmax)⟩
    | hyperboloid a b _ =>
      let d := b - a
      ⟨p.x * d.z, p.y * d.z, -(p.x * (d.x * c - d.y * s) + p.y * (d.x * s + d.y * c))⟩
    | torus major minor phimin phimax _ =>
      let phi := radians (phimin + v * (phimax - phimin))
      let inside := major + minor * phi.cos < 0
      let side := signum (phimax - phimin) * (if inside then -1 else 1)
      (⟨phi.cos * c, phi.cos * s, phi.sin⟩ : Vec Float) * side
  (n * signum q.sweep).unit?

def sample (q : Quadric) (tu tv : Nat) : Except QuadricFault (Grid Float) := do
  if tu = 0 ∨ tv = 0 then throw (.grid .resolution)
  q.validate
  (Grid.check tu tv).mapError .grid
  let sideless := (Vec.up : Vec Float) * signum q.sweep
  return Grid.sample tu tv (fun u v => (q.pointAt u v, q.normalAt u v)) sideless

end Quadric
end SceneStream.Geometry
