import SceneStream.Geometry.Knots

/-! The shapes of primitives that come in pieces, and how many pieces their points make. -/
namespace SceneStream

inductive PatchKind where
  | bilinear | bicubic
  deriving DecidableEq, Repr

namespace PatchKind

def name : PatchKind → String
  | bilinear => "bilinear"
  | bicubic => "bicubic"

def ofName? : String → Option PatchKind
  | "bilinear" => some bilinear
  | "bicubic" => some bicubic
  | _ => none

def order : PatchKind → Nat
  | bilinear => 2
  | bicubic => 4

end PatchKind

inductive Wrap where
  | periodic | nonperiodic
  deriving DecidableEq, Repr

def Wrap.ofName? : String → Option Wrap
  | "periodic" => some periodic
  | "nonperiodic" => some nonperiodic
  | _ => none

inductive CurveKind where
  | linear | cubic
  deriving DecidableEq, Repr

def CurveKind.name : CurveKind → String
  | linear => "linear"
  | cubic => "cubic"

def CurveKind.ofName? : String → Option CurveKind
  | "linear" => some linear
  | "cubic" => some cubic
  | _ => none

/-- Pieces out of `n` points, if the points are enough for one and none is left over. -/
def pieces? (cubic : Bool) (wrap : Wrap) (step n : Nat) : Option Nat :=
  match cubic, wrap with
  | false, .nonperiodic => if 2 ≤ n then some (n - 1) else none
  | false, .periodic => if 2 ≤ n then some n else none
  | true, .nonperiodic =>
    if 0 < step ∧ 4 ≤ n ∧ (n - 4) % step = 0 then some ((n - 4) / step + 1) else none
  | true, .periodic => if 0 < step ∧ 4 ≤ n ∧ n % step = 0 then some (n / step) else none

/-- Places where pieces meet or end: one more than the pieces, unless they close. -/
def Wrap.ends (wrap : Wrap) (pieces : Nat) : Nat :=
  match wrap with
  | periodic => pieces
  | nonperiodic => pieces + 1

structure MeshAxis where
  points : Nat
  wrap : Wrap
  step : Nat
  deriving DecidableEq, Repr

namespace MeshAxis

def patches? (a : MeshAxis) (k : PatchKind) : Option Nat :=
  pieces? (k == .bicubic) a.wrap a.step a.points

def varying? (a : MeshAxis) (k : PatchKind) : Option Nat := (a.patches? k).map a.wrap.ends

end MeshAxis

def CurveKind.segments? (k : CurveKind) (wrap : Wrap) (step n : Nat) : Option (Nat × Nat) :=
  (pieces? (k == .cubic) wrap step n).map fun s => (s, wrap.ends s)

end SceneStream
