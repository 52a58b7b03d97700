import SceneStream.Geometry.Vector
import SceneStream.Problem

/-! Regular grids of samples over a parametric domain, row by row along u. A sample without a normal
of its own, as at a pole, takes the one of the nearest sample in its column. -/
namespace SceneStream.Geometry

structure Grid (α : Type) where
  uCount : Nat
  vCount : Nat
  params : List (α × α)
  points : List (Vec α)
  normals : List (Vec α)
  deriving DecidableEq, Repr

inductive GridFault where
  | resolution
  | tooLarge (tu tv : Nat)
  deriving DecidableEq, Repr

namespace GridFault

def message : GridFault → String
  | resolution => "tessellation resolution must be at least 1x1"
  | tooLarge tu tv => s!"tessellation grid {tu}x{tv} is too large to index"

def kind : GridFault → ProblemKind
  | resolution => .range
  | tooLarge _ _ => .outOfMemory

end GridFault

namespace Grid

/-- The number of samples, if thirty-two bits can tell them apart. -/
def size? (tu tv : Nat) : Option Nat :=
  let n := (tu + 1) * (tv + 1)
  if n < 2 ^ 32 then some n else none

def check (tu tv : Nat) : Except GridFault Unit :=
  if tu = 0 ∨ tv = 0 then .error .resolution
  else if (size? tu tv).isSome then .ok () else .error (.tooLarge tu tv)

theorem inColumn {uCount vCount r k : Nat} (wide : 0 < uCount) (inside : r < vCount) :
    r * uCount + k % uCount < uCount * vCount := by
  have column := Nat.mod_lt k wide
  have rows : (r + 1) * uCount ≤ vCount * uCount := Nat.mul_le_mul_right _ inside
  rw [Nat.add_mul, Nat.mul_comm vCount] at rows
  omega

/-- The first normal given in the column of sample `k`, the rows taken by distance and the lower one
before the higher one. -/
def nearest? {β : Type} (uCount vCount : Nat) (given : Array (Option β)) (wide : 0 < uCount)
    (sized : given.size = uCount * vCount) (k : Nat) : Option β :=
  let row := k / uCount
  let rows := (List.range' 1 (vCount - 1)).flatMap fun d =>
    (if d ≤ row then [row - d] else []) ++ [row + d]
  rows.findSome? fun r =>
    if low : r < vCount then
      have inside : r * uCount + k % uCount < given.size := sized ▸ inColumn wide low
      given[r * uCount + k % uCount]
    else none

def fill {β : Type} (uCount vCount : Nat) (given : List (Option β)) (fallback : β)
    (wide : 0 < uCount) (sized : given.length = uCount * vCount) : List β :=
  let near (k : Nat) := nearest? uCount vCount given.toArray wide sized k
  given.zipIdx.map fun (n, k) => n.getD ((near k).getD fallback)

variable {α : Type} [Scalar α]

def parameters (tu tv : Nat) : List (α × α) :=
  (List.range (tv + 1)).flatMap fun j =>
    (List.range (tu + 1)).map fun i =>
      (Scalar.ofNat i / Scalar.ofNat tu, Scalar.ofNat j / Scalar.ofNat tv)

theorem parametersLength (tu tv : Nat) :
    (parameters tu tv : List (α × α)).length = (tu + 1) * (tv + 1) := by
  simp [parameters, List.length_flatMap, List.map_const', Nat.mul_comm]

def sample (tu tv : Nat) (shape : α → α → Vec α × Option (Vec α)) (fallback : Vec α) : Grid α :=
  let params := parameters tu tv
  let samples := params.map fun (u, v) => shape u v
  ⟨tu + 1, tv + 1, params, samples.map (·.1),
    fill (tu + 1) (tv + 1) (samples.map (·.2)) fallback (Nat.succ_pos tu)
      (by simp [samples, params, parametersLength])⟩

end Grid

structure Triangle where
  a : Nat
  b : Nat
  c : Nat
  deriving DecidableEq, Repr

def Triangle.toList (t : Triangle) : List Nat := [t.a, t.b, t.c]

namespace Grid

def triangles (uCount vCount : Nat) : List Triangle :=
  (List.range (vCount - 1)).flatMap fun j =>
    (List.range (uCount - 1)).flatMap fun i =>
      let k := j * uCount + i
      [⟨k, k + 1, k + uCount⟩, ⟨k + uCount, k + 1, k + uCount + 1⟩]

def strip (uCount j : Nat) : List Nat :=
  (List.range uCount).flatMap fun i => [(j + 1) * uCount + i, j * uCount + i]

def strips (uCount vCount : Nat) : List (List Nat) :=
  if uCount < 2 then [] else (List.range (vCount - 1)).map (strip uCount)

end Grid
end SceneStream.Geometry
