import SceneStream.Declaration
import SceneStream.Variable.Topology

/-! How many elements a variable of each storage class holds on a primitive. One that is constant
holds one on all of them. -/
namespace SceneStream

structure ValueCounts where
  uniform : Nat
  varying : Nat
  vertex : Nat
  faceVarying : Nat
  faceVertex : Nat
  deriving DecidableEq, Repr

namespace ValueCounts

def get (c : ValueCounts) : StorageClass → Nat
  | .constant => 1
  | .uniform => c.uniform
  | .varying => c.varying
  | .vertex => c.vertex
  | .faceVarying => c.faceVarying
  | .faceVertex => c.faceVertex

def single (n : Nat) : ValueCounts := ⟨1, n, n, n, n⟩

def quadric : ValueCounts := single 4
def polygon (n : Nat) : ValueCounts := single n
def generalPolygon (sizes : List Nat) : ValueCounts := polygon sizes.sum
def points (n : Nat) : ValueCounts := single n
def blobby (leaves : Nat) : ValueCounts := single leaves

def indexed (verts : List Nat) : Nat := verts.foldl (fun n v => max n (v + 1)) 0

def faces (faces : Nat) (sizes verts : List Nat) : ValueCounts :=
  ⟨faces, indexed verts, indexed verts, sizes.sum, sizes.sum⟩

def pointsPolygons (sizes verts : List Nat) : ValueCounts := faces sizes.length sizes verts

def pointsGeneralPolygons (loops sizes verts : List Nat) : ValueCounts :=
  faces loops.length sizes verts

def subdivisionMesh (sizes verts : List Nat) : ValueCounts := pointsPolygons sizes verts

def patch : PatchKind → ValueCounts
  | .bilinear => ⟨1, 4, 4, 4, 4⟩
  | .bicubic => ⟨1, 4, 16, 4, 16⟩

def patchMesh? (k : PatchKind) (u v : MeshAxis) : Option ValueCounts := do
  let patches := (← u.patches? k) * (← v.patches? k)
  let varying := (← u.varying? k) * (← v.varying? k)
  some ⟨patches, varying, u.points * v.points, patches * 4, patches * (k.order * k.order)⟩

def nuPatch {α : Type} [Geometry.Scalar α] (nu uorder : Nat) (uknots : List α)
    (nv vorder : Nat) (vknots : List α) : ValueCounts :=
  let segments := Geometry.Knots.spanCount nu uorder uknots *
    Geometry.Knots.spanCount nv vorder vknots
  ⟨segments, (nu + 2 - uorder) * (nv + 2 - vorder), nu * nv, segments * 4,
    segments * uorder * vorder⟩

def curves? (k : CurveKind) (sizes : List Nat) (wrap : Wrap) (step : Nat) : Option ValueCounts := do
  let segments ← sizes.mapM (k.segments? wrap step)
  let varying := (segments.map (·.2)).sum
  some ⟨sizes.length, varying, sizes.sum, varying, sizes.sum⟩

end ValueCounts
end SceneStream
