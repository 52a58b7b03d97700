import SceneStream.Primitive.Basic
import SceneStream.Request.Spatial

/-! Patches and meshes of patches. Each patch of a mesh becomes a surface of its own. -/
namespace SceneStream.Primitive
open SceneStream.Geometry

def patchSurface (kind : RequestKind) (s : Setting) (shape : PatchKind) (control : List (Vec Float))
    (vars : Variables) : Except Problem Surface := do
  let a := s.attributes
  let (tu, tv) := a.tessellation
  let grid ← match shape with
    | .bilinear => match Quad.ofList? control with
      | none =>
        throw (inconsistent kind s!"bilinear patch needs 4 points, found {control.length}")
      | some corners => pure (Patch.bilinearGrid corners tu tv)
    | .bicubic => pure (Patch.bicubicGrid control a.uBasis a.vBasis tu tv)
  let grid ← grid.mapError fun f => reject kind f.kind f.message
  carry vars (patchSpread kind a.uBasis a.vBasis a.tessellation) (Surface.ofGrid kind s.layout grid)

def patchShape : Args.Read PatchKind := Args.word "patch type" PatchKind.ofName?
def wrap : Args.Read Wrap := Args.word "wrap mode" Wrap.ofName?

def patch (s : Setting) (r : Request) : Declaring Outcome := do
  let (shape, list) ← Declaring.lift (Args.read r do
    let shape ← patchShape
    return (shape, ← Args.tokenList))
  let vars ← Variables.bind (.patch shape) list
  Declaring.lift do
    let control ← positions r.kind vars
    return .surfaces [← patchSurface r.kind s shape control vars]

structure Mesh where
  shape : PatchKind
  u : MeshAxis
  v : MeshAxis
  deriving DecidableEq, Repr

namespace Mesh

def control (m : Mesh) (i j : Nat) : List Nat :=
  (List.range m.shape.order).flatMap fun r =>
    (List.range m.shape.order).map fun c =>
      (j * m.v.step + r) % m.v.points * m.u.points + (i * m.u.step + c) % m.u.points

def corners (across up i j : Nat) : List Nat :=
  [(0, 0), (1, 0), (0, 1), (1, 1)].map fun (a, b) =>
    (j + b) % up * across + (i + a) % across

def selection (m : Mesh) (patches across up i j : Nat) : FaceSelection :=
  let index := j * patches + i
  let each := m.shape.order * m.shape.order
  ⟨index, corners across up i j, m.control i j, (index * 4, 4), (index * each, each)⟩

structure Cut where
  patches : Nat × Nat
  ends : Nat × Nat
  counts : ValueCounts
  deriving DecidableEq, Repr

def cut (kind : RequestKind) (m : Mesh) : Except Problem Cut :=
  let ends := (m.u.varying? m.shape, m.v.varying? m.shape)
  let counts := ValueCounts.patchMesh? m.shape m.u m.v
  match m.u.patches? m.shape, m.v.patches? m.shape, ends, counts with
  | some pu, some pv, (some across, some up), some counts => .ok ⟨(pu, pv), (across, up), counts⟩
  | _, _, _, _ =>
    let steps := s!"steps {m.u.step}x{m.v.step}"
    .error (inconsistent kind
      s!"{m.u.points}x{m.v.points} points do not form whole patches with {steps}")

def Cut.places (c : Cut) : List (Nat × Nat) :=
  (List.range c.patches.2).flatMap fun j => (List.range c.patches.1).map fun i => (i, j)

def selectionAt (m : Mesh) (c : Cut) (place : Nat × Nat) : FaceSelection :=
  m.selection c.patches.1 c.ends.1 c.ends.2 place.1 place.2

def make (kind : RequestKind) (s : Setting) (m : Mesh) (points : Array (Vec Float))
    (place : Nat × Nat) (selected : Variables) : Except Problem Surface := do
  let control ← (m.control place.1 place.2).mapM (Part.item points)
  patchSurface kind s m.shape control selected

end Mesh

def mesh (s : Setting) : Args.Read (Mesh × List TokenValue) := do
  let shape ← patchShape
  let nu ← positive "nu"
  let uWrap ← wrap
  let nv ← positive "nv"
  let vWrap ← wrap
  let list ← Args.tokenList
  let steps := match shape with
    | .bilinear => (1, 1)
    | .bicubic => (s.attributes.uBasis.step, s.attributes.vBasis.step)
  return (⟨shape, ⟨nu, uWrap, steps.1⟩, ⟨nv, vWrap, steps.2⟩⟩, list)

def patchMesh (s : Setting) (r : Request) : Declaring Outcome := do
  let (m, list) ← Declaring.lift (Args.read r (mesh s))
  let c ← Declaring.lift (m.cut r.kind)
  let vars ← Variables.bind c.counts list
  Declaring.lift do
    let points := (← positions r.kind vars).toArray
    .surfaces <$> c.places.mapM fun place =>
      m.make r.kind s points place (vars.select (m.selectionAt c place))

end SceneStream.Primitive
