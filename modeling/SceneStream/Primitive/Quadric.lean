import SceneStream.Geometry.Quadric
import SceneStream.Primitive.Basic
import SceneStream.Request.Spatial

/-! Quadrics and tori. Each becomes one surface; its variables are given at four corners. -/
namespace SceneStream.Primitive
open SceneStream.Geometry

def shape? (kind : RequestKind) : Option (Args.Read Quadric) :=
  let x := Args.double
  match kind with
  | .sphere => some (return .sphere (← x) (← x) (← x) (← x))
  | .cone => some (return .cone (← x) (← x) (← x))
  | .cylinder => some (return .cylinder (← x) (← x) (← x) (← x))
  | .hyperboloid => some (return .hyperboloid (← Args.vec) (← Args.vec) (← x))
  | .paraboloid => some (return .paraboloid (← x) (← x) (← x) (← x))
  | .disk => some (return .disk (← x) (← x) (← x))
  | .torus => some (return .torus (← x) (← x) (← x) (← x) (← x))
  | _ => none

def quadric (s : Setting) (r : Request) (shape : Args.Read Quadric) : Declaring Outcome := do
  let (q, list) ← Declaring.lift (Args.read r do
    let q ← shape
    return (q, ← Args.tokenList))
  let vars ← Variables.bind .quadric list
  let steps := s.attributes.tessellation
  Declaring.lift do
    let grid ← (q.sample steps.1 steps.2).mapError fun f => reject r.kind f.kind f.message
    return .surfaces [← carry vars (patchSpread r.kind .bezier .bezier steps)
      (Surface.ofGrid r.kind s.layout grid)]

end SceneStream.Primitive
