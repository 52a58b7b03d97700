import SceneStream.Scene
import SceneStream.Session

/-! An engine loads one scene after the other with the same settings and keeps the last. -/
namespace SceneStream

structure Engine where
  options : SessionOptions
  scene : Option Scene
  crashed : Bool

namespace Engine

def new : Engine := ⟨.default, none, false⟩

def setTessellation (e : Engine) (u v : Nat) : Option Engine :=
  let fits (n : Nat) : Bool := 1 ≤ n && n ≤ Attributes.finest
  if fits u && fits v then some { e with options := { e.options with tessellation := (u, v) } }
  else none

def setLayout (e : Engine) (name : String) : Option Engine :=
  (Layout.ofName? name).map fun layout => { e with options := { e.options with layout } }

def load (e : Engine) (files : Files) (bytes : Stream.Bytes) : Engine :=
  let s := (Session.start e.options files).readBytes bytes "<memory>"
  { e with scene := some (Scene.ofSession s.finish), crashed := e.crashed || s.crashed }

def surfaceCount (e : Engine) : Nat := (e.scene.map fun s => s.surfaces.length).getD 0
def worst (e : Engine) : Option Severity := e.scene.bind Scene.worst

end Engine
end SceneStream
