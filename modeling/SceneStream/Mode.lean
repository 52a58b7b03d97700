import SceneStream.Request.Kind

/-! Blocks: the modes a scene is in while a block is open, which requests open and close each, and
in which modes each group of requests may stand. -/
namespace SceneStream

inductive Mode where
  | context | frame | world | attributes | transform | solid | object | motion | resource | archive
  deriving DecidableEq, Repr

namespace Mode

def name : Mode → String
  | context => "Begin"
  | frame => "Frame"
  | world => "World"
  | attributes => "Attribute"
  | transform => "Transform"
  | solid => "Solid"
  | object => "Object"
  | motion => "Motion"
  | resource => "Resource"
  | archive => "Archive"

def all : List Mode :=
  [context, frame, world, attributes, transform, solid, object, motion, resource, archive]

/-- What may stand in a transparent block is what may stand around it. -/
def isTransparent : Mode → Bool
  | resource | archive => true
  | _ => false

def openedBy : RequestKind → Option Mode
  | .beginContext => some context
  | .frameBegin => some frame
  | .worldBegin => some world
  | .attributeBegin => some attributes
  | .transformBegin => some transform
  | .solidBegin => some solid
  | .objectBegin => some object
  | .motionBegin => some motion
  | .resourceBegin => some resource
  | .archiveBegin => some archive
  | _ => none

def closedBy : RequestKind → Option Mode
  | .endContext => some context
  | .frameEnd => some frame
  | .worldEnd => some world
  | .attributeEnd => some attributes
  | .transformEnd => some transform
  | .solidEnd => some solid
  | .objectEnd => some object
  | .motionEnd => some motion
  | .resourceEnd => some resource
  | .archiveEnd => some archive
  | _ => none

def group : Mode → RequestGroup
  | context => .context
  | frame => .frame
  | world => .world
  | attributes | transform => .block
  | solid => .solid
  | object => .object
  | motion => .motion
  | resource | archive => .anywhere

def inWorld : Mode → Bool
  | world | attributes | transform | solid | object | motion => true
  | _ => false

end Mode

def RequestGroup.allows (g : RequestGroup) (m : Mode) : Bool :=
  !m.isTransparent && match g with
  | anywhere | context | close | moving | transforms => true
  | frame => m == .context
  | world | options => m == .context || m == .frame
  | block | still | motion => m != .motion
  | geometry => m.inWorld
  | solid => m.inWorld && m != .motion
  | object => m == .context || m == .frame || m == .world || m == .attributes || m == .transform
  | instances => m.inWorld && m != .motion

end SceneStream
