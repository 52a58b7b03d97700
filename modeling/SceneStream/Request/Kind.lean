import SceneStream.Text.Distance

/-! The closed set of requests: the name of each in a stream, the group that says where it may
stand, and the least number of values it takes. -/
namespace SceneStream

inductive RequestGroup where
  | anywhere
  | context
  | frame
  | world
  | options
  | block
  | still
  | moving
  | transforms
  | geometry
  | solid
  | object
  | instances
  | motion
  | close
  deriving DecidableEq, Repr

inductive RequestKind where
  | declare | errorHandler | version | system | beginContext | endContext | frameBegin | frameEnd
  | worldBegin | worldEnd | attributeBegin | attributeEnd | transformBegin | transformEnd
  | solidBegin | solidEnd | objectBegin | objectEnd | objectInstance | motionBegin | motionEnd
  | resourceBegin | resourceEnd | resource | archiveBegin | archiveEnd | readArchive | format
  | frameAspectRatio | screenWindow | cropWindow | projection | clipping | clippingPlane
  | depthOfField | shutter | pixelVariance | pixelSamples | pixelFilter | exposure | imager
  | quantize | display | displayChannel | hider | colorSamples | relativeDetail | setOption
  | camera | makeTexture | makeBump | makeLatLongEnvironment | makeCubeFaceEnvironment
  | makeShadow | makeBrickMap | lightSource | areaLightSource | illuminate | setAttribute | color
  | opacity | surface | atmosphere | interior | exterior | displacement | shader
  | textureCoordinates | shadingRate | shadingInterpolation | matte | bound | detail
  | detailRange | geometricApproximation | geometricRepresentation | orientation
  | reverseOrientation | sides | basis | trimCurve | identity | transform | concatTransform
  | perspective | translate | rotate | scale | skew | deformation | coordinateSystem
  | scopedCoordinateSystem | coordSysTransform | polygon | generalPolygon | pointsPolygons
  | pointsGeneralPolygons | patch | patchMesh | nuPatch | subdivisionMesh | sphere | cone
  | cylinder | hyperboloid | paraboloid | disk | torus | points | curves | blobby | procedural
  | geometry
  deriving DecidableEq, Repr

namespace RequestKind

def all : List RequestKind := [
  .declare, .errorHandler, .version, .system, .beginContext, .endContext, .frameBegin, .frameEnd,
  .worldBegin, .worldEnd, .attributeBegin, .attributeEnd, .transformBegin, .transformEnd,
  .solidBegin, .solidEnd, .objectBegin, .objectEnd, .objectInstance, .motionBegin, .motionEnd,
  .resourceBegin, .resourceEnd, .resource, .archiveBegin, .archiveEnd, .readArchive, .format,
  .frameAspectRatio, .screenWindow, .cropWindow, .projection, .clipping, .clippingPlane,
  .depthOfField, .shutter, .pixelVariance, .pixelSamples, .pixelFilter, .exposure, .imager,
  .quantize, .display, .displayChannel, .hider, .colorSamples, .relativeDetail, .setOption,
  .camera, .makeTexture, .makeBump, .makeLatLongEnvironment, .makeCubeFaceEnvironment,
  .makeShadow, .makeBrickMap, .lightSource, .areaLightSource, .illuminate, .setAttribute, .color,
  .opacity, .surface, .atmosphere, .interior, .exterior, .displacement, .shader,
  .textureCoordinates, .shadingRate, .shadingInterpolation, .matte, .bound, .detail,
  .detailRange, .geometricApproximation, .geometricRepresentation, .orientation,
  .reverseOrientation, .sides, .basis, .trimCurve, .identity, .transform, .concatTransform,
  .perspective, .translate, .rotate, .scale, .skew, .deformation, .coordinateSystem,
  .scopedCoordinateSystem, .coordSysTransform, .polygon, .generalPolygon, .pointsPolygons,
  .pointsGeneralPolygons, .patch, .patchMesh, .nuPatch, .subdivisionMesh, .sphere, .cone,
  .cylinder, .hyperboloid, .paraboloid, .disk, .torus, .points, .curves, .blobby, .procedural,
  .geometry]

structure Row where
  name : String
  group : RequestGroup
  arity : Nat
  deriving DecidableEq, Repr

def row : RequestKind → Row
  | .declare => ⟨"Declare", .anywhere, 2⟩
  | .errorHandler => ⟨"ErrorHandler", .anywhere, 1⟩
  | .version => ⟨"version", .anywhere, 1⟩
  | .system => ⟨"System", .anywhere, 1⟩
  | .beginContext => ⟨"Begin", .context, 0⟩
  | .endContext => ⟨"End", .context, 0⟩
  | .frameBegin => ⟨"FrameBegin", .frame, 1⟩
  | .frameEnd => ⟨"FrameEnd", .close, 0⟩
  | .worldBegin => ⟨"WorldBegin", .world, 0⟩
  | .worldEnd => ⟨"WorldEnd", .close, 0⟩
  | .attributeBegin => ⟨"AttributeBegin", .block, 0⟩
  | .attributeEnd => ⟨"AttributeEnd", .close, 0⟩
  | .transformBegin => ⟨"TransformBegin", .block, 0⟩
  | .transformEnd => ⟨"TransformEnd", .close, 0⟩
  | .solidBegin => ⟨"SolidBegin", .solid, 1⟩
  | .solidEnd => ⟨"SolidEnd", .close, 0⟩
  | .objectBegin => ⟨"ObjectBegin", .object, 1⟩
  | .objectEnd => ⟨"ObjectEnd", .close, 0⟩
  | .objectInstance => ⟨"ObjectInstance", .instances, 1⟩
  | .motionBegin => ⟨"MotionBegin", .motion, 1⟩
  | .motionEnd => ⟨"MotionEnd", .close, 0⟩
  | .resourceBegin => ⟨"ResourceBegin", .anywhere, 0⟩
  | .resourceEnd => ⟨"ResourceEnd", .close, 0⟩
  | .resource => ⟨"Resource", .anywhere, 2⟩
  | .archiveBegin => ⟨"ArchiveBegin", .anywhere, 1⟩
  | .archiveEnd => ⟨"ArchiveEnd", .close, 0⟩
  | .readArchive => ⟨"ReadArchive", .anywhere, 1⟩
  | .format => ⟨"Format", .options, 3⟩
  | .frameAspectRatio => ⟨"FrameAspectRatio", .options, 1⟩
  | .screenWindow => ⟨"ScreenWindow", .options, 4⟩
  | .cropWindow => ⟨"CropWindow", .options, 4⟩
  | .projection => ⟨"Projection", .options, 1⟩
  | .clipping => ⟨"Clipping", .options, 2⟩
  | .clippingPlane => ⟨"ClippingPlane", .options, 6⟩
  | .depthOfField => ⟨"DepthOfField", .options, 3⟩
  | .shutter => ⟨"Shutter", .options, 2⟩
  | .pixelVariance => ⟨"PixelVariance", .options, 1⟩
  | .pixelSamples => ⟨"PixelSamples", .options, 2⟩
  | .pixelFilter => ⟨"PixelFilter", .options, 3⟩
  | .exposure => ⟨"Exposure", .options, 2⟩
  | .imager => ⟨"Imager", .options, 1⟩
  | .quantize => ⟨"Quantize", .options, 5⟩
  | .display => ⟨"Display", .options, 3⟩
  | .displayChannel => ⟨"DisplayChannel", .options, 1⟩
  | .hider => ⟨"Hider", .options, 1⟩
  | .colorSamples => ⟨"ColorSamples", .options, 2⟩
  | .relativeDetail => ⟨"RelativeDetail", .options, 1⟩
  | .setOption => ⟨"Option", .options, 1⟩
  | .camera => ⟨"Camera", .options, 1⟩
  | .makeTexture => ⟨"MakeTexture", .options, 7⟩
  | .makeBump => ⟨"MakeBump", .options, 7⟩
  | .makeLatLongEnvironment => ⟨"MakeLatLongEnvironment", .options, 5⟩
  | .makeCubeFaceEnvironment => ⟨"MakeCubeFaceEnvironment", .options, 11⟩
  | .makeShadow => ⟨"MakeShadow", .options, 2⟩
  | .makeBrickMap => ⟨"MakeBrickMap", .options, 2⟩
  | .lightSource => ⟨"LightSource", .moving, 2⟩
  | .areaLightSource => ⟨"AreaLightSource", .moving, 2⟩
  | .illuminate => ⟨"Illuminate", .still, 2⟩
  | .setAttribute => ⟨"Attribute", .still, 1⟩
  | .color => ⟨"Color", .moving, 1⟩
  | .opacity => ⟨"Opacity", .moving, 1⟩
  | .surface => ⟨"Surface", .moving, 1⟩
  | .atmosphere => ⟨"Atmosphere", .moving, 1⟩
  | .interior => ⟨"Interior", .moving, 1⟩
  | .exterior => ⟨"Exterior", .moving, 1⟩
  | .displacement => ⟨"Displacement", .moving, 1⟩
  | .shader => ⟨"Shader", .still, 2⟩
  | .textureCoordinates => ⟨"TextureCoordinates", .moving, 8⟩
  | .shadingRate => ⟨"ShadingRate", .still, 1⟩
  | .shadingInterpolation => ⟨"ShadingInterpolation", .still, 1⟩
  | .matte => ⟨"Matte", .still, 1⟩
  | .bound => ⟨"Bound", .still, 6⟩
  | .detail => ⟨"Detail", .still, 6⟩
  | .detailRange => ⟨"DetailRange", .still, 4⟩
  | .geometricApproximation => ⟨"GeometricApproximation", .still, 2⟩
  | .geometricRepresentation => ⟨"GeometricRepresentation", .still, 1⟩
  | .orientation => ⟨"Orientation", .still, 1⟩
  | .reverseOrientation => ⟨"ReverseOrientation", .still, 0⟩
  | .sides => ⟨"Sides", .still, 1⟩
  | .basis => ⟨"Basis", .moving, 4⟩
  | .trimCurve => ⟨"TrimCurve", .still, 10⟩
  | .identity => ⟨"Identity", .transforms, 0⟩
  | .transform => ⟨"Transform", .transforms, 16⟩
  | .concatTransform => ⟨"ConcatTransform", .transforms, 16⟩
  | .perspective => ⟨"Perspective", .transforms, 1⟩
  | .translate => ⟨"Translate", .transforms, 3⟩
  | .rotate => ⟨"Rotate", .transforms, 4⟩
  | .scale => ⟨"Scale", .transforms, 3⟩
  | .skew => ⟨"Skew", .transforms, 7⟩
  | .deformation => ⟨"Deformation", .transforms, 1⟩
  | .coordinateSystem => ⟨"CoordinateSystem", .transforms, 1⟩
  | .scopedCoordinateSystem => ⟨"ScopedCoordinateSystem", .transforms, 1⟩
  | .coordSysTransform => ⟨"CoordSysTransform", .transforms, 1⟩
  | .polygon => ⟨"Polygon", .geometry, 0⟩
  | .generalPolygon => ⟨"GeneralPolygon", .geometry, 1⟩
  | .pointsPolygons => ⟨"PointsPolygons", .geometry, 2⟩
  | .pointsGeneralPolygons => ⟨"PointsGeneralPolygons", .geometry, 3⟩
  | .patch => ⟨"Patch", .geometry, 1⟩
  | .patchMesh => ⟨"PatchMesh", .geometry, 5⟩
  | .nuPatch => ⟨"NuPatch", .geometry, 10⟩
  | .subdivisionMesh => ⟨"SubdivisionMesh", .geometry, 3⟩
  | .sphere => ⟨"Sphere", .geometry, 4⟩
  | .cone => ⟨"Cone", .geometry, 3⟩
  | .cylinder => ⟨"Cylinder", .geometry, 4⟩
  | .hyperboloid => ⟨"Hyperboloid", .geometry, 7⟩
  | .paraboloid => ⟨"Paraboloid", .geometry, 4⟩
  | .disk => ⟨"Disk", .geometry, 3⟩
  | .torus => ⟨"Torus", .geometry, 5⟩
  | .points => ⟨"Points", .geometry, 0⟩
  | .curves => ⟨"Curves", .geometry, 3⟩
  | .blobby => ⟨"Blobby", .geometry, 4⟩
  | .procedural => ⟨"Procedural", .geometry, 3⟩
  | .geometry => ⟨"Geometry", .geometry, 1⟩

def name (k : RequestKind) : String := k.row.name
def group (k : RequestKind) : RequestGroup := k.row.group

/-- Fewer values than these are refused before anything else is looked at. -/
def arity (k : RequestKind) : Nat := k.row.arity

def ofName? (s : String) : Option RequestKind := all.find? (·.name == s)

def isGeometry (k : RequestKind) : Bool := k.group == .geometry

theorem memAll (k : RequestKind) : k ∈ all := by cases k <;> decide

theorem ofNameName (k : RequestKind) : ofName? k.name = some k :=
  (by decide +kernel : ∀ k ∈ all, ofName? k.name = some k) k (memAll k)

theorem ofNameIff (s : String) (k : RequestKind) : ofName? s = some k ↔ k.name = s := by
  constructor
  · intro h
    simpa using List.find?_some h
  · intro h
    rw [← h, ofNameName]

def lowered (s : String) : String := s.map Char.toLower

def nearer (best : Option (Nat × String)) (next : Nat × String) : Option (Nat × String) :=
  match best with
  | some b => if next.1 < b.1 then some next else some b
  | none => some next

/-- The name nearest to a misspelt one, if it is near enough; letter case does not count. -/
def suggest (s : String) : Option String :=
  let candidates := all.map fun k => (Text.distance (lowered s) (lowered k.name), k.name)
  let near := candidates.filter fun (d, n) => d ≤ max (n.length / 3) 2
  (near.foldl nearer none).map (·.2)

end RequestKind
end SceneStream
