import SceneStream.Number.Shortest
import SceneStream.Text.Quoted
import SceneStream.Text.Utf8
import SceneStream.Text.Distance
import SceneStream.Text.Blank
import SceneStream.Problem
import SceneStream.Part
import SceneStream.Request.Args
import SceneStream.Mode.Stack
import SceneStream.Declaration.Dictionary
import SceneStream.Stream.Reader
import SceneStream.Stream.Lexeme
import SceneStream.Stream.Item
import SceneStream.Stream.Encoding
import SceneStream.Geometry.Transform
import SceneStream.Geometry.Triangulation
import SceneStream.Geometry.Quadric
import SceneStream.Geometry.Patch
import SceneStream.Geometry.Nurbs
import SceneStream.Surface
import SceneStream.Variable
import SceneStream.State.Setting
import SceneStream.Primitive
import SceneStream.Engine
import SceneStream.Command
import SceneStream.Main
import SceneStream.Proofs.Stream.Lexeme
import SceneStream.Proofs.Text.Utf8
import SceneStream.Proofs.Stream.Item
import SceneStream.Proofs.Session.Blocks
import SceneStream.Proofs.Stream.Accounting
import SceneStream.Proofs.Stream.RoundTrip
import SceneStream.Proofs.Surface.Layout
import SceneStream.Proofs.Session.Rejection
import SceneStream.Proofs.Stream.Failure
import SceneStream.Proofs.Stream.Transcode
import SceneStream.Proofs.Primitive.Selection
import SceneStream.Proofs.Session.Transparent
import SceneStream.Proofs.Session.Playback
import SceneStream.Proofs.Session.Context
import SceneStream.Proofs.Declaration.Meaning
import SceneStream.Proofs.State.Nesting
import SceneStream.Proofs.Stream.Pull
import SceneStream.Proofs.Session.Abort
import SceneStream.Proofs.Command.Convert
import SceneStream.Proofs.Geometry.Links.Safety
import SceneStream.Proofs.Geometry.Nurbs.Tiling
import SceneStream.Proofs.Geometry.Nurbs.Table
import SceneStream.Proofs.Primitive.Blend
import SceneStream.Proofs.Geometry.Polygon
import SceneStream.Proofs.Geometry.HoledPolygon
import SceneStream.Proofs.Variable.Binding
import SceneStream.Proofs.Request.Integer
import SceneStream.Proofs.Request.Grouping
import SceneStream.Proofs.Stream.Array
import SceneStream.Proofs.Stream.Layout
import SceneStream.Proofs.Stream.Lines
import SceneStream.Proofs.Declaration.Printed
import SceneStream.Proofs.Primitive.Agreement
import SceneStream.Proofs.Geometry.Fill
import SceneStream.Proofs.Geometry.Links.Distinct
import SceneStream.Proofs.Geometry.Area
import SceneStream.Proofs.State.Composition
