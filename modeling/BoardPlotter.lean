import BoardPlotter.CommandLine.Arguments
import BoardPlotter.CommandLine.Lines
import BoardPlotter.CommandLine.Run
import BoardPlotter.Config
import BoardPlotter.Config.Loading
import BoardPlotter.Config.Reading
import BoardPlotter.Conversion
import BoardPlotter.Decimal
import BoardPlotter.Decimal.Layout
import BoardPlotter.Decimal.Shortest
import BoardPlotter.Files.Charset
import BoardPlotter.Files.Path
import BoardPlotter.Files.Tree
import BoardPlotter.Files.Writing
import BoardPlotter.Geometry.Affine
import BoardPlotter.Geometry.Arc
import BoardPlotter.Geometry.Bezier
import BoardPlotter.Geometry.Crossing
import BoardPlotter.Geometry.Eigen
import BoardPlotter.Geometry.Ellipse
import BoardPlotter.Geometry.Point
import BoardPlotter.Geometry.Polyline
import BoardPlotter.Geometry.Vec3
import BoardPlotter.Log.Clock
import BoardPlotter.Log.Context
import BoardPlotter.Log.Line
import BoardPlotter.Log.Notice
import BoardPlotter.Log.Setup
import BoardPlotter.Log.Template
import BoardPlotter.Main
import BoardPlotter.Markup.Character
import BoardPlotter.Markup.Definitions
import BoardPlotter.Markup.Element
import BoardPlotter.Markup.Encoding
import BoardPlotter.Markup.Reader
import BoardPlotter.Markup.Token
import BoardPlotter.Motion.Board
import BoardPlotter.Motion.Operation
import BoardPlotter.Motion.Program
import BoardPlotter.Motion.Tool
import BoardPlotter.Plan.Axes
import BoardPlotter.Plan.Clip
import BoardPlotter.Plan.Hatch
import BoardPlotter.Scalar
import BoardPlotter.Scalar.Double
import BoardPlotter.Scalar.Whole
import BoardPlotter.Svg.Document
import BoardPlotter.Svg.Drawing
import BoardPlotter.Svg.Length
import BoardPlotter.Svg.Loading
import BoardPlotter.Svg.Nesting
import BoardPlotter.Svg.PathData.Command
import BoardPlotter.Svg.PathData.Group
import BoardPlotter.Svg.PathData.Pen
import BoardPlotter.Svg.PathData.Step
import BoardPlotter.Svg.PathData.Token
import BoardPlotter.Svg.Shape
import BoardPlotter.Svg.TransformList
import BoardPlotter.Svg.Viewport
import BoardPlotter.Text.Blank
import BoardPlotter.Text.Digit
import BoardPlotter.Text.Numeral
import BoardPlotter.Text.Printable
import BoardPlotter.Text.Quoted
import BoardPlotter.Text.Reading
import BoardPlotter.Value
import BoardPlotter.Yaml.Reader
import BoardPlotter.Yaml.Scalar
import BoardPlotter.Yaml.Token
import BoardPlotter.Proofs.Motion.Contact
import BoardPlotter.Proofs.Plan.EvenOdd
import BoardPlotter.Proofs.Svg.Ancestry
import BoardPlotter.Proofs.Geometry.Segment
import BoardPlotter.Proofs.PathData.Plain
import BoardPlotter.Proofs.Plan.Coverage
import BoardPlotter.Proofs.Plan.Rejoining
import BoardPlotter.Proofs.Plan.Direction
import BoardPlotter.Proofs.Plan.Sweep
import BoardPlotter.Proofs.Plan.Hatching
import BoardPlotter.Proofs.Plan.Margin
import BoardPlotter.Proofs.Motion.Strokes
import BoardPlotter.Proofs.Motion.Reach
import BoardPlotter.Proofs.Plan.Redrawing
import BoardPlotter.Proofs.Plan.Stretch
import BoardPlotter.Proofs.Plan.Filling
import BoardPlotter.Proofs.Geometry.Flattening
import BoardPlotter.Proofs.Geometry.Center
import BoardPlotter.Proofs.Geometry.Rescaling
import BoardPlotter.Proofs.PathData.Rescaling
import BoardPlotter.Proofs.Svg.Fault
import BoardPlotter.Proofs.Svg.Isolation
import BoardPlotter.Proofs.PathData.Concatenation
import BoardPlotter.Proofs.PathData.Tracer
import BoardPlotter.Proofs.PathData.Prefix
import BoardPlotter.Proofs.Scalar.Rounding
import BoardPlotter.Proofs.Scalar.Magnitude
import BoardPlotter.Proofs.Geometry.Length
import BoardPlotter.Proofs.Config.Questions
import BoardPlotter.Proofs.Config.Refusal
import BoardPlotter.Proofs.Config.Usable
import BoardPlotter.Proofs.Motion.Streaming
import BoardPlotter.Proofs.Motion.Accuracy
import BoardPlotter.Proofs.Svg.ViewBox
import BoardPlotter.Proofs.Plan.Steady
import BoardPlotter.Proofs.Plan.Idempotence
import BoardPlotter.Proofs.Motion.Session
import BoardPlotter.Proofs.Text.Spelling
import BoardPlotter.Proofs.PathData.Grammar
import BoardPlotter.Proofs.PathData.Tokens
import BoardPlotter.Proofs.Svg.Arguments
import BoardPlotter.Proofs.Svg.Transforms
import BoardPlotter.Proofs.Text.Blank
import BoardPlotter.Proofs.PathData.Outline
import BoardPlotter.Proofs.Geometry.Joining
import BoardPlotter.Proofs.Plan.Listing
import BoardPlotter.Proofs.Geometry.Affinity
import BoardPlotter.Proofs.PathData.Affinity
import BoardPlotter.Proofs.Files.Directories
import BoardPlotter.Proofs.Files.Writing
import BoardPlotter.Proofs.Geometry.Eigen
import BoardPlotter.Proofs.Geometry.MaxScale
import BoardPlotter.Proofs.Geometry.Sampling
import BoardPlotter.Proofs.Geometry.Sagitta
import BoardPlotter.Proofs.Geometry.LongWay
import BoardPlotter.Proofs.Geometry.Deviation
import BoardPlotter.Proofs.Geometry.Ellipse
import BoardPlotter.Proofs.Scalar.Order
import BoardPlotter.Proofs.Geometry.Refinement
import BoardPlotter.Proofs.Geometry.Reversal
import BoardPlotter.Proofs.Svg.Levels
import BoardPlotter.Proofs.Svg.Permissive
import BoardPlotter.Proofs.Svg.Closing
import BoardPlotter.Proofs.Plan.Variance
import BoardPlotter.Proofs.Geometry.Quarter
import BoardPlotter.Proofs.Svg.Rounded
import BoardPlotter.Proofs.Plan.Pieces
import BoardPlotter.Proofs.Plan.Checked
import BoardPlotter.Proofs.Log.Handlers
