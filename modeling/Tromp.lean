import Tromp.Term.Foreign
import Tromp.Source.Parser
import Tromp.Drawing.Overflow
import Tromp.Svg.Picture
import Tromp.Grid.Sketch
import Tromp.Diagram.Action
import Tromp.Command.Plan
import Tromp.Main
import Tromp.Proofs.Source.Grammar
import Tromp.Proofs.Source.Reading
import Tromp.Proofs.Source.Agreement
import Tromp.Proofs.Source.Recognition
import Tromp.Proofs.Source.Spelling
import Tromp.Proofs.Source.Recovery
import Tromp.Proofs.Source.EarliestFault
import Tromp.Proofs.Grid.Cells
import Tromp.Proofs.Source.RoundTrip
import Tromp.Proofs.Grid.Rearrangement
import Tromp.Proofs.Grid.Coverage
import Tromp.Proofs.Arithmetic.Exact
import Tromp.Proofs.Drawing.Drawable
import Tromp.Proofs.Drawing.Nested
import Tromp.Proofs.Drawing.Passes
import Tromp.Proofs.Drawing.Scale
import Tromp.Proofs.Drawing.Run
import Tromp.Proofs.Term.Address
import Tromp.Proofs.Drawing.Segments
import Tromp.Proofs.Drawing.Reach
import Tromp.Proofs.Drawing.Decoding
import Tromp.Proofs.Term.Occurrence
import Tromp.Proofs.Term.Resolution
import Tromp.Proofs.Drawing.Clearance
import Tromp.Proofs.Drawing.Columns
import Tromp.Proofs.Drawing.Contact
import Tromp.Proofs.Drawing.Tiling
import Tromp.Proofs.Term.Alpha
import Tromp.Proofs.Drawing.Coupling
import Tromp.Proofs.Drawing.Marks
import Tromp.Proofs.Drawing.Boxes
import Tromp.Proofs.Drawing.Captions
import Tromp.Proofs.Diagram.Generation
import Tromp.Proofs.Drawing.Canvas
import Tromp.Proofs.Drawing.Literals
import Tromp.Proofs.Xml.RoundTrip
import Tromp.Proofs.Arithmetic.Numerals
import Tromp.Proofs.Svg.Attributes
import Tromp.Proofs.Arithmetic.Zeros
import Tromp.Proofs.Svg.ReadBack
import Tromp.Proofs.Grid.Course
import Tromp.Proofs.Grid.Junctions
import Tromp.Proofs.Grid.Filling
import Tromp.Proofs.Diagram.Title
import Tromp.Proofs.Term.Literals
import Tromp.Proofs.Drawing.Dimensions
import Tromp.Proofs.Arithmetic.Checked
import Tromp.Proofs.Drawing.Weight
import Tromp.Proofs.Drawing.Overflow
import Tromp.Proofs.Drawing.Acceptance
import Tromp.Proofs.Diagram.Colours
import Tromp.Proofs.Source.Tiling
import Tromp.Proofs.Source.Respelling
import Tromp.Proofs.Source.Diagnosis
import Tromp.Proofs.Term.Numerals
import Tromp.Proofs.Grid.Interruption
import Tromp.Proofs.Grid.Trimming
import Tromp.Proofs.Drawing.FirstFit
import Tromp.Proofs.Grid.Limits
import Tromp.Proofs.Drawing.Rotation
import Tromp.Proofs.Svg.Accounting
import Tromp.Proofs.Drawing.Anchoring
import Tromp.Proofs.Drawing.Embedding
import Tromp.Proofs.Source.Residue
import Tromp.Proofs.Source.Driving
import Tromp.Proofs.Term.Walks
import Tromp.Proofs.Settings.Options
