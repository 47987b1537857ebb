import FieldLang.CommandLine.Arguments
import FieldLang.CommandLine.Command
import FieldLang.CommandLine.Disk
import FieldLang.CommandLine.Options
import FieldLang.CommandLine.Path
import FieldLang.CommandLine.Run
import FieldLang.Decimal.Binary
import FieldLang.Decimal.Notation
import FieldLang.Decimal.Reader
import FieldLang.Decimal.Shortest
import FieldLang.Diagnostic.Basic
import FieldLang.Diagnostic.Policy
import FieldLang.Eval.Env
import FieldLang.Eval.Error
import FieldLang.Eval.Field
import FieldLang.Eval.Run
import FieldLang.Eval.Value
import FieldLang.Field.Blend
import FieldLang.Field.Function
import FieldLang.Field.Named
import FieldLang.Field.Noise
import FieldLang.Field.Solid
import FieldLang.Host.Call
import FieldLang.Host.Compile
import FieldLang.Host.Operator
import FieldLang.Host.Reader
import FieldLang.Host.Run
import FieldLang.Host.Token
import FieldLang.Host.Tree
import FieldLang.Host.Value
import FieldLang.Layout.Doc
import FieldLang.Loops.Tree
import FieldLang.Loops.Unroll
import FieldLang.Main
import FieldLang.Number.Column
import FieldLang.Number.Double
import FieldLang.Number.Scalar
import FieldLang.Number.Tensor
import FieldLang.Proofs.Eval.Anchored
import FieldLang.Proofs.Eval.Failures
import FieldLang.Scene.Checker
import FieldLang.Scene.Datum
import FieldLang.Scene.Library
import FieldLang.Scene.Reader
import FieldLang.Scene.Scene
import FieldLang.Scene.Schema
import FieldLang.Session.Cache
import FieldLang.Syntax.Builtin
import FieldLang.Syntax.Display
import FieldLang.Syntax.Parser
import FieldLang.Syntax.Reading
import FieldLang.Syntax.Token
import FieldLang.Syntax.Tree
import FieldLang.Text.Blank
import FieldLang.Text.Identifier
import FieldLang.Text.Numeral
import FieldLang.Text.Printable
import FieldLang.Text.Property
import FieldLang.Text.Quoted
import FieldLang.Text.Split
import FieldLang.Text.UpperCase
import FieldLang.Writing.Canonical
import FieldLang.Writing.Error
import FieldLang.Writing.Host
import FieldLang.Writing.Target
import FieldLang.Proofs.Decimal.Bits
import FieldLang.Proofs.Decimal.Reading
import FieldLang.Proofs.Decimal.Shortest
import FieldLang.Proofs.Diagnostic.Options
import FieldLang.Proofs.Host.Compiled
import FieldLang.Proofs.Host.Structure
import FieldLang.Proofs.Session.Transparency
import FieldLang.Proofs.Writing.Formatting
import FieldLang.Proofs.Syntax.Layers
import FieldLang.Proofs.CommandLine.Containment
import FieldLang.Proofs.Host.Naming
import FieldLang.Proofs.Layout.Breaking
import FieldLang.Proofs.Loops.Rings
import FieldLang.Proofs.Syntax.Earliest
import FieldLang.Proofs.Syntax.Slices
import FieldLang.Proofs.Host.Widths
import FieldLang.Proofs.Host.WholeNumbers
import FieldLang.Proofs.Writing.Minimal
import FieldLang.Proofs.Eval.NoPoints
import FieldLang.Proofs.Field.Blending
import FieldLang.Proofs.Field.NoiseRange
import FieldLang.Proofs.Host.Refused
