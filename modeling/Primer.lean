import Primer.Environment.Counter
import Primer.Environment.Script
import Primer.Main
import Primer.Proofs.Evaluation.Frames
import Primer.Proofs.Grammar.Earliest
import Primer.Proofs.Grammar.RoundTrip
import Primer.Proofs.Grammar.Soundness
import Primer.Proofs.Soundness.CallOrder
import Primer.Proofs.Soundness.Resolution
import Primer.Proofs.Soundness.TypeSoundness
import Primer.Syntax.Same
import Primer.Proofs.Token.Lexemes
import Primer.Proofs.Token.Segmentation
import Primer.Proofs.Java.Grouping
import Primer.Proofs.Java.Words
import Primer.Proofs.Java.Reading
import Primer.Proofs.Grammar.Origin
import Primer.Proofs.Typing.Once
import Primer.Proofs.Typing.Standard
import Primer.Proofs.Java.Emission
import Primer.Proofs.Java.OperatorGrouping
import Primer.Proofs.Evaluation.Bare
import Primer.Proofs.Java.Recovery
import Primer.Proofs.Java.Sentences
import Primer.Proofs.Java.Determinacy
import Primer.Proofs.Java.Totality
import Primer.Proofs.Grammar.Literals
import Primer.Proofs.Pipeline.Layout
import Primer.Proofs.Pipeline.Extension
import Primer.Proofs.Token.Earliest
import Primer.Proofs.Decimal.Division
import Primer.Proofs.Evaluation.Ranges
import Primer.Proofs.Environment.Requests
import Primer.Proofs.Token.Respacing
import Primer.Proofs.Decimal.Arithmetic
import Primer.Proofs.Java.Quoting
import Primer.Proofs.Evaluation.Equality
import Primer.Proofs.Grammar.Spelling
import Primer.Proofs.Grammar.Spans
import Primer.Proofs.CommandLine.ExitCode
import Primer.Proofs.Scope.Operations
import Primer.Proofs.Evaluation.Shape
import Primer.Proofs.Java.Indentation
import Primer.Proofs.Typing.Assignability
import Primer.Proofs.Evaluation.Bounds
import Primer.Proofs.CommandLine.AllOrNothing
import Primer.Proofs.Soundness.MethodOrder
import Primer.Proofs.Grammar.Progress
