import Radix.Text.Blank
import Radix.Text.LowerCase
import Radix.Text.Quoted
import Radix.Numeral.Arithmetic
import Radix.Token.Scan
import Radix.Expr.Read
import Radix.Template
import Radix.Table
import Radix.Eval.Fuel
import Radix.Session
import Radix.Interactive
import Radix.CommandLine
import Radix.Main
import Radix.Proofs.Placement
import Radix.Proofs.Read.RoundTrip
import Radix.Proofs.Read.Acceptance
import Radix.Proofs.Interpolation
import Radix.Proofs.WellFormed
import Radix.Proofs.Eval.Recovery
import Radix.Proofs.Layout
import Radix.Proofs.Unclosed
import Radix.Proofs.Scope
import Radix.Proofs.Termination
import Radix.Proofs.Located
import Radix.Proofs.Braces
import Radix.Proofs.Echo
import Radix.Proofs.Lines
import Radix.Proofs.DepthLimit
import Radix.Proofs.Numeral.Spelling
import Radix.Proofs.CallDepth
import Radix.Proofs.Rebasing
import Radix.Proofs.Calculation
import Radix.Proofs.Template.Literal
import Radix.Proofs.Template.Place
import Radix.Proofs.Read.Words
import Radix.Proofs.Calls
import Radix.Proofs.ShortCircuit
import Radix.Proofs.Natives
import Radix.Proofs.Loops
import Radix.Proofs.Position
import Radix.Proofs.Numeral.Bare
import Radix.Proofs.Eval.Occurs
import Radix.Proofs.Listing
import Radix.Proofs.Read.Names
import Radix.Proofs.Signature
import Radix.Proofs.Read.Progress
