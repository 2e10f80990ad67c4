import RegexGloss.Main
import RegexGloss.Proofs.Index.Nesting
import RegexGloss.Proofs.Index.Coverage
import RegexGloss.Proofs.Index.Slices
import RegexGloss.Proofs.Index.Postorder
import RegexGloss.Proofs.Index.Outermost
import RegexGloss.Proofs.Construct.Faults
import RegexGloss.Proofs.Fault.Cause
import RegexGloss.Proofs.Opener.Forms
import RegexGloss.Proofs.Token.Append
import RegexGloss.Proofs.Construct.Settled
import RegexGloss.Proofs.Composition.Alternation
import RegexGloss.Proofs.Spelling.Basic
import RegexGloss.Proofs.Spelling.Token
import RegexGloss.Proofs.Spelling.Writes
import RegexGloss.Proofs.Spelling.Explanation
import RegexGloss.Proofs.Composition.Group
import RegexGloss.Proofs.Fault.Surplus
import RegexGloss.Proofs.Fault.Closing
import RegexGloss.Proofs.Reader.Rereading
import RegexGloss.Proofs.Token.Valid
import RegexGloss.Proofs.Options.ExplicitCapture
import RegexGloss.Proofs.Tree.Shape
import RegexGloss.Proofs.Token.Echo
import RegexGloss.Proofs.Skipping.Condense
import RegexGloss.Proofs.Tree.Lines
import RegexGloss.Proofs.Token.Unbroken
import RegexGloss.Proofs.Tree.Indentation
import RegexGloss.Proofs.Spelling.Quoted
import RegexGloss.Proofs.Index.Runs
import RegexGloss.Proofs.CommandLine.Answer
import RegexGloss.Proofs.Token.Braces
import RegexGloss.Proofs.Index.Operations
import RegexGloss.Proofs.Index.OpenRun
import RegexGloss.Proofs.Reader.Progress
import RegexGloss.Proofs.Tree.Blocks
import RegexGloss.Proofs.Reader.Operations
