import Juxta.Main
import Juxta.Proofs.Command.Bounded
import Juxta.Proofs.Command.History
import Juxta.Proofs.Command.LongLines
import Juxta.Proofs.Eval.Mapping
import Juxta.Proofs.Eval.Strict
import Juxta.Proofs.Fraction.Order
import Juxta.Proofs.Fraction.Record
import Juxta.Proofs.Fraction.Simplest
import Juxta.Proofs.Program.Continuation
import Juxta.Proofs.Program.Counts
import Juxta.Proofs.Program.Ending
import Juxta.Proofs.Program.LowestTerms
import Juxta.Proofs.Program.Parentheses
import Juxta.Proofs.Program.ReadBack
import Juxta.Proofs.Program.Scoping
import Juxta.Proofs.Session.Arena
import Juxta.Proofs.Text.Division
import Juxta.Proofs.Token.Comment
import Juxta.Proofs.Token.Number
import Juxta.Proofs.Token.Outline
import Juxta.Proofs.Token.Respelling
import Juxta.Proofs.Token.Shift
import Juxta.Proofs.Token.Unclosed
import Juxta.Proofs.Tree.Advancing
import Juxta.Proofs.Tree.Blame
import Juxta.Proofs.Tree.Leftover
import Juxta.Proofs.Tree.Parts
import Juxta.Proofs.Tree.Precedence
import Juxta.Proofs.Tree.Shape
import Juxta.Proofs.Tree.Traversal
import Juxta.Proofs.Tree.UnknownOperator
import Juxta.Proofs.Value.Halves
import Juxta.Proofs.Value.Lossless
import Juxta.Proofs.Value.Parenthesized
import Juxta.Proofs.Value.Quote
import Juxta.Session
