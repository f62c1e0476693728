import Lox.Main
import Lox.Proofs.Reading.Layers
import Lox.Proofs.Derivation.Program
import Lox.Proofs.Derivation.Concatenation
import Lox.Proofs.Evaluation.Unfolded
import Lox.Proofs.Evaluation.Sessions
import Lox.Proofs.Evaluation.Reach
import Lox.Proofs.Evaluation.Names
import Lox.Proofs.Evaluation.Layout
import Lox.Proofs.Scan.Partition
import Lox.Proofs.Evaluation.ErrorLines
import Lox.Proofs.Derivation.Prefix
import Lox.Proofs.Evaluation.Rooted
import Lox.Proofs.Interaction.Contexts
import Lox.Proofs.Interaction.Turns
import Lox.Proofs.Scan.Respaced
import Lox.Proofs.Place.EndLines
import Lox.Proofs.Evaluation.Increments
import Lox.Proofs.Reading.Trees
import Lox.Proofs.Reading.Termination
import Lox.Proofs.Derivation.Unended
import Lox.Proofs.Decimal.Written
import Lox.Proofs.Listing.Program
import Lox.Proofs.Text.NewlineCount
import Lox.Proofs.Evaluation.Nearest
import Lox.Proofs.Scan.Maximal
import Lox.Proofs.Evaluation.Dead
import Lox.Proofs.Text.LineSpans
import Lox.Proofs.Scan.Numerals
import Lox.Proofs.Evaluation.Substring
import Lox.Proofs.Reading.Boundary
