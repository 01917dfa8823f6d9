import Criterion.Expr.Postfix
import Criterion.Session
import Criterion.Main
import Criterion.Proofs.Derivation
import Criterion.Proofs.Layers
import Criterion.Proofs.Depth
import Criterion.Proofs.Admission
import Criterion.Proofs.Acceptance
import Criterion.Proofs.Arrangement
import Criterion.Proofs.Parse
import Criterion.Proofs.Bytes
import Criterion.Proofs.InOrder
import Criterion.Proofs.Letters
import Criterion.Proofs.Marks
import Criterion.Proofs.Language
import Criterion.Proofs.Continuation
import Criterion.Proofs.Places
import Criterion.Proofs.Spacing
import Criterion.Proofs.Follow
import Criterion.Proofs.Spelling
import Criterion.Proofs.Widening
import Criterion.Proofs.Limits
import Criterion.Proofs.Reach
import Criterion.Proofs.Descent
import Criterion.Proofs.Memory
import Criterion.Proofs.Gaps
import Criterion.Proofs.Pointing
import Criterion.Proofs.Names
import Criterion.Proofs.Lossless
import Criterion.Proofs.Fragment
import Criterion.Proofs.Substitution
import Criterion.Proofs.Printing
import Criterion.Proofs.Branches
import Criterion.Proofs.Dependence
import Criterion.Proofs.Requests
import Criterion.Proofs.Seams
import Criterion.Proofs.Settling
import Criterion.Proofs.Lookahead
import Criterion.Proofs.Bookkeeping
import Criterion.Proofs.Readability
import Criterion.Proofs.Counting
import Criterion.Proofs.Rules
import Criterion.Proofs.Runs
import Criterion.Proofs.Exactness
import Criterion.Proofs.Division
import Criterion.Proofs.Reports
import Criterion.Proofs.Numerals
import Criterion.Proofs.Sessions
