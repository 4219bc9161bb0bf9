import NandLang.Main
import NandLang.Scope.Closed
import NandLang.Proofs.Visits
import NandLang.Proofs.Scoping
import NandLang.Proofs.Renaming
import NandLang.Proofs.Budget
import NandLang.Proofs.Closed
import NandLang.Proofs.Sequence
import NandLang.Proofs.Printing
import NandLang.Proofs.Frame
import NandLang.Proofs.Environment
import NandLang.Proofs.Equivariance
import NandLang.Proofs.Subcommands
import NandLang.Proofs.Diagnosis
import NandLang.Proofs.Granularity
import NandLang.Proofs.Independence
import NandLang.Proofs.Unrolling
import NandLang.Proofs.Entries
import NandLang.Proofs.Freed
import NandLang.Proofs.Termination
import NandLang.Proofs.Ledger
import NandLang.Proofs.Mentions
import NandLang.Proofs.StraightLine
import NandLang.Proofs.Wrapping
import NandLang.Proofs.Spelling
import NandLang.Proofs.Blanks
import NandLang.Proofs.Layout
import NandLang.Proofs.Evaluation
import NandLang.Proofs.ErrorCode
import NandLang.Proofs.Located
