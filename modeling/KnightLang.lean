import KnightLang.Main
import KnightLang.Proofs.Ownership
import KnightLang.Proofs.Erasure
import KnightLang.Proofs.Expression.Exact
import KnightLang.Proofs.Expression.Continuation
import KnightLang.Proofs.Leaks
import KnightLang.Proofs.Termination
import KnightLang.Proofs.Expression.Written
import KnightLang.Proofs.Execution.Depth
import KnightLang.Proofs.Execution.Quitting
import KnightLang.Proofs.Execution.SharedInput
import KnightLang.Proofs.Arithmetic.Power
import KnightLang.Proofs.Immutability
import KnightLang.Proofs.Variables.Resolution
import KnightLang.Proofs.Footprint
import KnightLang.Proofs.Strings
import KnightLang.Proofs.Expression.Interruption
import KnightLang.Proofs.Decimal
import KnightLang.Proofs.Expression.Lookahead
import KnightLang.Proofs.Contract
import KnightLang.Proofs.Expression.Frame
import KnightLang.Proofs.Restoration
import KnightLang.Proofs.Nesting
import KnightLang.Proofs.Transparency
import KnightLang.Proofs.Variables.References
import KnightLang.Proofs.Comparison
import KnightLang.Proofs.Blocks
