import Formula.Main
import Formula.Proofs.Approximation
import Formula.Proofs.Arithmetic
import Formula.Proofs.Bracketing
import Formula.Proofs.Canonical
import Formula.Proofs.ComplexLiterals
import Formula.Proofs.Conditionals
import Formula.Proofs.ConstantDerivatives
import Formula.Proofs.EngineHistory
import Formula.Proofs.Factorials
import Formula.Proofs.Faithful
import Formula.Proofs.Fractions
import Formula.Proofs.FusedNumerals
import Formula.Proofs.GaussianTexts
import Formula.Proofs.GluedFactors
import Formula.Proofs.ImplicitProducts
import Formula.Proofs.IntegerPowers
import Formula.Proofs.KnownConditions
import Formula.Proofs.Logic
import Formula.Proofs.Lossless
import Formula.Proofs.Nesting
import Formula.Proofs.Outlines
import Formula.Proofs.ParseErrors
import Formula.Proofs.PerfectPowers
import Formula.Proofs.Precedence
import Formula.Proofs.PriceEndings
import Formula.Proofs.PrincipalPowers
import Formula.Proofs.PrintedOperands
import Formula.Proofs.PrintedRelations
import Formula.Proofs.Promotion
import Formula.Proofs.Readable
import Formula.Proofs.RealPowers
import Formula.Proofs.Reports
import Formula.Proofs.Settled
import Formula.Proofs.Simplification
import Formula.Proofs.Slope
import Formula.Proofs.Spacing
import Formula.Proofs.Tracing
import Formula.Proofs.WellFormed
import Formula.Proofs.WholeRounding
import Formula.Proofs.WrittenRationals
import Formula.Value.Power
