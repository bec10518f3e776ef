import Infeasibility.Main
import Infeasibility.Oracle.Counting
import Infeasibility.Proofs.Conflict.Agreement
import Infeasibility.Proofs.Conflict.Lifetimes
import Infeasibility.Proofs.Conflict.Valuation
import Infeasibility.Proofs.Conflict.Verdicts
import Infeasibility.Proofs.Diagnosis.Cost
import Infeasibility.Proofs.Diagnosis.Irreducibility
import Infeasibility.Proofs.Diagnosis.Justification
import Infeasibility.Proofs.Diagnosis.Partition
import Infeasibility.Proofs.Diagnosis.Propagation
import Infeasibility.Proofs.Diagnosis.Transparency
import Infeasibility.Proofs.FiniteDomain.Arithmetic
import Infeasibility.Proofs.FiniteDomain.Coherence
import Infeasibility.Proofs.FiniteDomain.Culprit
import Infeasibility.Proofs.FiniteDomain.Foreign
import Infeasibility.Proofs.FiniteDomain.Limit
import Infeasibility.Proofs.FiniteDomain.Odometer
import Infeasibility.Proofs.FiniteDomain.Readability
import Infeasibility.Proofs.FiniteDomain.Release
import Infeasibility.Proofs.FiniteDomain.ShortCircuit
import Infeasibility.Proofs.FiniteDomain.TermText
import Infeasibility.Proofs.Lecture.Report
import Infeasibility.Proofs.Parameter.Access
