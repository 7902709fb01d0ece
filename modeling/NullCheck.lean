import NullCheck.Main
import NullCheck.Walk
import NullCheck.Proofs.State.Partition
import NullCheck.Proofs.State.Valuation
import NullCheck.Proofs.Convergence
import NullCheck.Proofs.Discipline
import NullCheck.Proofs.Exploration
import NullCheck.Proofs.Finding
import NullCheck.Proofs.Machine.Basic
import NullCheck.Proofs.Machine.Comparison
import NullCheck.Proofs.Machine.Soundness
import NullCheck.Proofs.State.Vocabulary
import NullCheck.Proofs.State.Persistence
import NullCheck.Proofs.Visit.Persistence
import NullCheck.Proofs.State.Nullability
import NullCheck.Proofs.State.Answers
import NullCheck.Proofs.Visit.Operands
import NullCheck.Proofs.State.Assignment
import NullCheck.Proofs.Visit.Assignment
import NullCheck.Proofs.Report
import NullCheck.Proofs.Visit.Redundancy
import NullCheck.Proofs.Visit.TestedOperand
import NullCheck.Proofs.State.Index
import NullCheck.Proofs.State.Forgetting
import NullCheck.Proofs.State.Consistency
import NullCheck.Proofs.Visit.Built
import NullCheck.Proofs.Consistency
import NullCheck.Proofs.Visit.Check
import NullCheck.Proofs.State.Healing
import NullCheck.Proofs.Visit.Healing
import NullCheck.Proofs.State.Bindings
import NullCheck.Proofs.Visit.Volatile
import NullCheck.Proofs.State.NotANumber
import NullCheck.Proofs.Visit.NotANumber
import NullCheck.Proofs.Json.Lossless
import NullCheck.Proofs.JvmType.Display
import NullCheck.Proofs.JvmType.Grammar
import NullCheck.Proofs.JvmType.Signature
import NullCheck.Proofs.Program.Declaration
import NullCheck.Proofs.Program.Document
import NullCheck.Proofs.Program.Validity
import NullCheck.Proofs.ClassHierarchy.Subtyping
import NullCheck.Proofs.ClassHierarchy.Extension
import NullCheck.Proofs.State.Types
import NullCheck.Proofs.State.Repetition
import NullCheck.Proofs.Visit.Integers
import NullCheck.Proofs.State.Numbering
import NullCheck.Proofs.Visit.Numbering
import NullCheck.Proofs.Decimal.Binary
import NullCheck.Proofs.Visit.Numbers
import NullCheck.Proofs.Procedure.Anchors
import NullCheck.Proofs.Value.Interner
import NullCheck.Proofs.Value.Meaning
