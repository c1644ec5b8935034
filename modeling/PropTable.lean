import PropTable.Main
import PropTable.Proofs.FirstError
import PropTable.Proofs.Rendering
import PropTable.Proofs.Nodes
import PropTable.Proofs.LabelReading
import PropTable.Proofs.TruthTable
import PropTable.Proofs.Columns
import PropTable.Proofs.Agreement
import PropTable.Proofs.Respelling
import PropTable.Proofs.SessionRuns
import PropTable.Proofs.Exits
import PropTable.Proofs.Arguments
import PropTable.Proofs.Checking
import PropTable.Proofs.Limits
import PropTable.Proofs.Replay
import PropTable.Proofs.FileInput
import PropTable.Proofs.Implications
import PropTable.Proofs.Composition
import PropTable.Proofs.Brackets
import PropTable.Proofs.Headers
import PropTable.Proofs.PrintedTable
import PropTable.Proofs.Enumeration
import PropTable.Proofs.SolverRuns
import PropTable.Proofs.LogRuns
import PropTable.Proofs.TraceCalls
import PropTable.Proofs.ErrorMessages
import PropTable.Proofs.Verbosity
import PropTable.Proofs.LogReplay
import PropTable.Proofs.Enclosure
import PropTable.Proofs.RuleProgress
