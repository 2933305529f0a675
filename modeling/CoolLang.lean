import CoolLang.Main
import CoolLang.Proofs.Declaration.Grammar
import CoolLang.Proofs.Declaration.Written
import CoolLang.Proofs.Evaluation.Conservation
import CoolLang.Proofs.Evaluation.Frames
import CoolLang.Proofs.Evaluation.Limit
import CoolLang.Proofs.Evaluation.Soundness
import CoolLang.Proofs.Evaluation.Termination
import CoolLang.Proofs.Expr.Printer
import CoolLang.Proofs.Hierarchy.Validation
import CoolLang.Proofs.Program.Resolution
import CoolLang.Proofs.Program.Soundness
import CoolLang.Proofs.Token.Partition
import CoolLang.Proofs.Typing.Alternatives
import CoolLang.Proofs.Typing.Override
import CoolLang.Proofs.Token.Lines
import CoolLang.Proofs.Evaluation.Faults
import CoolLang.Proofs.Declaration.Complaints
import CoolLang.Proofs.Program.Contract
import CoolLang.Proofs.Hierarchy.Outline
import CoolLang.Proofs.Hierarchy.Order
import CoolLang.Proofs.Typing.Outline
import CoolLang.Proofs.Typing.Reports
import CoolLang.Proofs.Program.ClassOrder
import CoolLang.Proofs.Expr.Alpha
import CoolLang.Proofs.Hierarchy.Alpha
import CoolLang.Proofs.Typing.Alpha
import CoolLang.Proofs.Evaluation.Alpha
import CoolLang.Proofs.Program.Renaming
import CoolLang.Proofs.Evaluation.Reach
import CoolLang.Proofs.Program.Heap
import CoolLang.Proofs.Evaluation.Locals
import CoolLang.Proofs.Typing.Instantiation
import CoolLang.Proofs.Program.Nesting
import CoolLang.Proofs.Evaluation.Branch
import CoolLang.Proofs.Typing.Layout
import CoolLang.Proofs.Declaration.Lookahead
import CoolLang.Proofs.Diagnostic.Excerpt
import CoolLang.Proofs.Token.Viable
import CoolLang.Proofs.Expr.Viable
import CoolLang.Proofs.Declaration.Offender
import CoolLang.Proofs.Typing.Recovery
import CoolLang.Proofs.Hierarchy.Accounts
import CoolLang.Proofs.Source.Counters
import CoolLang.Proofs.Source.Extent
import CoolLang.Proofs.Token.Passage
import CoolLang.Proofs.Expr.Passage
import CoolLang.Proofs.Declaration.Spans
import CoolLang.Proofs.Declaration.Progress
import CoolLang.Proofs.Program.Bindings
import CoolLang.Proofs.Token.Delimited
import CoolLang.Proofs.Evaluation.Substring
import CoolLang.Proofs.Token.Cursor
import CoolLang.Proofs.Program.MethodOrder
import CoolLang.Proofs.Evaluation.Input
