import ScopeScript.Decimal.Notation
import ScopeScript.Decimal.Shortest
import ScopeScript.Error
import ScopeScript.Eval.Expression
import ScopeScript.Eval.Outcome
import ScopeScript.Eval.Program
import ScopeScript.Eval.Rounds
import ScopeScript.Eval.Session
import ScopeScript.Eval.Statement
import ScopeScript.Interactive.Highlight
import ScopeScript.Interactive.Prompt
import ScopeScript.Main
import ScopeScript.Number.Arithmetic
import ScopeScript.Number.Basic
import ScopeScript.Number.Double
import ScopeScript.Number.Notation
import ScopeScript.Proofs.Eval.Budget
import ScopeScript.Proofs.Eval.ClippedLimit
import ScopeScript.Proofs.Eval.Comparison
import ScopeScript.Proofs.Eval.Contract
import ScopeScript.Proofs.Eval.Correspondence
import ScopeScript.Proofs.Eval.Counting
import ScopeScript.Proofs.Eval.Diagnostics
import ScopeScript.Proofs.Eval.Faults
import ScopeScript.Proofs.Eval.Globals
import ScopeScript.Proofs.Eval.Grouping
import ScopeScript.Proofs.Eval.Joined
import ScopeScript.Proofs.Eval.Layout
import ScopeScript.Proofs.Eval.Parentheses
import ScopeScript.Proofs.Eval.Progression
import ScopeScript.Proofs.Eval.ReadBack
import ScopeScript.Proofs.Eval.Renaming
import ScopeScript.Proofs.Eval.Replay
import ScopeScript.Proofs.Eval.Scopes
import ScopeScript.Proofs.Eval.Sequence
import ScopeScript.Proofs.Eval.Sessions
import ScopeScript.Proofs.Eval.Steps
import ScopeScript.Proofs.Eval.Termination
import ScopeScript.Proofs.Eval.Transparency
import ScopeScript.Proofs.Eval.WordArithmetic
import ScopeScript.Proofs.Grammar.Basic
import ScopeScript.Proofs.Grammar.Blame
import ScopeScript.Proofs.Grammar.Calls
import ScopeScript.Proofs.Grammar.Completeness
import ScopeScript.Proofs.Grammar.Join
import ScopeScript.Proofs.Grammar.Layout
import ScopeScript.Proofs.Grammar.Lookahead
import ScopeScript.Proofs.Grammar.Marks
import ScopeScript.Proofs.Grammar.Moved
import ScopeScript.Proofs.Grammar.Nesting
import ScopeScript.Proofs.Grammar.Parentheses
import ScopeScript.Proofs.Grammar.Program
import ScopeScript.Proofs.Grammar.Reading
import ScopeScript.Proofs.Grammar.Rejected
import ScopeScript.Proofs.Grammar.Repair.Basic
import ScopeScript.Proofs.Grammar.Repair.Expression
import ScopeScript.Proofs.Grammar.Repair.Program
import ScopeScript.Proofs.Grammar.Repair.Statement
import ScopeScript.Proofs.Grammar.Slices
import ScopeScript.Proofs.Grammar.Soundness
import ScopeScript.Proofs.Grammar.Stretches
import ScopeScript.Proofs.Grammar.Unfinished
import ScopeScript.Proofs.Interactive.Calls
import ScopeScript.Proofs.Interactive.Highlight
import ScopeScript.Proofs.Lexical.Basic
import ScopeScript.Proofs.Lexical.Cuts
import ScopeScript.Proofs.Lexical.Lexeme
import ScopeScript.Proofs.Lexical.Lines
import ScopeScript.Proofs.Lexical.Newline
import ScopeScript.Proofs.Lexical.Parentheses
import ScopeScript.Proofs.Lexical.Rendering
import ScopeScript.Proofs.Lexical.Scan
import ScopeScript.Proofs.Lexical.Slices
import ScopeScript.Proofs.Lexical.Tokens
import ScopeScript.Proofs.Number.Doubles
import ScopeScript.Proofs.Number.Order
import ScopeScript.Proofs.Scope.Frames
import ScopeScript.Proofs.Text.Stretches
import ScopeScript.Proofs.Tree.Grouping
import ScopeScript.Proofs.Tree.Map
import ScopeScript.Proofs.Tree.Nodes
import ScopeScript.Proofs.Tree.Unplaced
import ScopeScript.Report.Basic
import ScopeScript.Report.Line
import ScopeScript.Report.Markup
import ScopeScript.Report.Snippet
import ScopeScript.Scope.Env
import ScopeScript.Scope.Event
import ScopeScript.Scope.Frame
import ScopeScript.Script
import ScopeScript.Text.Blank
import ScopeScript.Text.LineTable
import ScopeScript.Text.Outline
import ScopeScript.Text.Position
import ScopeScript.Text.Printable
import ScopeScript.Text.Quoted
import ScopeScript.Text.Span
import ScopeScript.Text.Width
import ScopeScript.Token.Basic
import ScopeScript.Token.Kind
import ScopeScript.Token.Lexeme
import ScopeScript.Token.Scan
import ScopeScript.Tree.Basic
import ScopeScript.Tree.Cursor
import ScopeScript.Tree.Expression
import ScopeScript.Tree.Operator
import ScopeScript.Tree.Outline
import ScopeScript.Tree.Program
import ScopeScript.Tree.Statement
import ScopeScript.Value
import ScopeScript.Proofs.Text.LineTable
import ScopeScript.Proofs.Scope.Operations
import ScopeScript.Proofs.Grammar.Progress
import ScopeScript.Proofs.Grammar.Written
