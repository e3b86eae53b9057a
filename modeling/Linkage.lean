import Linkage.Binary64
import Linkage.Constant.Basic
import Linkage.Constant.Fold
import Linkage.Decimal.Shortest
import Linkage.Diagnostic
import Linkage.Inference
import Linkage.Link.Basic
import Linkage.Link.Call
import Linkage.Link.Declare
import Linkage.Link.Expr
import Linkage.Link.Fault
import Linkage.Link.Problem
import Linkage.Link.State
import Linkage.Link.Stmt
import Linkage.Link.TypeExpr
import Linkage.Link.Value
import Linkage.Moves
import Linkage.History
import Linkage.NodeId
import Linkage.Options
import Linkage.Program.Basic
import Linkage.Program.Query
import Linkage.Registry.Basic
import Linkage.Registry.Cursor
import Linkage.Registry.Propagation
import Linkage.Scope
import Linkage.Signature
import Linkage.Source.Basic
import Linkage.Source.Builder
import Linkage.Source.Decl
import Linkage.Source.Display
import Linkage.Source.Node
import Linkage.Source.Tree
import Linkage.Source.Unfolding
import Linkage.Source.Validation
import Linkage.Span
import Linkage.Table
import Linkage.Text.CodeRanges
import Linkage.Text.Extending
import Linkage.Text.Ignorable
import Linkage.Text.Invisible
import Linkage.Text.Lines
import Linkage.Text.Printable
import Linkage.Text.Quoted
import Linkage.Ty.Basic
import Linkage.Ty.Relation
import Linkage.Ty.Subst
import Linkage.Proofs.Ty.Sameness
import Linkage.Proofs.Registry.Growth
import Linkage.Proofs.Registry.Closure
import Linkage.Proofs.Registry.Deduplication
import Linkage.Proofs.Registry.Bounds
import Linkage.Proofs.Registry.Order
import Linkage.Proofs.Registry.Cursors
import Linkage.Proofs.Ty.Scoping
import Linkage.Proofs.Inference.Scoping
import Linkage.Proofs.Link.Frame
import Linkage.Proofs.Source.Built
import Linkage.Proofs.Source.Validity
import Linkage.Proofs.Source.Wholeness
import Linkage.Proofs.Link.Facts
import Linkage.Proofs.Link.Scopes
import Linkage.Proofs.Link.Types
import Linkage.Proofs.Link.Values
import Linkage.Proofs.Link.Calls
import Linkage.Proofs.Link.Exprs
import Linkage.Proofs.Link.Stmts
import Linkage.Proofs.Link.Naming
import Linkage.Proofs.Link.Declarations
import Linkage.Proofs.Link.Signatures
import Linkage.Proofs.Link.Passes
import Linkage.Proofs.Link.Outcome
import Linkage.Proofs.Link.Silence
import Linkage.Proofs.Program.Coherence
import Linkage.Proofs.Program.Iterations
import Linkage.Proofs.Program.Selections
import Linkage.Proofs.Moves.Record
import Linkage.Proofs.Link.Noting
import Linkage.Proofs.Link.Straight
import Linkage.Proofs.Link.Evaluation
import Linkage.Proofs.Moves.Flow
import Linkage.Proofs.Moves.Paths
import Linkage.Proofs.Link.Branches
import Linkage.Proofs.Moves.Intersection
import Linkage.Proofs.Moves.Courses
import Linkage.Proofs.Link.Drops
import Linkage.Proofs.Ty.Agreement
import Linkage.Proofs.Ty.NormalForms
import Linkage.Proofs.Link.Verdicts
import Linkage.Proofs.Link.Steady
import Linkage.Proofs.Source.Items
import Linkage.Proofs.Link.Annotations
import Linkage.Proofs.Link.Stages
import Linkage.Proofs.Link.Bindings
import Linkage.Proofs.Link.Order
import Linkage.Proofs.Link.Mentions
import Linkage.Proofs.Link.Redeclarations
import Linkage.Proofs.Link.Duplicates
import Linkage.Proofs.Link.Lookups
import Linkage.Proofs.Link.AnnotationLookups
import Linkage.Proofs.Link.SignatureLookups
import Linkage.Proofs.Link.CallLookups
import Linkage.Proofs.Link.ExprLookups
import Linkage.Proofs.Link.BodyLookups
import Linkage.Proofs.Link.Checks
import Linkage.Proofs.Link.Walks
import Linkage.Proofs.Link.Restoring
import Linkage.Proofs.Link.Bodies
import Linkage.Proofs.Link.Surroundings
import Linkage.Proofs.Link.Resolution
import Linkage.Proofs.Ty.Congruence
import Linkage.Proofs.Ty.Closing
import Linkage.Proofs.Ty.Placeholders
import Linkage.Proofs.Ty.Spellings
import Linkage.Proofs.Inference.Inversion
import Linkage.Proofs.Link.Operands
import Linkage.Proofs.Link.Defaults
import Linkage.Proofs.Link.Arguments
import Linkage.Proofs.Inference.Spellings
import Linkage.Proofs.Moves.Traces
import Linkage.Proofs.Registry.Contexts
import Linkage.Proofs.Link.Literals
import Linkage.Proofs.Source.Locals
import Linkage.Proofs.Link.Closings
import Linkage.Proofs.Link.Footprints
import Linkage.Proofs.Link.Exits
import Linkage.Proofs.Link.Schedules
import Linkage.Proofs.Source.References
import Linkage.Proofs.Constant.Folding
import Linkage.Proofs.Registry.Forecast
import Linkage.Proofs.Moves.Spans
import Linkage.Proofs.Ty.Composition
