import Linkage.Constant.Basic
import Linkage.Registry.Cursor
import Linkage.Signature

/-!
# Linked programs

What linking finds out about a source unit: the signatures and iterations of its declarations, what
each expression resolved to and its type, which copy of a generic declaration each use refers to,
what is due to be destroyed at the end of each block, and what was computed on the way.
-/

namespace Linkage

/-- A place in source code that uses a declaration. -/
inductive UsageSite where
  | expr (id : ExprId)
  | typeExpr (id : TypeExprId)
  deriving DecidableEq, Repr, Inhabited

inductive Instance where
  | plain
  | iteration (index : IterationId)
  /-- The iteration depends on the iteration of the surrounding declaration. -/
  | dependent (subscription : SubscriptionId)
  /-- The arguments are not known, or a limit was in the way. -/
  | unresolved
  deriving DecidableEq, Repr, Inhabited

structure Usage where
  decl : DeclId
  copy : Instance
  deriving DecidableEq, Repr, Inhabited

def Instance.text : Instance → String
  | .plain => "plain"
  | .iteration index => index.text
  | .dependent subscription => subscription.text
  | .unresolved => "unresolved"

def Usage.text (u : Usage) : String := u.decl.text ++ " " ++ u.copy.text

/-- A value that has to be destroyed, and what destroys it. -/
structure ScheduledDrop where
  decl : DeclId
  destructor : DeclId
  deriving DecidableEq, Repr, Inhabited

structure Program where
  signatures : Signatures := {}
  registry : Registry := {}
  /-- What names, callees and struct literals resolved to. -/
  resolved : Table ExprId DeclId := {}
  exprTypes : Table ExprId Ty := {}
  usages : Table UsageSite Usage := {}
  /-- What is destroyed when a block ends, in the order of destruction. -/
  drops : Table BlockId (List ScheduledDrop) := {}
  /-- The arm that a static condition selected, true for the first. -/
  branches : Table StmtId Bool := {}
  constants : Table DeclId Constant := {}
  deriving Repr, Inhabited

end Linkage
