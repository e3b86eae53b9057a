import Linkage.Source.Basic

/-!
# Validation

A source unit is well formed when every identifier stored in a node points at a node of the right
kind. Validation finds the first one that does not, going through the top-level items, then the
declarations in order, then the statements, the expressions and the annotations.
-/

namespace Linkage

/-- What a declaration that should exist is wanted for. -/
inductive DeclRole where
  | item
  | parent
  | parameter
  | method
  | member
  | genericOwner
  | genericName
  | binding
  deriving DecidableEq, Repr, Inhabited

def DeclRole.text : DeclRole → String
  | .item => "top-level item"
  | .parent => "declaration parent"
  | .parameter => "function parameter"
  | .method => "interface method"
  | .member => "namespace member"
  | .genericOwner => "generic parameter owner"
  | .genericName => "generic parameter declaration"
  | .binding => "let binding"

inductive Malformed where
  | missingDecl (role : DeclRole) (decl : DeclId)
  | missingExpr (expr : ExprId)
  | missingStmt (stmt : StmtId)
  | missingBlock (block : BlockId)
  | missingTypeExpr (ty : TypeExprId)
  | missingGeneric (generic : GenericId)
  /-- The function lists something else among its parameters. -/
  | notParameter (func : DeclId)
  /-- The interface lists something else among its methods. -/
  | notMethod (interface : DeclId)
  /-- The declaration that a binding introduces is no variable. -/
  | notVariable (decl : DeclId)
  | emptyPath
  deriving DecidableEq, Repr, Inhabited

namespace Malformed

def what : Malformed → String
  | .missingDecl role _ => role.text
  | .missingExpr _ => "missing expression"
  | .missingStmt _ => "missing statement"
  | .missingBlock _ => "missing block"
  | .missingTypeExpr _ => "missing type annotation"
  | .missingGeneric _ => "missing generic parameter"
  | .notParameter _ => "function parameter is not a parameter"
  | .notMethod _ => "interface method is not a function"
  | .notVariable _ => "let binding is not a variable"
  | .emptyPath => "empty path expression"

/-- The node at fault. An empty path expression names none. -/
def node : Malformed → String
  | .missingDecl _ decl => decl.text
  | .missingExpr expr => expr.text
  | .missingStmt stmt => stmt.text
  | .missingBlock block => block.text
  | .missingTypeExpr ty => ty.text
  | .missingGeneric generic => generic.text
  | .notParameter func => func.text
  | .notMethod interface => interface.text
  | .notVariable decl => decl.text
  | .emptyPath => ""

def text (m : Malformed) : String := m.what ++ " (" ++ m.node ++ ")"

end Malformed

abbrev Check := Except Malformed Unit

def Check.require (holds : Bool) (fault : Malformed) : Check :=
  if holds then .ok () else .error fault

namespace Source

open Check

def checkDecl (src : Source) (role : DeclRole) (id : DeclId) : Check :=
  require (src.decl? id).isSome (.missingDecl role id)

def checkExpr (src : Source) (id : ExprId) : Check :=
  require (src.expr? id).isSome (.missingExpr id)

def checkTypeExpr (src : Source) (id : TypeExprId) : Check :=
  require (src.typeExpr? id).isSome (.missingTypeExpr id)

/-- A block exists together with all its statements. -/
def checkBlock (src : Source) (id : BlockId) : Check := do
  match src.block? id with
  | none => .error (.missingBlock id)
  | some block => block.stmts.forM fun stmt => require (src.stmt? stmt).isSome (.missingStmt stmt)

def checkGeneric (src : Source) (id : GenericId) : Check := do
  match src.generic? id with
  | none => .error (.missingGeneric id)
  | some param =>
    src.checkDecl .genericOwner param.owner
    src.checkDecl .genericName param.decl
    param.bound.forM src.checkTypeExpr
    param.default.forM src.checkTypeExpr

/-- The declaration exists and its kind passes the test. -/
def checkKind (src : Source) (role : DeclRole) (test : DeclKind → Bool) (fault : Malformed)
    (id : DeclId) : Check := do
  src.checkDecl role id
  require ((src.decl? id).any (test ·.kind)) fault

def checkDeclKind (src : Source) (id : DeclId) : DeclKind → Check
  | .var v => v.ty.forM src.checkTypeExpr
  | .parameter p => src.checkTypeExpr p.ty
  | .function f => do
    f.params.forM <| src.checkKind .parameter (fun | .parameter _ => true | _ => false) (.notParameter id)
    f.ret.forM src.checkTypeExpr
    f.body.forM src.checkBlock
  | .struct s => do
    s.fields.forM (src.checkTypeExpr ·.ty)
    s.implements.forM src.checkTypeExpr
  | .variant v => v.cases.forM fun c => c.payload.forM src.checkTypeExpr
  | .interface i => i.methods.forM <| src.checkKind .method DeclKind.isFunction (.notMethod id)
  | .union u => u.members.forM src.checkTypeExpr
  | .typeAlias a => src.checkTypeExpr a.target
  | .genericParam g => src.checkGeneric g
  | .space members => members.forM (src.checkDecl .member)

def checkDeclNode (src : Source) (id : DeclId) (d : Decl) : Check := do
  d.parent.forM (src.checkDecl .parent)
  d.generics.forM src.checkGeneric
  src.checkDeclKind id d.kind

def checkStmtShape (src : Source) : StmtShape ExprId BlockId → Check
  | .binding decl init => do
    src.checkKind .binding (fun | .var _ => true | _ => false) (.notVariable decl) decl
    init.forM src.checkExpr
  | .assign target value => do
    src.checkExpr target
    src.checkExpr value
  | .expr e => src.checkExpr e
  | .ret value => value.forM src.checkExpr
  | .ifChain arms otherwise => do
    arms.forM fun (cond, body) => do
      src.checkExpr cond
      src.checkBlock body
    otherwise.forM src.checkBlock
  | .staticIf cond body otherwise => do
    src.checkExpr cond
    src.checkBlock body
    otherwise.forM src.checkBlock
  | .switch scrutinee cases => do
    src.checkExpr scrutinee
    cases.forM fun c => do
      c.values.forM src.checkExpr
      src.checkBlock c.body
  | .whileLoop cond body => do
    src.checkExpr cond
    src.checkBlock body
  | .block body => src.checkBlock body

def checkExprShape (src : Source) : ExprShape ExprId TypeExprId → Check
  | .intLit _ => .ok ()
  | .floatLit _ => .ok ()
  | .strLit _ => .ok ()
  | .boolLit _ => .ok ()
  | .name _ => .ok ()
  | .path segments => require (!segments.isEmpty) .emptyPath
  | .call callee typeArgs args => do
    src.checkExpr callee
    typeArgs.forM src.checkTypeExpr
    args.forM src.checkExpr
  | .construct ty fields => do
    src.checkTypeExpr ty
    fields.forM (src.checkExpr ·.2)
  | .member base _ => src.checkExpr base
  | .addressOf place => src.checkExpr place
  | .unary _ operand => src.checkExpr operand
  | .binary _ lhs rhs => do
    src.checkExpr lhs
    src.checkExpr rhs

def numberedDecls (src : Source) : List (DeclId × Decl) :=
  src.decls.mapIdx fun i d => (⟨i⟩, d)

/-- Find the first reference that does not lead where it should. -/
def validate (src : Source) : Check := do
  src.items.forM (src.checkDecl .item)
  src.numberedDecls.forM fun (id, d) => src.checkDeclNode id d
  src.stmts.forM (src.checkStmtShape ·.shape)
  src.exprs.forM (src.checkExprShape ·.shape)
  src.typeExprs.forM fun node => node.shape.parts.forM src.checkTypeExpr

end Source

end Linkage
