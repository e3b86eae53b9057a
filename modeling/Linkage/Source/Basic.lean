import Linkage.Source.Decl
import Linkage.Source.Node

/-!
# Source units

A source unit keeps the nodes of one unit of source code in numbered stores. Nodes refer to each
other by identifier, and nothing but validation says that what they refer to exists.
-/

namespace Linkage

structure TypeNode where
  span : Span
  shape : TypeShape TypeExprId
  deriving DecidableEq, Repr, Inhabited

structure ExprNode where
  span : Span
  shape : ExprShape ExprId TypeExprId
  deriving DecidableEq, Repr, Inhabited

structure StmtNode where
  span : Span
  shape : StmtShape ExprId BlockId
  deriving DecidableEq, Repr, Inhabited

structure BlockNode where
  span : Span
  stmts : List StmtId
  deriving DecidableEq, Repr, Inhabited

structure Source where
  decls : List Decl := []
  exprs : List ExprNode := []
  stmts : List StmtNode := []
  blocks : List BlockNode := []
  typeExprs : List TypeNode := []
  generics : List GenericParam := []
  /-- The top-level declarations, in source order. -/
  items : List DeclId := []
  deriving DecidableEq, Repr, Inhabited

namespace Source

def decl? (src : Source) (id : DeclId) : Option Decl := id.get? src.decls
def expr? (src : Source) (id : ExprId) : Option ExprNode := id.get? src.exprs
def stmt? (src : Source) (id : StmtId) : Option StmtNode := id.get? src.stmts
def block? (src : Source) (id : BlockId) : Option BlockNode := id.get? src.blocks
def typeExpr? (src : Source) (id : TypeExprId) : Option TypeNode := id.get? src.typeExprs
def generic? (src : Source) (id : GenericId) : Option GenericParam := id.get? src.generics

end Source

end Linkage
