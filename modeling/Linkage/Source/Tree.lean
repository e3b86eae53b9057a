import Linkage.Source.Basic
import Linkage.Source.Unfolding

/-!
# Trees

A function body is linked as a tree: every node carries its identifier and span, and its parts are
trees themselves. Trees are unfolded from the stores of a source unit, and nodes that are referred to
more than once are shared. A reference that leads to no node, or further down than there are nodes,
becomes a `missing` leaf; a unit that passed validation and in which no node leads back to itself has
none.

Items form trees as well, since a namespace lists its members.
-/

namespace Linkage

inductive TypeExpr where
  | node (id : TypeExprId) (span : Span) (shape : TypeShape TypeExpr)
  | missing (id : TypeExprId)

inductive Expr where
  | node (id : ExprId) (span : Span) (shape : ExprShape Expr TypeExpr)
  | missing (id : ExprId)

namespace Expr

def id : Expr → ExprId
  | .node id _ _ => id
  | .missing id => id

def span : Expr → Span
  | .node _ span _ => span
  | .missing _ => {}

end Expr

mutual
inductive Stmt where
  | node (id : StmtId) (span : Span) (shape : StmtShape Expr Block)
  | missing (id : StmtId)
inductive Block where
  | node (id : BlockId) (span : Span) (stmts : List Stmt)
  | missing (id : BlockId)
end

/-- A declaration, with its members if it is a namespace. -/
inductive Item where
  | decl (id : DeclId)
  | space (id : DeclId) (members : List Item)

namespace Source

def typeUnfolding (src : Source) : Unfolding TypeNode TypeExpr where
  nodes := src.typeExprs.toArray
  parts node := node.shape.parts.map (·.index)
  build i node part := .node ⟨i⟩ node.span (node.shape.map fun id => part id.index)
  missing i := .missing ⟨i⟩
  build_congr _ _ _ _ h := by
    rw [TypeShape.map_congr fun id hid => h id.index (List.mem_map_of_mem hid)]

def exprUnfolding (src : Source) (typeExpr : TypeExprId → TypeExpr) : Unfolding ExprNode Expr where
  nodes := src.exprs.toArray
  parts node := node.shape.parts.map (·.index)
  build i node part := .node ⟨i⟩ node.span (node.shape.map (fun id => part id.index) typeExpr)
  missing i := .missing ⟨i⟩
  build_congr _ _ _ _ h := by
    rw [ExprShape.map_congr fun id hid => h id.index (List.mem_map_of_mem hid)]

def stmtTree (stmts : Array StmtNode) (expr : ExprId → Expr) (block : BlockId → Block) (id : StmtId) : Stmt :=
  match stmts[id.index]? with
  | none => .missing id
  | some node => .node id node.span (node.shape.map expr block)

def blocksBelow (stmts : Array StmtNode) (id : StmtId) : List BlockId :=
  match stmts[id.index]? with
  | none => []
  | some node => node.shape.blocks

theorem stmtTree_congr {stmts : Array StmtNode} {expr : ExprId → Expr} {block block' : BlockId → Block}
    {id : StmtId} (h : ∀ b ∈ blocksBelow stmts id, block b = block' b) :
    stmtTree stmts expr block id = stmtTree stmts expr block' id := by
  unfold stmtTree
  split
  · rfl
  · rename_i node hnode
    rw [StmtShape.map_congr]
    simpa only [blocksBelow, hnode] using h

def blockUnfolding (src : Source) (expr : ExprId → Expr) : Unfolding BlockNode Block :=
  let stmts := src.stmts.toArray
  { nodes := src.blocks.toArray
    parts := fun node => (node.stmts.flatMap (blocksBelow stmts)).map (·.index)
    build := fun i node part =>
      .node ⟨i⟩ node.span (node.stmts.map (stmtTree stmts expr fun id => part id.index))
    missing := fun i => .missing ⟨i⟩
    build_congr := fun _ node _ _ h => by
      rw [List.map_congr_left fun id hid => stmtTree_congr fun b hb =>
        h b.index (List.mem_map_of_mem (List.mem_flatMap_of_mem hid hb))] }

end Source

/-- The trees of all annotations, expressions and blocks of a source unit. -/
structure Trees where
  types : Array TypeExpr
  exprs : Array Expr
  blocks : Array Block

namespace Trees

def typeExpr (t : Trees) (id : TypeExprId) : TypeExpr := t.types[id.index]?.getD (.missing id)

def expr (t : Trees) (id : ExprId) : Expr := t.exprs[id.index]?.getD (.missing id)

def block (t : Trees) (id : BlockId) : Block := t.blocks[id.index]?.getD (.missing id)

end Trees

namespace Source

def trees (src : Source) : Trees :=
  let types := src.typeUnfolding.forest
  let typeExpr (id : TypeExprId) : TypeExpr := types[id.index]?.getD (.missing id)
  let exprs := (src.exprUnfolding typeExpr).forest
  let expr (id : ExprId) : Expr := exprs[id.index]?.getD (.missing id)
  { types, exprs, blocks := (src.blockUnfolding expr).forest }

theorem typeExpr_trees (src : Source) (id : TypeExprId) :
    src.trees.typeExpr id = src.typeUnfolding.tree src.typeExprs.length id.index :=
  src.typeUnfolding.getD_forest id.index

theorem expr_trees (src : Source) (id : ExprId) :
    src.trees.expr id =
      (src.exprUnfolding src.trees.typeExpr).tree src.exprs.length id.index :=
  (src.exprUnfolding src.trees.typeExpr).getD_forest id.index

theorem block_trees (src : Source) (id : BlockId) :
    src.trees.block id = (src.blockUnfolding src.trees.expr).tree src.blocks.length id.index :=
  (src.blockUnfolding src.trees.expr).getD_forest id.index

def itemTree (src : Source) : Nat → DeclId → Item
  | 0, id => .decl id
  | n + 1, id =>
    match src.decl? id with
    | some { kind := .space members, .. } => .space id (members.map (src.itemTree n))
    | _ => .decl id

/-- The top-level items with the members of namespaces below them. -/
def itemTrees (src : Source) : List Item := src.items.map (src.itemTree src.decls.length)

/-- The declarations that enclose a declaration, innermost first, at most `n` of them. -/
def ancestorsWithin (src : Source) : Nat → DeclId → List DeclId
  | 0, _ => []
  | n + 1, id =>
    match (src.decl? id).bind (·.parent) with
    | some parent => parent :: src.ancestorsWithin n parent
    | none => []

def ancestors (src : Source) (id : DeclId) : List DeclId := src.ancestorsWithin src.decls.length id

end Source

end Linkage
