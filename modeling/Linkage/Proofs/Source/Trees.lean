import Linkage.Source.Tree

/-!
# Trees and the nodes they come from

What stands in a tree under the identifier of an expression has the form of that expression. The only form that
matters later is the struct literal, so that is what is recorded here. The trees of a unit keep to it at every depth,
whether or not they are cut off.
-/

namespace Linkage

def ExprShape.isConstruct {ε τ : Type} : ExprShape ε τ → Bool
  | .construct _ _ => true
  | _ => false

def StmtShape.exprs {ε β : Type} : StmtShape ε β → List ε
  | .binding _ init => init.toList
  | .assign target value => [target, value]
  | .expr e => [e]
  | .ret value => value.toList
  | .ifChain arms _ => arms.map (·.1)
  | .staticIf cond _ _ => [cond]
  | .switch scrutinee cases => scrutinee :: cases.flatMap (·.values)
  | .whileLoop cond _ => [cond]
  | .block _ => []

theorem ExprShape.isConstruct_map {ε ε' τ τ' : Type} (f : ε → ε') (g : τ → τ') (shape : ExprShape ε τ) :
    (shape.map f g).isConstruct = shape.isConstruct := by
  cases shape <;> rfl

theorem ExprShape.parts_map {ε ε' τ τ' : Type} (f : ε → ε') (g : τ → τ') (shape : ExprShape ε τ) :
    (shape.map f g).parts = shape.parts.map f := by
  cases shape <;> simp [map, parts]

theorem StmtShape.exprs_map {ε ε' β β' : Type} (f : ε → ε') (g : β → β') (shape : StmtShape ε β) :
    (shape.map f g).exprs = shape.exprs.map f := by
  cases shape with
  | binding decl init => cases init <;> rfl
  | ret value => cases value <;> rfl
  | switch scrutinee cases =>
    simp [map, exprs, SwitchCase.map, List.flatMap_map, List.map_flatMap]
  | _ => simp [map, exprs]

theorem StmtShape.blocks_map {ε ε' β β' : Type} (f : ε → ε') (g : β → β') (shape : StmtShape ε β) :
    (shape.map f g).blocks = shape.blocks.map g := by
  cases shape with
  | ifChain arms otherwise => cases otherwise <;> simp [map, blocks]
  | staticIf cond body otherwise => cases otherwise <;> rfl
  | switch scrutinee cases => simp [map, blocks, SwitchCase.map]
  | _ => rfl

/-- A statement has `P` if the blocks right below it have `Q`, and a block has `Q` if its statements have `P`. -/
structure Inherits (P : Stmt → Prop) (Q : Block → Prop) : Prop where
  missing : ∀ id, P (.missing id)
  node : ∀ id span shape, (∀ b ∈ shape.blocks, Q b) → P (.node id span shape)
  gap : ∀ id, Q (.missing id)
  block : ∀ id span stmts, (∀ s ∈ stmts, P s) → Q (.node id span stmts)

section Induction

variable {P : Stmt → Prop} {Q : Block → Prop}

mutual
theorem Stmt.all (h : Inherits P Q) : ∀ stmt : Stmt, P stmt
  | .missing id => h.missing id
  | .node id span shape => h.node id span shape (Stmt.all_shape h shape)
theorem Stmt.all_shape (h : Inherits P Q) : ∀ shape : StmtShape Expr Block, ∀ b ∈ shape.blocks, Q b
  | .binding _ _ | .assign _ _ | .expr _ | .ret _ => fun _ hb => absurd hb List.not_mem_nil
  | .ifChain arms otherwise => List.forall_mem_append.2 ⟨Block.all_arms h arms, Block.all_else h otherwise⟩
  | .staticIf _ first otherwise => List.forall_mem_cons.2 ⟨Block.all h first, Block.all_else h otherwise⟩
  | .switch _ cases => Block.all_cases h cases
  | .whileLoop _ inner => List.forall_mem_singleton.2 (Block.all h inner)
  | .block inner => List.forall_mem_singleton.2 (Block.all h inner)
theorem Stmt.all_list (h : Inherits P Q) : ∀ stmts : List Stmt, ∀ stmt ∈ stmts, P stmt
  | [] => fun _ hs => absurd hs List.not_mem_nil
  | stmt :: stmts => List.forall_mem_cons.2 ⟨Stmt.all h stmt, Stmt.all_list h stmts⟩
theorem Block.all (h : Inherits P Q) : ∀ b : Block, Q b
  | .missing id => h.gap id
  | .node id span stmts => h.block id span stmts (Stmt.all_list h stmts)
theorem Block.all_arms (h : Inherits P Q) : ∀ arms : List (Expr × Block), ∀ b ∈ arms.map (·.2), Q b
  | [] => fun _ hb => absurd hb List.not_mem_nil
  | (_, arm) :: arms => List.forall_mem_cons.2 ⟨Block.all h arm, Block.all_arms h arms⟩
theorem Block.all_else (h : Inherits P Q) : ∀ otherwise : Option Block, ∀ b ∈ otherwise.toList, Q b
  | none => fun _ hb => absurd hb List.not_mem_nil
  | some arm => List.forall_mem_singleton.2 (Block.all h arm)
theorem Block.all_cases (h : Inherits P Q) : ∀ cases : List (SwitchCase Expr Block), ∀ b ∈ cases.map (·.body), Q b
  | [] => fun _ hb => absurd hb List.not_mem_nil
  | ⟨_, _, arm, _⟩ :: cases => List.forall_mem_cons.2 ⟨Block.all h arm, Block.all_cases h cases⟩
end

/-- What a node has if the nodes right below it have it, all statements and blocks have. -/
theorem Stmt.induction (h : Inherits P Q) : (∀ stmt, P stmt) ∧ ∀ b, Q b := ⟨Stmt.all h, Block.all h⟩

end Induction

/-- The tree keeps to the unit. -/
inductive Expr.Unfolds (src : Source) : Expr → Prop
  | missing (id : ExprId) : Unfolds src (.missing id)
  | node {id : ExprId} {span : Span} {shape : ExprShape Expr TypeExpr} {node : ExprNode}
      (hnode : src.expr? id = some node) (hshape : node.shape.isConstruct = shape.isConstruct)
      (hparts : ∀ e ∈ shape.parts, Unfolds src e) : Unfolds src (.node id span shape)

mutual
inductive Stmt.Unfolds (src : Source) : Stmt → Prop
  | missing (id : StmtId) : Stmt.Unfolds src (.missing id)
  | node {id : StmtId} {span : Span} {shape : StmtShape Expr Block}
      (hexprs : ∀ e ∈ shape.exprs, e.Unfolds src) (hblocks : ∀ b ∈ shape.blocks, Block.Unfolds src b) :
      Stmt.Unfolds src (.node id span shape)
inductive Block.Unfolds (src : Source) : Block → Prop
  | missing (id : BlockId) : Block.Unfolds src (.missing id)
  | node {id : BlockId} {span : Span} {stmts : List Stmt} (hstmts : ∀ s ∈ stmts, Stmt.Unfolds src s) :
      Block.Unfolds src (.node id span stmts)
end

namespace Source

theorem unfolds_exprTree (src : Source) (typeExpr : TypeExprId → TypeExpr) (n i : Nat) :
    ((src.exprUnfolding typeExpr).tree n i).Unfolds src := by
  induction n generalizing i with
  | zero => exact .missing ⟨i⟩
  | succ n ih =>
    rw [Unfolding.tree]
    split
    · exact .missing ⟨i⟩
    · rename_i node hnode
      have hsource : src.expr? ⟨i⟩ = some node := by
        rw [expr?, NodeId.get?]
        simpa [exprUnfolding] using hnode
      refine .node hsource (node.shape.isConstruct_map _ _).symm fun e he => ?_
      rw [ExprShape.parts_map] at he
      obtain ⟨p, -, rfl⟩ := List.mem_map.1 he
      exact ih p.index

theorem unfolds_stmtTree (src : Source) {expr : ExprId → Expr} (hexpr : ∀ id, (expr id).Unfolds src)
    {block : BlockId → Block} (hblock : ∀ id, (block id).Unfolds src) (stmts : Array StmtNode) (id : StmtId) :
    (stmtTree stmts expr block id).Unfolds src := by
  unfold stmtTree
  split
  · exact .missing id
  · rename_i node _
    refine .node (fun e he => ?_) fun b hb => ?_
    · rw [StmtShape.exprs_map] at he
      obtain ⟨p, -, rfl⟩ := List.mem_map.1 he
      exact hexpr p
    · rw [StmtShape.blocks_map] at hb
      obtain ⟨p, -, rfl⟩ := List.mem_map.1 hb
      exact hblock p

theorem unfolds_blockTree (src : Source) {expr : ExprId → Expr} (hexpr : ∀ id, (expr id).Unfolds src)
    (n i : Nat) : ((src.blockUnfolding expr).tree n i).Unfolds src := by
  induction n generalizing i with
  | zero => exact .missing ⟨i⟩
  | succ n ih =>
    rw [Unfolding.tree]
    split
    · exact .missing ⟨i⟩
    · refine .node fun s hs => ?_
      obtain ⟨p, -, rfl⟩ := List.mem_map.1 hs
      exact unfolds_stmtTree src hexpr (fun id => ih id.index) _ p

theorem unfolds_block (src : Source) (id : BlockId) : (src.trees.block id).Unfolds src := by
  rw [block_trees]
  refine unfolds_blockTree src (fun e => ?_) _ _
  rw [expr_trees]
  exact unfolds_exprTree src _ _ _

end Source

end Linkage
