import Linkage.Constant.Fold
import Linkage.Proofs.Source.Validity
import Mathlib.Data.List.Perm.Subperm
import Mathlib.Logic.Relation

/-!
# Whole trees

A tree that is unfolded from a source unit has a `missing` leaf where a reference leads to no node, and also
where it was cut off because it is higher than there are nodes. In a unit that passed validation the first
does not happen. The second does not happen either if no node leads back to itself: the nodes on the way
down are all different then, so the way is no longer than the number of nodes.
-/

namespace Linkage

namespace Unfolding

variable {ν τ : Type}

/-- The node at `i` has a part at `j`. -/
def Below (u : Unfolding ν τ) (i j : Nat) : Prop := ∃ node, u.nodes[i]? = some node ∧ j ∈ u.parts node

variable {u : Unfolding ν τ}

theorem length_le_size {way : List Nat} (hnodup : way.Nodup) (hway : ∀ i ∈ way, i < u.nodes.size) :
    way.length ≤ u.nodes.size := by
  have hsubset : way ⊆ List.range u.nodes.size := fun i hi => List.mem_range.2 (hway i hi)
  simpa using (hnodup.subperm hsubset).length_le

/-- What holds of a tree whenever it holds of the parts holds of all trees of nodes whose parts exist, where
no node leads back to itself. -/
theorem tree_of_acyclic {kind : NodeKind} {sound : NodeId kind → Prop} {r : NodeId kind → NodeId kind → Prop}
    (hbelow : ∀ a b : NodeId kind, u.Below a.index b.index → r a b) (hacyclic : ∀ a, sound a → ¬Relation.TransGen r a a)
    {P : NodeId kind → τ → Prop} (hsound : ∀ a, sound a → ∃ node, ∃ parts : List (NodeId kind),
      u.nodes[a.index]? = some node ∧ u.parts node = parts.map (·.index) ∧ (∀ b ∈ parts, sound b) ∧
      ∀ part, (∀ b ∈ parts, P b (part b.index)) → P a (u.build a.index node part)) {a : NodeId kind} (ha : sound a) :
    P a (u.tree u.nodes.size a.index) := by
  -- the way down to a node holds the nodes above it, one for each level that is used up
  suffices h : ∀ (n : Nat) (way : List Nat) (a : NodeId kind), n + way.length = u.nodes.size → way.Nodup →
      (∀ k ∈ way, k < u.nodes.size ∧ Relation.TransGen r ⟨k⟩ a) → sound a → P a (u.tree n a.index) from
    h u.nodes.size [] a rfl List.nodup_nil nofun ha
  intro n
  induction n with
  | zero =>
    intro way a hlength hnodup hway ha
    obtain ⟨node, -, hnode, -⟩ := hsound a ha
    have hlonger : (a.index :: way).Nodup :=
      List.nodup_cons.2 ⟨fun hmem => hacyclic a ha (hway a.index hmem).2, hnodup⟩
    have hle : (a.index :: way).length ≤ u.nodes.size := by
      refine length_le_size hlonger fun k hk => ?_
      rcases List.mem_cons.1 hk with rfl | hk
      · exact (Array.getElem?_eq_some_iff.1 hnode).1
      · exact (hway k hk).1
    rw [List.length_cons] at hle
    omega
  | succ n ih =>
    intro way a hlength hnodup hway ha
    obtain ⟨node, parts, hnode, hparts, hsounds, hbuild⟩ := hsound a ha
    simp only [tree, hnode]
    refine hbuild _ fun b hb => ih (a.index :: way) b ?_ ?_ ?_ (hsounds b hb)
    · rw [List.length_cons]
      omega
    · exact List.nodup_cons.2 ⟨fun hmem => hacyclic a ha (hway a.index hmem).2, hnodup⟩
    · have hstep : r a b := hbelow a b ⟨node, hnode, hparts ▸ List.mem_map_of_mem hb⟩
      intro k hk
      rcases List.mem_cons.1 hk with rfl | hk
      · exact ⟨(Array.getElem?_eq_some_iff.1 hnode).1, .single hstep⟩
      · exact ⟨(hway k hk).1, (hway k hk).2.tail hstep⟩

theorem lt_of_below (h : u.inOrder = true) {i j : Nat} (hij : u.Below i j) : j < i := by
  obtain ⟨node, hnode, hj⟩ := hij
  have hmem : (node, i) ∈ u.nodes.toList.zipIdx := by simpa [List.mem_zipIdx_iff_getElem?] using hnode
  exact of_decide_eq_true (List.all_eq_true.1 (List.all_eq_true.1 h _ hmem) j hj)

end Unfolding

/-! ### Units in which no node leads back to itself -/

namespace NodeId

variable {kind : NodeKind}

theorem index_mem_map {id : NodeId kind} {l : List (NodeId kind)} : id.index ∈ l.map (·.index) ↔ id ∈ l := by
  refine ⟨fun h => ?_, fun h => List.mem_map_of_mem h⟩
  obtain ⟨⟨_⟩, hmem, rfl⟩ := List.mem_map.1 h
  exact hmem

theorem not_transGen_self {r : NodeId kind → NodeId kind → Prop} (h : ∀ a b, r a b → b.index < a.index)
    (a : NodeId kind) : ¬Relation.TransGen r a a := by
  have hlt : ∀ b, Relation.TransGen r a b → b.index < a.index := by
    intro b hb
    induction hb with
    | single hab => exact h _ _ hab
    | tail _ hbc ih => exact Nat.lt_trans (h _ _ hbc) ih
  exact fun hcycle => Nat.lt_irrefl _ (hlt a hcycle)

end NodeId

namespace Source

def TypeBelow (src : Source) (a b : TypeExprId) : Prop :=
  ∃ node, src.typeExpr? a = some node ∧ b ∈ node.shape.parts

def ExprBelow (src : Source) (a b : ExprId) : Prop :=
  ∃ node, src.expr? a = some node ∧ b ∈ node.shape.parts

/-- A statement of the first block has the second as a part. -/
def BlockBelow (src : Source) (a b : BlockId) : Prop :=
  ∃ node, src.block? a = some node ∧ ∃ id ∈ node.stmts, ∃ stmt, src.stmt? id = some stmt ∧ b ∈ stmt.shape.blocks

/-- No annotation, expression or block leads back to itself. -/
structure Acyclic (src : Source) : Prop where
  types : ∀ t, ¬Relation.TransGen src.TypeBelow t t
  exprs : ∀ e, ¬Relation.TransGen src.ExprBelow e e
  blocks : ∀ b, ¬Relation.TransGen src.BlockBelow b b

variable {src : Source}

theorem below_typeUnfolding {a b : TypeExprId} : src.typeUnfolding.Below a.index b.index ↔ src.TypeBelow a b := by
  simp only [Unfolding.Below, TypeBelow, typeUnfolding, typeExpr?, NodeId.get?, List.getElem?_toArray,
    NodeId.index_mem_map]

theorem below_exprUnfolding {typeExpr : TypeExprId → TypeExpr} {a b : ExprId} :
    (src.exprUnfolding typeExpr).Below a.index b.index ↔ src.ExprBelow a b := by
  simp only [Unfolding.Below, ExprBelow, exprUnfolding, expr?, NodeId.get?, List.getElem?_toArray,
    NodeId.index_mem_map]

theorem mem_blocksBelow {id : StmtId} {b : BlockId} :
    b ∈ blocksBelow src.stmts.toArray id ↔ ∃ stmt, src.stmt? id = some stmt ∧ b ∈ stmt.shape.blocks := by
  unfold blocksBelow
  rw [List.getElem?_toArray, stmt?, NodeId.get?]
  cases src.stmts[id.index]? <;> simp

theorem below_blockUnfolding {expr : ExprId → Expr} {a b : BlockId} :
    (src.blockUnfolding expr).Below a.index b.index ↔ src.BlockBelow a b := by
  simp only [Unfolding.Below, BlockBelow, blockUnfolding, block?, NodeId.get?, List.getElem?_toArray,
    NodeId.index_mem_map, List.mem_flatMap, mem_blocksBelow]

theorem acyclic_of_inOrder (htypes : src.typeUnfolding.inOrder = true)
    (hexprs : (src.exprUnfolding .missing).inOrder = true)
    (hblocks : (src.blockUnfolding .missing).inOrder = true) : src.Acyclic where
  types := NodeId.not_transGen_self fun _ _ h => Unfolding.lt_of_below htypes (below_typeUnfolding.2 h)
  exprs := NodeId.not_transGen_self fun _ _ h => Unfolding.lt_of_below hexprs (below_exprUnfolding.2 h)
  blocks := NodeId.not_transGen_self fun _ _ h => Unfolding.lt_of_below hblocks (below_blockUnfolding.2 h)

end Source

/-! ### Trees without missing leaves -/

theorem TypeShape.parts_map {τ τ' : Type} (f : τ → τ') (shape : TypeShape τ) :
    (shape.map f).parts = shape.parts.map f := by
  cases shape <;> simp [map, parts]

theorem ExprShape.types_map {ε ε' τ τ' : Type} (f : ε → ε') (g : τ → τ') (shape : ExprShape ε τ) :
    (shape.map f g).types = shape.types.map g := by
  cases shape <;> simp [map, types]

theorem StmtShape.introduced_map {ε ε' β β' : Type} (f : ε → ε') (g : β → β') (shape : StmtShape ε β) :
    (shape.map f g).introduced = shape.introduced := by
  cases shape <;> rfl

inductive TypeExpr.Whole : TypeExpr → Prop
  | node {id : TypeExprId} {span : Span} {shape : TypeShape TypeExpr} (hparts : ∀ t ∈ shape.parts, Whole t) :
      Whole (.node id span shape)

inductive Expr.Whole : Expr → Prop
  | node {id : ExprId} {span : Span} {shape : ExprShape Expr TypeExpr} (hparts : ∀ e ∈ shape.parts, Whole e)
      (htypes : ∀ t ∈ shape.types, t.Whole) : Whole (.node id span shape)

mutual
/-- Nothing is missing, and the declarations that are introduced exist. -/
inductive Stmt.Whole (src : Source) : Stmt → Prop
  | node {id : StmtId} {span : Span} {shape : StmtShape Expr Block} (hexprs : ∀ e ∈ shape.exprs, e.Whole)
      (hblocks : ∀ b ∈ shape.blocks, Block.Whole src b)
      (hintroduced : ∀ d ∈ shape.introduced, src.HasDecl d) : Stmt.Whole src (.node id span shape)
inductive Block.Whole (src : Source) : Block → Prop
  | node {id : BlockId} {span : Span} {stmts : List Stmt} (hstmts : ∀ s ∈ stmts, Stmt.Whole src s) :
      Block.Whole src (.node id span stmts)
end

namespace Source

variable {src : Source}

theorem whole_typeExpr (hclosed : src.Closed) (hacyclic : src.Acyclic) {id : TypeExprId} (h : src.HasType id) :
    (src.trees.typeExpr id).Whole := by
  rw [typeExpr_trees]
  refine Unfolding.tree_of_acyclic (P := fun _ => TypeExpr.Whole) (fun _ _ => below_typeUnfolding.1)
    (fun a _ => hacyclic.types a) (fun a ha => ?_) h
  obtain ⟨node, hnode⟩ := Option.isSome_iff_exists.1 ha
  refine ⟨node, node.shape.parts, List.getElem?_toArray.trans hnode, rfl, hclosed.typeExpr hnode,
    fun part hpart => .node fun t ht => ?_⟩
  rw [TypeShape.parts_map] at ht
  obtain ⟨p, hp, rfl⟩ := List.mem_map.1 ht
  exact hpart p hp

theorem whole_expr (hclosed : src.Closed) (hacyclic : src.Acyclic) {id : ExprId} (h : src.HasExpr id) :
    (src.trees.expr id).Whole := by
  rw [expr_trees]
  refine Unfolding.tree_of_acyclic (P := fun _ => Expr.Whole) (fun _ _ => below_exprUnfolding.1)
    (fun a _ => hacyclic.exprs a) (fun a ha => ?_) h
  obtain ⟨node, hnode⟩ := Option.isSome_iff_exists.1 ha
  refine ⟨node, node.shape.parts, List.getElem?_toArray.trans hnode, rfl, (hclosed.expr hnode).parts,
    fun part hpart => .node (fun e he => ?_) fun t ht => ?_⟩
  · rw [ExprShape.parts_map] at he
    obtain ⟨p, hp, rfl⟩ := List.mem_map.1 he
    exact hpart p hp
  · rw [ExprShape.types_map] at ht
    obtain ⟨p, hp, rfl⟩ := List.mem_map.1 ht
    exact whole_typeExpr hclosed hacyclic ((hclosed.expr hnode).types p hp)

theorem whole_stmtTree (hclosed : src.Closed) {expr : ExprId → Expr} (hexpr : ∀ e, src.HasExpr e → (expr e).Whole)
    {block : BlockId → Block} {id : StmtId} {node : StmtNode} (hnode : src.stmt? id = some node)
    (hblock : ∀ b ∈ node.shape.blocks, (block b).Whole src) :
    (stmtTree src.stmts.toArray expr block id).Whole src := by
  have hnode' : src.stmts.toArray[id.index]? = some node := List.getElem?_toArray.trans hnode
  have hstmt := hclosed.stmt hnode
  rw [stmtTree, hnode']
  refine .node (fun e he => ?_) (fun b hb => ?_) ?_
  · rw [StmtShape.exprs_map] at he
    obtain ⟨p, hp, rfl⟩ := List.mem_map.1 he
    exact hexpr p (hstmt.exprs p hp)
  · rw [StmtShape.blocks_map] at hb
    obtain ⟨p, hp, rfl⟩ := List.mem_map.1 hb
    exact hblock p hp
  · rw [StmtShape.introduced_map]
    exact hstmt.introduced

theorem whole_block (hclosed : src.Closed) (hacyclic : src.Acyclic) {id : BlockId} (h : src.HasBlock id) :
    (src.trees.block id).Whole src := by
  rw [block_trees]
  refine Unfolding.tree_of_acyclic (P := fun _ => Block.Whole src) (fun _ _ => below_blockUnfolding.1)
    (fun a _ => hacyclic.blocks a) ?_ h
  rintro a ⟨node, hnode, hstmts⟩
  refine ⟨node, node.stmts.flatMap (blocksBelow src.stmts.toArray), List.getElem?_toArray.trans hnode, rfl,
    fun b hb => ?_, fun part hpart => .node fun s hs => ?_⟩
  · obtain ⟨s, -, hb⟩ := List.mem_flatMap.1 hb
    obtain ⟨stmt, hstmt, hb⟩ := mem_blocksBelow.1 hb
    exact (hclosed.stmt hstmt).blocks b hb
  · obtain ⟨p, hp, rfl⟩ := List.mem_map.1 hs
    obtain ⟨stmt, hstmt⟩ := Option.isSome_iff_exists.1 (hstmts p hp)
    refine whole_stmtTree hclosed (fun e he => whole_expr hclosed hacyclic he) hstmt fun b hb => ?_
    exact hpart b (List.mem_flatMap_of_mem hp (mem_blocksBelow.2 ⟨stmt, hstmt, hb⟩))

end Source

theorem exists_ok_bind {ε α β : Type} {x : Except ε α} {f : α → Except ε β} (hx : ∃ a, x = .ok a)
    (hf : ∀ a, ∃ b, f a = .ok b) : ∃ b, x >>= f = .ok b := by
  obtain ⟨a, rfl⟩ := hx
  exact hf a

theorem Expr.Whole.exists_fold {e : Expr} (h : e.Whole) (env : FoldEnv) : ∃ value, e.fold env = .ok value := by
  induction h with
  | @node id span shape _ _ ih =>
    cases shape with
    | unary op operand =>
      rw [fold]
      refine exists_ok_bind (ih operand (by simp [ExprShape.parts])) fun a => ?_
      cases a <;> exact ⟨_, rfl⟩
    | binary op lhs rhs =>
      rw [fold]
      refine exists_ok_bind (ih lhs (by simp [ExprShape.parts])) fun a => ?_
      cases a with
      | none => exact ⟨none, rfl⟩
      | some a =>
        dsimp only
        split
        · exact ⟨_, rfl⟩
        · refine exists_ok_bind (ih rhs (by simp [ExprShape.parts])) fun b => ?_
          cases b <;> exact ⟨_, rfl⟩
    | _ => exact ⟨_, by rw [fold]⟩

end Linkage
