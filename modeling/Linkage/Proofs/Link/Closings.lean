import Linkage.Proofs.Link.Outcome
import Linkage.Proofs.Link.Walks
import Linkage.Proofs.Source.Locals
import Mathlib.Data.List.Perm.Basic

/-!
# Where blocks end

What a block has declared is destroyed where the block ends, and the parameters of a function where its body ends.
This can be read off the body before it is linked. If no statement and no block is reached twice, then in a unit that
was built every local and every parameter is due at the end of one block only, and once.
-/

namespace Linkage

namespace Stmt

def id : Stmt → StmtId
  | .node id _ _ => id
  | .missing id => id

def locals (src : Source) (stmts : List Stmt) : List DeclId := stmts.filterMap fun stmt => (stmt.bound? src).map (·.2)

end Stmt

namespace Block

def id : Block → BlockId
  | .node id _ _ => id
  | .missing id => id

def stmts : Block → List Stmt
  | .node _ _ stmts => stmts
  | .missing _ => []

def locals (src : Source) (b : Block) : List DeclId := Stmt.locals src b.stmts

end Block

mutual
/-- The blocks in a statement, in the order in which they end. -/
def Stmt.within : Stmt → List Block
  | .missing _ => []
  | .node _ _ shape => Stmt.withinShape shape
def Stmt.withinShape : StmtShape Expr Block → List Block
  | .binding _ _ | .assign _ _ | .expr _ | .ret _ => []
  | .ifChain arms otherwise => Block.withinArms arms ++ Block.withinElse otherwise
  | .staticIf _ first otherwise => first.within ++ Block.withinElse otherwise
  | .switch _ cases => Block.withinCases cases
  | .whileLoop _ inner => inner.within
  | .block inner => inner.within
def Block.within : Block → List Block
  | .missing _ => []
  | .node id span stmts => Stmt.withinAll stmts ++ [.node id span stmts]
def Stmt.withinAll : List Stmt → List Block
  | [] => []
  | stmt :: stmts => stmt.within ++ Stmt.withinAll stmts
def Block.withinArms : List (Expr × Block) → List Block
  | [] => []
  | (_, arm) :: arms => arm.within ++ Block.withinArms arms
def Block.withinElse : Option Block → List Block
  | none => []
  | some arm => arm.within
def Block.withinCases : List (SwitchCase Expr Block) → List Block
  | [] => []
  | ⟨_, _, arm, _⟩ :: cases => arm.within ++ Block.withinCases cases
end

theorem Stmt.withinAll_eq_flatMap (stmts : List Stmt) : Stmt.withinAll stmts = stmts.flatMap Stmt.within := by
  induction stmts with
  | nil => rfl
  | cons stmt stmts ih => rw [Stmt.withinAll, List.flatMap_cons, ih]

theorem Stmt.withinShape_eq_flatMap (shape : StmtShape Expr Block) :
    Stmt.withinShape shape = shape.blocks.flatMap Block.within := by
  have harms : ∀ arms, Block.withinArms arms = (arms.map (·.2)).flatMap Block.within := by
    intro arms
    induction arms with
    | nil => rfl
    | cons arm arms ih => rw [Block.withinArms, ih, List.map_cons, List.flatMap_cons]
  have helse : ∀ otherwise, Block.withinElse otherwise = otherwise.toList.flatMap Block.within := by
    intro otherwise
    cases otherwise <;> simp [Block.withinElse]
  have hcases : ∀ cases, Block.withinCases cases = (cases.map (·.body)).flatMap Block.within := by
    intro cases
    induction cases with
    | nil => rfl
    | cons c cases ih => rw [Block.withinCases, ih, List.map_cons, List.flatMap_cons]
  cases shape <;> simp [Stmt.withinShape, StmtShape.blocks, harms, helse, hcases]

/-! ### What is due at the end of a block -/

structure Closing where
  block : BlockId
  /-- What is destroyed there unless it is gone by then, in this order. -/
  due : List DeclId
  deriving DecidableEq, Repr

namespace Block

/-- The end of the block. If the block is the body of a function, its parameters are due there as well. -/
def closing (src : Source) (params : List DeclId) (b : Block) : Closing :=
  ⟨b.id, (b.locals src).reverse ++ params.reverse⟩

theorem locals_subset_due (src : Source) (params : List DeclId) (b : Block) :
    b.locals src ⊆ (b.closing src params).due :=
  fun _ hx => List.mem_append_left _ (List.mem_reverse.2 hx)

def closings (src : Source) (params : List DeclId) : Block → List Closing
  | .missing _ => []
  | .node id span stmts =>
    (Stmt.withinAll stmts).map (·.closing src []) ++ [Block.closing src params (.node id span stmts)]

theorem closings_nil (src : Source) (b : Block) : b.closings src [] = b.within.map (·.closing src []) := by
  cases b with
  | missing id => rfl
  | node id span stmts => rw [closings, within, List.map_append, List.map_singleton]

theorem map_block_closings (src : Source) (params : List DeclId) (b : Block) :
    (b.closings src params).map (·.block) = b.within.map id := by
  cases b with
  | missing id => rfl
  | node id span stmts =>
    rw [closings, within, List.map_append, List.map_append, List.map_map]
    rfl

theorem flatMap_due_closings (src : Source) (params : List DeclId) {b : Block} (hb : b.within ≠ []) :
    ((b.closings src params).flatMap (·.due)).Perm (b.within.flatMap (locals src) ++ params) := by
  cases b with
  | missing id => exact absurd rfl hb
  | node id span stmts =>
    rw [closings, within, List.flatMap_append, List.flatMap_append, List.flatMap_singleton, List.flatMap_singleton,
      List.flatMap_map, List.append_assoc]
    refine .append (.flatMap_left _ fun c _ => ?_) (.append (List.reverse_perm _) (List.reverse_perm _))
    rw [closing, List.reverse_nil, List.append_nil]
    exact List.reverse_perm _

end Block

namespace LinkEnv

def body? (env : LinkEnv) (func : DeclId) : Option (List DeclId × BlockId) :=
  match (env.source.decl? func).map Decl.kind with
  | some (.function { params, body := some block, .. }) => some (params, block)
  | _ => none

def blocksOf (env : LinkEnv) (func : DeclId) : List Block :=
  match env.body? func with
  | some (_, block) => (env.trees.block block).within
  | none => []

def closingsOf (env : LinkEnv) (func : DeclId) : List Closing :=
  match env.body? func with
  | some (params, block) => (env.trees.block block).closings env.source params
  | none => []

/-- No statement and no block of the functions is reached twice. -/
def Once (env : LinkEnv) (funcs : List DeclId) : Prop :=
  ((funcs.flatMap env.blocksOf).map Block.id).Nodup ∧
    (((funcs.flatMap env.blocksOf).flatMap Block.stmts).map Stmt.id).Nodup

instance (env : LinkEnv) (funcs : List DeclId) : Decidable (env.Once funcs) :=
  inferInstanceAs (Decidable (_ ∧ _))

end LinkEnv

/-! ### Statements and what they come from -/

/-- The statement binds what the statement of that name in the unit binds. -/
def Stmt.Stems (src : Source) (stmt : Stmt) : Prop :=
  ∀ name d, stmt.bound? src = some (name, d) → ∃ node, src.stmt? stmt.id = some node ∧ node.shape.binding? = some d

theorem Stmt.binding?_of_bound? {src : Source} {id : StmtId} {span : Span} {shape : StmtShape Expr Block}
    {name : String} {d : DeclId} (h : (Stmt.node id span shape).bound? src = some (name, d)) :
    shape.binding? = some d := by
  cases shape with
  | binding decl init =>
    obtain ⟨text, -, heq⟩ := Option.map_eq_some_iff.1 h
    exact congrArg some (Prod.mk.inj heq).2
  | _ => simp [Stmt.bound?] at h

namespace Source

variable (src : Source)

theorem stems_stmtTree (expr : ExprId → Expr) (block : BlockId → Block) (id : StmtId) :
    (stmtTree src.stmts.toArray expr block id).Stems src := by
  intro name d h
  unfold stmtTree at h ⊢
  split at h
  · simp [Stmt.bound?] at h
  · rename_i node hnode
    have hbinding := Stmt.binding?_of_bound? h
    rw [StmtShape.binding?_map] at hbinding
    exact ⟨node, by simpa [stmt?, NodeId.get?, Stmt.id] using hnode, hbinding⟩

theorem id_block_trees (block : BlockId) : (src.trees.block block).id = block := by
  rw [block_trees]
  cases src.blocks.length with
  | zero => rfl
  | succ n =>
    rw [Unfolding.tree]
    split <;> rfl

theorem stems_blockTree (expr : ExprId → Expr) (n i : Nat) :
    ∀ b ∈ ((src.blockUnfolding expr).tree n i).within, ∀ stmt ∈ b.stmts, stmt.Stems src := by
  induction n generalizing i with
  | zero =>
    intro b hb
    simp [Unfolding.tree, blockUnfolding, Block.within] at hb
  | succ n ih =>
    intro b hb stmt hstmt
    rw [Unfolding.tree] at hb
    split at hb
    · simp [blockUnfolding, Block.within] at hb
    · rename_i node _
      simp only [blockUnfolding, Block.within, Stmt.withinAll_eq_flatMap, List.mem_append, List.mem_flatMap,
        List.mem_map, List.mem_singleton] at hb
      rcases hb with ⟨inner, ⟨p, -, rfl⟩, hb⟩ | rfl
      · unfold stmtTree at hb
        split at hb
        · simp [Stmt.within] at hb
        · rw [Stmt.within, Stmt.withinShape_eq_flatMap, StmtShape.blocks_map] at hb
          obtain ⟨c, hc, hb⟩ := List.mem_flatMap.1 hb
          obtain ⟨q, -, rfl⟩ := List.mem_map.1 hc
          exact ih q.index b hb stmt hstmt
      · obtain ⟨p, -, rfl⟩ := List.mem_map.1 hstmt
        exact stems_stmtTree src _ _ p

end Source

namespace LinkEnv

variable {env : LinkEnv} {funcs : List DeclId}

theorem stems_blocksOf (htrees : env.trees = env.source.trees) {func : DeclId} {b : Block} (hb : b ∈ env.blocksOf func)
    {stmt : Stmt} (hstmt : stmt ∈ b.stmts) : stmt.Stems env.source := by
  unfold blocksOf at hb
  split at hb
  · rw [htrees, Source.block_trees] at hb
    exact Source.stems_blockTree _ _ _ _ b hb stmt hstmt
  · simp at hb

theorem exists_of_body? {func : DeclId} {params : List DeclId} {block : BlockId}
    (h : env.body? func = some (params, block)) :
    ∃ d f, env.source.decl? func = some d ∧ d.kind = .function f ∧ f.params = params ∧ f.body = some block := by
  unfold body? at h
  split at h
  · rename_i generics params' ret block' hkind
    obtain ⟨d, hd, hkind⟩ := Option.map_eq_some_iff.1 hkind
    obtain ⟨rfl, rfl⟩ := Prod.mk.inj (Option.some.inj h)
    exact ⟨d, _, hd, hkind, rfl, rfl⟩
  · simp at h

/-! ### Everything is due once -/

theorem exists_var_of_mem_locals {src : Source} {stmts : List Stmt} {x : DeclId} (h : x ∈ Stmt.locals src stmts) :
    ∃ d v, src.decl? x = some d ∧ d.kind = .var v := by
  obtain ⟨stmt, -, hx⟩ := List.mem_filterMap.1 h
  obtain ⟨⟨name, _⟩, hbound, rfl⟩ := Option.map_eq_some_iff.1 hx
  clear hx
  cases stmt with
  | missing id => simp [Stmt.bound?] at hbound
  | node id span shape =>
    cases shape with
    | binding decl' init =>
      obtain ⟨text, hname, heq⟩ := Option.map_eq_some_iff.1 hbound
      obtain ⟨-, rfl⟩ := Prod.mk.inj heq
      obtain ⟨d, hd, hkind⟩ := Option.bind_eq_some_iff.1 hname
      split at hkind
      · rename_i v hv
        exact ⟨d, v, hd, hv⟩
      · simp at hkind
    | _ => simp [Stmt.bound?] at hbound

theorem nodup_locals (hbuilt : env.source.Built) (htrees : env.trees = env.source.trees) (honce : env.Once funcs) :
    ((funcs.flatMap env.blocksOf).flatMap (Block.locals env.source)).Nodup := by
  have heq : (funcs.flatMap env.blocksOf).flatMap (Block.locals env.source) =
      ((funcs.flatMap env.blocksOf).flatMap Block.stmts).filterMap fun stmt => (stmt.bound? env.source).map (·.2) :=
    (List.filterMap_flatMap ..).symm
  have hstems : ∀ stmt ∈ (funcs.flatMap env.blocksOf).flatMap Block.stmts, stmt.Stems env.source := by
    intro stmt hstmt
    obtain ⟨b, hb, hstmt⟩ := List.mem_flatMap.1 hstmt
    obtain ⟨func, -, hb⟩ := List.mem_flatMap.1 hb
    exact stems_blocksOf htrees hb hstmt
  rw [heq, List.Nodup, List.pairwise_filterMap]
  refine (List.pairwise_map.1 honce.2).imp_of_mem fun {stmt stmt'} hstmt hstmt' hne x hx y hy => ?_
  rintro rfl
  obtain ⟨⟨name, _⟩, hbound, rfl⟩ := Option.map_eq_some_iff.1 hx
  obtain ⟨⟨name', _⟩, hbound', rfl⟩ := Option.map_eq_some_iff.1 hy
  obtain ⟨node, hnode, hbinding⟩ := hstems stmt hstmt name _ hbound
  obtain ⟨node', hnode', hbinding'⟩ := hstems stmt' hstmt' name' _ hbound'
  exact hne (hbuilt.separate.binding_unique hnode hnode' hbinding hbinding')

def paramsOf (env : LinkEnv) (func : DeclId) : List DeclId := ((env.body? func).map (·.1)).getD []

theorem mem_params_of_mem_paramsOf {func x : DeclId} (h : x ∈ env.paramsOf func) :
    ∃ d, env.source.decl? func = some d ∧ x ∈ d.kind.params := by
  unfold paramsOf at h
  cases hbody : env.body? func with
  | none => simp [hbody] at h
  | some found =>
    obtain ⟨d, f, hd, hkind, hparams, -⟩ := exists_of_body? hbody
    rw [hbody, Option.map_some, Option.getD_some, ← hparams] at h
    exact ⟨d, hd, by rwa [hkind]⟩

theorem nodup_params (hbuilt : env.source.Built) (hfuncs : funcs.Nodup) : (funcs.flatMap env.paramsOf).Nodup := by
  rw [List.Nodup, List.pairwise_flatMap]
  refine ⟨fun func _ => ?_, hfuncs.imp fun {func func'} hne x hx y hy => ?_⟩
  · unfold paramsOf
    cases hbody : env.body? func with
    | none => exact .nil
    | some found =>
      obtain ⟨d, f, hd, hkind, hparams, -⟩ := exists_of_body? hbody
      have hnodup := hbuilt.separate.params func d hd
      rw [hkind] at hnodup
      rw [Option.map_some, Option.getD_some, ← hparams]
      exact hnodup
  · rintro rfl
    obtain ⟨d, hd, hx⟩ := mem_params_of_mem_paramsOf hx
    obtain ⟨d', hd', hy⟩ := mem_params_of_mem_paramsOf hy
    exact hne (hbuilt.wellBuilt.paramOwner func d func' d' hd hd' x hx hy)

theorem Once.nodup_funcs (h : env.Once funcs) (hblocks : ∀ func ∈ funcs, env.blocksOf func ≠ []) : funcs.Nodup := by
  have hids := h.1
  rw [List.map_flatMap, List.Nodup, List.pairwise_flatMap] at hids
  refine hids.2.imp_of_mem fun {func func'} hfunc _ hapart => ?_
  rintro rfl
  obtain ⟨b, hb⟩ := List.exists_mem_of_ne_nil _ (hblocks func hfunc)
  exact hapart _ (List.mem_map_of_mem hb) _ (List.mem_map_of_mem hb) rfl

theorem nodup_blocks_closings (h : env.Once funcs) : ((funcs.flatMap env.closingsOf).map (·.block)).Nodup := by
  have hfunc : ∀ func, (env.closingsOf func).map (·.block) = (env.blocksOf func).map Block.id := by
    intro func
    unfold closingsOf blocksOf
    split
    · exact Block.map_block_closings _ _ _
    · rfl
  rw [List.map_flatMap, List.flatMap_congr fun func _ => hfunc func, ← List.map_flatMap]
  exact h.1

/-- In a unit that was built everything is due once. -/
theorem nodup_due_closings (hbuilt : env.source.Built) (htrees : env.trees = env.source.trees) (h : env.Once funcs)
    (hblocks : ∀ func ∈ funcs, env.blocksOf func ≠ []) : ((funcs.flatMap env.closingsOf).flatMap (·.due)).Nodup := by
  have hfunc : ∀ func ∈ funcs, ((env.closingsOf func).flatMap (·.due)).Perm
      ((env.blocksOf func).flatMap (Block.locals env.source) ++ env.paramsOf func) := by
    intro func hfunc
    have hblocks := hblocks func hfunc
    unfold blocksOf at hblocks
    unfold closingsOf blocksOf paramsOf
    cases hbody : env.body? func with
    | none => simp [hbody] at hblocks
    | some found =>
      rw [hbody] at hblocks
      exact Block.flatMap_due_closings _ _ hblocks
  have hperm : ((funcs.flatMap env.closingsOf).flatMap (·.due)).Perm
      ((funcs.flatMap env.blocksOf).flatMap (Block.locals env.source) ++ funcs.flatMap env.paramsOf) := by
    rw [List.flatMap_assoc, List.flatMap_assoc]
    exact (List.Perm.flatMap_left funcs hfunc).trans (List.flatMap_append_perm funcs _ _).symm
  rw [hperm.nodup_iff]
  refine List.nodup_append.2 ⟨nodup_locals hbuilt htrees h, nodup_params hbuilt (h.nodup_funcs hblocks), ?_⟩
  rintro x hx _ hparam rfl
  -- a variable is no parameter
  obtain ⟨b, -, hx⟩ := List.mem_flatMap.1 hx
  obtain ⟨d, v, hd, hvar⟩ := exists_var_of_mem_locals hx
  obtain ⟨func, -, hparam⟩ := List.mem_flatMap.1 hparam
  obtain ⟨owner, howner, hparam⟩ := mem_params_of_mem_paramsOf hparam
  obtain ⟨d', hd', hkind⟩ := hbuilt.wellBuilt.param func owner howner x hparam
  obtain rfl := Option.some.inj (hd.symm.trans hd')
  simp [hvar, DeclKind.isParameter] at hkind

end LinkEnv

end Linkage
