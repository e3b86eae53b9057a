import Linkage.Proofs.Source.Built
import Linkage.Proofs.Source.Trees
import Linkage.Source.Validation

/-!
# What validation guarantees

In a unit that passed validation every reference leads to a node, a parameter of a function is a parameter, a method
of an interface is a function, and a generic parameter that is listed somewhere has a declaration.
-/

namespace Linkage

variable {id : DeclId}

namespace Check

variable {α : Type}

@[simp] theorem require_eq_ok {holds : Bool} {fault : Malformed} :
    require holds fault = .ok () ↔ holds = true := by
  cases holds <;> simp [require]

@[simp] theorem bind_eq_ok {first : Check} {rest : Unit → Check} :
    (first >>= rest) = .ok () ↔ first = .ok () ∧ rest () = .ok () := by
  constructor
  · intro h
    obtain ⟨_, hfirst, hrest⟩ := Builder.ok_of_bind h
    exact ⟨hfirst, hrest⟩
  · rintro ⟨rfl, hrest⟩
    exact hrest

@[simp] theorem forM_eq_ok {l : List α} {f : α → Check} : forM l f = .ok () ↔ ∀ a ∈ l, f a = .ok () := by
  induction l with
  | nil => exact ⟨fun _ => nofun, fun _ => rfl⟩
  | cons a l ih => rw [List.forM_cons, bind_eq_ok, ih, List.forall_mem_cons]

@[simp] theorem option_forM_eq_ok {o : Option α} {f : α → Check} : forM o f = .ok () ↔ ∀ a ∈ o, f a = .ok () := by
  cases o with
  | none => exact ⟨fun _ => nofun, fun _ => rfl⟩
  | some a => simp

end Check

def ExprShape.types {ε τ : Type} : ExprShape ε τ → List τ
  | .call _ typeArgs _ => typeArgs
  | .construct ty _ => [ty]
  | _ => []

def StmtShape.introduced {ε β : Type} : StmtShape ε β → Option DeclId
  | .binding decl _ => some decl
  | _ => none

namespace Source

def HasDecl (src : Source) (id : DeclId) : Prop := (src.decl? id).isSome = true

def HasExpr (src : Source) (id : ExprId) : Prop := (src.expr? id).isSome = true

def HasType (src : Source) (id : TypeExprId) : Prop := (src.typeExpr? id).isSome = true

def HasBlock (src : Source) (id : BlockId) : Prop :=
  ∃ node, src.block? id = some node ∧ ∀ stmt ∈ node.stmts, (src.stmt? stmt).isSome = true

/-- The generic parameter exists together with its declaration and its annotations. -/
def HasGeneric (src : Source) (id : GenericId) : Prop :=
  ∃ param, src.generic? id = some param ∧ src.HasDecl param.decl ∧ (∀ t ∈ param.bound, src.HasType t) ∧
    ∀ t ∈ param.default, src.HasType t

def ClosedKind (src : Source) : DeclKind → Prop
  | .var v => ∀ t ∈ v.ty, src.HasType t
  | .parameter p => src.HasType p.ty
  | .function f => (∀ p ∈ f.params, ∃ d, src.decl? p = some d ∧ d.kind.isParameter = true) ∧
      (∀ t ∈ f.ret, src.HasType t) ∧ ∀ b ∈ f.body, src.HasBlock b
  | .struct s => (∀ f ∈ s.fields, src.HasType f.ty) ∧ ∀ t ∈ s.implements, src.HasType t
  | .variant v => ∀ c ∈ v.cases, ∀ t ∈ c.payload, src.HasType t
  | .interface i => ∀ m ∈ i.methods, ∃ d, src.decl? m = some d ∧ d.kind.isFunction = true
  | .union u => ∀ t ∈ u.members, src.HasType t
  | .typeAlias a => src.HasType a.target
  | .genericParam g => src.HasGeneric g
  | .space members => ∀ m ∈ members, src.HasDecl m

structure ClosedDecl (src : Source) (d : Decl) : Prop where
  parent : ∀ p ∈ d.parent, src.HasDecl p
  generics : ∀ g ∈ d.generics, src.HasGeneric g
  kind : src.ClosedKind d.kind

structure ClosedStmt (src : Source) (shape : StmtShape ExprId BlockId) : Prop where
  exprs : ∀ e ∈ shape.exprs, src.HasExpr e
  blocks : ∀ b ∈ shape.blocks, src.HasBlock b
  introduced : ∀ d ∈ shape.introduced, src.HasDecl d

structure ClosedExpr (src : Source) (shape : ExprShape ExprId TypeExprId) : Prop where
  parts : ∀ e ∈ shape.parts, src.HasExpr e
  types : ∀ t ∈ shape.types, src.HasType t

/-- Every reference of the unit leads to a node. -/
structure Closed (src : Source) : Prop where
  items : ∀ d ∈ src.items, src.HasDecl d
  decl : ∀ {id d}, src.decl? id = some d → src.ClosedDecl d
  stmt : ∀ {id node}, src.stmt? id = some node → src.ClosedStmt node.shape
  expr : ∀ {id node}, src.expr? id = some node → src.ClosedExpr node.shape
  typeExpr : ∀ {id node}, src.typeExpr? id = some node → ∀ t ∈ node.shape.parts, src.HasType t

variable {src : Source}

theorem hasDecl_of_eq_some {d : Decl} (h : src.decl? id = some d) : src.HasDecl id :=
  Option.isSome_iff_exists.2 ⟨d, h⟩

/-! ### What the checks check -/

@[simp] theorem checkDecl_eq_ok {role : DeclRole} : src.checkDecl role id = .ok () ↔ src.HasDecl id := Check.require_eq_ok

@[simp] theorem checkExpr_eq_ok {id : ExprId} : src.checkExpr id = .ok () ↔ src.HasExpr id := Check.require_eq_ok

@[simp] theorem checkTypeExpr_eq_ok {id : TypeExprId} : src.checkTypeExpr id = .ok () ↔ src.HasType id :=
  Check.require_eq_ok

@[simp] theorem checkBlock_eq_ok {id : BlockId} : src.checkBlock id = .ok () ↔ src.HasBlock id := by
  unfold checkBlock HasBlock
  cases src.block? id with
  | none => simp
  | some node => simp

theorem hasGeneric_of_checked {id : GenericId} (h : src.checkGeneric id = .ok ()) : src.HasGeneric id := by
  unfold checkGeneric at h
  split at h
  · exact nomatch h
  · rename_i param hparam
    simp only [Option.forM_eq_forM, Check.bind_eq_ok, Check.option_forM_eq_ok, checkDecl_eq_ok,
      checkTypeExpr_eq_ok] at h
    obtain ⟨-, hdecl, hbound, hdefault⟩ := h
    exact ⟨param, hparam, hdecl, hbound, hdefault⟩

theorem exists_of_checkKind {role : DeclRole} {test : DeclKind → Bool} {fault : Malformed}
    (h : src.checkKind role test fault id = .ok ()) : ∃ d, src.decl? id = some d ∧ test d.kind = true := by
  simp only [checkKind, Check.bind_eq_ok, Check.require_eq_ok, Option.any_eq_true] at h
  exact h.2

theorem closedKind_of_checked {k : DeclKind} (h : src.checkDeclKind id k = .ok ()) : src.ClosedKind k := by
  cases k with
  | function f =>
    simp only [checkDeclKind, List.forM_eq_forM, Option.forM_eq_forM, Check.bind_eq_ok, Check.forM_eq_ok,
      Check.option_forM_eq_ok, checkTypeExpr_eq_ok, checkBlock_eq_ok] at h
    obtain ⟨hparams, hret, hbody⟩ := h
    refine ⟨fun p hp => ?_, hret, hbody⟩
    obtain ⟨d, hd, htest⟩ := exists_of_checkKind (hparams p hp)
    refine ⟨d, hd, ?_⟩
    cases hk : d.kind <;> simp [hk, DeclKind.isParameter] at htest ⊢
  | interface i =>
    simp only [checkDeclKind, List.forM_eq_forM, Check.forM_eq_ok] at h
    exact fun m hm => exists_of_checkKind (h m hm)
  | genericParam g => exact hasGeneric_of_checked h
  | _ => simpa [checkDeclKind, ClosedKind] using h

theorem closedDecl_of_checked {d : Decl} (h : src.checkDeclNode id d = .ok ()) : src.ClosedDecl d := by
  simp only [checkDeclNode, List.forM_eq_forM, Option.forM_eq_forM, Check.bind_eq_ok, Check.forM_eq_ok,
    Check.option_forM_eq_ok, checkDecl_eq_ok] at h
  obtain ⟨hparent, hgenerics, hkind⟩ := h
  exact ⟨hparent, fun g hg => hasGeneric_of_checked (hgenerics g hg), closedKind_of_checked hkind⟩

theorem closedStmt_of_checked {shape : StmtShape ExprId BlockId} (h : src.checkStmtShape shape = .ok ()) :
    src.ClosedStmt shape := by
  cases shape with
  | binding decl init =>
    simp only [checkStmtShape, Option.forM_eq_forM, Check.bind_eq_ok, Check.option_forM_eq_ok, checkExpr_eq_ok] at h
    obtain ⟨hdecl, hinit⟩ := h
    obtain ⟨d, hd, -⟩ := exists_of_checkKind hdecl
    refine ⟨by simpa [StmtShape.exprs] using hinit, by simp [StmtShape.blocks], ?_⟩
    simp [StmtShape.introduced, HasDecl, hd]
  | ifChain arms otherwise =>
    simp only [checkStmtShape, List.forM_eq_forM, Option.forM_eq_forM, Check.bind_eq_ok, Check.forM_eq_ok,
      Check.option_forM_eq_ok, checkExpr_eq_ok, checkBlock_eq_ok] at h
    obtain ⟨harms, hotherwise⟩ := h
    refine ⟨fun e he => ?_, fun b hb => ?_, by simp [StmtShape.introduced]⟩
    · obtain ⟨arm, harm, rfl⟩ := List.mem_map.1 he
      exact (harms arm harm).1
    · rcases List.mem_append.1 hb with hb | hb
      · obtain ⟨arm, harm, rfl⟩ := List.mem_map.1 hb
        exact (harms arm harm).2
      · exact hotherwise b (Option.mem_toList.1 hb)
  | switch scrutinee cases =>
    simp only [checkStmtShape, List.forM_eq_forM, Check.bind_eq_ok, Check.forM_eq_ok, checkExpr_eq_ok,
      checkBlock_eq_ok] at h
    obtain ⟨hscrutinee, hcases⟩ := h
    refine ⟨fun e he => ?_, fun b hb => ?_, by simp [StmtShape.introduced]⟩
    · rcases List.mem_cons.1 he with rfl | he
      · exact hscrutinee
      · obtain ⟨c, hc, he⟩ := List.mem_flatMap.1 he
        exact (hcases c hc).1 e he
    · obtain ⟨c, hc, rfl⟩ := List.mem_map.1 hb
      exact (hcases c hc).2
  | _ =>
    simp only [checkStmtShape, Option.forM_eq_forM, Check.bind_eq_ok, Check.option_forM_eq_ok, checkExpr_eq_ok,
      checkBlock_eq_ok] at h
    constructor <;> simp_all [StmtShape.exprs, StmtShape.blocks, StmtShape.introduced]

theorem closedExpr_of_checked {shape : ExprShape ExprId TypeExprId} (h : src.checkExprShape shape = .ok ()) :
    src.ClosedExpr shape := by
  cases shape with
  | construct ty fields =>
    simp only [checkExprShape, List.forM_eq_forM, Check.bind_eq_ok, Check.forM_eq_ok, checkExpr_eq_ok,
      checkTypeExpr_eq_ok] at h
    refine ⟨fun e he => ?_, by simpa [ExprShape.types] using h.1⟩
    obtain ⟨field, hfield, rfl⟩ := List.mem_map.1 he
    exact h.2 field hfield
  | _ =>
    simp only [checkExprShape, List.forM_eq_forM, Check.bind_eq_ok, Check.forM_eq_ok, checkExpr_eq_ok,
      checkTypeExpr_eq_ok] at h
    constructor <;> simp_all [ExprShape.parts, ExprShape.types]

theorem closed_of_validate (h : src.validate = .ok ()) : src.Closed := by
  simp only [validate, List.forM_eq_forM, Check.bind_eq_ok, Check.forM_eq_ok, checkDecl_eq_ok,
    checkTypeExpr_eq_ok] at h
  obtain ⟨hitems, hdecls, hstmts, hexprs, htypes⟩ := h
  refine ⟨hitems, ?_, ?_, ?_, ?_⟩
  · intro id d hd
    have hmem : (id, d) ∈ src.numberedDecls :=
      List.mem_iff_getElem?.2 ⟨id.index, by simpa [numberedDecls, decl?, NodeId.get?] using hd⟩
    exact closedDecl_of_checked (hdecls _ hmem)
  · intro id node hnode
    exact closedStmt_of_checked (hstmts node (List.mem_of_getElem? hnode))
  · intro id node hnode
    exact closedExpr_of_checked (hexprs node (List.mem_of_getElem? hnode))
  · intro id node hnode
    exact htypes node (List.mem_of_getElem? hnode)

end Source

end Linkage
