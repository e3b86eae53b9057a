import Linkage.Proofs.Link.Stmts

/-!
# What linking an expression is made of

Linking an expression walks down its tree. On the way annotations are linked, problems are reported, places are read
and moved out, and it is recorded what names stand for, which copies are used, what types expressions have, and that
they were linked. A relation between states that allows for these holds across the whole expression. It may allow for
what is recorded because of what the expression is and where it stands.
-/

namespace Linkage

def ExprShape.callee? {ε τ : Type} : ExprShape ε τ → Option ε
  | .call callee _ _ => some callee
  | _ => none

namespace Expr

def callee? : Expr → Option Expr
  | .node _ _ shape => shape.callee?
  | .missing _ => none

mutual
/-- The expression and all that it is made of. -/
def within : Expr → List Expr
  | .missing _ => []
  | .node id span shape => .node id span shape :: withinShape shape
def withinShape : ExprShape Expr TypeExpr → List Expr
  | .call callee _ args => callee.within ++ withinAll args
  | .construct _ fields => withinFields fields
  | .member base _ => base.within
  | .addressOf place => place.within
  | .unary _ operand => operand.within
  | .binary _ lhs rhs => lhs.within ++ rhs.within
  | .intLit _ | .floatLit _ | .strLit _ | .boolLit _ | .name _ | .path _ => []
def withinAll : List Expr → List Expr
  | [] => []
  | e :: es => e.within ++ withinAll es
def withinFields : List (String × Expr) → List Expr
  | [] => []
  | (_, value) :: fields => value.within ++ withinFields fields
end

end Expr

/-- The expression was linked, or it is known what it stands for. -/
def LinkState.Settled (s : LinkState) (e : ExprId) : Prop :=
  e ∈ s.linked ∨ (s.program.resolved.get? e).isSome

def Source.varName? (src : Source) (decl : DeclId) : Option String := do
  let d ← src.decl? decl
  match d.kind with
  | .var _ => some d.name
  | _ => none

def Stmt.bound? (src : Source) : Stmt → Option (String × DeclId)
  | .node _ _ (.binding decl _) => (src.varName? decl).map (·, decl)
  | _ => none

namespace LinkState

def bindLocal (s : LinkState) (name : String) (decl : DeclId) : LinkState :=
  { s with
    scopes := s.scopes.declare name decl
    locals := match s.locals with
      | [] => []
      | innermost :: outer => (innermost ++ [decl]) :: outer }

def bindOptional (s : LinkState) : Option (String × DeclId) → LinkState
  | none => s
  | some (name, decl) => s.bindLocal name decl

end LinkState

namespace Link

/-- What was settled stays settled. -/
def Retains (s s' : LinkState) : Prop := ∀ e, s.Settled e → s'.Settled e

variable {s s' : LinkState}

theorem retains_of_eq (hlinked : s'.linked = s.linked) (hresolved : s'.program.resolved = s.program.resolved) :
    Retains s s' := by
  intro e he
  unfold LinkState.Settled at he ⊢
  rwa [hlinked, hresolved]

theorem retains_recordResolved (e : ExprId) (decl : DeclId) : Framed Retains (recordResolved e decl) := by
  refine .modify fun s x hx => hx.imp_right fun hx => ?_
  rw [Table.get?_insert]
  split
  · rfl
  · exact hx

theorem retains_recordLinked (e : ExprId) (ty : Ty) (env : LinkEnv) (s : LinkState) :
    Retains s (recordLinked e ty env s).2 :=
  fun _ hx => hx.imp_left (List.mem_cons_of_mem _)

/-- The relation allows for what linking does with expressions of which `N` holds. -/
structure Walkable (env : LinkEnv) (N : Expr → Prop) (ρ : LinkState → LinkState → Prop) : Prop
    extends Checkable ρ where
  withActive : ∀ {α : Type} decl index {act : LinkM α}, FramedIn env ρ act →
    FramedIn env ρ (withActive decl index act)
  construct : ∀ id span ty fields struct, N (.node id span (.construct ty fields)) →
    FramedIn env ρ (recordResolved id struct)
  /-- A function that is called by its name. -/
  callee : ∀ s callee func, N callee → Runs env (calledFunction? callee) s (some func) s →
    ρ s (recordResolved callee.id func env s).2
  name : ∀ body hint access e, N e → e.path?.isSome → FramedIn env ρ (linkExpr body hint access e)
  /-- Anything but a name. The callee of a call was looked up before. -/
  linked : ∀ s e ty, N e → e.path? = none → (∀ callee ∈ e.callee?, s.Settled callee.id) →
    ρ s (recordLinked e.id ty env s).2
  retains : ∀ {s s'}, ρ s s' → Retains s s'

theorem looks_calledFunction? (callee : Expr) : Looks (calledFunction? callee) := by
  rw [calledFunction?_eq]
  refine .bind ?_ fun target => ?_
  · cases callee.path? with
    | none => exact .pure _
    | some path => exact looks_resolve? path
  · cases target with
    | none => exact .pure _
    | some decl => exact .bind (looks_declOf decl) fun _ => .bind .get fun _ => .pure _

namespace Walkable

variable {env : LinkEnv} {N : Expr → Prop} {ρ : LinkState → LinkState → Prop} [Sequential ρ] (h : Walkable env N ρ)

include h

/-! ### Calls and struct literals -/

theorem bindToInstance (decl : DeclId) (copy : Instance) (args : List Argument) :
    FramedIn env ρ (bindToInstance decl copy args) := by
  cases copy with
  | iteration index => exact h.withActive decl index (h.bindArgs args)
  | plain | dependent | unresolved => exact h.bindArgs args

theorem useInExpr (body : Body) (id : ExprId) (span : Span) (decl : DeclId) (sig : GenericSignature)
    (written : List Ty) (expected : Option Ty) (args : List Argument) :
    FramedIn env ρ (useInExpr body id span decl sig written expected args) := by
  refine .bind looks_typeEnv.framedIn fun tenv => .bind (h.finishInference _ _ _) fun _ => ?_
  refine .bind (h.of_steps (steps_useGeneric _ _ _ _)) fun copy => .bind (h.recordUsage _ _ _) fun _ => ?_
  exact .bind (h.bindToInstance _ _ _) fun _ => .pure _

variable {body : Body} {expected : Option Ty} {id : ExprId} {span : Span} {args : List Expr}
  {linkArgs : List (Option Ty) → LinkM (List Ty)} (hargs : ∀ hints, FramedIn env ρ (linkArgs hints))

include hargs

theorem linkDirectCall (func : DeclId) (typeArgs : List TypeExpr) :
    FramedIn env ρ (linkDirectCall body expected id span func typeArgs args linkArgs) := by
  refine .bind looks_signatures.framedIn fun sigs => ?_
  split
  · exact .pure _
  · dsimp only
    split
    · refine .bind (looks_nameOf func).framedIn fun _ => .bind (h.report _ _) fun _ => ?_
      exact .bind (hargs _) fun _ => .pure _
    · refine .bind (hargs _) fun types => .bind (h.linkTypes _ _) fun written => ?_
      refine .bind looks_signatures.framedIn fun sigs => ?_
      have hplain : ∀ passed : List Argument, ∀ ret : Ty, FramedIn env ρ (do
          Link.recordUsage (.expr id) func .plain
          Link.bindArgs passed
          return ret) :=
        fun passed ret => .bind (h.recordUsage _ _ _) fun _ => .bind (h.bindArgs _) fun _ => .pure _
      split
      · split
        · exact hplain _ _
        · exact .bind (looks_nameOf func).framedIn fun _ => .bind (h.report _ _) fun _ => hplain _ _
      · refine .bind (h.limitTypeArgs _ _ _ _) fun written => .bind looks_signatures.framedIn fun sigs => ?_
        split
        · exact .pure _
        · exact .bind (h.useInExpr _ _ _ _ _ _ _ _) fun _ => .pure _

theorem linkIndirectCall_pure (ty : Ty) : FramedIn env ρ (linkIndirectCall span args (pure ty) linkArgs) := by
  have hunknown : FramedIn env ρ (do
      let _ ← linkArgs []
      return Ty.unknown) := .bind (hargs _) fun _ => .pure _
  refine .bind (.pure _) fun callee => .bind looks_typeEnv.framedIn fun tenv => ?_
  dsimp only
  split
  · split
    · exact .bind (hargs _) fun types => .bind (h.bindArgs _) fun _ => .pure _
    · exact h.showReport (by rintro _ ⟨⟩) hunknown
  · exact hunknown
  · exact h.showReport (by rintro _ ⟨⟩) hunknown

omit [Sequential ρ] hargs in
theorem calleeOf {s s' : LinkState} {callee : Expr} {func : DeclId} (hcallee : ∀ e ∈ callee.within, N e)
    (hrun : Runs env (calledFunction? callee) s (some func) s') :
    ρ s' (recordResolved callee.id func env s').2 := by
  obtain ⟨rfl, htarget⟩ := target_of_calledFunction? hrun
  obtain ⟨-, path, hpath, -⟩ := htarget func rfl
  cases callee with
  | missing id => simp [Expr.path?] at hpath
  | node id span shape => exact h.callee s _ func (hcallee _ (by simp [Expr.within])) hrun

theorem linkCall {callee : Expr} (hcallee : ∀ e ∈ callee.within, N e) {linkCallee : LinkM Ty}
    (hlink : FramedIn env ρ linkCallee) (typeArgs : List TypeExpr) :
    FramedIn env ρ (linkCall body expected id span callee typeArgs args linkCallee linkArgs) := by
  refine .bind_runs (looks_calledFunction? callee).framedIn fun s target s' hrun => ?_
  cases target with
  | none => exact FramedIn.bind hlink (fun ty => h.linkIndirectCall_pure hargs ty) s'
  | some func => exact Sequential.trans (h.calleeOf hcallee hrun) (h.linkDirectCall hargs func typeArgs _)

theorem settled_callee {s s' : LinkState} {callee : Expr} {linkCallee : LinkM Ty}
    (hlink : ∀ s ty s', Runs env linkCallee s ty s' → s'.Settled callee.id) {typeArgs : List TypeExpr} {ty : Ty}
    (hrun : Runs env (Link.linkCall body expected id span callee typeArgs args linkCallee linkArgs) s ty s') :
    s'.Settled callee.id := by
  simp only [Link.linkCall, runs_bind] at hrun
  obtain ⟨target, s₁, -, hrun⟩ := hrun
  cases target with
  | none =>
    obtain ⟨calleeTy, s₂, hcallee, hrun⟩ := runs_bind.1 hrun
    have hrest : Runs env (linkIndirectCall span args (pure calleeTy) linkArgs) s₂ ty s' := hrun
    exact h.retains ((h.linkIndirectCall_pure hargs calleeTy).of_runs hrest) _ (hlink _ _ _ hcallee)
  | some func =>
    obtain ⟨_, s₂, hrecord, hrun⟩ := runs_bind.1 hrun
    refine h.retains ((h.linkDirectCall hargs func typeArgs).of_runs hrun) _ (.inr ?_)
    obtain rfl := runs_modify.1 hrecord
    simp

omit hargs

variable {linkFields : FieldPlan → LinkM (List Argument)} (hfields : ∀ plan, FramedIn env ρ (linkFields plan))

omit hfields in
theorem linkNoStruct (p : Problem) {linkValues : LinkM Unit} (hvalues : FramedIn env ρ linkValues) :
    FramedIn env ρ (linkNoStruct span p linkValues) :=
  .bind (h.report _ _) fun _ => .bind hvalues fun _ => .pure _

include hfields

theorem linkStructLiteral (struct : DeclId) (shown : String) (declared : List (String × Ty))
    (typeArgs : List TypeExpr) (supplied : List String) :
    FramedIn env ρ (linkStructLiteral body expected id span struct shown declared typeArgs supplied linkFields) := by
  refine .bind looks_signatures.framedIn fun sigs => .bind (h.linkTypes _ _) fun written => ?_
  refine .bind (h.limitTypeArgs _ _ _ _) fun written => .bind (hfields _) fun args => ?_
  refine .bind (.forM fun f _ => ?_) fun _ => ?_
  · dsimp only
    split
    · exact .pure _
    · exact h.report _ _
  · split
    · exact .bind (h.recordUsage _ _ _) fun _ => .bind (h.bindArgs _) fun _ => .pure _
    · exact .bind looks_signatures.framedIn fun sigs => .bind (h.useInExpr _ _ _ _ _ _ _ _) fun _ => .pure _

theorem linkConstruct {ty : TypeExpr} {fields : List (String × Expr)} (hnode : N (.node id span (.construct ty fields)))
    (supplied : List String) {linkValues : LinkM Unit} (hvalues : FramedIn env ρ linkValues) :
    FramedIn env ρ (linkConstruct body expected id span ty supplied linkValues linkFields) := by
  unfold Link.linkConstruct
  split
  · exact .throw _
  · refine .bind (looks_resolve? _).framedIn fun target => ?_
    split
    · exact h.linkNoStruct _ hvalues
    · refine .bind looks_signatures.framedIn fun sigs => ?_
      split
      · exact h.linkNoStruct _ hvalues
      · exact .bind (h.construct id span _ fields _ hnode) fun _ => h.linkStructLiteral hfields _ _ _ _ _
  · exact h.linkNoStruct _ hvalues

end Walkable

/-! ### Trees -/

theorem linkExpr_of_path {e : Expr} {path : List String} (h : e.path? = some path) (body : Body) (hint : Option Ty)
    (access : Access) : linkExpr body hint access e = (do
      let ty ← linkName e.id e.span access path
      recordLinked e.id ty
      return ty) := by
  cases e with
  | missing id => simp [Expr.path?] at h
  | node id span shape =>
    cases shape with
    | name text =>
      obtain rfl := Option.some.inj h
      rw [linkExpr, linkShape]
      rfl
    | path segments =>
      obtain rfl := Option.some.inj h
      rw [linkExpr, linkShape]
      rfl
    | _ => simp [Expr.path?, ExprShape.path?] at h

theorem walkable_of_records {env : LinkEnv} {ρ : LinkState → LinkState → Prop} [Sequential ρ] (h : Checkable ρ)
    (hactive : ∀ {α : Type} decl index {act : LinkM α}, FramedIn env ρ act →
      FramedIn env ρ (withActive decl index act))
    (hresolved : ∀ e decl, FramedIn env ρ (recordResolved e decl))
    (hlinked : ∀ e ty, FramedIn env ρ (recordLinked e ty)) (hretains : ∀ {s s'}, ρ s s' → Retains s s') :
    Walkable env (fun _ => True) ρ where
  toCheckable := h
  withActive := hactive
  construct id _ _ _ struct _ := hresolved id struct
  callee s callee func _ _ := hresolved callee.id func s
  name body hint access e _ he := by
    obtain ⟨path, hpath⟩ := Option.isSome_iff_exists.1 he
    rw [linkExpr_of_path hpath]
    refine .bind (fun s => ?_) fun ty => .bind (hlinked _ _) fun _ => .pure _
    exact h.linkName_at fun decl _ => hresolved _ decl s
  linked s e ty _ _ _ := hlinked e.id ty s
  retains := hretains

theorem settled_of_linkExpr {env : LinkEnv} {s s' : LinkState} {body : Body} {hint : Option Ty} {access : Access}
    {e : Expr} {ty : Ty} (h : Runs env (linkExpr body hint access e) s ty s') : s'.Settled e.id := by
  cases e with
  | missing id =>
    rw [linkExpr] at h
    exact absurd h not_runs_throw
  | node id span shape =>
    simp only [linkExpr, recordLinked, runs_bind, runs_modify, runs_pure] at h
    obtain ⟨ty, s₁, -, _, s₂, ⟨_, s₃, -, rfl⟩, -, rfl⟩ := h
    exact .inl List.mem_cons_self

namespace Walkable

variable {env : LinkEnv} {N : Expr → Prop} {ρ : LinkState → LinkState → Prop} [Sequential ρ]

mutual
theorem linkExpr (h : Walkable env N ρ) (body : Body) : ∀ (e : Expr), (∀ x ∈ e.within, N x) → ∀ hint access,
    FramedIn env ρ (Link.linkExpr body hint access e)
  | .missing id, _, hint, access => by
    rw [Link.linkExpr]
    exact .throw _
  | .node id span shape, hN, hint, access => by
    have hnode : N (.node id span shape) := hN _ (by simp [Expr.within])
    cases hname : shape.path? with
    | some path => exact h.name body hint access _ hnode (by simp [Expr.path?, hname])
    | none =>
      rw [Link.linkExpr]
      have hshape := linkShape h body shape hname hN hint access
      refine .bind_runs hshape.1 fun s ty s' hrun => ?_
      exact h.linked s' _ ty hnode hname fun callee hcallee => hshape.2 callee hcallee s ty s' hrun
theorem linkShape (h : Walkable env N ρ) (body : Body) : ∀ (shape : ExprShape Expr TypeExpr), shape.path? = none →
    ∀ {id span}, (∀ x ∈ (Expr.node id span shape).within, N x) → ∀ hint access,
      FramedIn env ρ (Link.linkShape body hint access id span shape) ∧
        ∀ callee ∈ shape.callee?, ∀ s ty s',
          Runs env (Link.linkShape body hint access id span shape) s ty s' → s'.Settled callee.id
  | .intLit _, _, _, _, _, hint, access => ⟨by rw [Link.linkShape]; exact .pure _, nofun⟩
  | .floatLit _, _, _, _, _, hint, access => ⟨by rw [Link.linkShape]; exact .pure _, nofun⟩
  | .strLit _, _, _, _, _, hint, access => ⟨by rw [Link.linkShape]; exact .pure _, nofun⟩
  | .boolLit _, _, _, _, _, hint, access => ⟨by rw [Link.linkShape]; exact .pure _, nofun⟩
  | .name _, hname, _, _, _, _, _ => nomatch hname
  | .path _, hname, _, _, _, _, _ => nomatch hname
  | .call callee typeArgs args, _, id, span, hN, hint, access => by
    simp only [Expr.within, Expr.withinShape, List.forall_mem_cons, List.forall_mem_append] at hN
    obtain ⟨-, hcallee, hargs⟩ := hN
    rw [Link.linkShape]
    refine ⟨?_, ?_⟩
    · exact h.linkCall (linkArgs h body args hargs) hcallee (linkExpr h body callee hcallee _ _) typeArgs
    · rintro _ ⟨⟩ s ty s' hrun
      exact h.settled_callee (linkArgs h body args hargs) (fun _ _ _ => settled_of_linkExpr) hrun
  | .construct ty fields, _, id, span, hN, hint, access => by
    have hnode := hN _ List.mem_cons_self
    simp only [Expr.within, Expr.withinShape, List.forall_mem_cons] at hN
    rw [Link.linkShape]
    exact ⟨h.linkConstruct (linkFields h body fields hN.2) hnode _ (linkValues h body fields hN.2), nofun⟩
  | .member base field, _, id, span, hN, hint, access => by
    simp only [Expr.within, Expr.withinShape, List.forall_mem_cons] at hN
    rw [Link.linkShape]
    refine ⟨.bind (linkExpr h body base hN.2 _ _) fun ty => .bind (looks_placeOf base).framedIn fun place => ?_, nofun⟩
    exact .bind (h.checkRead _ _ _ _) fun _ => h.linkField _ _ _
  | .addressOf place, _, id, span, hN, hint, access => by
    simp only [Expr.within, Expr.withinShape, List.forall_mem_cons] at hN
    rw [Link.linkShape]
    exact ⟨.bind (linkExpr h body place hN.2 _ _) fun _ => .pure _, nofun⟩
  | .unary .not operand, _, id, span, hN, hint, access => by
    simp only [Expr.within, Expr.withinShape, List.forall_mem_cons] at hN
    rw [Link.linkShape]
    exact ⟨.bind (linkExpr h body operand hN.2 _ _) fun _ => h.checkNot _ _, nofun⟩
  | .unary .neg operand, _, id, span, hN, hint, access => by
    simp only [Expr.within, Expr.withinShape, List.forall_mem_cons] at hN
    rw [Link.linkShape]
    exact ⟨.bind (linkExpr h body operand hN.2 _ _) fun _ => h.checkNeg _ _, nofun⟩
  | .binary op lhs rhs, _, id, span, hN, hint, access => by
    simp only [Expr.within, Expr.withinShape, List.forall_mem_cons, List.forall_mem_append] at hN
    obtain ⟨-, hlhs, hrhs⟩ := hN
    rw [Link.linkShape]
    refine ⟨?_, nofun⟩
    split
    · refine .bind (linkExpr h body lhs hlhs _ _) fun _ => .bind (h.checkLogical _ _ _) fun _ => ?_
      exact .bind (linkExpr h body rhs hrhs _ _) fun _ => .bind (h.checkLogical _ _ _) fun _ => .pure _
    · refine .bind (linkExpr h body lhs hlhs _ _) fun _ => .bind (linkExpr h body rhs hrhs _ _) fun _ => ?_
      exact h.checkBinary _ _ _ _ _ _
theorem linkArgs (h : Walkable env N ρ) (body : Body) : ∀ (es : List Expr), (∀ x ∈ Expr.withinAll es, N x) → ∀ hints,
    FramedIn env ρ (Link.linkArgs body hints es)
  | [], _, hints => by
    rw [Link.linkArgs]
    exact .pure _
  | e :: es, hN, hints => by
    rw [Link.linkArgs]
    rw [Expr.withinAll, List.forall_mem_append] at hN
    exact .bind (linkExpr h body e hN.1 _ _) fun _ => .bind (linkArgs h body es hN.2 _) fun _ => .pure _
theorem linkValues (h : Walkable env N ρ) (body : Body) : ∀ (fields : List (String × Expr)),
    (∀ x ∈ Expr.withinFields fields, N x) → FramedIn env ρ (Link.linkValues body fields)
  | [], _ => by
    rw [Link.linkValues]
    exact .pure _
  | (_, value) :: fields, hN => by
    rw [Link.linkValues]
    rw [Expr.withinFields, List.forall_mem_append] at hN
    exact .bind (linkExpr h body value hN.1 _ _) fun _ => linkValues h body fields hN.2
theorem linkFields (h : Walkable env N ρ) (body : Body) : ∀ (fields : List (String × Expr)),
    (∀ x ∈ Expr.withinFields fields, N x) → ∀ plan, FramedIn env ρ (Link.linkFields body plan fields)
  | [], _, plan => by
    rw [Link.linkFields]
    exact .pure _
  | (name, value) :: fields, hN, plan => by
    rw [Link.linkFields]
    rw [Expr.withinFields, List.forall_mem_append] at hN
    split
    · refine .bind (h.report _ _) fun _ => .bind (linkExpr h body value hN.1 _ _) fun _ => ?_
      exact linkFields h body fields hN.2 plan
    · refine .bind (linkExpr h body value hN.1 _ _) fun _ => ?_
      exact .bind (linkFields h body fields hN.2 plan) fun _ => .pure _
end

/-! ### Simple statements -/

variable (h : Walkable env N ρ)

include h

variable {body : Body}

theorem linkInit {init : Option Expr} (hN : ∀ e ∈ init, ∀ x ∈ e.within, N x) (name : String) (span : Span)
    (declared : Option Ty) : FramedIn env ρ (linkInit body name span declared init) := by
  unfold Link.linkInit
  split
  · refine .bind (h.linkExpr body _ (hN _ rfl) _ _) fun actual => .bind (h.expectType _ _ _) fun _ => ?_
    exact .bind (h.settleLiteral _ _ _) fun _ => .bind (h.consume _ _) fun _ => .pure _
  · exact .pure _
  · refine .bind (h.linkExpr body _ (hN _ rfl) _ _) fun actual => .bind (h.recordType _ _) fun _ => ?_
    exact .bind (h.consume _ _) fun _ => .pure _
  · exact .bind (h.report _ _) fun _ => .pure _

theorem linkAssign {target value : Expr} (htarget : ∀ x ∈ target.within, N x) (hvalue : ∀ x ∈ value.within, N x) :
    FramedIn env ρ (linkAssign body target value) := by
  refine .bind (h.linkExpr body _ htarget _ _) fun targetTy => .bind (h.linkExpr body _ hvalue _ _) fun valueTy => ?_
  refine .bind (h.expectType _ _ _) fun _ => .bind (h.settleLiteral _ _ _) fun _ => .bind (h.consume _ _) fun _ => ?_
  refine .bind (looks_placeOf _).framedIn fun place => ?_
  split
  · exact h.reinit _
  · exact .pure _

theorem linkReturn {value : Option Expr} (hN : ∀ e ∈ value, ∀ x ∈ e.within, N x) (span : Span) :
    FramedIn env ρ (linkReturn body span value) := by
  unfold Link.linkReturn
  split
  · refine .bind (looks_satisfies _ _).framedIn fun fits => ?_
    dsimp only
    split
    · exact h.note _
    · exact h.showReport (by rintro _ ⟨⟩) (h.note _)
  · refine .bind (h.linkExpr body _ (hN _ rfl) _ _) fun ty => .bind (looks_satisfies _ _).framedIn fun fits => ?_
    have hpass : ∀ value : Expr, FramedIn env ρ (do
        Link.settleLiteral value ty body.ret
        let _ ← Link.consume value ty
        Link.note .returned) :=
      fun value => .bind (h.settleLiteral _ _ _) fun _ => .bind (h.consume _ _) fun _ => h.note _
    dsimp only
    split
    · exact hpass _
    · refine .bind (looks_showTy _).framedIn fun _ => .bind (looks_showTy _).framedIn fun _ => ?_
      exact .bind (h.report _ _) fun _ => hpass _

theorem linkCond {cond : Expr} (hN : ∀ x ∈ cond.within, N x) : FramedIn env ρ (linkCond body cond) := by
  refine .bind (h.linkExpr body _ hN _ _) fun ty => .bind (looks_satisfies _ _).framedIn fun fits => ?_
  split
  · exact .pure _
  · exact .bind (looks_showTy _).framedIn fun _ => h.report _ _

theorem linkCaseValues {cases : List (SwitchCase Expr Block)}
    (hN : ∀ c ∈ cases, ∀ value ∈ c.values, ∀ x ∈ value.within, N x) (scrutinee : Ty) (hasDefault : Bool) :
    FramedIn env ρ (linkCaseValues body scrutinee hasDefault cases) := by
  have hvalue : ∀ value : Expr, (∀ x ∈ value.within, N x) → FramedIn env ρ (linkCaseValue body scrutinee value) := by
    intro value hN
    refine .bind (h.linkExpr body _ hN _ _) fun ty => .bind (looks_satisfies _ _).framedIn fun fits => ?_
    dsimp only
    split
    · exact h.settleLiteral _ _ _
    · refine .bind (looks_showTy _).framedIn fun _ => .bind (looks_showTy _).framedIn fun _ => ?_
      exact .bind (h.report _ _) fun _ => h.settleLiteral _ _ _
  induction cases generalizing hasDefault with
  | nil => exact .pure _
  | cons c cases ih =>
    obtain ⟨hc, hcases⟩ := List.forall_mem_cons.1 hN
    unfold Link.linkCaseValues
    split
    · exact .bind (h.report _ _) fun _ => ih hcases _
    · exact .bind (.forM fun value hmem => hvalue value (hc value hmem)) fun _ => ih hcases _

theorem linkStmtShape {T : (α : Type) → LinkM α → Prop}
    (hframed : ∀ {α : Type} {act : LinkM α}, FramedIn env ρ act → T α act)
    (hbind : ∀ {α β : Type} {x : LinkM α} {f : α → LinkM β}, T α x → (∀ a, T β (f a)) → T β (x >>= f))
    {id : StmtId} {span : Span} {shape : StmtShape Expr Block} (hN : ∀ e ∈ shape.exprs, ∀ x ∈ e.within, N x)
    (hbinding : ∀ decl init, shape = .binding decl init → T Unit (linkBinding body span decl init))
    (hblocks : ∀ b ∈ shape.blocks, T Unit (linkBlock body b)) : T Unit (linkStmtShape body id span shape) := by
  refine (h.branching hframed hbind).linkStmtShape (fun hsimple => ?_) (fun e he => hframed (h.linkCond (hN e he)))
    (fun e _ => hframed (looks_evaluate e).framedIn) (fun scrutinee cases hshape => ?_) hblocks
  · cases shape with
    | binding decl init =>
      rw [Link.linkStmtShape]
      exact hbinding decl init rfl
    | assign target value =>
      rw [Link.linkStmtShape]
      exact hframed (h.linkAssign (hN target (by simp [StmtShape.exprs])) (hN value (by simp [StmtShape.exprs])))
    | expr e =>
      rw [Link.linkStmtShape]
      refine hframed (.bind (h.linkExpr body e (hN e (by simp [StmtShape.exprs])) _ _) fun ty => ?_)
      exact .bind (h.consume e ty) fun _ => .pure _
    | ret value =>
      rw [Link.linkStmtShape]
      exact hframed (h.linkReturn (fun e he => hN e (Option.mem_toList.2 he)) span)
    | _ => simp [StmtShape.isSimple] at hsimple
  · subst hshape
    obtain ⟨hscrutinee, hvalues⟩ := List.forall_mem_cons.1 hN
    refine hframed (.bind (h.linkExpr body scrutinee hscrutinee _ _) fun ty => ?_)
    exact h.linkCaseValues (fun c hc value hvalue => hvalues value (List.mem_flatMap_of_mem hc hvalue)) _ _

/-- A local is bound once its annotation and its initial value are linked, and its type is recorded. -/
theorem of_linkBinding {s s' : LinkState} {span : Span} {decl : DeclId} {init : Option Expr} {u : Unit}
    (hN : ∀ e ∈ init, ∀ x ∈ e.within, N x)
    (hrecord : ∀ name, env.source.varName? decl = some name → ∀ ty, FramedIn env ρ (recordDeclType decl ty))
    (hrun : Runs env (linkBinding body span decl init) s u s') :
    ∃ s₁, ρ s s₁ ∧ Idle (s₁.bindOptional ((env.source.varName? decl).map (·, decl))) s' := by
  obtain ⟨d, s₁, hlookup, hrun⟩ := runs_bind.1 hrun
  obtain ⟨hd, rfl⟩ := runs_declOf.1 hlookup
  split at hrun
  · rename_i v hkind
    have hvariable : env.source.varName? decl = some d.name := by simp [Source.varName?, hd, hkind]
    rw [hvariable]
    obtain ⟨declared, s₁, hdeclared, hrun⟩ := runs_bind.1 hrun
    obtain ⟨ty, s₂, hty, hrun⟩ := runs_bind.1 hrun
    obtain ⟨_, s₃, hrecorded, hrun⟩ := runs_bind.1 hrun
    have htype : ρ s s₃ := by
      have hvalue := Sequential.trans ((h.linkVarType _ _).of_runs hdeclared) ((h.linkInit hN _ _ _).of_runs hty)
      exact Sequential.trans hvalue ((hrecord _ hvariable ty).of_runs hrecorded)
    have hbind : ∀ {s₄}, ρ s s₄ → Runs env (do
        declareLocal d.name decl
        addLocal decl
        Link.reinit { root := decl }) s₄ u s' →
        ∃ s₁, ρ s s₁ ∧ Idle (s₁.bindOptional (some (d.name, decl))) s' := by
      intro s₄ hs₄ hrun
      simp only [declareLocal, addLocal, Link.reinit, Link.note, runs_bind, runs_modify] at hrun
      obtain ⟨_, _, rfl, _, _, rfl, _, _, rfl, rfl⟩ := hrun
      exact ⟨s₄, hs₄, rfl, rfl, rfl, rfl, rfl, rfl, rfl, rfl, rfl, rfl⟩
    dsimp only at hrun
    split at hrun
    · obtain ⟨_, s₄, hconstant, hrun⟩ := runs_bind.1 hrun
      exact hbind (Sequential.trans htype ((h.linkConstant decl init).of_runs hconstant)) hrun
    · exact hbind htype hrun
  · rename_i hkind
    obtain ⟨-, rfl⟩ := runs_pure.1 hrun
    have hvariable : env.source.varName? decl = none := by
      cases hk : d.kind with
      | var v => exact absurd hk (hkind v)
      | _ => simp [Source.varName?, hd, hk]
    rw [hvariable]
    exact ⟨s, Sequential.refl s, rfl, rfl, rfl, rfl, rfl, rfl, rfl, rfl, rfl, rfl⟩

end Walkable

end Link

end Linkage
