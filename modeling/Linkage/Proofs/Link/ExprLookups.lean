import Linkage.Proofs.Link.CallLookups

/-!
# Look-ups in expressions

A whole expression is linked to a type that is present: the type of a literal, of a declaration, of a field or of
a result. So all types that a report on it shows can be shown. This is proved by induction on the expression, for
all hints that are present themselves.
-/

namespace Linkage

namespace Link

variable {env : LinkEnv}

section Complete

variable (henv : env.Complete)
include henv

/-! ### Expressions -/

theorem finds_linkName (id : ExprId) (span : Span) (access : Access) (path : List String) :
    Finds env (linkName id span access path) (Ty.Present env.source) := by
  have hreport : ∀ p : Problem, Finds env (do report span p; return Ty.unknown) (Ty.Present env.source) :=
    fun p => .seq (safe_report span p) fun _ => .pure (.unknown trivial)
  refine (finds_resolve path).bind fun found hfound => ?_
  cases found with
  | none => exact hreport _
  | some decl =>
    have hdecl := hfound decl rfl
    have hvalue : Finds env (do
        checkRead id access (some { root := decl }) span
        return ((← signatures).declTypes.get? decl).getD .unknown) (Ty.Present env.source) := by
      refine .seq (safe_checkRead henv id access (fun p hp => Option.some.inj hp ▸ hdecl) span) fun _ => ?_
      refine finds_signatures.bind fun sigs hsigs => .pure ?_
      cases hget : sigs.declTypes.get? decl with
      | none => exact .unknown trivial
      | some t => exact hsigs.declTypes.of_get? hget
    refine .seq (safe_recordResolved id hdecl) fun _ => (finds_declOf henv hdecl).bind fun d _ => ?_
    cases d.kind with
    | var v => exact hvalue
    | parameter p => exact hvalue
    | function f =>
      refine finds_signatures.bind fun sigs hsigs => ?_
      split
      · rename_i sig _ hsig
        obtain ⟨hparams, hret⟩ := hsigs.functions.of_get? hsig
        exact .pure (.function (FunctionSig.present_explicitTypes hparams) hret)
      · exact hreport _
    | space _ => exact hreport _
    | struct _ | variant _ | interface _ | union _ | typeAlias _ | genericParam _ => exact hreport _

omit henv in
theorem present_pointee {te : TypeEnv} (hte : te.AliasesFit env.source.presence env.source.HasGeneric) {t : Ty}
    (ht : t.Present env.source) : (te.pointee t).Present env.source := by
  have hexpanded := ht.expand hte
  unfold TypeEnv.pointee
  split
  · rename_i inner hpointer
    rw [hpointer] at hexpanded
    exact hexpanded.of_pointer.expand hte
  · rename_i inner hreference
    rw [hreference] at hexpanded
    exact hexpanded.of_reference.expand hte
  · exact hexpanded

omit henv in
theorem finds_linkField (span : Span) {base : Ty} (hbase : base.Present env.source) (field : String) :
    Finds env (linkField span base field) (Ty.Present env.source) := by
  have hreport : ∀ {ty : Ty} (p : String → Problem), ty.Present env.source →
      Finds env (do report span (p (← showTy ty)); return Ty.unknown) (Ty.Present env.source) :=
    fun p hty => .seq (finds_showTy hty) fun _ => .seq (safe_report _ _) fun _ => .pure (.unknown trivial)
  refine finds_typeEnv.bind fun te hte => ?_
  have hty := present_pointee hte hbase
  dsimp only
  generalize te.pointee base = ty at hty
  cases ty with
  | unknown => exact .pure hty
  | linked decl args =>
    refine finds_signatures.bind fun sigs hsigs => ?_
    split
    · split
      · rename_i t ht
        exact .pure (hsigs.fieldType (fun a ha => hty.of_mem_args ha) ht)
      · exact hreport (.unknownMember field) hty
    · exact hreport (.noMembers · field) hty
  | _ => exact hreport (.noMembers · field) hty

omit henv in
theorem finds_checkNot (span : Span) {ty : Ty} (hty : ty.Present env.source) :
    Finds env (checkNot span ty) (Ty.Present env.source) := by
  refine .seq (safe_satisfies _ ty) fun fits => ?_
  split
  · exact .pure (.prim _)
  · exact .seq (finds_showTy hty) fun _ => .seq (safe_report _ _) fun _ => .pure (.prim _)

omit henv in
theorem finds_checkNeg (span : Span) {ty : Ty} (hty : ty.Present env.source) :
    Finds env (checkNeg span ty) (Ty.Present env.source) := by
  refine finds_typeEnv.bind fun te _ => ?_
  split
  · exact .pure hty
  · exact .seq (finds_showTy hty) fun _ => .seq (safe_report _ _) fun _ => .pure hty

omit henv in
theorem safe_checkLogical (op : BinaryOp) (operand : Expr) {ty : Ty} (hty : ty.Present env.source) :
    Safe env (checkLogical op operand ty) := by
  refine .seq (safe_satisfies _ ty) fun fits => ?_
  split
  · exact .pure trivial
  · exact .seq (finds_showTy hty) fun _ => safe_report _ _

omit henv in
theorem finds_checkBinary (op : BinaryOp) (span : Span) (lhs rhs : Expr) {lhsTy rhsTy : Ty}
    (hlhs : lhsTy.Present env.source) (hrhs : rhsTy.Present env.source) :
    Finds env (checkBinary op span lhs rhs lhsTy rhsTy) (Ty.Present env.source) := by
  have hresult : Finds env (pure (if op.isComparison then .bool else if lhsTy.isLiteral then rhsTy else lhsTy))
      (Ty.Present env.source) := by
    split
    · exact .pure (.prim _)
    · split
      · exact .pure hrhs
      · exact .pure hlhs
  refine .seq (safe_satisfies _ _) fun _ => .seq (safe_satisfies _ _) fun _ => ?_
  dsimp only
  split
  · refine .seq (finds_showTy hlhs) fun _ => .seq (finds_showTy hrhs) fun _ => .seq (safe_report _ _) fun _ => ?_
    split
    · exact .pure (.prim _)
    · exact .pure (.unknown trivial)
  · split
    · exact .seq (safe_settleLiteral _ _ _) fun _ => hresult
    · exact .seq (safe_settleLiteral _ _ _) fun _ => hresult
    · exact hresult

/-! ### Trees -/

def LinksExpr (env : LinkEnv) (body : Body) (e : Expr) : Prop :=
  ∀ (hint : Option Ty) (access : Access), (∀ t ∈ hint, t.Present env.source) →
    Finds env (linkExpr body hint access e) (Ty.Present env.source)

variable {body : Body}

omit henv in
theorem LinksExpr.none {e : Expr} (h : LinksExpr env body e) (access : Access) :
    Finds env (linkExpr body none access e) (Ty.Present env.source) := h Option.none access nofun

omit henv in
theorem links_linkArgs {es : List Expr} (h : ∀ e ∈ es, LinksExpr env body e) :
    LinksArgs env fun hints => linkArgs body hints es := by
  induction es with
  | nil =>
    intro hints _
    simp only [linkArgs]
    exact .pure nofun
  | cons e es ih =>
    obtain ⟨he, hes⟩ := List.forall_mem_cons.1 h
    intro hints hhints
    simp only [linkArgs]
    refine (he _ .read ?_).bind fun ty hty => (ih hes hints.tail ?_).bind fun types htypes => ?_
    · cases hints with
      | nil => exact nofun
      | cons hint _ => exact hhints hint List.mem_cons_self
    · exact fun hint hhint => hhints hint (List.mem_of_mem_tail hhint)
    · exact .pure (List.forall_mem_cons.2 ⟨hty, htypes⟩)

omit henv in
theorem safe_linkValues {fields : List (String × Expr)} (h : ∀ f ∈ fields, LinksExpr env body f.2) :
    Safe env (linkValues body fields) := by
  induction fields with
  | nil =>
    rw [linkValues]
    exact .pure trivial
  | cons field fields ih =>
    obtain ⟨hfield, hfields⟩ := List.forall_mem_cons.1 h
    rw [linkValues]
    exact (hfield.none .read).bind fun _ _ => ih hfields

omit henv in
theorem links_linkFields {fields : List (String × Expr)} (h : ∀ f ∈ fields, LinksExpr env body f.2) :
    LinksFields env fun plan => linkFields body plan fields := by
  induction fields with
  | nil =>
    intro plan _
    simp only [linkFields]
    exact .pure nofun
  | cons field fields ih =>
    obtain ⟨hfield, hfields⟩ := List.forall_mem_cons.1 h
    intro plan hplan
    simp only [linkFields]
    split
    · exact .seq (safe_report _ _) fun _ => (hfield.none .read).bind fun _ _ => ih hfields plan hplan
    · rename_i formal hformal
      have hformal := hplan.formal _ formal hformal
      refine (hfield _ .read (hplan.hint formal hformal)).bind fun ty hty => ?_
      refine (ih hfields plan hplan).bind fun args hargs => .pure ?_
      exact List.forall_mem_cons.2 ⟨⟨hty, hformal⟩, hargs⟩

theorem finds_linkShape (hbody : body.Present env.source) {shape : ExprShape Expr TypeExpr}
    (hparts : ∀ e ∈ shape.parts, LinksExpr env body e) (htypes : ∀ t ∈ shape.types, t.Whole) {hint : Option Ty}
    (hhint : ∀ t ∈ hint, t.Present env.source) (access : Access) (id : ExprId) (span : Span) :
    Finds env (linkShape body hint access id span shape) (Ty.Present env.source) := by
  cases shape with
  | intLit _ | floatLit _ | strLit _ =>
    rw [linkShape]
    exact .pure (.literal _)
  | boolLit _ =>
    rw [linkShape]
    exact .pure (.prim _)
  | name _ | path _ =>
    rw [linkShape]
    exact finds_linkName henv id span access _
  | call callee typeArgs args =>
    obtain ⟨hcallee, hargs⟩ := List.forall_mem_cons.1 hparts
    rw [linkShape]
    exact finds_linkCall henv hbody hhint id span callee htypes args (hcallee.none .read) (links_linkArgs hargs)
  | construct ty fields =>
    have hfields : ∀ f ∈ fields, LinksExpr env body f.2 := fun f hf => hparts f.2 (List.mem_map_of_mem hf)
    rw [linkShape]
    exact finds_linkConstruct henv hbody hhint id span (htypes ty List.mem_cons_self) _ (safe_linkValues hfields)
      (links_linkFields hfields)
  | member base field =>
    rw [linkShape]
    refine ((hparts base List.mem_cons_self).none .place).bind fun ty hty => ?_
    refine (finds_placeOf base).bind fun place hplace => .seq (safe_checkRead henv id access ?_ span) fun _ => ?_
    · intro p hp
      obtain ⟨q, hq, rfl⟩ := Option.map_eq_some_iff.1 hp
      exact hplace q hq
    · exact finds_linkField span hty field
  | addressOf place =>
    rw [linkShape]
    refine (hparts place List.mem_cons_self _ .read fun t ht => ?_).bind fun ty hty => .pure hty.concrete.reference
    obtain ⟨u, hu, ht⟩ := Option.bind_eq_some_iff.1 ht
    cases u with
    | reference inner => exact Option.some.inj ht ▸ (hhint _ hu).of_reference
    | _ => exact nomatch ht
  | unary op operand =>
    have hoperand := hparts operand List.mem_cons_self
    cases op with
    | not =>
      rw [linkShape]
      exact (hoperand _ .read (Ty.Fits.prim _).forall_some).bind fun ty hty => finds_checkNot span hty
    | neg =>
      rw [linkShape]
      exact (hoperand _ .read hhint).bind fun ty hty => finds_checkNeg span hty
  | binary op lhs rhs =>
    have hlhs := hparts lhs List.mem_cons_self
    have hrhs := hparts rhs (List.mem_cons_of_mem _ List.mem_cons_self)
    have hbool : ∀ t ∈ some Ty.bool, t.Present env.source := (Ty.Fits.prim _).forall_some
    rw [linkShape]
    split
    · refine (hlhs _ .read hbool).bind fun ty hty => .seq (safe_checkLogical op lhs hty) fun _ => ?_
      refine (hrhs _ .read hbool).bind fun ty hty => .seq (safe_checkLogical op rhs hty) fun _ => ?_
      exact .pure (.prim _)
    · refine (hlhs _ .read ?_).bind fun lhsTy hlhsTy => (hrhs _ .read ?_).bind fun rhsTy hrhsTy => ?_
      · split
        · exact nofun
        · exact hhint
      · unfold operandHint
        split
        · exact nofun
        · exact hlhsTy.hint
      · exact finds_checkBinary op span lhs rhs hlhsTy hrhsTy

theorem links_linkExpr (hbody : body.Present env.source) {e : Expr} (h : e.Whole) : LinksExpr env body e := by
  induction h with
  | node _ htypes ih =>
    intro hint access hhint
    rw [linkExpr]
    refine (finds_linkShape henv hbody ih htypes hhint access _ _).bind fun ty hty => ?_
    exact .seq (safe_recordLinked _ _) fun _ => .pure hty

end Complete

end Link

end Linkage
