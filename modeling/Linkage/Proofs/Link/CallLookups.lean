import Linkage.Proofs.Link.AnnotationLookups

/-!
# Look-ups in calls

Inference hands on nothing but what it was given: the types of the values, what the surroundings want, and the
defaults of the parameters. So if all of these are present then the type of the result is. How the parts are linked is
a parameter, as it is in the definitions; `LinksArgs` and `LinksFields` say what is asked of it.
-/

namespace Linkage

variable {body : Body} {sig : GenericSignature} {linkArgs : List (Option Ty) → LinkM (List Ty)} {args : List Argument}
  {written : List Ty} {typeArgs : List TypeExpr} {expected : Option Ty} {src : Source}

theorem Expr.hasDecl_binding {resolved : Table ExprId DeclId} {id : ExprId} {p : Place}
    (h : Expr.place?.binding src resolved id = some p) : src.HasDecl p.root := by
  obtain ⟨decl, -, h⟩ := Option.bind_eq_some_iff.1 h
  obtain ⟨d, hd, h⟩ := Option.bind_eq_some_iff.1 h
  split at h
  · obtain rfl := Option.some.inj h
    exact Source.hasDecl_of_eq_some hd
  · exact nomatch h

theorem Expr.hasDecl_place {src : Source} {resolved : Table ExprId DeclId} :
    ∀ {e : Expr} {p : Place}, e.place? src resolved = some p → src.HasDecl p.root
  | .node id _ (.name _), p, h => hasDecl_binding h
  | .node id _ (.path _), p, h => hasDecl_binding h
  | .node _ _ (.member base field), p, h => by
    obtain ⟨q, hq, rfl⟩ := Option.map_eq_some_iff.1 h
    exact (hasDecl_place hq : src.HasDecl q.root)

theorem Ty.Fits.forall_some {rules : TyRules} {scope : GenericId → Prop} {t : Ty} (h : t.Fits rules scope) :
    ∀ u ∈ some t, u.Fits rules scope := fun _ hu => Option.some.inj hu ▸ h

theorem Ty.Fits.hint {rules : TyRules} {scope : GenericId → Prop} {t : Ty} (h : t.Fits rules scope) :
    ∀ u ∈ t.hint, u.Fits rules scope := by
  unfold Ty.hint
  split
  · exact nofun
  · exact h.forall_some

structure Argument.Present (src : Source) (a : Argument) : Prop where
  ty : a.ty.Present src
  formal : a.formal.Present src

structure Body.Present (src : Source) (body : Body) : Prop where
  host : ∀ d ∈ body.host, src.HasDecl d
  ret : body.ret.Present src

structure GenericSignature.Present (src : Source) (sig : GenericSignature) : Prop where
  params : ∀ g ∈ sig.params, src.HasGeneric g
  defaults : ∀ t, some t ∈ sig.defaults → t.Present src

theorem GenericSignature.mem_params_of_unresolved {env : TypeEnv}
    {site : CallSite} {g : GenericId} (h : g ∈ (sig.infer env written site).unresolved) : g ∈ sig.params := by
  obtain ⟨⟨arg, p⟩, hzip, hg⟩ := List.mem_filterMap.1 h
  dsimp only at hg
  split at hg
  · exact Option.some.inj hg ▸ (List.of_mem_zip hzip).2
  · exact nomatch hg

namespace Signatures

variable {src : Source} {sigs : Signatures}

theorem Present.defaultsOf (h : sigs.Present src) (decl : DeclId) :
    ∀ t, some t ∈ sigs.defaultsOf decl → t.Present src := by
  intro t ht
  obtain ⟨g, -, hget⟩ := List.mem_map.1 ht
  exact h.defaults.of_get? hget

theorem Present.callSignature (h : sigs.Present src) {decl : DeclId}
    (hsig : sigs.callSignature? decl = some sig) : sig.Present src := by
  obtain ⟨func, -, rfl⟩ := Option.map_eq_some_iff.1 hsig
  exact ⟨h.genericsOf decl, h.defaultsOf decl⟩

theorem Present.constructSignature (h : sigs.Present src) (decl : DeclId) (supplied : List Ty) :
    (sigs.constructSignature decl supplied).Present src :=
  ⟨h.genericsOf decl, h.defaultsOf decl⟩

end Signatures

theorem FunctionSig.present_explicitTypes {sig : FunctionSig}
    (h : ∀ p ∈ sig.params, p.ty.Present src) : ∀ t ∈ sig.explicitTypes, t.Present src := by
  intro t ht
  obtain ⟨p, hp, rfl⟩ := List.mem_map.1 ht
  exact h p (List.mem_of_mem_filter hp)

namespace Link

variable {α : Type} {env : LinkEnv} {P : α → Prop} {decl : DeclId}

theorem present_arguments {values : List Expr} {types formals : List Ty}
    (htypes : ∀ t ∈ types, t.Present src) (hformals : ∀ t ∈ formals, t.Present src) :
    ∀ a ∈ arguments values types formals, a.Present src := by
  intro a ha
  obtain ⟨⟨value, ty, formal⟩, hzip, rfl⟩ := List.mem_map.1 ha
  obtain ⟨hty, hformal⟩ := List.of_mem_zip (List.of_mem_zip hzip).2
  exact ⟨htypes ty hty, hformals formal hformal⟩

/-! ### Passing values on -/

theorem finds_placeOf (e : Expr) : Finds env (placeOf e) fun place => ∀ p ∈ place, env.source.HasDecl p.root := by
  refine finds_source.bind fun src hsrc => finds_get.bind fun s _ => .pure fun p hp => ?_
  exact Expr.hasDecl_place (hsrc ▸ hp)

theorem safe_consume (e : Expr) (ty : Ty) : Safe env (consume e ty) := by
  refine finds_signatures.bind fun sigs _ => ?_
  split
  · refine (finds_placeOf e).bind fun place _ => ?_
    split
    · exact .pure trivial
    · refine .seq (finds_modify_other fun _ => rfl) fun _ => ?_
      exact .seq (safe_note _) fun _ => .pure trivial
  · exact .pure trivial

theorem safe_reinit (p : Place) : Safe env (reinit p) :=
  .seq (finds_modify_other fun _ => rfl) fun _ => safe_note _

theorem safe_satisfies (expected actual : Ty) : Safe env (satisfies expected actual) :=
  finds_typeEnv.bind fun _ _ => .pure trivial

theorem safe_expectType {expected actual : Ty} (hexpected : expected.Present env.source)
    (hactual : actual.Present env.source) (span : Span) : Safe env (expectType expected actual span) := by
  refine .seq (safe_satisfies expected actual) fun fits => ?_
  split
  · exact .pure trivial
  · refine .seq (finds_showTy hexpected) fun _ => .seq (finds_showTy hactual) fun _ => ?_
    exact safe_report _ _

theorem safe_settleLiteral (e : Expr) (actual expected : Ty) : Safe env (settleLiteral e actual expected) := by
  unfold settleLiteral
  split
  · refine finds_typeEnv.bind fun te _ => ?_
    split
    · exact safe_recordType _ _
    · exact .pure trivial
  · exact .pure trivial

theorem safe_moveArg (a : Argument) (left : List Place) : Safe env (moveArg a left) := by
  unfold moveArg
  split
  · exact .pure trivial
  · refine .seq (safe_consume a.value a.ty) fun place => ?_
    cases place <;> exact .pure trivial

section Complete

variable (henv : env.Complete)
include henv

theorem safe_checkMoved (e : ExprId) {p : Place} (h : env.source.HasDecl p.root) (span : Span) :
    Safe env (checkMoved e p span) := by
  refine finds_get.bind fun s _ => ?_
  dsimp only
  refine .seq (safe_note _) fun _ => ?_
  split
  · exact .pure trivial
  · refine .seq ?_ fun _ => safe_report _ _
    exact .seq (safe_nameOf henv h) fun _ => .pure trivial

theorem safe_checkRead (e : ExprId) (access : Access) {place : Option Place}
    (h : ∀ p ∈ place, env.source.HasDecl p.root) (span : Span) : Safe env (checkRead e access place span) := by
  unfold checkRead
  split
  · rename_i p
    exact safe_checkMoved henv e (h p rfl) span
  · exact .pure trivial

theorem safe_bindArg {a : Argument} (ha : a.Present env.source) {place : Option Place}
    (hplace : ∀ p ∈ place, env.source.HasDecl p.root) (left : List Place) : Safe env (bindArg a place left) := by
  refine .seq (safe_expectType ha.formal ha.ty _) fun _ => .seq (safe_settleLiteral _ _ _) fun _ => ?_
  refine .seq ?_ fun _ => safe_moveArg a left
  unfold checkLeft
  split
  · rename_i p
    split
    · exact safe_checkMoved henv _ (hplace p rfl) _
    · exact .pure trivial
  · exact .pure trivial

theorem safe_bindArgs (hargs : ∀ a ∈ args, a.Present env.source) : Safe env (bindArgs args) := by
  refine finds_source.bind fun src hsrc => finds_get.bind fun s _ => ?_
  subst hsrc
  dsimp only
  refine .seq (safe_note _) fun _ => ?_
  refine .seq (Finds.foldlM (fun left a ha _ => safe_bindArg henv (hargs a ha) (fun p hp => ?_) left) trivial)
    fun _ => .pure trivial
  exact Expr.hasDecl_place (Option.filter_eq_some_iff.1 hp).1

omit henv in
theorem finds_withActive (decl : DeclId) (index : IterationId) {act : LinkM α} (h : Finds env act P) :
    Finds env (withActive decl index act) P := by
  intro s hs
  obtain ⟨hintact, hresult⟩ := h { s with program := (s.program.activate decl index).2 } (hs.of_eq rfl)
  exact ⟨hintact.of_eq rfl, hresult⟩

theorem safe_bindToInstance (decl : DeclId) (copy : Instance)
    (hargs : ∀ a ∈ args, a.Present env.source) : Safe env (bindToInstance decl copy args) := by
  cases copy with
  | iteration index => exact finds_withActive decl index (safe_bindArgs henv hargs)
  | plain | dependent _ | unresolved => exact safe_bindArgs henv hargs

/-! ### Calls -/

theorem finds_limitTypeArgs (h : env.source.HasDecl decl)
    (hwritten : ∀ t ∈ written, t.Present env.source) (taken : Nat) (span : Span) :
    Finds env (limitTypeArgs decl written taken span) fun out => ∀ t ∈ out, t.Present env.source := by
  have hkept : ∀ t ∈ written.take taken, t.Present env.source := fun t ht => hwritten t (List.mem_of_mem_take ht)
  unfold limitTypeArgs
  split
  · refine .seq (safe_nameOf henv h) fun _ => .seq (safe_report _ _) fun _ => ?_
    exact .pure hkept
  · exact .pure hkept

theorem safe_finishInference (h : env.source.HasDecl decl) {inferred : Inferred}
    (hunresolved : ∀ g ∈ inferred.unresolved, env.source.HasGeneric g)
    (hargs : ∀ t ∈ inferred.args, t.Present env.source) (span : Span) :
    Safe env (finishInference decl inferred span) := by
  refine .seq (safe_nameOf henv h) fun name => .seq (Finds.forM fun g hg => ?_) fun _ => ?_
  · exact (finds_genericOf (hunresolved g hg)).bind fun _ _ => safe_report _ _
  · exact safe_checkBounds decl hargs span

theorem finds_useInExpr (hbody : body.Present env.source) (id : ExprId) (span : Span)
    (h : env.source.HasDecl decl) (hsig : sig.Present env.source) (hwritten : ∀ t ∈ written, t.Present env.source)
    (hexpected : ∀ t ∈ expected, t.Present env.source) (hargs : ∀ a ∈ args, a.Present env.source) :
    Finds env (useInExpr body id span decl sig written expected args) fun out => ∀ t ∈ out, t.Present env.source := by
  unfold useInExpr
  dsimp only
  refine finds_typeEnv.bind fun te hte => ?_
  have hsite : ∀ t ∈ expected.bind Ty.hint, t.Present env.source := by
    intro t ht
    obtain ⟨u, hu, ht⟩ := Option.bind_eq_some_iff.1 ht
    exact (hexpected u hu).hint t ht
  have htypes : ∀ t ∈ args.map (·.ty), t.Present env.source :=
    List.forall_mem_map.2 fun a ha => (hargs a ha).ty
  have hinferred : ∀ t ∈ (sig.infer te written ⟨args.map (·.ty), expected.bind Ty.hint⟩).args,
      t.Present env.source :=
    GenericSignature.fits_infer_of_params trivial hsig.params hsig.defaults hte hwritten htypes hsite
  refine .seq (safe_finishInference henv h (fun g hg => hsig.params g
    (GenericSignature.mem_params_of_unresolved hg)) hinferred span) fun _ => ?_
  refine .seq (safe_useGeneric henv hbody.host _ _ span) fun copy => .seq (safe_recordUsage _ _ copy) fun _ => ?_
  refine .seq (safe_bindToInstance henv decl copy ?_) fun _ => .pure hinferred
  exact List.forall_mem_map.2 fun a ha => ⟨(hargs a ha).ty, (hargs a ha).formal.subst_of_fits hinferred _⟩

theorem finds_functionAt? {target : Option DeclId} (h : ∀ d ∈ target, env.source.HasDecl d) :
    Finds env (functionAt? target) fun found => ∀ d ∈ found, env.source.HasDecl d := by
  cases target with
  | none => exact .pure h
  | some decl =>
    refine (finds_declOf henv (h decl rfl)).bind fun _ _ => finds_get.bind fun s _ => .pure ?_
    split
    · exact h
    · simp

theorem finds_calledFunction (callee : Expr) :
    Finds env (calledFunction? callee) fun found => ∀ d ∈ found, env.source.HasDecl d := by
  rw [calledFunction?_eq]
  cases callee.path? with
  | none => exact .pure (by simp)
  | some path => exact (finds_resolve path).bind fun target => finds_functionAt? henv

/-- The arguments are linked to types that are present, whatever hints they are given. -/
def LinksArgs (env : LinkEnv) (linkArgs : List (Option Ty) → LinkM (List Ty)) : Prop :=
  ∀ hints : List (Option Ty), (∀ hint ∈ hints, ∀ t ∈ hint, t.Present env.source) →
    Finds env (linkArgs hints) fun types => ∀ t ∈ types, t.Present env.source

theorem finds_linkDirectCall (hbody : body.Present env.source)
    (hexpected : ∀ t ∈ expected, t.Present env.source) (id : ExprId) (span : Span) {func : DeclId}
    (h : env.source.HasDecl func) (htypeArgs : ∀ t ∈ typeArgs, t.Whole)
    (args : List Expr) (hargs : LinksArgs env linkArgs) :
    Finds env (linkDirectCall body expected id span func typeArgs args linkArgs) (Ty.Present env.source) := by
  unfold linkDirectCall
  refine finds_signatures.bind fun sigs hsigs => ?_
  split
  · exact .pure (.unknown trivial)
  · rename_i sig hsig
    obtain ⟨hparams, hret⟩ := hsigs.functions.of_get? hsig
    have hformals := FunctionSig.present_explicitTypes hparams
    dsimp only
    split
    · refine .seq (safe_nameOf henv h) fun _ => .seq (safe_report _ _) fun _ => ?_
      exact (hargs [] nofun).bind fun _ _ => .pure (.unknown trivial)
    · have hhints : ∀ hint ∈ sig.explicitTypes.map Ty.hint, ∀ t ∈ hint, t.Present env.source :=
        List.forall_mem_map.2 fun t ht => (hformals t ht).hint
      refine (hargs _ hhints).bind fun types htypes => ?_
      refine (finds_linkTypes henv hbody.host .use htypeArgs).bind fun written hwritten => ?_
      refine finds_signatures.bind fun sigs hsigs => ?_
      have hpassed : ∀ a ∈ arguments args types sig.explicitTypes, a.Present env.source :=
        present_arguments htypes hformals
      have hplain : Finds env (do
          recordUsage (.expr id) func .plain
          bindArgs (arguments args types sig.explicitTypes)
          return sig.ret) (Ty.Present env.source) :=
        .seq (safe_recordUsage _ _ _) fun _ => .seq (safe_bindArgs henv hpassed) fun _ => .pure hret
      split
      · split
        · exact hplain
        · exact .seq (safe_nameOf henv h) fun _ => .seq (safe_report _ _) fun _ => hplain
      · refine (finds_limitTypeArgs henv h hwritten _ span).bind fun written hwritten => ?_
        refine finds_signatures.bind fun sigs hsigs => ?_
        split
        · exact .pure (.unknown trivial)
        · rename_i generic hgeneric
          refine (finds_useInExpr henv hbody id span h (hsigs.callSignature hgeneric) hwritten hexpected hpassed).bind
            fun inferred hinferred => .pure ?_
          exact hret.subst_of_fits hinferred _

theorem finds_linkIndirectCall (span : Span) (args : List Expr) {linkCallee : LinkM Ty}
    (hcallee : Finds env linkCallee (Ty.Present env.source)) (hargs : LinksArgs env linkArgs) :
    Finds env (linkIndirectCall span args linkCallee linkArgs) (Ty.Present env.source) := by
  have hrest : Finds env (do let _ ← linkArgs []; return Ty.unknown) (Ty.Present env.source) :=
    (hargs [] nofun).bind fun _ _ => .pure (.unknown trivial)
  unfold linkIndirectCall
  refine hcallee.bind fun callee hcallee => finds_typeEnv.bind fun te hte => ?_
  have hexpanded := hcallee.expand hte
  split
  · rename_i formals ret hfunction
    rw [hfunction] at hexpanded
    obtain ⟨hformals, hret⟩ := hexpanded.of_function
    split
    · have hhints : ∀ hint ∈ formals.map Ty.hint, ∀ t ∈ hint, t.Present env.source :=
        List.forall_mem_map.2 fun t ht => (hformals t ht).hint
      refine (hargs _ hhints).bind fun types htypes => ?_
      exact .seq (safe_bindArgs henv (present_arguments htypes hformals)) fun _ => .pure hret
    · exact .seq (finds_showTy hcallee) fun _ => .seq (safe_report _ _) fun _ => hrest
  · exact hrest
  · exact .seq (finds_showTy hcallee) fun _ => .seq (safe_report _ _) fun _ => hrest

theorem finds_linkCall (hbody : body.Present env.source)
    (hexpected : ∀ t ∈ expected, t.Present env.source) (id : ExprId) (span : Span) (callee : Expr)
    (htypeArgs : ∀ t ∈ typeArgs, t.Whole) (args : List Expr) {linkCallee : LinkM Ty}
    (hcallee : Finds env linkCallee (Ty.Present env.source)) (hargs : LinksArgs env linkArgs) :
    Finds env (linkCall body expected id span callee typeArgs args linkCallee linkArgs) (Ty.Present env.source) := by
  refine (finds_calledFunction henv callee).bind fun found hfound => ?_
  cases found with
  | none => exact finds_linkIndirectCall henv span args hcallee hargs
  | some func =>
    refine .seq (safe_recordResolved callee.id (hfound func rfl)) fun _ => ?_
    exact finds_linkDirectCall henv hbody hexpected id span (hfound func rfl) htypeArgs args hargs

/-! ### Struct literals -/

/-- The plan knows of nothing that does not exist. -/
structure FieldPlan.Present (src : Source) (plan : FieldPlan) : Prop where
  formal : ∀ name t, plan.formal? name = some t → t.Present src
  hint : ∀ t : Ty, t.Present src → ∀ u ∈ plan.hint t, u.Present src

/-- The fields are linked to arguments that are present, whatever the plan. -/
def LinksFields (env : LinkEnv) (linkFields : FieldPlan → LinkM (List Argument)) : Prop :=
  ∀ plan : FieldPlan, plan.Present env.source →
    Finds env (linkFields plan) fun args => ∀ a ∈ args, a.Present env.source

omit henv in
theorem finds_linkNoStruct (span : Span) (p : Problem) {linkValues : LinkM Unit} (hvalues : Safe env linkValues) :
    Finds env (linkNoStruct span p linkValues) (Ty.Present env.source) :=
  .seq (safe_report span p) fun _ => .seq hvalues fun _ => .pure (.unknown trivial)

theorem finds_linkStructLiteral (hbody : body.Present env.source)
    (hexpected : ∀ t ∈ expected, t.Present env.source) (id : ExprId) (span : Span) {struct : DeclId}
    (h : env.source.HasDecl struct) (shown : String) {declared : List (String × Ty)}
    (hdeclared : ∀ f ∈ declared, f.2.Present env.source) (htypeArgs : ∀ t ∈ typeArgs, t.Whole) (supplied : List String)
    {linkFields : FieldPlan → LinkM (List Argument)} (hfields : LinksFields env linkFields) :
    Finds env (linkStructLiteral body expected id span struct shown declared typeArgs supplied linkFields)
      (Ty.Present env.source) := by
  unfold linkStructLiteral
  refine finds_signatures.bind fun sigs hsigs => ?_
  dsimp only
  refine (finds_linkTypes henv hbody.host .use htypeArgs).bind fun written hwritten => ?_
  refine (finds_limitTypeArgs henv h hwritten _ span).bind fun written hwritten => ?_
  refine (hfields _ ⟨fun name t ht => ?_, fun t ht u hu => ?_⟩).bind fun args hargs => ?_
  · obtain ⟨before, after, hmem, -⟩ := List.lookup_eq_some_iff.1 ht
    exact hdeclared (name, t) (by simp [hmem])
  · dsimp only at hu
    split at hu
    · exact (ht.subst_of_fits hwritten _).hint u hu
    · exact nomatch hu
  · refine .seq (Finds.forM fun f _ => ?_) fun _ => ?_
    · split
      · exact .pure trivial
      · exact safe_report _ _
    split
    · refine .seq (safe_recordUsage _ _ _) fun _ => .seq (safe_bindArgs henv hargs) fun _ => ?_
      exact .pure (.linked h nofun)
    · refine finds_signatures.bind fun sigs hsigs => ?_
      refine (finds_useInExpr henv hbody id span h (hsigs.constructSignature struct _) hwritten hexpected hargs).bind
        fun inferred hinferred => .pure (.linked h hinferred)

theorem finds_linkConstruct (hbody : body.Present env.source)
    (hexpected : ∀ t ∈ expected, t.Present env.source) (id : ExprId) (span : Span) {ty : TypeExpr} (hty : ty.Whole)
    (supplied : List String) {linkValues : LinkM Unit} (hvalues : Safe env linkValues)
    {linkFields : FieldPlan → LinkM (List Argument)} (hfields : LinksFields env linkFields) :
    Finds env (linkConstruct body expected id span ty supplied linkValues linkFields) (Ty.Present env.source) := by
  obtain ⟨hparts⟩ := hty
  unfold linkConstruct
  split
  · rename_i heq
    exact nomatch heq
  · rename_i path typeArgs heq
    obtain ⟨rfl, rfl, rfl⟩ := TypeExpr.node.inj heq
    refine (finds_resolve path).bind fun found hfound => ?_
    cases found with
    | none => exact finds_linkNoStruct span _ hvalues
    | some struct =>
      have hstruct := hfound struct rfl
      refine finds_signatures.bind fun sigs hsigs => ?_
      split
      · exact finds_linkNoStruct span _ hvalues
      · rename_i declared hdeclared
        refine .seq (safe_recordResolved id hstruct) fun _ => ?_
        exact finds_linkStructLiteral henv hbody hexpected id span hstruct _ (hsigs.fields.of_get? hdeclared) hparts
          supplied hfields
  · exact finds_linkNoStruct span _ hvalues

end Complete

end Link

end Linkage
