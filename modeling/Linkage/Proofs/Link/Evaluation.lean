import Linkage.Proofs.Link.Passing

/-!
# What linking notes about expressions

Expressions read places and move them out, and note nothing else. Calls and struct literals link their parts
before they pass them on, so that every part that may be moved has been read by then.
-/

namespace Linkage

namespace Link

variable {α β : Type} {env : LinkEnv} {s s₁ s' : LinkState} {body : Body} {access : Access} {id : ExprId}
  {span : Span}

/-! ### Calls and struct literals -/

section Parts

variable {expected : Option Ty} {args : List Expr} {linkArgs : List (Option Ty) → LinkM (List Ty)}

def ReadsArgs (env : LinkEnv) (args : List Expr) (linkArgs : List (Option Ty) → LinkM (List Ty)) : Prop :=
  ∀ hints s types s', Runs env (linkArgs hints) s types s' → ∀ formals, Ready s (arguments args types formals) s'

theorem ReadsArgs.tells (h : ReadsArgs env args linkArgs) (hints : List (Option Ty)) :
    Tells Event.inExpr env (linkArgs hints) :=
  fun s types s' hrun => (h hints s types s' hrun []).noting

theorem tells_linkDirectCall (func : DeclId) (typeArgs : List TypeExpr) (hargs : ReadsArgs env args linkArgs) :
    Tells Event.inExpr env (linkDirectCall body expected id span func typeArgs args linkArgs) := by
  refine .bind (.of_looks looks_signatures) fun sigs => ?_
  dsimp only
  split
  · exact .pure _
  · rename_i sig _
    split
    · refine .bind (.of_looks (looks_nameOf func)) fun _ => .bind (.of_silent (silent_report _ nofun)) fun _ => ?_
      exact .bind (hargs.tells []) fun _ => .pure _
    · refine tells_of_passing (fun s types s' hrun => hargs _ s types s' hrun sig.explicitTypes) fun types => ?_
      refine .silent_bind (typable_silent.linkTypes _ _) fun written => .looks_bind looks_signatures fun sigs => ?_
      split
      · split
        · exact passing_plain _ _
        · refine .looks_bind (looks_nameOf func) fun _ => ?_
          exact .silent_bind (silent_report _ nofun) fun _ => passing_plain _ _
      · refine .silent_bind (typable_silent.limitTypeArgs _ _ _ _) fun written => .looks_bind looks_signatures fun sigs => ?_
        split
        · exact .of_tells (.pure _)
        · exact .bind (passing_useInExpr _ _ _ _ _) fun _ => .pure _

theorem tells_linkIndirectCall {linkCallee : LinkM Ty} (hcallee : Tells Event.inExpr env linkCallee)
    (hargs : ReadsArgs env args linkArgs) :
    Tells Event.inExpr env (linkIndirectCall span args linkCallee linkArgs) := by
  refine .bind hcallee fun callee => .bind (.of_looks looks_typeEnv) fun tenv => ?_
  have hunknown : Tells Event.inExpr env (do
      let _ ← linkArgs []
      return Ty.unknown) := .bind (hargs.tells []) fun _ => .pure _
  dsimp only
  split
  · rename_i formals ret _
    split
    · refine tells_of_passing (fun s types s' hrun => hargs _ s types s' hrun formals) fun types => ?_
      exact .bind (passing_bindArgs _) fun _ => .pure _
    · refine .bind (.of_looks (looks_showTy _)) fun _ => ?_
      exact .bind (.of_silent (silent_report _ nofun)) fun _ => hunknown
  · exact hunknown
  · refine .bind (.of_looks (looks_showTy _)) fun _ => ?_
    exact .bind (.of_silent (silent_report _ nofun)) fun _ => hunknown

theorem tells_linkCall {callee : Expr} (typeArgs : List TypeExpr) {linkCallee : LinkM Ty}
    (hcallee : Tells Event.inExpr env linkCallee) (hargs : ReadsArgs env args linkArgs) :
    Tells Event.inExpr env (linkCall body expected id span callee typeArgs args linkCallee linkArgs) := by
  have hcalled : Tells Event.inExpr env (calledFunction? callee) := by
    intro s found s' h
    obtain ⟨rfl, -⟩ := callable_of_calledFunction? h
    exact Sequential.refl s
  refine .bind hcalled fun target => ?_
  split
  · exact tells_linkIndirectCall hcallee hargs
  · exact .bind (tells_recordResolved _ _) fun _ => tells_linkDirectCall _ typeArgs hargs

theorem tells_linkNoStruct {problem : Problem} (hkind : problem.kind ≠ .useAfterMove) {linkValues : LinkM Unit}
    (hvalues : Tells Event.inExpr env linkValues) : Tells Event.inExpr env (linkNoStruct span problem linkValues) :=
  .bind (.of_silent (silent_report _ hkind)) fun _ => .bind hvalues fun _ => .pure _

variable {linkFields : FieldPlan → LinkM (List Argument)}

def ReadsFields (env : LinkEnv) (linkFields : FieldPlan → LinkM (List Argument)) : Prop :=
  ∀ plan s args s', Runs env (linkFields plan) s args s' → Ready s args s'

theorem tells_linkStructLiteral (struct : DeclId) (shown : String) (declared : List (String × Ty))
    (typeArgs : List TypeExpr) (supplied : List String) (hfields : ReadsFields env linkFields) :
    Tells Event.inExpr env
      (linkStructLiteral body expected id span struct shown declared typeArgs supplied linkFields) := by
  refine .bind (.of_looks looks_signatures) fun sigs => .bind (.of_silent (typable_silent.linkTypes _ _)) fun written => ?_
  refine .bind (.of_silent (typable_silent.limitTypeArgs _ _ _ _)) fun written => ?_
  refine tells_of_passing (hfields _) fun args => .silent_bind (.forM fun field _ => ?_) fun _ => ?_
  · dsimp only
    split
    · exact .pure _
    · exact silent_report _ nofun
  · split
    · exact passing_plain _ _
    · refine .looks_bind looks_signatures fun sigs => ?_
      exact .bind (passing_useInExpr _ _ _ _ _) fun _ => .pure _

theorem tells_linkConstruct (ty : TypeExpr) (supplied : List String) {linkValues : LinkM Unit}
    (hvalues : Tells Event.inExpr env linkValues) (hfields : ReadsFields env linkFields) :
    Tells Event.inExpr env (linkConstruct body expected id span ty supplied linkValues linkFields) := by
  unfold linkConstruct
  split
  · exact .throw _
  · refine .bind (.of_looks (looks_resolve? _)) fun target => ?_
    split
    · exact tells_linkNoStruct (by nofun) hvalues
    · refine .bind (.of_looks looks_signatures) fun sigs => ?_
      split
      · exact tells_linkNoStruct (by nofun) hvalues
      · exact .bind (tells_recordResolved _ _) fun _ => tells_linkStructLiteral _ _ _ _ _ hfields
  · exact tells_linkNoStruct (by nofun) hvalues

end Parts

/-! ### Trees -/

theorem Ready.after {args : List Argument} (h : Ready s₁ args s') (hbefore : Noting Event.inExpr s s₁) :
    Ready s args s' := by
  obtain ⟨es, hnotes, hkind⟩ := hbefore
  obtain ⟨es', hnotes', hkind', hread⟩ := h
  refine ⟨es ++ es', hnotes.trans hnotes', List.forall_mem_append.2 ⟨hkind, hkind'⟩, fun a ha hplace hdata => ?_⟩
  obtain ⟨readAt, p, gone, hmem⟩ := hread a ha hplace hdata
  exact ⟨readAt, p, gone, List.mem_append_right _ hmem⟩

theorem Ready.cons {a : Argument} {args : List Argument} (hfirst : Evaluated env .read a.value a.ty s s₁)
    (hrest : Ready s₁ args s') : Ready s (a :: args) s' := by
  by_cases hplace : a.value.isPlace = true ∧ a.ty.isData = true
  · obtain ⟨p, -, hreads⟩ := hfirst.place hplace.1 hplace.2
    obtain ⟨es, readAt, gone, hnotes, hkind⟩ := hreads rfl
    obtain ⟨es', hnotes', hkind', hread'⟩ := hrest
    have hkinds : ∀ x ∈ es ++ [.read a.value.id readAt p gone], x.inExpr = true :=
      List.forall_mem_append.2 ⟨hkind, List.forall_mem_singleton.2 rfl⟩
    refine ⟨_, hnotes.trans hnotes', List.forall_mem_append.2 ⟨hkinds, hkind'⟩, fun b hb hplace hdata => ?_⟩
    rcases List.mem_cons.1 hb with rfl | hb
    · exact ⟨readAt, p, gone, by simp⟩
    · obtain ⟨readAt', p', gone', hmem⟩ := hread' b hb hplace hdata
      exact ⟨readAt', p', gone', List.mem_append_right _ hmem⟩
  · obtain ⟨es, hnotes, hkind, hread⟩ := hrest.after hfirst.noting
    refine ⟨es, hnotes, hkind, fun b hb hplace' hdata => ?_⟩
    rcases List.mem_cons.1 hb with rfl | hb
    · exact absurd ⟨hplace', hdata⟩ hplace
    · exact hread b hb hplace' hdata

theorem Ready.nil (h : Noting Event.inExpr s s') : Ready s [] s' := by
  obtain ⟨es, hnotes, hkind⟩ := h
  exact ⟨es, hnotes, hkind, nofun⟩

theorem tells_of_evaluated {e : Expr} {act : LinkM Ty}
    (h : ∀ {s ty s'}, Runs env act s ty s' → Evaluated env access e ty s s') : Tells Event.inExpr env act :=
  fun _ _ _ hrun => (h hrun).noting

mutual
theorem linkExpr_evaluated (body : Body) : ∀ (e : Expr) {hint : Option Ty} {access : Access} {s ty s'},
    Runs env (linkExpr body hint access e) s ty s' → Evaluated env access e ty s s'
  | .missing id, hint, access, s, ty, s', h => by
    rw [linkExpr] at h
    exact absurd h not_runs_throw
  | .node id span shape, hint, access, s, ty, s', h => by
    simp only [linkExpr, runs_bind, runs_pure] at h
    obtain ⟨t, s₁, hshape, _, s₂, hrecord, rfl, rfl⟩ := h
    exact (linkShape_evaluated body shape hshape).silent ((silent_recordLinked id t).of_runs hrecord)
theorem linkShape_evaluated (body : Body) : ∀ (shape : ExprShape Expr TypeExpr) {hint : Option Ty}
    {access : Access} {id : ExprId} {span : Span} {s ty s'},
    Runs env (linkShape body hint access id span shape) s ty s' → Evaluated env access (.node id span shape) ty s s'
  | .intLit _, hint, access, id, span, s, ty, s', h => by
    rw [linkShape] at h
    exact evaluated_of_tells (.pure _) rfl h
  | .floatLit _, hint, access, id, span, s, ty, s', h => by
    rw [linkShape] at h
    exact evaluated_of_tells (.pure _) rfl h
  | .strLit _, hint, access, id, span, s, ty, s', h => by
    rw [linkShape] at h
    exact evaluated_of_tells (.pure _) rfl h
  | .boolLit _, hint, access, id, span, s, ty, s', h => by
    rw [linkShape] at h
    exact evaluated_of_tells (.pure _) rfl h
  | .name name, hint, access, id, span, s, ty, s', h => by
    rw [linkShape] at h
    exact linkName_evaluated rfl (fun _ => rfl) h
  | .path path, hint, access, id, span, s, ty, s', h => by
    rw [linkShape] at h
    exact linkName_evaluated rfl (fun _ => rfl) h
  | .call callee typeArgs args, hint, access, id, span, s, ty, s', h => by
    rw [linkShape] at h
    have hcallee : Tells Event.inExpr env (linkExpr body none .read callee) :=
      tells_of_evaluated fun h => linkExpr_evaluated body callee h
    exact evaluated_of_tells (tells_linkCall typeArgs hcallee (linkArgs_reads body args)) rfl h
  | .construct struct fields, hint, access, id, span, s, ty, s', h => by
    rw [linkShape] at h
    exact evaluated_of_tells
      (tells_linkConstruct struct _ (tells_linkValues body fields) (linkFields_reads body fields)) rfl h
  | .member base field, hint, access, id, span, s, ty, s', h =>
    linkMember_evaluated (fun h => linkExpr_evaluated body base h) h
  | .addressOf place, hint, access, id, span, s, ty, s', h => by
    rw [linkShape] at h
    exact evaluated_of_tells
      (.bind (tells_of_evaluated fun h => linkExpr_evaluated body place h) fun _ => .pure _) rfl h
  | .unary .not operand, hint, access, id, span, s, ty, s', h => by
    rw [linkShape] at h
    exact evaluated_of_tells (.bind (tells_of_evaluated fun h => linkExpr_evaluated body operand h) fun _ =>
      .of_silent (typable_silent.checkNot _ _)) rfl h
  | .unary .neg operand, hint, access, id, span, s, ty, s', h => by
    rw [linkShape] at h
    exact evaluated_of_tells (.bind (tells_of_evaluated fun h => linkExpr_evaluated body operand h) fun _ =>
      .of_silent (typable_silent.checkNeg _ _)) rfl h
  | .binary op lhs rhs, hint, access, id, span, s, ty, s', h => by
    have hlhs : ∀ hint, Tells Event.inExpr env (linkExpr body hint .read lhs) :=
      fun hint => tells_of_evaluated fun h => linkExpr_evaluated body lhs h
    have hrhs : ∀ hint, Tells Event.inExpr env (linkExpr body hint .read rhs) :=
      fun hint => tells_of_evaluated fun h => linkExpr_evaluated body rhs h
    rw [linkShape] at h
    refine evaluated_of_tells ?_ rfl h
    split
    · refine .bind (hlhs _) fun _ => .bind (.of_silent (typable_silent.checkLogical _ _ _)) fun _ => ?_
      exact .bind (hrhs _) fun _ => .bind (.of_silent (typable_silent.checkLogical _ _ _)) fun _ => .pure _
    · exact .bind (hlhs _) fun _ => .bind (hrhs _) fun _ => .of_silent (typable_silent.checkBinary _ _ _ _ _ _)
theorem linkArgs_reads (body : Body) : ∀ (args : List Expr),
    ReadsArgs env args fun hints => linkArgs body hints args
  | [], hints, s, types, s', h, formals => by
    simp only [linkArgs, runs_pure] at h
    obtain ⟨rfl, rfl⟩ := h
    exact .nil (Sequential.refl s)
  | e :: es, hints, s, types, s', h, formals => by
    simp only [linkArgs, runs_bind, runs_pure] at h
    obtain ⟨ty, s₁, hfirst, types, s₂, hrest, rfl, rfl⟩ := h
    have hevaluated := linkExpr_evaluated body e hfirst
    have hready := linkArgs_reads body es hints.tail s₁ types s₂ hrest formals.tail
    cases formals with
    | nil => exact .nil (Sequential.trans hevaluated.noting hready.noting)
    | cons formal formals => exact .cons (a := ⟨e, ty, formal⟩) hevaluated hready
theorem tells_linkValues (body : Body) : ∀ fields : List (String × Expr),
    Tells Event.inExpr env (linkValues body fields)
  | [] => by
    rw [linkValues]
    exact .pure _
  | (_, value) :: fields => by
    rw [linkValues]
    exact .bind (tells_of_evaluated fun h => linkExpr_evaluated body value h) fun _ => tells_linkValues body fields
theorem linkFields_reads (body : Body) : ∀ (fields : List (String × Expr)),
    ReadsFields env fun plan => linkFields body plan fields
  | [], plan, s, args, s', h => by
    simp only [linkFields, runs_pure] at h
    obtain ⟨rfl, rfl⟩ := h
    exact .nil (Sequential.refl s)
  | (name, value) :: fields, plan, s, args, s', h => by
    simp only [linkFields] at h
    split at h
    · simp only [runs_bind] at h
      obtain ⟨_, s₁, hreport, ty, s₂, hfirst, hrest⟩ := h
      have hbefore : Noting Event.inExpr s s₂ := Sequential.trans
        ((silent_report _ (by nofun)).of_runs hreport).noting (linkExpr_evaluated body value hfirst).noting
      exact (linkFields_reads body fields plan s₂ args s' hrest).after hbefore
    · rename_i formal _
      simp only [runs_bind, runs_pure] at h
      obtain ⟨ty, s₁, hfirst, args, s₂, hrest, rfl, rfl⟩ := h
      exact .cons (a := ⟨value, ty, formal⟩) (linkExpr_evaluated body value hfirst)
        (linkFields_reads body fields plan s₁ args s₂ hrest)
end

end Link

end Linkage
