import Linkage.Proofs.Link.ExprLookups
import Linkage.Proofs.Link.Outcome
import Linkage.Proofs.Link.SignatureLookups

/-!
# Look-ups while bodies are linked

The body of a function is a whole tree, and linking it statement by statement keeps the state intact. Together with
what holds of declarations this says that a unit which passed validation, and in which no node leads back to itself,
is linked without a look at a node that does not exist or past the end of a list.
-/

namespace Linkage

namespace Link

variable {α : Type} {env : LinkEnv} {P : α → Prop}

/-! ### Locals and branches -/

theorem safe_openLocals : Safe env openLocals :=
  finds_modify fun _ hs => { hs with locals := List.forall_mem_cons.2 ⟨nofun, hs.locals⟩ }

theorem finds_closeLocals : Finds env closeLocals fun locals => ∀ d ∈ locals, env.source.HasDecl d := by
  refine finds_modifyGet fun s hs => ?_
  have hlocals := hs.locals
  refine ⟨?_, { hs with locals := fun l hl => hlocals l (List.mem_of_mem_tail hl) }⟩
  cases h : s.locals with
  | nil => exact nofun
  | cons l _ => exact hlocals l (h ▸ List.mem_cons_self)

theorem safe_addLocal {decl : DeclId} (h : env.source.HasDecl decl) : Safe env (addLocal decl) := by
  refine finds_modify fun s hs => { hs with locals := ?_ }
  have hlocals := hs.locals
  dsimp only
  split
  · exact nofun
  · rename_i innermost outer heq
    rw [heq] at hlocals
    obtain ⟨hinnermost, houter⟩ := List.forall_mem_cons.1 hlocals
    exact List.forall_mem_cons.2
      ⟨List.forall_mem_append.2 ⟨hinnermost, List.forall_mem_singleton.2 h⟩, houter⟩

theorem branching_safe : Branching fun _ act => Safe env act where
  pure _ := .pure trivial
  bind hx hf := .seq hx hf
  report := safe_report
  mark := safe_mark
  beginBranch := finds_get.bind fun _ _ => .pure trivial
  endArm _ := .seq (safe_mark _) fun _ => finds_modifyGet fun _ hs => ⟨trivial, hs.of_eq rfl⟩
  endBranch _ _ := .seq (safe_mark _) fun _ => finds_modify_other fun _ => rfl
  decided _ _ := finds_modify_other fun _ => rfl

section Complete

variable (henv : env.Complete)
include henv

theorem safe_scheduleDrop (block : BlockId) {held : DeclId} (h : env.source.HasDecl held) :
    Safe env (scheduleDrop block held) := by
  refine finds_get.bind fun s hs => ?_
  split
  · exact .pure trivial
  · split
    · rename_i struct args hstruct
      obtain ⟨ty, hty, hexpand⟩ := Option.map_eq_some_iff.1 hstruct
      have hpresent : (Ty.linked struct args).Present env.source :=
        hexpand ▸ (hs.signatures.declTypes.of_get? hty).expand hs.signatures.aliasesFit
      split
      · exact .pure trivial
      · exact finds_set (hs.of_eq rfl)
      · refine (finds_declOf henv hpresent.arity).bind fun owner _ => ?_
        split
        · exact .pure trivial
        · exact (finds_declOf henv h).bind fun d _ => safe_report _ _
    · exact .pure trivial

theorem safe_scheduleDrops (block : BlockId) {locals : List DeclId} (h : ∀ d ∈ locals, env.source.HasDecl d) :
    Safe env (scheduleDrops block locals) :=
  Finds.forM fun d hd => safe_scheduleDrop henv block (h d (List.mem_reverse.1 hd))

theorem safe_evaluate {e : Expr} (h : e.Whole) : Safe env (evaluate e) := by
  refine finds_read.bind fun r hr => finds_get.bind fun s _ => ?_
  subst hr
  obtain ⟨value, hvalue⟩ := henv.evaluate s.foldEnv e h
  rw [hvalue]
  exact .pure trivial

/-! ### Simple statements -/

variable {body : Body} (hbody : body.Present env.source)
include hbody

theorem finds_linkInit (name : String) (span : Span) {declared : Option Ty}
    (hdeclared : ∀ t ∈ declared, t.Present env.source) {init : Option Expr} (hinit : ∀ e ∈ init, e.Whole) :
    Finds env (linkInit body name span declared init) (Ty.Present env.source) := by
  cases declared with
  | none =>
    cases init with
    | none => exact .seq (safe_report _ _) fun _ => .pure (.unknown trivial)
    | some init =>
      refine ((links_linkExpr henv hbody (hinit init rfl)).none .read).bind fun actual hactual => ?_
      refine .seq (safe_recordType _ _) fun _ => .seq (safe_consume _ _) fun _ => ?_
      exact .pure hactual.concrete
  | some declared =>
    have hdeclared := hdeclared declared rfl
    cases init with
    | none => exact .pure hdeclared
    | some init =>
      refine (links_linkExpr henv hbody (hinit init rfl) _ .read hdeclared.hint).bind fun actual hactual => ?_
      refine .seq (safe_expectType hdeclared hactual _) fun _ => .seq (safe_settleLiteral _ _ _) fun _ => ?_
      exact .seq (safe_consume _ _) fun _ => .pure hdeclared

omit hbody in
theorem safe_linkConstant (decl : DeclId) {init : Option Expr} (hinit : ∀ e ∈ init, e.Whole) :
    Safe env (linkConstant decl init) := by
  cases init with
  | none => exact .pure trivial
  | some init =>
    refine .seq (safe_evaluate henv (hinit init rfl)) fun value => ?_
    cases value with
    | none => exact .pure trivial
    | some value => exact finds_modify_other fun _ => rfl

theorem safe_linkBinding (span : Span) {decl : DeclId} (h : env.source.HasDecl decl) {init : Option Expr}
    (hinit : ∀ e ∈ init, e.Whole) : Safe env (linkBinding body span decl init) := by
  refine (finds_declOf henv h).bind fun d hd => ?_
  have hkind := hd.2.kind
  split
  · rename_i v hv
    rw [hv] at hkind
    refine (Finds.option fun t ht => finds_linkTypeAt henv hbody.host .use (hkind t ht)).bind
      fun declared hdeclared => ?_
    refine (finds_linkInit henv hbody d.name span hdeclared hinit).bind fun ty hty => ?_
    have hbind : Safe env (do declareLocal d.name decl; addLocal decl; reinit { root := decl }) :=
      .seq (safe_declareLocal _ h) fun _ => .seq (safe_addLocal h) fun _ => safe_reinit _
    refine .seq (safe_recordDeclType decl hty) fun _ => ?_
    split
    · exact .seq (safe_linkConstant henv decl hinit) fun _ => hbind
    · exact hbind
  · exact .pure trivial

theorem safe_linkAssign {target value : Expr} (htarget : target.Whole) (hvalue : value.Whole) :
    Safe env (linkAssign body target value) := by
  refine ((links_linkExpr henv hbody htarget).none .place).bind fun targetTy htargetTy => ?_
  refine (links_linkExpr henv hbody hvalue _ .read htargetTy.hint).bind fun valueTy hvalueTy => ?_
  refine .seq (safe_expectType htargetTy hvalueTy _) fun _ => .seq (safe_settleLiteral _ _ _) fun _ => ?_
  refine .seq (safe_consume _ _) fun _ => (finds_placeOf target).bind fun place _ => ?_
  cases place with
  | none => exact .pure trivial
  | some p => exact safe_reinit p

theorem safe_linkReturn (span : Span) {value : Option Expr} (hvalue : ∀ e ∈ value, e.Whole) :
    Safe env (linkReturn body span value) := by
  cases value with
  | none =>
    refine .seq (safe_satisfies _ _) fun fits => ?_
    split
    · exact safe_note _
    · exact .seq (finds_showTy hbody.ret) fun _ => .seq (safe_report _ _) fun _ => safe_note _
  | some value =>
    refine (links_linkExpr henv hbody (hvalue value rfl) _ .read hbody.ret.hint).bind fun ty hty => ?_
    have hrest : Safe env (do
        settleLiteral value ty body.ret
        let _ ← consume value ty
        note .returned) :=
      .seq (safe_settleLiteral _ _ _) fun _ => .seq (safe_consume _ _) fun _ => safe_note _
    refine .seq (safe_satisfies _ _) fun fits => ?_
    split
    · exact hrest
    · refine .seq (finds_showTy hbody.ret) fun _ => .seq (finds_showTy hty) fun _ => ?_
      exact .seq (safe_report _ _) fun _ => hrest

theorem safe_linkCond {cond : Expr} (hcond : cond.Whole) : Safe env (linkCond body cond) := by
  have hbool : ∀ t ∈ some Ty.bool, t.Present env.source := (Ty.Fits.prim _).forall_some
  refine (links_linkExpr henv hbody hcond _ .read hbool).bind fun ty hty => .seq (safe_satisfies _ _) fun fits => ?_
  split
  · exact .pure trivial
  · exact .seq (finds_showTy hty) fun _ => safe_report _ _

theorem safe_linkCaseValue {scrutinee : Ty} (hscrutinee : scrutinee.Present env.source) {value : Expr}
    (hvalue : value.Whole) : Safe env (linkCaseValue body scrutinee value) := by
  refine (links_linkExpr henv hbody hvalue _ .read hscrutinee.hint).bind fun ty hty => ?_
  refine .seq (safe_satisfies _ _) fun fits => ?_
  split
  · exact safe_settleLiteral _ _ _
  · refine .seq (finds_showTy hty) fun _ => .seq (finds_showTy hscrutinee) fun _ => ?_
    exact .seq (safe_report _ _) fun _ => safe_settleLiteral _ _ _

theorem safe_linkCaseValues {scrutinee : Ty} (hscrutinee : scrutinee.Present env.source) (hasDefault : Bool)
    {cases : List (SwitchCase Expr Block)} (hcases : ∀ c ∈ cases, ∀ e ∈ c.values, e.Whole) :
    Safe env (linkCaseValues body scrutinee hasDefault cases) := by
  induction cases generalizing hasDefault with
  | nil => exact .pure trivial
  | cons c cases ih =>
    obtain ⟨hc, hcases⟩ := List.forall_mem_cons.1 hcases
    unfold linkCaseValues
    split
    · exact .seq (safe_report _ _) fun _ => ih _ hcases
    · refine .seq (Finds.forM fun e he => safe_linkCaseValue henv hbody hscrutinee (hc e he)) fun _ => ?_
      exact ih _ hcases

/-! ### Statements and blocks -/

theorem safe_linkStmtShape (id : StmtId) (span : Span) {shape : StmtShape Expr Block}
    (hexprs : ∀ e ∈ shape.exprs, e.Whole) (hblocks : ∀ b ∈ shape.blocks, Safe env (linkBlock body b))
    (hintroduced : ∀ d ∈ shape.introduced, env.source.HasDecl d) : Safe env (linkStmtShape body id span shape) := by
  refine branching_safe.linkStmtShape (fun hsimple => ?_) (fun e he => safe_linkCond henv hbody (hexprs e he))
    (fun e he => safe_evaluate henv (hexprs e he)) (fun scrutinee cases hshape => ?_) hblocks
  · cases shape with
    | binding decl init =>
      rw [linkStmtShape]
      exact safe_linkBinding henv hbody span (hintroduced decl rfl) fun e he => hexprs e (Option.mem_toList.2 he)
    | assign target value =>
      rw [linkStmtShape]
      exact safe_linkAssign henv hbody (hexprs target List.mem_cons_self)
        (hexprs value (List.mem_cons_of_mem _ List.mem_cons_self))
    | expr e =>
      rw [linkStmtShape]
      refine ((links_linkExpr henv hbody (hexprs e List.mem_cons_self)).none .read).bind fun ty _ => ?_
      exact .seq (safe_consume e ty) fun _ => .pure trivial
    | ret value =>
      rw [linkStmtShape]
      exact safe_linkReturn henv hbody span fun e he => hexprs e (Option.mem_toList.2 he)
    | _ => simp [StmtShape.isSimple] at hsimple
  · subst hshape
    obtain ⟨hscrutinee, hvalues⟩ := List.forall_mem_cons.1 hexprs
    refine ((links_linkExpr henv hbody hscrutinee).none .read).bind fun ty hty => ?_
    exact safe_linkCaseValues henv hbody hty.concrete false fun c hc e he =>
      hvalues e (List.mem_flatMap_of_mem hc he)

end Complete

mutual
theorem safe_linkStmt (henv : env.Complete) {body : Body} (hbody : body.Present env.source) :
    ∀ {stmt : Stmt}, stmt.Whole env.source → Safe env (linkStmt body stmt)
  | _, .node hexprs hblocks hintroduced => by
    rw [linkStmt]
    exact safe_linkStmtShape henv hbody _ _ hexprs (fun b hb => safe_linkBlock henv hbody (hblocks b hb)) hintroduced
theorem safe_linkBlock (henv : env.Complete) {body : Body} (hbody : body.Present env.source) :
    ∀ {block : Block}, block.Whole env.source → Safe env (linkBlock body block)
  | _, .node hstmts => by
    rw [linkBlock]
    refine finds_withFrame Table.within_empty (.seq safe_openLocals fun _ => ?_)
    refine .seq (branching_safe.linkStmts fun s hs => safe_linkStmt henv hbody (hstmts s hs)) fun _ => ?_
    exact finds_closeLocals.bind fun locals hlocals => safe_scheduleDrops henv _ hlocals
end

/-! ### Functions -/

theorem finds_inBody {params : List DeclId} (h : ∀ d ∈ params, env.source.HasDecl d) {act : LinkM α}
    (hact : Finds env act P) : Finds env (inBody params act) P := by
  intro s hs
  have hstart : { s with moves := { policy := env.options.branchMoves }, locals := [params] }.Intact env.source :=
    { hs with locals := List.forall_mem_singleton.2 h }
  obtain ⟨hintact, hresult⟩ := hact _ hstart
  exact ⟨{ hintact with locals := hs.locals }, hresult⟩

theorem safe_linkFunction (henv : env.Complete) {func : DeclId} (h : env.source.HasDecl func)
    {params : List DeclId} (hparams : ∀ d ∈ params, env.source.HasDecl d) {block : BlockId}
    (hblock : env.source.HasBlock block) : Safe env (linkFunction func params block) := by
  refine (finds_genericHost henv h).bind fun host hhost => (finds_genericFrame henv h).bind fun generics hgenerics => ?_
  have hname : ∀ param ∈ params, Finds env (do return (← nameOf param, param))
      fun named : String × DeclId => env.source.HasDecl named.2 :=
    fun param hparam => .seq (safe_nameOf henv (hparams param hparam)) fun _ => .pure (hparams param hparam)
  refine (Finds.mapM hname).bind fun names hnames => ?_
  have hvisible : (names.foldl (fun (frame : Frame) named => frame.insert named.1 named.2) {}).Within
      env.source.HasDecl := Table.within_empty.foldl_insert hnames
  dsimp only
  refine finds_signatures.bind fun sigs hsigs => ?_
  have hret : Ty.Present env.source (((sigs.functions.get? func).map (·.ret)).getD .void) := by
    cases hget : sigs.functions.get? func with
    | none => exact .prim _
    | some sig => exact (hsigs.functions.of_get? hget).2
  refine finds_withFrame hgenerics (finds_withFrame hvisible (finds_inBody hparams (finds_read.bind fun r hr => ?_)))
  subst r
  refine .seq (safe_linkBlock henv ⟨hhost, hret⟩ (henv.blocks block hblock)) fun _ => ?_
  exact safe_scheduleDrops henv block hparams

theorem safe_linkBodies (henv : env.Complete) : Safe env linkBodies := by
  refine finds_get.bind fun s hs => Finds.forM fun func hfunc => ?_
  obtain ⟨d, f, block, hd, hkind, hblock⟩ := hs.bodies func hfunc
  have hdecl : env.source.HasDecl func := Source.hasDecl_of_eq_some hd
  refine (finds_declOf henv hdecl).bind fun d' hd' => ?_
  obtain rfl := Option.some.inj (hd.symm.trans hd'.1)
  have hclosed := hd'.2.kind
  obtain ⟨generics, params, ret, body⟩ := f
  obtain rfl : body = some block := hblock
  rw [hkind] at hclosed ⊢
  obtain ⟨hparams, -, hbody⟩ := hclosed
  refine finds_inNamespaces henv hdecl (safe_linkFunction henv hdecl (fun p hp => ?_) (hbody block rfl))
  obtain ⟨pd, hpd, -⟩ := hparams p hp
  exact Source.hasDecl_of_eq_some hpd

end Link

theorem Setup.complete_linkEnv {setup : Setup} (hvalid : setup.source.validate = .ok ())
    (hacyclic : setup.source.Acyclic) (hfolding : setup.evaluate = Evaluator.folding) : setup.linkEnv.Complete where
  closed := Source.closed_of_validate hvalid
  types _ h := Source.whole_typeExpr (Source.closed_of_validate hvalid) hacyclic h
  blocks _ h := Source.whole_block (Source.closed_of_validate hvalid) hacyclic h
  evaluate known e h := by
    show ∃ value, setup.evaluate known e = .ok value
    rw [hfolding]
    exact h.exists_fold known

/-- Linking a unit that passed validation, in which no node leads back to itself, does not look at a node that is
not there or past the end of a list, nor does showing a type in a report: a parameter among the items can stop it,
and nothing else. What names were resolved to is there too, and that is all one looks at to tell which place an
expression names. -/
theorem Setup.looks_within_of_valid (setup : Setup) (hvalid : setup.source.validate = .ok ())
    (hacyclic : setup.source.Acyclic) (hfolding : setup.evaluate = Evaluator.folding) :
    ∃ result s, (do Link.declareAll; Link.linkBodies : LinkM Unit) setup.linkEnv {} = (result, s) ∧
      (∀ entry ∈ s.program.resolved.entries, setup.source.HasDecl entry.2) ∧
      (result = .ok () ∨ ∃ decl, result = .error (.notItem decl) ∧ Link.Misplaced setup.source decl) := by
  have henv := Setup.complete_linkEnv hvalid hacyclic hfolding
  have hsafe : Link.Safe setup.linkEnv (do Link.declareAll; Link.linkBodies) :=
    .seq (Link.safe_declareAll henv) fun _ => Link.safe_linkBodies henv
  obtain ⟨hintact, hresult⟩ := hsafe {} LinkState.intact_empty
  refine ⟨_, _, rfl, hintact.resolved, ?_⟩
  split at hresult
  · rename_i hok
    exact .inl hok
  · rename_i hfault
    obtain ⟨decl, rfl, hmisplaced⟩ := hresult
    exact .inr ⟨decl, hfault, hmisplaced⟩

/-- `struct Box<T: Show = int>`, whose default does not satisfy the bound, with `alias Crate = Box` in a namespace,
and a function with a parameter `b: N.Crate` that binds `let x: str = b.value` inside a static `if`. -/
def crateUse : Source := .ofSteps [
  .interface "Show",
  .struct "Box" .copy,
  .typeExpr (.named ["Show"] []),
  .typeExpr (.named ["int"] []),
  .generic ⟨1⟩ "T" (some ⟨0⟩) (some ⟨1⟩),
  .typeExpr (.named ["T"] []),
  .field ⟨1⟩ "value" ⟨2⟩,
  .space "N",
  .typeExpr (.named ["Box"] []),
  .typeAlias "Crate" ⟨3⟩,
  .nest ⟨3⟩ ⟨4⟩,
  .function "f",
  .typeExpr (.named ["N", "Crate"] []),
  .param ⟨5⟩ "b" ⟨4⟩ false,
  .expr (.name "b"),
  .expr (.member ⟨0⟩ "value"),
  .typeExpr (.named ["str"] []),
  .binding "x" (some ⟨5⟩) (some ⟨1⟩) false false,
  .block [⟨0⟩],
  .expr (.boolLit true),
  .staticIf ⟨2⟩ ⟨0⟩ none,
  .block [⟨1⟩],
  .body ⟨5⟩ ⟨1⟩]

/-- Two reports show types, and the run looks at nothing that does not exist. -/
theorem looks_within_crateUse : crateUse.validate = .ok () ∧ crateUse.Acyclic ∧
    ∃ s, (do Link.declareAll; Link.linkBodies : LinkM Unit) (Setup.linkEnv { source := crateUse }) {} = (.ok (), s) ∧
      s.reports.length = 2 ∧ s.program.resolved.entries.length = 1 ∧
        ∀ entry ∈ s.program.resolved.entries, crateUse.HasDecl entry.2 := by
  have hvalid : crateUse.validate = .ok () := by decide +kernel
  have hacyclic : crateUse.Acyclic :=
    Source.acyclic_of_inOrder (by decide +kernel) (by decide +kernel) (by decide +kernel)
  obtain ⟨s, hrun, hreports, hresolved⟩ :
      ∃ s, Link.Runs (Setup.linkEnv { source := crateUse }) (do Link.declareAll; Link.linkBodies) {} () s ∧
        s.reports.length = 2 ∧ s.program.resolved.entries.length = 1 := Link.exists_of_run (by decide +kernel)
  obtain ⟨result, s', hrun', hwithin, -⟩ :=
    Setup.looks_within_of_valid { source := crateUse } hvalid hacyclic rfl
  obtain ⟨-, rfl⟩ := Prod.mk.inj (hrun.symm.trans hrun')
  exact ⟨hvalid, hacyclic, s, hrun, hreports, hresolved, hwithin⟩

end Linkage
