import Linkage.Proofs.Link.Branching
import Linkage.Proofs.Link.Exprs

/-!
# Function bodies

What a statement keeps is said with a precondition and a condition on the result, neither of which depends on the
state, so that the rule for a sequence is the rule for composition.
-/

namespace Linkage

variable {d : Decl} {decl : DeclId} {init : Option Expr} {u : Unit}

namespace Link

variable {α β : Type} {env : LinkEnv} {r : Regime} {cur : DeclId} {busy : List ExprId} {s s' : LinkState}
  {P : Prop} {Q : α → Prop} {body : Body} {span : Span}

/-! ### Actions without lasting effects -/

theorem yields_scheduleDrops (block : BlockId) (locals : List DeclId) :
    Yields r env cur busy P (scheduleDrops block locals) fun _ => P :=
  .minor (trackable_minor.scheduleDrops (fun _ _ => minor_of_eq rfl rfl rfl rfl) locals)

theorem minor_openLocals : FramedIn env Minor openLocals := .modify fun _ => minor_of_eq rfl rfl rfl rfl

theorem minor_closeLocals : FramedIn env Minor closeLocals := .modifyGet fun _ => minor_of_eq rfl rfl rfl rfl

theorem minor_addLocal (decl : DeclId) : FramedIn env Minor (addLocal decl) :=
  .modify fun _ => minor_of_eq rfl rfl rfl rfl

/-! ### Values -/

theorem yields_settleLiteral (e : Expr) (actual expected : Ty) :
    Yields r env cur busy (P ∧ Typed r env.source cur e.id actual) (settleLiteral e actual expected)
      fun _ => P ∧ Typed r env.source cur e.id actual :=
  fun _ _ _ h => (settleLiteral_keeps h).carry.imp (fun hP => hP) fun _ ⟨hP, _⟩ => hP

/-- A local without an annotation has the type of its initial value, which is recorded once more. A struct
literal has no other type than the one it was linked with. -/
theorem recordConcrete_keeps {e : ExprId} {actual : Ty} (h : Runs env (recordType e actual.concrete) s u s') :
    Keeps r env.source cur busy s (Linked r env.source cur e actual s) s'
      (r.Fits env.source cur actual.concrete) := by
  obtain rfl := runs_modify.1 h
  refine ⟨LinkState.later_of_eq rfl, fun ⟨htyped, hrecorded⟩ hat _ => ?_⟩
  refine ⟨⟨hat.facts.recordType htyped.fits.concrete.obeys fun hconstruct => .inr ?_, ?_, hat.loud⟩, ?_⟩
  · have hconcrete : actual.concrete = actual := by
      cases actual with
      | literal kind => exact absurd hconstruct (htyped.literal rfl)
      | _ => rfl
    rw [hconcrete]
    exact hrecorded
  · exact ⟨hat.sees.spaces, hat.sees.frames⟩
  · exact htyped.fits.concrete

/-! ### Locals -/

theorem declareLocal_keeps {name : String} (h : Runs env (declareLocal name decl) s u s') :
    Keeps r env.source cur busy s (P ∧ Visible r env.source cur s.signatures decl) s' P := by
  obtain rfl := runs_modify.1 h
  obtain ⟨frame, outer, hframes, hdeclare⟩ : ∃ frame outer, s.scopes.frames = frame :: outer ∧
    (s.scopes.declare name decl).frames = frame.insert name decl :: outer := frames_declare
  refine ⟨?_, fun ⟨hP, hvisible⟩ hat _ => ⟨⟨hat.facts, ⟨hat.sees.spaces, ?_⟩, hat.loud⟩, hP⟩⟩
  · refine { LinkState.Later.refl s with outer := ?_ }
    show (s.scopes.declare name decl).frames.tail = s.scopes.frames.tail
    rw [hframes, hdeclare]
    rfl
  · intro f hf key d hd
    change f ∈ (s.scopes.declare name decl).frames at hf
    rw [hdeclare] at hf
    rcases List.mem_cons.1 hf with rfl | hf
    · rw [Table.get?_insert] at hd
      split at hd
      · exact Option.some.inj hd ▸ hvisible
      · exact hat.sees.frames frame (hframes ▸ List.mem_cons_self) key d hd
    · exact hat.sees.frames f (hframes ▸ List.mem_cons_of_mem _ hf) key d hd

/-- A binding gets a type that fits. It may be a parameter only of the function that is linked. -/
theorem recordDeclType_keeps (hd : env.source.decl? decl = some d) (hkind : d.kind.isValueBinding = true)
    (hparam : ∀ f fd, env.source.decl? f = some fd → decl ∈ fd.kind.params → f = cur) {ty : Ty}
    (h : Runs env (recordDeclType decl ty) s u s') :
    Keeps r env.source cur busy s (r.Fits env.source cur ty) s'
      (Visible r env.source cur s'.signatures decl) := by
  obtain rfl := runs_modify.1 h
  refine ⟨LinkState.later_of_eq rfl, fun hfits hat _ => ⟨⟨?_, ?_, hat.loud⟩, ?_⟩⟩
  · refine hat.facts.recordDeclType hfits.obeys fun f fd hfd hmem => ?_
    rw [hparam f fd hfd hmem]
    exact hfits
  · refine ⟨hat.sees.spaces, fun frame hframe name d' hd' => ?_⟩
    cases hat.sees.frames frame hframe name d' hd' with
    | reachable h => exact .reachable h
    | generic hdecl hkind hg => exact .generic hdecl hkind hg
    | value hdecl hkind ht hfits' =>
      by_cases heq : decl = d'
      · subst heq
        exact .value hdecl hkind (Table.get?_insert_self _ _ _) hfits
      · refine .value hdecl hkind ?_ hfits'
        exact (Table.get?_insert_of_ne _ _ heq).trans ht
  · exact .value hd hkind (Table.get?_insert_self _ _ _) hfits

theorem yields_bindLocal (hbuilt : env.source.WellBuilt) {v : VariableDecl}
    (hd : env.source.decl? decl = some d) (hkind : d.kind = .var v) {ty : Ty} :
    Yields r env cur busy (P ∧ r.Fits env.source cur ty) (do
      recordDeclType decl ty
      if v.comptime then linkConstant decl init
      declareLocal d.name decl
      addLocal decl
      reinit { root := decl }) fun _ => P := by
  have hvar : d.kind.isValueBinding = true := by rw [hkind]; rfl
  have hparam : ∀ f fd, env.source.decl? f = some fd → decl ∈ fd.kind.params → f = cur := by
    intro f fd hfd hmem
    obtain ⟨pd, hpd, hparameter⟩ := hbuilt.param f fd hfd decl hmem
    obtain rfl := Option.some.inj (hd.symm.trans hpd)
    simp [hkind, DeclKind.isParameter] at hparameter
  intro s u s' h
  obtain ⟨_, s₁, hrecord, h⟩ := runs_bind.1 h
  have hlocal : ∀ {s₂ : LinkState}, s₂.signatures = s₁.signatures → Runs env (do
        declareLocal d.name decl
        addLocal decl
        reinit { root := decl }) s₂ u s' →
      Keeps r env.source cur busy s₂ (P ∧ Visible r env.source cur s₁.signatures decl) s' P := by
    intro s₂ hsigs h
    simp only [runs_bind] at h
    obtain ⟨_, s₃, hdeclare, _, s₄, hadd, hreinit⟩ := h
    have hminor := (minor_addLocal decl).of_runs hadd
    rw [← hsigs]
    exact (declareLocal_keeps hdeclare).trans
      (hminor.keeps.trans ((trackable_minor.reinit _).of_runs hreinit).keeps)
  have krecord : Keeps r env.source cur busy s (P ∧ r.Fits env.source cur ty) s₁ _ :=
    (recordDeclType_keeps hd hvar hparam hrecord).imp And.right fun hpost hvisible => And.intro hpost.1 hvisible
  refine krecord.trans ?_
  dsimp only at h
  split at h
  · rw [runs_bind] at h
    obtain ⟨_, s₂, hconstant, h⟩ := h
    have hminor := (framed_linkConstant (fun _ _ => minor_of_eq rfl rfl rfl rfl) decl init).of_runs hconstant
    exact hminor.keeps.trans (hlocal (congrArg Known.signatures hminor.known) h)
  · exact hlocal rfl h

section Values

variable (hwhole : r.whole) (hbuilt : env.source.WellBuilt) (hhost : Hosts env.source cur body.host)
include hwhole hbuilt hhost

theorem yields_linkExpr {e : Expr} (he : e.Unfolds env.source) {hint : Option Ty} {access : Access}
    (hhint : P → r.HintFits env.source cur hint) :
    Yields r env cur busy P (linkExpr body hint access e) fun ty => P ∧ Typed r env.source cur e.id ty :=
  fun _ _ _ h => (linkExpr_keeps hwhole hbuilt hhost e he h).imp hhint fun hP hlinked => ⟨hP, hlinked.typed⟩

theorem yields_linkInit (name : String) {declared : Option Ty} (hinit : ∀ e ∈ init, e.Unfolds env.source) :
    Yields r env cur busy (∀ t ∈ declared, r.Fits env.source cur t)
      (linkInit body name span declared init) (r.Fits env.source cur) := by
  cases declared with
  | none =>
    cases init with
    | none => exact fun _ _ _ h => reportUnknown_keeps h
    | some e =>
      intro s ty s' h
      simp only [linkInit, runs_bind, runs_pure] at h
      obtain ⟨actual, s₁, hlink, _, s₂, hrecord, _, s₃, hconsume, rfl, rfl⟩ := h
      have hminor := (trackable_minor.consume e actual).of_runs hconsume
      refine Keeps.trans ?_ ((recordConcrete_keeps hrecord).trans hminor.keeps)
      exact (linkExpr_keeps hwhole hbuilt hhost e (hinit e rfl) hlink).imp (fun _ => hintFits_none)
        fun _ hlinked => hlinked
  | some declared =>
    cases init with
    | none => exact .pure fun h => h declared rfl
    | some e =>
      refine .bind (yields_linkExpr hwhole hbuilt hhost (hinit e rfl) fun h => ?_) fun actual => ?_
      · exact hintFits_of_fits (h declared rfl)
      · refine .bind (.minor (trackable_minor.expectType _ _ _)) fun _ => ?_
        refine .bind (yields_settleLiteral _ _ _) fun _ => .bind (.minor (trackable_minor.consume _ _)) fun _ => ?_
        exact .pure fun hpost => hpost.1 declared rfl

theorem yields_linkBinding (decl : DeclId) (hinit : ∀ e ∈ init, e.Unfolds env.source) :
    Yields r env cur busy P (linkBinding body span decl init) fun _ => P := by
  intro s u s' h
  simp only [linkBinding, runs_bind, runs_declOf] at h
  obtain ⟨d, _, ⟨hd, rfl⟩, h⟩ := h
  split at h
  · rename_i v hkind
    rw [runs_bind] at h
    obtain ⟨declared, s₁, hdeclared, h⟩ := h
    rw [runs_bind] at h
    obtain ⟨ty, s₂, hlink, h⟩ := h
    have kdeclared : Keeps r env.source cur busy s P s₁ (P ∧ ∀ t ∈ declared, r.Fits env.source cur t) := by
      cases hty : v.ty with
      | none =>
        rw [hty] at hdeclared
        obtain ⟨rfl, rfl⟩ := runs_pure.1 hdeclared
        exact .refl fun hP _ => ⟨hP, by simp⟩
      | some id =>
        rw [hty] at hdeclared
        obtain ⟨t, s₃, ht, hsome⟩ := runs_bind.1 hdeclared
        obtain ⟨rfl, rfl⟩ := runs_pure.1 hsome
        refine (linkTypeAt_keeps hhost ht).imp (fun _ => trivial) fun hP hfits => ⟨hP, ?_⟩
        rintro _ ⟨⟩
        exact hfits
    have klink : Keeps r env.source cur busy s₁ (P ∧ ∀ t ∈ declared, r.Fits env.source cur t) s₂
        (P ∧ r.Fits env.source cur ty) :=
      (yields_linkInit hwhole hbuilt hhost d.name hinit s₁ ty s₂ hlink).imp And.right
        fun hpost hfits => ⟨hpost.1, hfits⟩
    exact kdeclared.trans (klink.trans (yields_bindLocal hbuilt hd hkind s₂ u s' h))
  · obtain ⟨-, rfl⟩ := runs_pure.1 h
    exact .refl fun hP _ => hP

theorem yields_linkAssign {target value : Expr} (htarget : target.Unfolds env.source)
    (hvalue : value.Unfolds env.source) :
    Yields r env cur busy P (linkAssign body target value) fun _ => P := by
  refine .bind (yields_linkExpr hwhole hbuilt hhost htarget fun _ => hintFits_none) fun targetTy => ?_
  refine .bind (yields_linkExpr hwhole hbuilt hhost hvalue fun h => hintFits_of_fits h.2.fits) fun ty => ?_
  refine .bind (.minor (trackable_minor.expectType _ _ _)) fun _ => .bind (yields_settleLiteral _ _ _) fun _ => ?_
  refine .bind (.minor (trackable_minor.consume _ _)) fun _ => .bind (.looks (looks_placeOf target)) fun place => ?_
  have hleft : ∀ {Q R : Prop}, (P ∧ Q) ∧ R → P := fun h => h.1.1
  split
  · exact (Yields.minor (trackable_minor.reinit _)).imp (fun h => h) fun _ _ => hleft
  · exact .pure hleft

theorem yields_linkReturn (hret : P → r.Fits env.source cur body.ret) {value : Option Expr}
    (hvalue : ∀ e ∈ value, e.Unfolds env.source) :
    Yields r env cur busy P (linkReturn body span value) fun _ => P := by
  cases value with
  | none =>
    refine .bind (.looks (looks_satisfies _ _)) fun fits => ?_
    dsimp only
    split
    · exact .minor (trackable_minor.note _)
    · refine .bind (.looks (looks_showTy _)) fun _ => .bind (.minor (trackable_minor.report _ _)) fun _ => ?_
      exact .minor (trackable_minor.note _)
  | some e =>
    refine .bind (yields_linkExpr hwhole hbuilt hhost (hvalue e rfl) fun h => hintFits_of_fits (hret h)) fun ty => ?_
    have hend : Yields r env cur busy (P ∧ Typed r env.source cur e.id ty) (do
        settleLiteral e ty body.ret
        let _ ← consume e ty
        note .returned) fun _ => P := by
      refine .bind (yields_settleLiteral _ _ _) fun _ => .bind (.minor (trackable_minor.consume _ _)) fun _ => ?_
      exact (Yields.minor (trackable_minor.note _)).imp And.left fun _ _ hP => hP
    refine .bind (.looks (looks_satisfies _ _)) fun fits => ?_
    dsimp only
    split
    · exact hend
    · refine .bind (.looks (looks_showTy _)) fun _ => .bind (.looks (looks_showTy _)) fun _ => ?_
      exact .bind (.minor (trackable_minor.report _ _)) fun _ => hend

theorem yields_linkCond {cond : Expr} (hcond : cond.Unfolds env.source) :
    Yields r env cur busy P (linkCond body cond) fun _ => P := by
  refine .bind (yields_linkExpr hwhole hbuilt hhost hcond fun _ => hintFits_bool) fun ty => ?_
  refine .bind (.looks (looks_satisfies _ _)) fun fits => ?_
  split
  · exact .pure And.left
  · exact .bind (.looks (looks_showTy _)) fun _ => (Yields.minor (trackable_minor.report _ _)).imp (fun h => h.1) fun _ _ h => h

theorem yields_linkCaseValue {scrutinee : Ty} (hfits : P → r.Fits env.source cur scrutinee) {value : Expr}
    (hvalue : value.Unfolds env.source) :
    Yields r env cur busy P (linkCaseValue body scrutinee value) fun _ => P := by
  refine .bind (yields_linkExpr hwhole hbuilt hhost hvalue fun h => hintFits_of_fits (hfits h)) fun ty => ?_
  have hend : Yields r env cur busy (P ∧ Typed r env.source cur value.id ty)
      (settleLiteral value ty scrutinee) fun _ => P :=
    (yields_settleLiteral value ty scrutinee).imp (fun h => h) fun _ _ => And.left
  refine .bind (.looks (looks_satisfies _ _)) fun fits => ?_
  dsimp only
  split
  · exact hend
  · refine .bind (.looks (looks_showTy _)) fun _ => .bind (.looks (looks_showTy _)) fun _ => ?_
    exact .bind (.minor (trackable_minor.report _ _)) fun _ => hend

theorem yields_linkCaseValues {scrutinee : Ty} (hfits : P → r.Fits env.source cur scrutinee)
    {cases : List (SwitchCase Expr Block)} (hcases : ∀ c ∈ cases, ∀ e ∈ c.values, e.Unfolds env.source)
    (hasDefault : Bool) : Yields r env cur busy P (linkCaseValues body scrutinee hasDefault cases) fun _ => P := by
  induction cases generalizing hasDefault with
  | nil => exact .pure fun hP => hP
  | cons c cases ih =>
    have hrest := fun hasDefault => ih (fun c hc => hcases c (List.mem_cons_of_mem _ hc)) hasDefault
    rw [linkCaseValues]
    split
    · exact .bind (.minor (trackable_minor.report _ _)) fun _ => hrest hasDefault
    · refine .bind (.forM fun value hvalue => ?_) fun _ => hrest _
      exact yields_linkCaseValue hwhole hbuilt hhost hfits (hcases c List.mem_cons_self value hvalue)

/-! ### Blocks -/

omit hwhole hbuilt hhost in
theorem branching_yields : Branching fun _ act => Yields r env cur busy P act fun _ => P :=
  trackable_minor.branching .minor .bind

theorem yields_linkStmtShape (hret : P → r.Fits env.source cur body.ret) {id : StmtId} {span : Span}
    {shape : StmtShape Expr Block} (hexprs : ∀ e ∈ shape.exprs, e.Unfolds env.source)
    (hblocks : ∀ b ∈ shape.blocks, Yields r env cur busy P (linkBlock body b) fun _ => P) :
    Yields r env cur busy P (linkStmtShape body id span shape) fun _ => P := by
  refine branching_yields.linkStmtShape (fun hsimple => ?_)
    (fun e he => yields_linkCond hwhole hbuilt hhost (hexprs e he)) (fun e _ => .looks (looks_evaluate e))
    (fun scrutinee cases hshape => ?_) hblocks
  · cases shape with
    | binding decl init =>
      rw [linkStmtShape]
      exact yields_linkBinding hwhole hbuilt hhost decl fun e he => hexprs e (Option.mem_toList.2 he)
    | assign target value =>
      rw [linkStmtShape]
      exact yields_linkAssign hwhole hbuilt hhost (hexprs target List.mem_cons_self)
        (hexprs value (List.mem_cons_of_mem _ List.mem_cons_self))
    | expr e =>
      rw [linkStmtShape]
      refine .bind (yields_linkExpr hwhole hbuilt hhost (hexprs e List.mem_cons_self) fun _ => hintFits_none) ?_
      exact fun ty => .bind (.minor (trackable_minor.consume e ty)) fun _ => .pure And.left
    | ret value =>
      rw [linkStmtShape]
      exact yields_linkReturn hwhole hbuilt hhost hret fun e he => hexprs e (Option.mem_toList.2 he)
    | _ => simp [StmtShape.isSimple] at hsimple
  · subst hshape
    obtain ⟨hscrutinee, hvalues⟩ := List.forall_mem_cons.1 hexprs
    refine .bind (yields_linkExpr hwhole hbuilt hhost hscrutinee fun _ => hintFits_none) fun ty => ?_
    refine (yields_linkCaseValues hwhole hbuilt hhost (fun h => h.2.fits.concrete) ?_ false).imp (fun h => h)
      fun _ _ => And.left
    exact fun c hc e he => hvalues e (List.mem_flatMap_of_mem hc he)

end Values

theorem frameVisible_empty {src : Source} {sigs : Signatures} : FrameVisible r src cur sigs {} := by
  intro name d hd
  simp [Table.get?] at hd

mutual
theorem yields_linkStmt (hwhole : r.whole) (hbuilt : env.source.WellBuilt)
    (hhost : Hosts env.source cur body.host) (hret : P → r.Fits env.source cur body.ret) :
    ∀ {stmt : Stmt}, stmt.Unfolds env.source → Yields r env cur busy P (linkStmt body stmt) fun _ => P
  | _, .missing id => by
    intro s u s' h
    rw [linkStmt] at h
    exact absurd h not_runs_throw
  | _, .node hexprs hblocks => by
    rw [linkStmt]
    exact yields_linkStmtShape hwhole hbuilt hhost hret hexprs fun b hb =>
      yields_linkBlock hwhole hbuilt hhost hret (hblocks b hb)
theorem yields_linkBlock (hwhole : r.whole) (hbuilt : env.source.WellBuilt)
    (hhost : Hosts env.source cur body.host) (hret : P → r.Fits env.source cur body.ret) :
    ∀ {block : Block}, block.Unfolds env.source → Yields r env cur busy P (linkBlock body block) fun _ => P
  | _, .missing id => by
    intro s u s' h
    rw [linkBlock] at h
    exact absurd h not_runs_throw
  | .node id span stmts, .node hstmts => by
    intro s u s' h
    rw [linkBlock] at h
    have hinside : Yields r env cur busy P (do
        openLocals
        linkStmts body stmts
        let locals ← closeLocals
        scheduleDrops id locals) fun _ => P := by
      refine .bind (.minor minor_openLocals) fun _ => ?_
      refine .bind (branching_yields.linkStmts fun stmt hmem => ?_) fun _ => ?_
      · exact yields_linkStmt hwhole hbuilt hhost hret (hstmts stmt hmem)
      · exact .bind (.minor minor_closeLocals) fun locals => yields_scheduleDrops id locals
    exact (withFrame_keeps h fun scopes s' => hinside _ u s').2.imp (fun hP => ⟨hP, frameVisible_empty⟩) fun _ hP => hP
end

/-! ### Functions -/

theorem runs_inBody {params : List DeclId} {act : LinkM α} {a : α} :
    Runs env (inBody params act) s a s' ↔
      ∃ s₁, Runs env act { s with moves := { policy := env.options.branchMoves }, locals := [params] } a s₁ ∧
        { s₁ with moves := s.moves, locals := s.locals } = s' := by
  show (_, _) = _ ↔ _
  constructor
  · intro h
    obtain ⟨ha, hs⟩ := Prod.mk.inj h
    exact ⟨_, Prod.ext ha rfl, hs⟩
  · rintro ⟨s₁, h, rfl⟩
    rw [h]

theorem yields_inBody (params : List DeclId) {act : LinkM α} (h : Yields r env cur busy P act Q) :
    Yields r env cur busy P (inBody params act) Q := by
  intro s a s' hrun
  obtain ⟨s₁, hact, rfl⟩ := runs_inBody.1 hrun
  have hstart : Minor s { s with moves := { policy := env.options.branchMoves }, locals := [params] } :=
    minor_of_eq rfl rfl rfl rfl
  have hend : Minor s₁ { s₁ with moves := s.moves, locals := s.locals } := minor_of_eq rfl rfl rfl rfl
  exact hstart.keeps.trans ((h _ a s₁ hact).trans hend.keeps)

theorem runs_mapM_nameOf {params : List DeclId} {names : List (String × DeclId)}
    (h : Runs env (params.mapM fun param => return (← nameOf param, param)) s names s') :
    s = s' ∧ names = params.filterMap fun p => (env.source.decl? p).map (·.name, p) := by
  refine runs_mapM_filterMap (fun p name s s' hp => ?_) h
  simp only [nameOf, runs_bind, runs_declOf, runs_pure] at hp
  obtain ⟨_, _, ⟨d, _, ⟨hd, rfl⟩, rfl, rfl⟩, rfl, rfl⟩ := hp
  exact ⟨rfl, by rw [hd, Option.map_some]⟩

/-- What is done in a function is done inside its frames, and nothing but the frames comes before it. -/
theorem runs_inFunction {func : DeclId} {params : List DeclId} {act : Body → LinkM α} {a : α} :
    Runs env (inFunction func params act) s a s' ↔ ∃ host generics names s₁,
      Runs env (genericHost func) s host s ∧ Runs env (genericFrame func) s generics s ∧
      Runs env (params.mapM fun param => return (← nameOf param, param)) s names s ∧
      Runs env (act ⟨host, ((s.signatures.functions.get? func).map (·.ret)).getD .void⟩)
        { s with
          scopes := (s.scopes.push generics).push (names.foldl (fun frame (name, param) => frame.insert name param) {})
          moves := { policy := env.options.branchMoves }
          locals := [params] } a s₁ ∧
      { s₁ with scopes := s₁.scopes.pop.pop, moves := s.moves, locals := s.locals } = s' := by
  simp only [inFunction, runs_bind, runs_signatures, runs_withFrame, runs_inBody]
  constructor
  · rintro ⟨host, _, hhost, generics, _, hgenerics, names, _, hnames, _, _, ⟨rfl, rfl⟩, _, ⟨_, ⟨s₁, h, rfl⟩, rfl⟩, rfl⟩
    obtain rfl := (consults_genericHost func).looks.of_runs hhost
    obtain rfl := (consults_genericFrame func).looks.of_runs hgenerics
    obtain ⟨rfl, -⟩ := runs_mapM_nameOf hnames
    exact ⟨host, generics, names, s₁, hhost, hgenerics, hnames, h, rfl⟩
  · rintro ⟨host, generics, names, s₁, hhost, hgenerics, hnames, h, rfl⟩
    exact ⟨host, s, hhost, generics, s, hgenerics, names, s, hnames, _, s, ⟨rfl, rfl⟩, _, ⟨_, ⟨s₁, h, rfl⟩, rfl⟩, rfl⟩

theorem frameVisible_params (hbuilt : env.source.WellBuilt) (hat : At r env.source cur busy s)
    (hcur : cur ∈ s.bodies) (hd : env.source.decl? cur = some d) {names : List (String × DeclId)}
    (hnames : ∀ p ∈ names, p.2 ∈ d.kind.params) :
    FrameVisible r env.source cur s.signatures
      (names.foldl (fun frame (name, param) => frame.insert name param) {}) := by
  intro key param hparam
  rcases get?_foldl_insert (·.1) (·.2) names hparam with hempty | ⟨p, hp, rfl⟩
  · simp [Table.get?] at hempty
  · obtain ⟨pd, hpd, hparameter⟩ := hbuilt.param cur d hd p.2 (hnames p hp)
    obtain ⟨sig, hsig⟩ := Option.isSome_iff_exists.1 (hat.facts.bodies cur hcur)
    obtain ⟨t, ht, hfits⟩ := hat.facts.paramTypes cur sig hsig d hd p.2 (hnames p hp)
    refine .value hpd ?_ ht hfits
    cases hk : pd.kind <;> simp_all [DeclKind.isParameter, DeclKind.isValueBinding]

theorem linkFunction_keeps (hwhole : r.whole) (hbuilt : env.source.WellBuilt)
    (htrees : env.trees = env.source.trees) (hd : env.source.decl? cur = some d)
    {block : BlockId} (h : Runs env (linkFunction cur d.kind.params block) s u s') :
    s'.scopes = s.scopes ∧ Keeps r env.source cur busy s (cur ∈ s.bodies) s' True := by
  simp only [linkFunction, inFunction, runs_bind, runs_signatures] at h
  obtain ⟨host, s₁, hrun₁, generics, s₂, hrun₂, names, s₃, hrun₃, _, _, ⟨rfl, rfl⟩, h⟩ := h
  obtain ⟨rfl, hhost⟩ := hosts_of_genericHost hrun₁
  obtain ⟨rfl, hgenerics⟩ : _ ∧ ∀ sigs, FrameVisible r env.source cur sigs generics :=
    visible_genericFrame hbuilt hrun₂
  obtain ⟨rfl, hfound⟩ := runs_mapM_nameOf hrun₃
  have hnames : ∀ p ∈ names, p.2 ∈ d.kind.params := by
    intro p hp
    rw [hfound] at hp
    obtain ⟨param, hparam, hp⟩ := List.mem_filterMap.1 hp
    obtain ⟨pd, -, rfl⟩ := Option.map_eq_some_iff.1 hp
    exact hparam
  have hret : At r env.source cur busy s →
      r.Fits env.source cur (((s.signatures.functions.get? cur).map (·.ret)).getD .void) := by
    intro hat
    cases hsig : s.signatures.functions.get? cur with
    | none => exact .prim .void
    | some sig => exact (hat.facts.signatures.functions cur sig hsig).2
  have hblock : (env.trees.block block).Unfolds env.source := by
    rw [htrees]
    exact env.source.unfolds_block block
  generalize ((s.signatures.functions.get? cur).map (·.ret)).getD .void = ret at h hret
  have hbody : Yields r env cur busy (r.Fits env.source cur ret) (do
      linkBlock ⟨host, ret⟩ (env.trees.block block)
      scheduleDrops block d.kind.params) fun _ => True := by
    refine .bind (yields_linkBlock hwhole hbuilt hhost (fun hfits => hfits) hblock) fun _ => ?_
    exact (yields_scheduleDrops block d.kind.params).imp (fun _ => trivial) fun _ _ h => h
  replace hbody : Yields r env cur busy (r.Fits env.source cur ret) (inBody d.kind.params do
      linkBlock ⟨host, ret⟩ ((← read).trees.block block)
      scheduleDrops block d.kind.params) fun _ => True := by
    refine yields_inBody _ fun s u s' h => ?_
    obtain ⟨_, _, hread, h⟩ := runs_bind.1 h
    obtain ⟨rfl, rfl⟩ := runs_read.1 hread
    exact hbody s u s' h
  obtain ⟨hscopes, hkeeps⟩ := withFrame_keeps (P := r.Fits env.source cur ret ∧ cur ∈ s.bodies) h fun scopes s₁ h =>
    (withFrame_keeps h fun scopes s₂ => hbody _ u s₂).2.pre fun hpre hat =>
      ⟨hpre.1, frameVisible_params hbuilt hat hpre.2 hd hnames⟩
  exact ⟨hscopes, hkeeps.pre fun hcur hat => ⟨⟨hret hat, hcur⟩, hgenerics _⟩⟩

theorem runs_linkBody (h : Runs env (linkBody decl) s u s') : ∃ d f block, env.source.decl? decl = some d ∧
    d.kind = .function f ∧ f.body = some block ∧
    Runs env (inNamespaces decl (linkFunction decl f.params block)) s u s' := by
  obtain ⟨d, _, hlook, h⟩ := runs_bind.1 h
  obtain ⟨hd, rfl⟩ := runs_declOf.1 hlook
  split at h
  · rename_i hkind
    exact ⟨d, _, _, hd, hkind, rfl, h⟩
  · exact absurd h not_runs_throw

/-- Linking the body of one function. The functions on the list are still on the list when their turn
comes. -/
theorem advances_linkBody (hwhole : r.whole) (hbuilt : env.source.WellBuilt)
    (htrees : env.trees = env.source.trees) {bodies : List DeclId} (hdecl : decl ∈ bodies) :
    Advances r env (fun t => Outside r env.source t ∧ bodies <+: t.bodies) (linkBody decl) := by
  intro s u s' h
  obtain ⟨d, f, block, hd, hkind, -, h⟩ := runs_linkBody h
  have hparams : f.params = d.kind.params := by rw [hkind]; rfl
  rw [hparams] at h
  obtain ⟨hscopes, hkeeps⟩ : _ ∧ Keeps r env.source decl [] s (decl ∈ s.bodies) s' True :=
    inNamespaces_keeps h fun scopes s₁ h => linkFunction_keeps hwhole hbuilt htrees hd h
  refine ⟨hkeeps.later, ?_⟩
  rintro ⟨hout, hbodies⟩ hquiet
  obtain ⟨hout', -⟩ := hout.leave hkeeps hscopes (hbodies.subset hdecl) hquiet
  exact ⟨hout', hbodies.trans hkeeps.later.bodies⟩

theorem advances_linkBodies (hwhole : r.whole) (hbuilt : env.source.WellBuilt)
    (htrees : env.trees = env.source.trees) : Advances r env (Outside r env.source) linkBodies := by
  intro s u s' h
  simp only [linkBodies, runs_bind, runs_get] at h
  obtain ⟨_, _, ⟨rfl, rfl⟩, h⟩ := h
  obtain ⟨hlater, hinv⟩ :=
    Advances.forM (fun decl hdecl => advances_linkBody hwhole hbuilt htrees hdecl) s u s' h
  exact ⟨hlater, fun hout hquiet => (hinv ⟨hout, List.prefix_refl _⟩ hquiet).1⟩

end Link

end Linkage
