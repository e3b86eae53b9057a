import Linkage.Proofs.Link.Branching
import Linkage.Proofs.Link.Frame

/-!
# What linking a body does besides

While a body is linked, types are checked against each other, places are read and moved out, and what goes wrong
is reported. A relation between states that allows for annotations, for reports, and for what is noted about places,
types and copies allows for all of these checks.
-/

namespace Linkage

namespace Link

/-- Nothing has happened but to places, types of expressions, copies, constants and branches. -/
structure Idle (s s' : LinkState) : Prop where
  scopes : s'.scopes = s.scopes
  spaces : s'.spaces = s.spaces
  quiet : s'.quiet = s.quiet
  locals : s'.locals = s.locals
  registry : s'.program.registry = s.program.registry
  resolved : s'.program.resolved = s.program.resolved
  linked : s'.linked = s.linked
  reports : s'.reports = s.reports
  signatures : s'.program.signatures = s.program.signatures
  drops : s'.program.drops = s.program.drops

theorem recorded_of_steps {s s' : LinkState} {usage : TypeUse} (h : TypeSteps usage s s') :
    s'.linked = s.linked ∧ s'.program.resolved = s.program.resolved := by
  induction h with
  | refl => exact ⟨rfl, rfl⟩
  | tail _ hstep ih => cases hstep <;> exact ih

/-- The relation allows for reports, other than on uses of moved values. -/
structure Reportable (ρ : LinkState → LinkState → Prop) : Prop where
  problem : ∀ {env : LinkEnv} span p, p.kind ≠ .useAfterMove → FramedIn env ρ (report span p)

/-- The relation allows for linking annotations, and for what is recorded of types and copies. -/
structure Typable (ρ : LinkState → LinkState → Prop) : Prop extends Reportable ρ where
  steps : ∀ {s s'}, TypeSteps .use s s' → ρ s s'
  types : ∀ s exprTypes usages, ρ s { s with program.exprTypes := exprTypes, program.usages := usages }

/-- The relation allows for what is noted about places and branches. -/
structure Trackable (ρ : LinkState → LinkState → Prop) : Prop extends Reportable ρ where
  report : ∀ {env : LinkEnv} span p, FramedIn env ρ (report span p)
  places : ∀ s moves history branches,
    ρ s { s with moves := moves, history := history, program.branches := branches }
  problem := fun span p _ => report span p

/-- The relation allows for linking annotations, for reports, and for what does not show elsewhere. -/
structure Checkable (ρ : LinkState → LinkState → Prop) : Prop extends Typable ρ, Trackable ρ where
  idle : ∀ {s s'}, Idle s s' → ρ s s'

theorem Checkable.of_idle {ρ : LinkState → LinkState → Prop} (steps : ∀ {s s'}, TypeSteps .use s s' → ρ s s')
    (report : ∀ {env : LinkEnv} span p, FramedIn env ρ (Link.report span p)) (idle : ∀ {s s'}, Idle s s' → ρ s s') :
    Checkable ρ where
  steps := steps
  report := report
  idle := idle
  types _ _ _ := idle ⟨rfl, rfl, rfl, rfl, rfl, rfl, rfl, rfl, rfl, rfl⟩
  places _ _ _ _ := idle ⟨rfl, rfl, rfl, rfl, rfl, rfl, rfl, rfl, rfl, rfl⟩

/-- Nothing was resolved or linked. -/
structure Unmarked (s s' : LinkState) : Prop where
  resolved : s'.program.resolved = s.program.resolved
  linked : s'.linked = s.linked
  reports : s.reports <+: s'.reports

instance : Sequential Unmarked where
  refl _ := ⟨rfl, rfl, List.prefix_refl _⟩
  trans h h' := ⟨h'.resolved.trans h.resolved, h'.linked.trans h.linked, h.reports.trans h'.reports⟩

theorem unmarked_of_steps {s s' : LinkState} {usage : TypeUse} (h : TypeSteps usage s s') : Unmarked s s' := by
  have hlater : s.Later False s' := later_of_steps h
  exact ⟨(recorded_of_steps h).2, (recorded_of_steps h).1, hlater.reports⟩

theorem unmarked_report {env : LinkEnv} (span : Span) (p : Problem) : FramedIn env Unmarked (report span p) :=
  .report fun _ _ => ⟨rfl, rfl, List.prefix_append _ _⟩

theorem checkable_unmarked : Checkable Unmarked :=
  .of_idle unmarked_of_steps unmarked_report fun h => ⟨h.resolved, h.linked, h.reports ▸ List.prefix_refl _⟩

namespace Reportable

variable {env : LinkEnv} {ρ : LinkState → LinkState → Prop} [Sequential ρ] (h : Reportable ρ)

include h

theorem showReport {α : Type} {span : Span} {ty : Ty} {p : String → Problem} {act : LinkM α}
    (hkind : ∀ shown, (p shown).kind ≠ .useAfterMove) (hact : FramedIn env ρ act) : FramedIn env ρ (do
      let shown ← showTy ty
      report span (p shown)
      act) :=
  .bind (looks_showTy ty).framedIn fun shown => .bind (h.problem _ _ (hkind shown)) fun _ => hact

theorem expectType (expected actual : Ty) (span : Span) : FramedIn env ρ (expectType expected actual span) := by
  refine .bind (looks_satisfies expected actual).framedIn fun fits => ?_
  split
  · exact .pure _
  · exact .bind (looks_showTy expected).framedIn fun _ => .bind (looks_showTy actual).framedIn fun _ => h.problem _ _ (by rintro ⟨⟩)

theorem linkField (span : Span) (base : Ty) (field : String) : FramedIn env ρ (linkField span base field) := by
  refine .bind looks_typeEnv.framedIn fun tenv => ?_
  dsimp only
  split
  · exact .pure _
  · refine .bind looks_signatures.framedIn fun sigs => ?_
    split
    · split
      · exact .pure _
      · exact h.showReport (by rintro _ ⟨⟩) (.pure _)
    · exact h.showReport (by rintro _ ⟨⟩) (.pure _)
  · exact h.showReport (by rintro _ ⟨⟩) (.pure _)

theorem checkNot (span : Span) (ty : Ty) : FramedIn env ρ (checkNot span ty) := by
  refine .bind (looks_satisfies .bool ty).framedIn fun fits => ?_
  dsimp only
  split
  · exact .pure _
  · exact h.showReport (by rintro _ ⟨⟩) (.pure _)

theorem checkNeg (span : Span) (ty : Ty) : FramedIn env ρ (checkNeg span ty) := by
  refine .bind looks_typeEnv.framedIn fun tenv => ?_
  dsimp only
  split
  · exact .pure _
  · exact h.showReport (by rintro _ ⟨⟩) (.pure _)

theorem checkLogical (op : BinaryOp) (operand : Expr) (ty : Ty) : FramedIn env ρ (checkLogical op operand ty) := by
  refine .bind (looks_satisfies .bool ty).framedIn fun fits => ?_
  split
  · exact .pure _
  · exact .bind (looks_showTy ty).framedIn fun _ => h.problem _ _ (by rintro ⟨⟩)

theorem limitTypeArgs (decl : DeclId) (written : List Ty) (taken : Nat) (span : Span) :
    FramedIn env ρ (limitTypeArgs decl written taken span) := by
  unfold Link.limitTypeArgs
  split
  · exact .bind (looks_nameOf decl).framedIn fun _ => .bind (h.problem _ _ (by rintro ⟨⟩)) fun _ => .pure _
  · exact .pure _

end Reportable

namespace Typable

variable {env : LinkEnv} {ρ : LinkState → LinkState → Prop} [Sequential ρ] (h : Typable ρ)

include h

omit [Sequential ρ] in
theorem of_steps {α : Type} {act : LinkM α} (hact : Framed (TypeSteps .use) act) : FramedIn env ρ act :=
  fun s => h.steps (hact env s)

omit [Sequential ρ] in
theorem recordType (e : ExprId) (ty : Ty) : FramedIn env ρ (recordType e ty) :=
  .modify fun s => h.types s _ _

omit [Sequential ρ] in
theorem recordUsage (site : UsageSite) (decl : DeclId) (copy : Instance) :
    FramedIn env ρ (recordUsage site decl copy) :=
  .modify fun s => h.types s _ _

theorem settleLiteral (e : Expr) (actual expected : Ty) : FramedIn env ρ (settleLiteral e actual expected) := by
  unfold Link.settleLiteral
  split
  · refine .bind looks_typeEnv.framedIn fun tenv => ?_
    split
    · exact h.recordType _ _
    · exact .pure _
  · exact .pure _

theorem checkBinary (op : BinaryOp) (span : Span) (lhs rhs : Expr) (lhsTy rhsTy : Ty) :
    FramedIn env ρ (checkBinary op span lhs rhs lhsTy rhsTy) := by
  refine .bind (looks_satisfies lhsTy rhsTy).framedIn fun forward => ?_
  refine .bind (looks_satisfies rhsTy lhsTy).framedIn fun back => ?_
  dsimp only
  split
  · refine .bind (looks_showTy lhsTy).framedIn fun _ => .bind (looks_showTy rhsTy).framedIn fun _ => ?_
    exact .bind (h.problem _ _ (by rintro ⟨⟩)) fun _ => .pure _
  · split
    · exact .bind (h.settleLiteral _ _ _) fun _ => .pure _
    · exact .bind (h.settleLiteral _ _ _) fun _ => .pure _
    · exact .pure _

omit [Sequential ρ] in
theorem linkTypes (host : Option DeclId) (ts : List TypeExpr) : FramedIn env ρ (linkTypes host .use ts) :=
  h.of_steps (steps_linkTypes host .use ts)

/-- The annotation of a local, if it has one. -/
theorem linkVarType (host : Option DeclId) (ty : Option TypeExprId) :
    FramedIn env ρ (ty.mapM (linkTypeAt host .use)) := by
  cases ty with
  | none => exact .pure _
  | some id => exact .bind (h.of_steps (steps_linkTypeAt host .use id)) fun _ => .pure _

theorem finishInference (decl : DeclId) (inferred : Inferred) (span : Span) :
    FramedIn env ρ (finishInference decl inferred span) := by
  refine .bind (looks_nameOf decl).framedIn fun name => .bind (.forM fun g _ => ?_) fun _ => ?_
  · exact .bind (looks_genericOf g).framedIn fun _ => h.problem _ _ (by rintro ⟨⟩)
  · exact h.of_steps (steps_checkBounds _ _ _)

end Typable

namespace Trackable

variable {env : LinkEnv} {ρ : LinkState → LinkState → Prop} [Sequential ρ] (h : Trackable ρ)

include h

omit [Sequential ρ] in
theorem note (e : Event) : FramedIn env ρ (note e) :=
  .modify fun s => h.places s _ _ _

omit [Sequential ρ] in
theorem mark (m : Mark) : FramedIn env ρ (mark m) :=
  .modify fun s => h.places s _ _ _

omit [Sequential ρ] in
theorem modifyMoves (f : LinkState → MoveTracker) : FramedIn env ρ (modify fun s => { s with moves := f s }) :=
  .modify fun s => h.places s _ _ _

theorem checkMoved (e : ExprId) (p : Place) (span : Span) : FramedIn env ρ (checkMoved e p span) := by
  refine .bind Looks.get.framedIn fun s => .bind (h.note _) fun _ => ?_
  split
  · exact .pure _
  · exact .bind (looks_showPlace p).framedIn fun _ => h.report _ _

theorem checkRead (e : ExprId) (access : Access) (place : Option Place) (span : Span) :
    FramedIn env ρ (checkRead e access place span) := by
  unfold Link.checkRead
  split
  · exact h.checkMoved _ _ _
  · exact .pure _

theorem consume (e : Expr) (ty : Ty) : FramedIn env ρ (consume e ty) := by
  refine .bind looks_signatures.framedIn fun sigs => ?_
  split
  · refine .bind (looks_placeOf e).framedIn fun place => ?_
    split
    · exact .pure _
    · refine .bind (h.modifyMoves _) fun _ => ?_
      exact .bind (h.note _) fun _ => .pure _
  · exact .pure _

theorem checkLeft (a : Argument) (place : Option Place) (left : List Place) : FramedIn env ρ (checkLeft a place left) := by
  unfold Link.checkLeft
  split
  · split
    · exact h.checkMoved _ _ _
    · exact .pure _
  · exact .pure _

theorem moveArg (a : Argument) (left : List Place) : FramedIn env ρ (moveArg a left) := by
  unfold Link.moveArg
  split
  · exact .pure _
  · refine .bind (h.consume _ _) fun found => ?_
    split
    · exact .pure _
    · exact .pure _

theorem reinit (p : Place) : FramedIn env ρ (reinit p) :=
  .bind (h.modifyMoves fun s => s.moves.reinit p) fun _ => h.note _

theorem endArm (branch : Branch) : FramedIn env ρ (endArm branch) :=
  .bind (h.mark _) fun _ => .modifyGet fun s => h.places s _ _ _

theorem endBranch (branch : Branch) (exhaustive : Bool) : FramedIn env ρ (endBranch branch exhaustive) :=
  .bind (h.mark _) fun _ => h.modifyMoves fun s => s.moves.endBranch branch exhaustive

theorem scheduleDrops {block : BlockId}
    (hdrops : ∀ s drops, ρ s { s with program.drops := s.program.drops.insert block drops }) (locals : List DeclId) :
    FramedIn env ρ (scheduleDrops block locals) := by
  refine .forM fun held _ => .bind_runs Looks.get.framedIn fun s t s' hget => ?_
  obtain ⟨rfl, rfl⟩ := runs_get.1 hget
  split
  · exact Sequential.refl _
  · generalize (s.signatures.declTypes.get? held).map s.env.expand = ty
    rcases ty with _ | ty
    · exact Sequential.refl _
    · cases ty with
      | linked struct args =>
        dsimp only
        generalize s.signatures.disposalOf struct = disposal
        rcases disposal with _ | _ | destructor
        · exact Sequential.refl _
        · refine FramedIn.bind (looks_declOf _).framedIn (fun owner => ?_) s
          split
          · exact .pure _
          · exact .bind (looks_declOf held).framedIn fun d => h.report _ _
        · exact hdrops s _
      | _ => exact Sequential.refl _

theorem branching {T : (α : Type) → LinkM α → Prop}
    (hframed : ∀ {α : Type} {act : LinkM α}, FramedIn env ρ act → T α act)
    (hbind : ∀ {α β : Type} {x : LinkM α} {f : α → LinkM β}, T α x → (∀ a, T β (f a)) → T β (x >>= f)) :
    Branching T where
  pure a := hframed (.pure a)
  bind := hbind
  report span p := hframed (h.report span p)
  mark m := hframed (h.mark m)
  beginBranch := hframed looks_beginBranch.framedIn
  endArm branch := hframed (h.endArm branch)
  endBranch branch exhaustive := hframed (h.endBranch branch exhaustive)
  decided _ _ := hframed (.modify fun s => h.places s _ _ _)

end Trackable

theorem framed_linkConstant {env : LinkEnv} {ρ : LinkState → LinkState → Prop} [Sequential ρ]
    (h : ∀ s constants, ρ s { s with program.constants := constants }) (decl : DeclId) (init : Option Expr) :
    FramedIn env ρ (linkConstant decl init) := by
  unfold linkConstant
  split
  · exact .pure _
  · refine .bind (looks_evaluate _).framedIn fun value => ?_
    split
    · exact .pure _
    · exact .modify fun s => h s _

namespace Checkable

variable {env : LinkEnv} {ρ : LinkState → LinkState → Prop} [Sequential ρ] (h : Checkable ρ)

include h

theorem bindArg (a : Argument) (place : Option Place) (left : List Place) : FramedIn env ρ (bindArg a place left) := by
  refine .bind (h.expectType _ _ _) fun _ => .bind (h.settleLiteral _ _ _) fun _ => ?_
  exact .bind (h.checkLeft _ _ _) fun _ => h.moveArg _ _

theorem bindArgs (args : List Argument) : FramedIn env ρ (bindArgs args) := by
  refine .bind looks_source.framedIn fun src => .bind Looks.get.framedIn fun s => .bind (h.note _) fun _ => ?_
  exact .bind (.foldlM (fun left a _ => h.bindArg a _ left) _) fun _ => .pure _

/-- A name that means something is recorded before anything else is done about it. One that means nothing is
reported. -/
theorem linkName_cases (env : LinkEnv) (s : LinkState) (id : ExprId) (span : Span) (access : Access)
    (path : List String) :
    ((linkName id span access path env s).2 = s ∧ ∀ ty s', ¬Runs env (linkName id span access path) s ty s') ∨
      (s.resolve? env.source path = .ok none ∧ (linkName id span access path env s).2 =
        (Link.report span (.unresolvedName (pathText path)) env s).2) ∨
      ∃ decl, s.resolve? env.source path = .ok (some decl) ∧
        ρ (recordResolved id decl env s).2 (linkName id span access path env s).2 := by
  cases hfound : s.resolve? env.source path with
  | error ref =>
    have hnone : ∀ found, ¬Runs env (resolve? path) s found s := fun found hrun =>
      nomatch hfound.symm.trans (runs_resolve?.1 hrun).1
    refine .inl ⟨(looks_resolve? path).bind_ends (P := (· = s)) rfl fun found hrun => absurd hrun (hnone found), ?_⟩
    intro ty s' hrun
    obtain ⟨found, s₁, hresolve, -⟩ := runs_bind.1 hrun
    obtain rfl := (looks_resolve? path).of_runs hresolve
    exact hnone found hresolve
  | ok found =>
    have hresolve : Runs env (resolve? path) s found s := runs_resolve?.2 ⟨hfound, rfl⟩
    rw [linkName, hresolve.bind_apply]
    cases found with
    | none => exact .inr (.inl ⟨rfl, rfl⟩)
    | some decl =>
      have hrecord : Runs env (recordResolved id decl) s () (recordResolved id decl env s).2 := rfl
      refine .inr (.inr ⟨decl, rfl, ?_⟩)
      dsimp only
      rw [hrecord.bind_apply]
      refine FramedIn.bind (looks_declOf decl).framedIn (fun d => ?_) _
      split
      · exact .bind (h.checkRead _ _ _ _) fun _ => .bind looks_signatures.framedIn fun _ => .pure _
      · exact .bind (h.checkRead _ _ _ _) fun _ => .bind looks_signatures.framedIn fun _ => .pure _
      · refine .bind looks_signatures.framedIn fun sigs => ?_
        split
        · exact .pure _
        · exact .bind (h.report _ _) fun _ => .pure _
      all_goals exact .bind (h.report _ _) fun _ => .pure _

theorem linkName_at {s : LinkState} {id : ExprId} {span : Span} {access : Access} {path : List String}
    (hrecord : ∀ decl, s.resolve? env.source path = .ok (some decl) → ρ s (recordResolved id decl env s).2) :
    ρ s (linkName id span access path env s).2 := by
  rcases h.linkName_cases env s id span access path with ⟨hs, -⟩ | ⟨-, hs⟩ | ⟨decl, hdecl, hs⟩
  · rw [hs]
    exact Sequential.refl s
  · rw [hs]
    exact h.report _ _ s
  · exact Sequential.trans (hrecord decl hdecl) hs

theorem linkConstant (decl : DeclId) (init : Option Expr) : FramedIn env ρ (linkConstant decl init) :=
  framed_linkConstant (fun _ _ => h.idle ⟨rfl, rfl, rfl, rfl, rfl, rfl, rfl, rfl, rfl, rfl⟩) decl init

end Checkable

end Link

end Linkage
