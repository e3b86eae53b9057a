import Linkage.Proofs.Link.Bindings
import Linkage.Proofs.Link.Bodies
import Linkage.Proofs.Link.Passes

/-!
# What linking leaves behind

Whatever is linked, its surroundings are put back when the work is done, and frames, cursors and the flag after a
fault as well. A local binding is the one statement that leaves something behind, a name in the innermost frame and a
local of the innermost block. Of the passes over declarations only the first one binds names, and settling a
redeclaration binds one again.
-/

namespace Linkage

namespace Link

variable {α β : Type} {env : LinkEnv} {s s' : LinkState}

/-! ### Bodies -/

theorem upholds_nothing (env : LinkEnv) : Upholds env (fun _ _ => True) (fun _ _ => True) (fun _ => True) where
  lasting _ _ := trivial
  opened _ := trivial
  bound _ _ := trivial
  walkable _ := walkable_guarded (fun _ _ => trivial) (fun _ _ _ _ _ _ _ _ => trivial)
    (fun _ _ _ _ _ _ _ => trivial) (fun _ _ _ _ _ _ _ _ _ => trivial) (fun _ _ _ _ _ _ _ => trivial)

theorem restored_linkExpr (body : Body) (hint : Option Ty) (access : Access) (e : Expr) :
    Framed Restored (linkExpr body hint access e) :=
  fun env s => ((walkable_walked env).linkExpr body e (fun _ _ => trivial) hint access s).toRestored

theorem introduces_stmt (env : LinkEnv) (body : Body) (stmt : Stmt) : Introduces env Nested body stmt := by
  have h := introduces_linkStmt (upholds_nothing env) body stmt [] fun _ _ => trivial
  exact ⟨fun s => (h.framed s).rel, h.bound⟩

theorem restores_block (env : LinkEnv) (body : Body) (b : Block) : Restores env Reset (linkBlock body b) :=
  (restores_linkBlock (upholds_nothing env) body b [] fun _ _ => trivial).imp fun _ _ h => h.rel

theorem branching_reset (env : LinkEnv) : Branching fun _ act => Restores env Reset act :=
  checkable_walked.branching (fun h => ⟨fun s => (h s).toReset, fun _ _ _ hrun => (h.of_runs hrun).locals⟩)
    fun hx hf => .bind hx hf

/-! ### Functions -/

theorem restored_inBody (params : List DeclId) {act : LinkM α} (h : Framed Reset act) :
    Framed Restored (inBody params act) := by
  intro env s
  have hact := h env { s with moves := { policy := env.options.branchMoves }, locals := [params] }
  exact ⟨⟨hact.scopes, hact.spaces, hact.quiet, hact.cursors⟩, rfl⟩

theorem restored_linkFunction (func : DeclId) (params : List DeclId) (block : BlockId) :
    Framed Restored (linkFunction func params block) := by
  have hnames : Looks (params.mapM fun param => return (← nameOf param, param)) :=
    compound_looks.mapM fun param _ => .bind (looks_nameOf param) fun _ => .pure _
  refine .bind (consults_genericHost func).looks.framed fun host => ?_
  refine .bind (consults_genericFrame func).looks.framed fun generics => ?_
  refine .bind hnames.framed fun names => .bind looks_signatures.framed fun sigs => ?_
  refine framed_withFrame (framed_withFrame (restored_inBody params ?_))
  refine .bind Looks.read.framed fun env => .bind ?_ fun _ => ?_
  · exact fun env => (restores_block env _ _).framed
  · have hdrops : ∀ s drops, Walked s { s with program.drops := s.program.drops.insert block drops } :=
      fun s drops => ⟨restored_of_eq rfl rfl rfl rfl rfl, retains_of_eq rfl rfl⟩
    exact fun env s => (checkable_walked.scheduleDrops hdrops params s).toReset

theorem restored_linkBodies : Framed Restored linkBodies := by
  refine .bind Looks.get.framed fun s => .forM fun decl _ => .bind (looks_declOf decl).framed fun d => ?_
  split
  · exact framed_inNamespaces (restored_linkFunction decl _ _)
  · exact .throw _

/-! ### Declarations -/

theorem passable_restored : Passable False Restored where
  linkTypeAt host usage id env s := restored_of_steps (steps_linkTypeAt host usage id env s)
  report span p _ _ _ := restored_report span p
  write _ _ := .modify fun _ => restored_of_eq rfl rfl rfl rfl rfl
  note _ := .modify fun _ => restored_of_eq rfl rfl rfl rfl rfl

theorem Restored.bind (h : Restored s s') (space : Option DeclId) (name : String) (id : DeclId) :
    Restored (s.bind space name id) (s'.bind space name id) := by
  cases space with
  | none =>
    refine ⟨⟨?_, h.spaces, h.quiet, h.cursors⟩, h.locals⟩
    simp only [LinkState.bind, h.scopes]
  | some space =>
    refine ⟨⟨h.scopes, ?_, h.quiet, h.cursors⟩, h.locals⟩
    simp only [LinkState.bind, h.spaces]

/-- The name of a redeclaration may have been bound again, in its own frame, to the function that is kept. -/
def Rebound (env : LinkEnv) (kept : Table DeclId DeclId) (r : Redeclaration) (s s' : LinkState) : Prop :=
  Restored s s' ∨ ∃ d, env.source.decl? r.second = some d ∧
    Restored (s.bind r.space d.name ((kept.get? r.first).getD r.first)) s'

theorem rebound_settleRedeclaration (kept : Table DeclId DeclId) (r : Redeclaration) (env : LinkEnv) (s : LinkState) :
    Rebound env kept r s (settleRedeclaration kept r env s).2 := by
  have hnothing : Rebound env kept r s s := .inl (Sequential.refl s)
  -- Something may be missing before the name is bound again, but not after that.
  refine Looks.bind_ends (P := Rebound env kept r s) (looks_mentionedParams _) hnothing fun firstParams _ => ?_
  refine Looks.bind_ends (P := Rebound env kept r s) (looks_mentionedParams _) hnothing fun secondParams _ => ?_
  refine Looks.bind_ends (P := Rebound env kept r s) looks_typeEnv hnothing fun tenv _ => ?_
  split
  · refine Looks.bind_ends (P := Rebound env kept r s) (looks_declOf r.second) hnothing fun d hd => ?_
    refine .inr ⟨d, (runs_declOf.1 hd).1, ?_⟩
    have hreport : Restored s (report d.span (.duplicateFunction d.name) env s).2 := restored_report _ _ s
    have hbind := hreport.bind r.space d.name ((kept.get? r.first).getD r.first)
    refine Sequential.trans hbind ?_
    cases hspace : r.space with
    | none => exact restored_of_eq rfl rfl rfl rfl rfl
    | some space => exact restored_of_eq rfl rfl rfl rfl rfl
  · exact hnothing

/-- Names may have come to the innermost frame and to namespaces. -/
structure Declared (s s' : LinkState) : Prop where
  outer : s'.scopes.frames.tail = s.scopes.frames.tail
  quiet : s'.quiet = s.quiet
  cursors : ∀ d, s'.program.registry.activeOf? d = s.program.registry.activeOf? d
  locals : s'.locals = s.locals

instance : Sequential Declared where
  refl _ := ⟨rfl, rfl, fun _ => rfl, rfl⟩
  trans h h' := ⟨h'.outer.trans h.outer, h'.quiet.trans h.quiet, fun d => (h'.cursors d).trans (h.cursors d),
    h'.locals.trans h.locals⟩

theorem Restored.declared (h : Restored s s') : Declared s s' := ⟨by rw [h.scopes], h.quiet, h.cursors, h.locals⟩

theorem declared_declareIn (space : Option DeclId) (name : String) (decl : DeclId) :
    Framed Declared (declareIn space name decl) := by
  cases space with
  | none =>
    intro env s
    have hnested : Nested s (declareLocal name decl env s).2 := nested_declareLocal name decl s
    exact ⟨hnested.outer, hnested.quiet, hnested.cursors, rfl⟩
  | some space => exact .modify fun _ => ⟨rfl, rfl, fun _ => rfl, rfl⟩

instance : Enclosed Declared where
  close frame h := ⟨by rw [frames_pop h.outer], h.quiet, h.cursors, h.locals⟩

theorem declared_declareAll : Framed Declared declareAll := by
  have hpassable : Passable False Declared := {
    linkTypeAt := fun host usage id env s => (passable_restored.linkTypeAt host usage id env s).declared
    report := fun span p _ _ env s => (restored_report span p s).declared
    write := fun f hf env s => (passable_restored.write f hf env s).declared
    note := fun decl env s => (passable_restored.note decl env s).declared }
  refine hpassable.declareAll not_false declared_declareIn ?_ ?_
  · exact fun span name env s => (restored_report span _ s).declared
  · exact fun decl => .modify fun _ => ⟨rfl, rfl, fun _ => rfl, rfl⟩

/-- Only the root frame is open, no iteration is active, reports are on, and there are no locals. -/
structure AtRest (s : LinkState) : Prop where
  inner : s.scopes.inner = []
  cursors : ∀ d, s.program.registry.activeOf? d = none
  loud : s.quiet = false
  locals : s.locals = []

theorem atRest_declareAll (env : LinkEnv) : AtRest (declareAll env {}).2 := by
  have h := declared_declareAll env {}
  refine ⟨?_, fun d => h.cursors d, h.quiet, h.locals⟩
  have houter := h.outer
  generalize (declareAll env {}).2.scopes = scopes at houter ⊢
  cases hinner : scopes.inner with
  | nil => rfl
  | cons frame inner => simp [ScopeStack.frames, hinner] at houter

theorem AtRest.linkBodies (h : AtRest s) (env : LinkEnv) : AtRest (linkBodies env s).2 := by
  have hbodies := restored_linkBodies env s
  exact ⟨by rw [hbodies.scopes, h.inner], fun d => (hbodies.cursors d).trans (h.cursors d), hbodies.quiet.trans h.loud,
    hbodies.locals.trans h.locals⟩

/-- Linking puts its surroundings back, whether or not it ends in a fault. Annotations, expressions, functions and
the passes over declarations leave frames, cursors, locals and the flag as they found them. So do blocks and arms,
but for locals that a fault keeps from being closed. A statement binds at most one local, in the innermost frame,
and settling a redeclaration at most one name, in its own frame. So no frame but the root is left open and no
iteration active once declarations, and then bodies, are linked. -/
theorem linking_restores_surroundings :
    (∀ host usage t, Framed Restored (linkType host usage t)) ∧
    (∀ body hint access e, Framed Restored (linkExpr body hint access e)) ∧
    (∀ env body stmt, Introduces env Nested body stmt) ∧
    (∀ env body b, Restores env Reset (linkBlock body b)) ∧
    (∀ env body branch arms, Restores env Reset (linkArms body branch arms)) ∧
    (∀ env body branch otherwise, Restores env Reset (linkOtherwise body branch otherwise)) ∧
    (∀ env body branch hasDefault cases, Restores env Reset (linkCases body branch hasDefault cases)) ∧
    (∀ func params block, Framed Restored (linkFunction func params block)) ∧
    (∀ decl, Framed Restored (recordGenerics decl) ∧
      Framed Restored (inNamespaces decl (linkGenericParams decl)) ∧
      Framed Restored (inNamespaces decl (linkAlias decl)) ∧
      Framed Restored (inNamespaces decl (linkTypeFacts decl)) ∧
      Framed Restored (inNamespaces decl (linkSignature decl))) ∧
    (∀ kept r env s, Rebound env kept r s (settleRedeclaration kept r env s).2) ∧
    (∀ env, AtRest (declareAll env {}).2 ∧ AtRest (linkBodies env (declareAll env {}).2).2) := by
  have hpasses := passable_restored
  refine ⟨fun host usage t env s => restored_of_steps (steps_linkType host usage t env s), restored_linkExpr,
    introduces_stmt, restores_block, ?arms, ?otherwise, ?cases, restored_linkFunction, ?passes,
    rebound_settleRedeclaration, fun env => ⟨atRest_declareAll env, (atRest_declareAll env).linkBodies env⟩⟩
  case arms => exact fun env body branch arms => (branching_reset env).linkArms (fun b _ => restores_block env body b) branch
  case otherwise =>
    exact fun env body branch otherwise => (branching_reset env).linkOtherwise (fun b _ => restores_block env body b) branch
  case cases =>
    intro env body branch hasDefault cases
    exact (branching_reset env).linkCases (fun b _ => restores_block env body b) branch hasDefault
  case passes =>
    intro decl
    refine ⟨hpasses.recordGenerics not_false decl, framed_inNamespaces (hpasses.linkGenericParams not_false decl),
      framed_inNamespaces (hpasses.linkAlias not_false decl),
      framed_inNamespaces (hpasses.linkTypeFacts not_false decl), framed_inNamespaces (hpasses.linkSignature decl)⟩

end Link

end Linkage
