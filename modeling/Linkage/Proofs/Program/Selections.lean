import Linkage.Proofs.Link.Outcome
import Linkage.Proofs.Registry.Cursors

/-!
# Queries under activations

A query closes what was recorded over the active iterations. While a single activation is open these are
the iterations of its context, so the query may as well be given the context.
-/

namespace Linkage

namespace Program

variable {p : Program}

theorem active_activate (hidle : ∀ x, p.active x = none) (decl : DeclId) (index : IterationId) :
    (p.activate decl index).2.active = (p.registry.context decl index).iterationOf? := by
  funext x
  show (p.registry.activate decl index).2.activeOf? x = _
  have hx : p.registry.activeOf? x = none := hidle x
  rw [Registry.activeOf?_activate, hx, Option.or_none]

theorem activate_eq (p : Program) (decl : DeclId) (index : IterationId) :
    ∃ active, (p.activate decl index).2 = { p with registry.active := active } := by
  obtain ⟨active, hset⟩ := p.registry.setCursors_eq (p.registry.context decl index).bindings
  exact ⟨active, congrArg (fun registry => { p with registry := registry }) hset⟩

theorem close_activate (p : Program) (decl : DeclId) (index : IterationId) (selected : Selection) :
    (p.activate decl index).2.close selected = p.close selected := by
  obtain ⟨active, heq⟩ := p.activate_eq decl index
  rw [heq]
  rfl

theorem iterationUnder?_activate (p : Program) (decl : DeclId) (index : IterationId) (selected : Selection) :
    (p.activate decl index).2.iterationUnder? selected = p.iterationUnder? selected := by
  obtain ⟨active, heq⟩ := p.activate_eq decl index
  rw [heq]
  rfl

/-- In whatever way activations are nested, the cursor of a declaration shows the iteration that the innermost
context has for it, and without one what it showed at the start; so it does when all activations have ended.
In a program without active iterations, a query under one activation gives the same as the query with
the context of this activation. -/
theorem cursors_overlay (p : Program) {steps : List CursorStep} {a : Activations}
    (hrun : Activations.run? ⟨p.registry, []⟩ steps = some a) :
    (∀ x, a.registry.activeOf? x =
      (a.opened.findSome? fun b => (p.registry.context b.1 b.2).iterationOf? x).or (p.registry.activeOf? x)) ∧
    (a.opened = [] → ∀ x, a.registry.active.get? x = p.registry.active.get? x) ∧
    ((∀ x, p.active x = none) → ∀ decl index,
      let q := (p.activate decl index).2
      let c := p.registry.context decl index
      (∀ e, q.knownType? e = p.knownTypeIn? e c) ∧ (∀ e, q.callIteration? e = p.callIterationIn? e c) ∧
        ∀ x, q.typeOfDecl? x = (p.signatures.declTypes.get? x).map (p.close c.iterationOf?)) := by
  have hlayered : Activations.Layered p.registry a.registry a.guards :=
    Activations.Layered.run? (.ground (.refl _)) hrun
  refine ⟨hlayered.activeOf?, fun hopened x => ?_, fun hidle decl index => ?_⟩
  · have hnone : a.guards.map (·.1) = [] := hopened
    have hx := hlayered.activeOf? x
    rw [hnone] at hx
    exact hx
  · intro q c
    have hactive : q.active = c.iterationOf? := active_activate hidle decl index
    refine ⟨fun e => ?_, fun e => ?_, fun x => ?_⟩
    · rw [knownType?, hactive, typeUnder?, close_activate]
      rfl
    · rw [callIteration?, hactive, iterationUnder?_activate]
      rfl
    · rw [typeOfDecl?, hactive, close_activate]
      rfl

end Program

/-- Two generic functions that call each other, `fn f<T>(x: T) { g(x) }` and `fn g<U>(y: U) { f(y) }`, and a
function that calls `f` with an integer and with a text. -/
def mutualCalls : Source := .ofSteps [
  .function "f",
  .generic ⟨0⟩ "T" none none,
  .typeExpr (.named ["T"] []),
  .param ⟨0⟩ "x" ⟨0⟩ false,
  .expr (.name "x"),
  .callName "g" [] [⟨0⟩],
  .exprStmt ⟨2⟩,
  .block [⟨0⟩],
  .body ⟨0⟩ ⟨0⟩,
  .function "g",
  .generic ⟨3⟩ "U" none none,
  .typeExpr (.named ["U"] []),
  .param ⟨3⟩ "y" ⟨1⟩ false,
  .expr (.name "y"),
  .callName "f" [] [⟨3⟩],
  .exprStmt ⟨5⟩,
  .block [⟨1⟩],
  .body ⟨3⟩ ⟨1⟩,
  .function "main",
  .expr (.intLit 1),
  .callName "f" [] [⟨6⟩],
  .exprStmt ⟨8⟩,
  .expr (.strLit "a"),
  .callName "f" [] [⟨9⟩],
  .exprStmt ⟨11⟩,
  .block [⟨2⟩, ⟨3⟩],
  .body ⟨6⟩ ⟨2⟩]

/-- The second copy of `g` is activated within the first copy of `f`. Its context covers the cursor of `f`. -/
theorem overlay_mutualCalls : ∃ p a, (mutualCalls.link {}).result = .ok p ∧
    Activations.run? ⟨p.registry, []⟩ [.enter ⟨0⟩ ⟨0⟩, .enter ⟨3⟩ ⟨0⟩, .leave, .enter ⟨3⟩ ⟨1⟩] = some a ∧
      a.opened = [(⟨3⟩, ⟨1⟩), (⟨0⟩, ⟨0⟩)] ∧ a.registry.activeOf? ⟨0⟩ = some ⟨1⟩ ∧ (∀ x, p.active x = none) ∧
        (p.activate ⟨0⟩ ⟨1⟩).2.knownType? ⟨3⟩ = some (.prim .str) := by
  obtain ⟨p, hlink, hopened, hcontext, hidle, hknown⟩ : ∃ p, (mutualCalls.link {}).result = .ok p ∧
      (Activations.run? ⟨p.registry, []⟩ [.enter ⟨0⟩ ⟨0⟩, .enter ⟨3⟩ ⟨0⟩, .leave, .enter ⟨3⟩ ⟨1⟩]).map (·.opened) =
        some [(⟨3⟩, ⟨1⟩), (⟨0⟩, ⟨0⟩)] ∧
      (p.registry.context ⟨3⟩ ⟨1⟩).iterationOf? ⟨0⟩ = some ⟨1⟩ ∧ p.registry.active.entries = [] ∧
        p.knownTypeIn? ⟨3⟩ (p.registry.context ⟨0⟩ ⟨1⟩) = some (.prim .str) :=
    exists_of_result (by decide +kernel)
  obtain ⟨a, hrun, ha⟩ := Option.map_eq_some_iff.1 hopened
  have hnone : ∀ x, p.active x = none := by
    intro x
    show Option.map _ (List.find? _ p.registry.active.entries) = none
    rw [hidle]
    rfl
  obtain ⟨hactive, -, hqueries⟩ := p.cursors_overlay hrun
  refine ⟨p, a, hlink, hrun, ha, ?_, hnone, ?_⟩
  · rw [hactive, ha, List.findSome?_cons, hcontext]
    rfl
  · exact ((hqueries hnone ⟨0⟩ ⟨1⟩).1 ⟨3⟩).trans hknown

end Linkage
