import Linkage.Proofs.Link.Outcome

/-!
# Silence means success

A run without reports leaves nothing unknown: no recorded type contains the unknown type. It also knows which copy of
a generic declaration every use refers to, provided that the defaults of generic parameters are settled. The proviso
is needed: where arguments are inferred, all defaults are closed in one round, so that a default that mentions a
parameter with a default stays open, and outside generic declarations nothing can be made of open arguments.
-/

namespace Linkage

/-- A type that the program holds for an expression, a local, a parameter or in a signature. -/
inductive Program.Records (p : Program) : Ty → Prop
  | expr {e : ExprId} {t : Ty} (h : p.exprTypes.get? e = some t) : Records p t
  | decl {d : DeclId} {t : Ty} (h : p.signatures.declTypes.get? d = some t) : Records p t
  | bound {g : GenericId} {t : Ty} (h : p.signatures.bounds.get? g = some t) : Records p t
  | default {g : GenericId} {t : Ty} (h : p.signatures.defaults.get? g = some t) : Records p t
  | param {d : DeclId} {sig : FunctionSig} {x : ParamSig} (h : p.signatures.functions.get? d = some sig)
      (hx : x ∈ sig.params) : Records p x.ty
  | ret {d : DeclId} {sig : FunctionSig} (h : p.signatures.functions.get? d = some sig) : Records p sig.ret
  | field {d : DeclId} {fields : List (String × Ty)} {f : String × Ty}
      (h : p.signatures.fields.get? d = some fields) (hf : f ∈ fields) : Records p f.2
  | payload {d : DeclId} {cases : List (String × Option Ty)} {name : String} {t : Ty}
      (h : p.signatures.cases.get? d = some cases) (hc : (name, some t) ∈ cases) : Records p t
  | member {d : DeclId} {members : List Ty} {t : Ty} (h : p.signatures.unionMembers.get? d = some members)
      (ht : t ∈ members) : Records p t
  | target {d : DeclId} {t : Ty} (h : p.signatures.aliasTargets.get? d = some t) : Records p t

theorem Facts.obeys {r : Regime} {src : Source} {s : LinkState} (h : Facts r src [] s.known) {t : Ty}
    (ht : s.program.Records t) : t.Obeys (r.rules src) := by
  have hsigs := h.signatures
  cases ht with
  | expr ht => exact h.exprTypes _ _ ht
  | decl ht => exact hsigs.declTypes _ _ ht
  | bound ht => exact hsigs.bounds _ _ ht
  | default ht => exact hsigs.defaults _ _ ht
  | param hsig hx => exact ((hsigs.functions _ _ hsig).1 _ hx).obeys
  | ret hsig => exact (hsigs.functions _ _ hsig).2.obeys
  | field hfields hf => exact ((hsigs.fields _ _ hfields).2 _ hf).obeys
  | payload hcases hc => exact hsigs.cases _ _ hcases _ hc _ rfl
  | member hmembers ht => exact hsigs.unions _ _ hmembers _ ht
  | target ht => exact (hsigs.aliases _ _ ht).obeys

/-- A run that reports nothing has no unknown types, and if the defaults of generic parameters are settled it
has no unresolved uses. -/
theorem Setup.resolved_of_silent {setup : Setup} {p : Program} (hbuilt : setup.source.Built)
    (hitems : setup.source.ItemsOnly) (hlink : setup.link.result = .ok p) (hsilent : setup.link.reports = []) :
    (∀ t, p.Records t → t.hasUnknown = false) ∧
      (p.signatures.DefaultsSettled setup.source →
        ∀ site u, p.usage? site = some u → u.copy ≠ .unresolved) := by
  let r : Regime := ⟨True, p.signatures.DefaultsSettled setup.source, True⟩
  have hsettled : r.settled → p.signatures.DefaultsSettled setup.source ∧ (¬r.silent → p.signatures.DefaultsClosed) :=
    fun hs => ⟨hs, fun hloud => absurd trivial hloud⟩
  obtain ⟨s, rfl, -, hfacts⟩ := setup.facts_of_link hbuilt.wellBuilt hitems hlink (r := r) trivial (fun _ => hsilent)
    hsettled
  have hknown : ¬(r.rules setup.source).unknown := fun hloud => hloud trivial
  refine ⟨fun t ht => (hfacts.obeys ht).hasUnknown hknown, fun hs site u hu => ?_⟩
  exact hfacts.usages trivial hs site u hu

/-! ### Defaults that mention parameters -/

/-- A call that leaves out an argument, `f(1)` for `fn f<A, B = A>(x: A)`. -/
def defaultedCall : Source := .ofSteps [
  .function "f",
  .generic ⟨0⟩ "A" none none,
  .typeExpr (.named ["A"] []),
  .generic ⟨0⟩ "B" none (some ⟨0⟩),
  .param ⟨0⟩ "x" ⟨0⟩ false,
  .function "main",
  .expr (.intLit 1),
  .callName "f" [] [⟨0⟩],
  .exprStmt ⟨2⟩,
  .block [⟨0⟩],
  .body ⟨4⟩ ⟨0⟩]

theorem resolved_defaultedCall : ∃ p, (defaultedCall.link {}).result = .ok p ∧
    p.usage? (.expr ⟨2⟩) = some ⟨⟨0⟩, .iteration ⟨0⟩⟩ ∧ (∀ t, p.Records t → t.hasUnknown = false) ∧
      ∀ site u, p.usage? site = some u → u.copy ≠ .unresolved := by
  obtain ⟨p, hlink, husage, hsettled⟩ : ∃ p, (defaultedCall.link {}).result = .ok p ∧
      p.usage? (.expr ⟨2⟩) = some ⟨⟨0⟩, .iteration ⟨0⟩⟩ ∧ p.signatures.DefaultsSettled defaultedCall :=
    exists_of_result (by decide +kernel)
  have hbuilt : defaultedCall.Built := Source.built_ofSteps _
  obtain ⟨hknown, hresolved⟩ := Setup.resolved_of_silent hbuilt (by decide +kernel) hlink (by decide +kernel)
  exact ⟨p, hlink, husage, hknown, hresolved hsettled⟩

/-- The same call for `fn f<A, B = A, C = B>(x: A)`. -/
def chainedCall : Source := .ofSteps [
  .function "f",
  .generic ⟨0⟩ "A" none none,
  .typeExpr (.named ["A"] []),
  .generic ⟨0⟩ "B" none (some ⟨0⟩),
  .typeExpr (.named ["B"] []),
  .generic ⟨0⟩ "C" none (some ⟨1⟩),
  .param ⟨0⟩ "x" ⟨0⟩ false,
  .function "main",
  .expr (.intLit 1),
  .callName "f" [] [⟨0⟩],
  .exprStmt ⟨2⟩,
  .block [⟨0⟩],
  .body ⟨5⟩ ⟨0⟩]

/-- Nothing is reported, and yet the call is unresolved. -/
theorem unresolved_chainedCall : chainedCall.Built ∧ chainedCall.ItemsOnly ∧
    ∃ p, (chainedCall.link {}).result = .ok p ∧ (chainedCall.link {}).reports = [] ∧
      p.usage? (.expr ⟨2⟩) = some ⟨⟨0⟩, .unresolved⟩ :=
  ⟨Source.built_ofSteps _, by decide +kernel, exists_of_result (by decide +kernel)⟩

end Linkage
