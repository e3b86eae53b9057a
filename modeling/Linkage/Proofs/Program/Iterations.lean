import Linkage.Proofs.Program.Coherence

/-!
# Iterations are closed

A use whose arguments are closed asks for its iteration directly. One whose arguments mention parameters of its host
waits for the iterations of the host, whose arguments stand in the places of all the parameters that its own mention.
That they mention no others takes names to lead to them only inside the host. A namespace can be given a generic
parameter, or a variable whose type mentions one, and a path through it leads there from anywhere.
-/

namespace Linkage

/-- Where no default mentions a parameter, every iteration has an argument for each parameter of its
declaration, and its arguments are closed and known. This is so for those that were asked for directly and
for those that were created on the way. -/
theorem Setup.iterations_closed {setup : Setup} {p : Program} (hbuilt : setup.source.Built)
    (hitems : setup.source.ItemsOnly) (hlink : setup.link.result = .ok p) (hclosed : p.signatures.DefaultsClosed) :
    ∀ it ∈ p.registry.iterations, it.args.length = (setup.source.genericsOf it.decl).length ∧
      ∀ a ∈ it.args, a.isOpen = false ∧ a.hasUnknown = false := by
  let r : Regime := ⟨False, True, True⟩
  obtain ⟨s, rfl, -, hfacts⟩ := setup.facts_of_link hbuilt.wellBuilt hitems hlink (r := r) trivial nofun
    fun _ => ⟨hclosed.settled setup.source, fun _ => hclosed⟩
  intro it hit
  have hiterates : r.Iterates setup.source it.decl it.args := hfacts.orderly.iterations it hit
  refine ⟨hiterates.arity.2.2, fun a ha => ?_⟩
  have hfits := hiterates.args a ha
  exact ⟨Ty.isOpen_eq_false_iff.2 fun g hg => hfits.inScope g hg trivial, hfits.obeys.hasUnknown id⟩

/-- The copy of `Box` is made on the way, for the arguments of `f` in `main`. -/
theorem closed_hostedLiteral : ∃ p, (hostedLiteral.link {}).result = .ok p ∧
    ∃ it ∈ p.registry.iterations, it.decl = ⟨0⟩ ∧ 0 < it.depth ∧
      it.args.length = (hostedLiteral.genericsOf it.decl).length ∧
        ∀ a ∈ it.args, a.isOpen = false ∧ a.hasUnknown = false := by
  obtain ⟨p, hlink, hclosed, it, hit, hdecl, hdepth⟩ : ∃ p, (hostedLiteral.link {}).result = .ok p ∧
      p.signatures.DefaultsClosed ∧ ∃ it ∈ p.registry.iterations, it.decl = ⟨0⟩ ∧ 0 < it.depth :=
    exists_of_result (by decide +kernel)
  have hbuilt : hostedLiteral.Built := Source.built_ofSteps _
  exact ⟨p, hlink, it, hit, hdecl, hdepth, Setup.iterations_closed hbuilt (by decide +kernel) hlink hclosed it hit⟩

/-! ### Strays in namespaces -/

/-- No default mentions a parameter, and some iteration is open all the same. -/
def Source.MakesOpen (src : Source) : Prop :=
  ∃ p, (src.link {}).result = .ok p ∧ p.signatures.DefaultsClosed ∧
    ∃ it ∈ p.registry.iterations, ∃ a ∈ it.args, a.isOpen = true

/-- A field of type `Box<ns::T>` in `struct Host<U>`, which is used as `Host<int>`. The parameter `T` of `S`
was put in the namespace. -/
def strayField : Source := .ofSteps [
  .struct "S" .copy,
  .generic ⟨0⟩ "T" none none,
  .space "ns",
  .nest ⟨2⟩ ⟨1⟩,
  .struct "Box" .copy,
  .generic ⟨3⟩ "V" none none,
  .struct "Host" .copy,
  .generic ⟨5⟩ "U" none none,
  .typeExpr (.named ["ns", "T"] []),
  .typeExpr (.named ["Box"] [⟨0⟩]),
  .field ⟨5⟩ "box" ⟨1⟩,
  .function "main",
  .typeExpr (.named ["int"] []),
  .typeExpr (.named ["Host"] [⟨2⟩]),
  .param ⟨7⟩ "h" ⟨3⟩ false]

/-- A literal `Box { v: ns::z }` in `fn g<W>()`, which is called as `g<int>()`. The local `z` of `fn f<U>(x: U)`,
whose type is `U`, was put in the namespace. -/
def strayLocal : Source := .ofSteps [
  .struct "Box" .copy,
  .generic ⟨0⟩ "V" none none,
  .typeExpr (.named ["V"] []),
  .field ⟨0⟩ "v" ⟨0⟩,
  .function "f",
  .generic ⟨2⟩ "U" none none,
  .typeExpr (.named ["U"] []),
  .param ⟨2⟩ "x" ⟨1⟩ false,
  .expr (.name "x"),
  .binding "z" none (some ⟨0⟩) false false,
  .block [⟨0⟩],
  .body ⟨2⟩ ⟨0⟩,
  .space "ns",
  .nest ⟨6⟩ ⟨5⟩,
  .function "g",
  .generic ⟨7⟩ "W" none none,
  .expr (.path ["ns", "z"]),
  .typeExpr (.named ["Box"] []),
  .expr (.construct ⟨2⟩ [("v", ⟨1⟩)]),
  .exprStmt ⟨2⟩,
  .block [⟨1⟩],
  .body ⟨7⟩ ⟨1⟩,
  .function "main",
  .typeExpr (.named ["int"] []),
  .callName "g" [⟨3⟩] [],
  .exprStmt ⟨4⟩,
  .block [⟨2⟩],
  .body ⟨9⟩ ⟨2⟩]

/-- In both, the copy of `Box` is made for a parameter that is not one of its host, which stays where it is. -/
theorem makesOpen_strays : (strayField.Built ∧ strayField.MakesOpen) ∧ strayLocal.Built ∧ strayLocal.MakesOpen :=
  ⟨⟨Source.built_ofSteps _, exists_of_result (by decide +kernel)⟩,
    Source.built_ofSteps _, exists_of_result (by decide +kernel)⟩

end Linkage
