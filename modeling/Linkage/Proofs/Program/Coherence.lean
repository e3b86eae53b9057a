import Linkage.Proofs.Link.Outcome

/-!
# Struct literals and their copies

The type of a struct literal inside a generic declaration is recorded open, and a query closes it over the iterations
that a context selects: a parameter is looked up by its owner and its position there. The copy of the struct was
chosen by a subscription that puts the arguments of the host in the places of its parameters. The two agree, because
the type mentions no parameters but those of the host.
-/

namespace Linkage

namespace Ty

theorem argFor_cons (k : GenericId) (t : Ty) (params : List GenericId) (args : List Ty) (g : GenericId) :
    argFor (k :: params) (t :: args) g = if k = g then some t else argFor params args g := by
  rw [argFor, List.idxOf?_cons]
  by_cases hk : k = g
  · simp [hk]
  · simp only [beq_iff_eq, hk, if_false, argFor]
    cases params.idxOf? g with
    | none => rfl
    | some i => rfl

theorem argFor_found (σ : GenericId → Option Ty) (l : List GenericId) (g : GenericId) :
    argFor ((l.filterMap fun k => (σ k).map (k, ·)).map (·.1))
      ((l.filterMap fun k => (σ k).map (k, ·)).map (·.2)) g = if g ∈ l then σ g else none := by
  induction l with
  | nil => rfl
  | cons k l ih =>
    cases hk : σ k with
    | none =>
      rw [List.filterMap_cons, hk, Option.map_none, ih]
      by_cases hg : g = k
      · simp [hg, hk]
      · simp [hg]
    | some t =>
      rw [List.filterMap_cons, hk, Option.map_some, List.map_cons, List.map_cons, argFor_cons, ih]
      by_cases hg : k = g
      · simp [← hg, hk]
      · simp [hg, Ne.symm hg]

end Ty

namespace Program

variable {p : Program} {selected : Selection}

theorem close_eq_replace (p : Program) (selected : Selection) (t : Ty) :
    p.close selected t = t.replace (p.argument? selected) := by
  rw [close, Ty.subst_eq_replace]
  refine Ty.replace_congr fun g hg => ?_
  rw [Ty.argFor_found, if_pos (Ty.mem_params.2 hg)]

theorem close_linked (p : Program) (selected : Selection) (decl : DeclId) (args : List Ty) :
    p.close selected (.linked decl args) = .linked decl (args.map (·.replace (p.argument? selected))) := by
  rw [close_eq_replace, Ty.replace, Ty.replaceAll_eq]

/-- The copy that a struct literal makes in a context is made for the type that it has there. -/
def MakesIn (p : Program) (e : ExprId) (decl : DeclId) (c : Context) (j : IterationId) : Prop :=
  p.callIterationIn? e c = some j ∧
    ∃ args made, p.knownTypeIn? e c = some (.linked decl args) ∧ p.iterationArgs? decl j = some made ∧
      p.signatures.env.allSame args made = true

end Program

theorem Registry.iterationOf?_context (r : Registry) (decl : DeclId) (i : IterationId) :
    (r.context decl i).iterationOf? decl = some i := by
  rw [context, explore]
  simp [Context.iterationOf?]

theorem LinkState.makesIn_of_iteration {s : LinkState} {e : ExprId} {u : Usage} {args : List Ty}
    (hu : s.program.usage? (.expr e) = some u) {j : IterationId}
    (hj : u.copy = .iteration j) (htype : s.program.exprTypes.get? e = some (.linked u.decl args))
    (hsel : s.known.Selects u args) (c : Context) : s.program.MakesIn e u.decl c j := by
  rw [Known.Selects, hj] at hsel
  obtain ⟨hargs, it, hit, hsame⟩ := hsel
  refine ⟨?_, args, it.args, ?_, ?_, TypeEnv.allSame_symm hsame⟩
  · rw [Program.callIterationIn?, hu, Option.bind_some, Program.iterationUnder?, hj]
  · rw [Program.knownTypeIn?, Program.typeUnder?, htype, Option.map_some, Program.close_linked,
      List.map_congr_left fun a ha => Ty.replace_of_closed (hargs a ha) _, List.map_id']
  · exact congrArg (Option.map Iteration.args) hit

namespace Facts

variable {r : Regime} {src : Source} {s : LinkState}

theorem argument?_of_host (h : Facts r src [] s.known) (hbuilt : src.WellBuilt) {host : DeclId}
    (hhost : src.Owner host) {i : IterationId} {it : Iteration} (hit : s.program.registry.iteration? host i = some it)
    {selected : Program.Selection} (hselected : selected host = some i) {g : GenericId}
    (hg : g ∈ src.genericsOf host) :
    s.program.argument? selected g = Ty.argFor (src.genericsOf host) it.args g := by
  obtain ⟨k, hk⟩ := List.getElem?_of_mem hg
  have hparam : s.program.signatures.params.get? g = some ⟨host, k⟩ := h.signatures.params host hhost.2 k g hk
  rw [Ty.argFor_of_getElem? (hbuilt.nodup_genericsOf host) hk]
  simp [Program.argument?, hparam, hselected, hit]

/-- Closing the arguments of a literal in the context of a host iteration gives what its subscription calls
for there. -/
theorem map_replace_template (h : Facts r src [] s.known) (hsettled : r.settled) (hbuilt : src.WellBuilt)
    {id : SubscriptionId} {sub : Subscription} (hsub : s.program.registry.subscription? id = some sub)
    {i : IterationId} {it : Iteration} (hit : s.program.registry.iteration? sub.host i = some it) :
    sub.template.map (·.replace (s.program.argument? (s.program.registry.context sub.host i).iterationOf?)) =
      sub.targetArgs it.args := by
  have hhost : src.Owner sub.host := (h.orderly.of_iteration? hit).owner
  have hfits : sub.Fits r src := h.orderly.subscriptions sub (Registry.mem_subscriptions_of_get? hsub)
  rw [Subscription.targetArgs, Ty.substAll, hfits.hostParams]
  refine List.map_congr_left fun t ht => ?_
  rw [Ty.subst_eq_replace]
  refine Ty.replace_congr fun g hg => ?_
  refine h.argument?_of_host hbuilt hhost hit (Registry.iterationOf?_context _ _ _) ?_
  exact (hfits.template t ht).inScope g hg hsettled hhost.1

variable {e : ExprId} {u : Usage} {args : List Ty}

theorem makesIn_of_dependent (hfacts : Facts r src [] s.known) (hsettled : r.settled) (hbuilt : src.WellBuilt)
    (hu : s.program.usage? (.expr e) = some u) {id : SubscriptionId} (hid : u.copy = .dependent id)
    (htype : s.program.exprTypes.get? e = some (.linked u.decl args)) (hsel : s.known.Selects u args) :
    ∃ sub, s.program.registry.subscription? id = some sub ∧ ∀ h j, s.program.registry.mapped? id h = some j →
      s.program.MakesIn e u.decl (s.program.registry.context sub.host h) j := by
  rw [Known.Selects, hid] at hsel
  obtain ⟨sub, hsub, htarget, rfl⟩ := hsel
  have hsub : s.program.registry.subscription? id = some sub := hsub
  refine ⟨sub, hsub, fun h j hmapped => ?_⟩
  obtain ⟨sub', host, it, hsub', hhost, hit, hsame⟩ := hfacts.sound.mapped id h j hmapped
  obtain rfl := Option.some.inj (hsub.symm.trans hsub')
  rw [htarget] at hit
  have hselect : (s.program.registry.context sub.host h).iterationOf? sub.host = some h :=
    Registry.iterationOf?_context _ _ _
  refine ⟨?_, sub.targetArgs host.args, it.args, ?_, ?_, TypeEnv.allSame_symm hsame⟩
  · rw [Program.callIterationIn?, hu, Option.bind_some, Program.iterationUnder?, hid]
    simp [hsub, hselect, hmapped]
  · rw [Program.knownTypeIn?, Program.typeUnder?, htype, Option.map_some, Program.close_linked,
      hfacts.map_replace_template hsettled hbuilt hsub hhost]
  · exact congrArg (Option.map Iteration.args) hit

end Facts

/-- Where no default mentions a parameter, and a struct literal is linked once, the copy that it makes in a
context is made for the type that it has there: in every context if the copy is fixed, and otherwise in
those of the host iterations that the subscription was carried out for. -/
theorem Setup.literal_coherent {setup : Setup} {p : Program} (hbuilt : setup.source.Built)
    (hitems : setup.source.ItemsOnly) (hlink : setup.link.result = .ok p) (hclosed : p.signatures.DefaultsClosed)
    {e : ExprId} (he : setup.source.IsConstruct e) (honce : setup.link.linked.count e ≤ 1) {u : Usage}
    (hu : p.usage? (.expr e) = some u) :
    (∀ j, u.copy = .iteration j → ∀ c, p.MakesIn e u.decl c j) ∧
      ∀ id, u.copy = .dependent id → ∃ sub, p.registry.subscription? id = some sub ∧
        ∀ h j, p.registry.mapped? id h = some j → p.MakesIn e u.decl (p.registry.context sub.host h) j := by
  let r : Regime := ⟨False, True, True⟩
  obtain ⟨s, rfl, hlinked, hfacts⟩ := setup.facts_of_link hbuilt.wellBuilt hitems hlink (r := r) trivial nofun
    fun _ => ⟨hclosed.settled setup.source, fun _ => hclosed⟩
  have hselected : u.copy.isSelected = true → ∃ args,
      s.program.exprTypes.get? e = some (.linked u.decl args) ∧ s.known.Selects u args := by
    intro hsel
    obtain ⟨hmem, hcoherent⟩ := hfacts.coherent e he List.not_mem_nil u hu hsel
    refine hcoherent (Nat.le_antisymm ?_ (List.count_pos_iff.2 hmem))
    rw [← hlinked] at honce
    exact honce
  refine ⟨fun j hj c => ?_, fun id hid => ?_⟩
  · obtain ⟨args, htype, hsel⟩ := hselected (by rw [hj]; rfl)
    exact LinkState.makesIn_of_iteration hu hj htype hsel c
  · obtain ⟨args, htype, hsel⟩ := hselected (by rw [hid]; rfl)
    exact hfacts.makesIn_of_dependent trivial hbuilt.wellBuilt hu hid htype hsel

/-! ### Literals in a host -/

/-- A literal that depends on its host, `Box<U> {}` in `fn f<U>(x: U)`, which is called as `f(1)`. -/
def hostedLiteral : Source := .ofSteps [
  .typeExpr (.named ["int"] []),
  .struct "Box" .copy,
  .generic ⟨0⟩ "V" none none,
  .generic ⟨0⟩ "W" none (some ⟨0⟩),
  .function "f",
  .generic ⟨3⟩ "U" none none,
  .typeExpr (.named ["U"] []),
  .param ⟨3⟩ "x" ⟨1⟩ false,
  .typeExpr (.named ["Box"] [⟨1⟩]),
  .expr (.construct ⟨2⟩ []),
  .exprStmt ⟨0⟩,
  .block [⟨0⟩],
  .body ⟨3⟩ ⟨0⟩,
  .function "main",
  .expr (.intLit 1),
  .callName "f" [] [⟨1⟩],
  .exprStmt ⟨3⟩,
  .block [⟨1⟩],
  .body ⟨6⟩ ⟨1⟩]

theorem coherent_hostedLiteral : ∃ p, (hostedLiteral.link {}).result = .ok p ∧
    p.usage? (.expr ⟨0⟩) = some ⟨⟨0⟩, .dependent ⟨0⟩⟩ ∧
      p.MakesIn ⟨0⟩ ⟨0⟩ (p.registry.context ⟨3⟩ ⟨0⟩) ⟨0⟩ := by
  obtain ⟨p, hlink, hclosed, husage, hhost, hmapped⟩ : ∃ p, (hostedLiteral.link {}).result = .ok p ∧
      p.signatures.DefaultsClosed ∧ p.usage? (.expr ⟨0⟩) = some ⟨⟨0⟩, .dependent ⟨0⟩⟩ ∧
        (p.registry.subscription? ⟨0⟩).map (·.host) = some ⟨3⟩ ∧ p.registry.mapped? ⟨0⟩ ⟨0⟩ = some ⟨0⟩ :=
    exists_of_result (by decide +kernel)
  have hbuilt : hostedLiteral.Built := Source.built_ofSteps _
  have hconstruct : hostedLiteral.IsConstruct ⟨0⟩ := ⟨_, _, _, rfl⟩
  obtain ⟨-, hdependent⟩ := Setup.literal_coherent hbuilt (by decide +kernel) hlink hclosed hconstruct
    (by decide +kernel) husage
  obtain ⟨sub, hsub, hmakes⟩ := hdependent ⟨0⟩ rfl
  rw [hsub, Option.map_some] at hhost
  have hmakes := hmakes ⟨0⟩ ⟨0⟩ hmapped
  rw [Option.some.inj hhost] at hmakes
  exact ⟨p, hlink, husage, hmakes⟩

/-- A literal `Box<ns::T> {}` in `fn f<U>(s: S<U>)`, where the parameter `T` of `S` was put in a namespace. -/
def strayLiteral : Source := .ofSteps [
  .struct "S" .copy,
  .generic ⟨0⟩ "T" none none,
  .space "ns",
  .nest ⟨2⟩ ⟨1⟩,
  .struct "Box" .copy,
  .generic ⟨3⟩ "V" none none,
  .function "f",
  .generic ⟨5⟩ "U" none none,
  .typeExpr (.named ["U"] []),
  .typeExpr (.named ["S"] [⟨0⟩]),
  .param ⟨5⟩ "s" ⟨1⟩ false,
  .typeExpr (.named ["ns", "T"] []),
  .typeExpr (.named ["Box"] [⟨2⟩]),
  .expr (.construct ⟨3⟩ []),
  .exprStmt ⟨0⟩,
  .block [⟨0⟩],
  .body ⟨5⟩ ⟨0⟩,
  .function "main",
  .typeExpr (.named ["int"] []),
  .typeExpr (.named ["S"] [⟨4⟩]),
  .expr (.construct ⟨5⟩ []),
  .callName "f" [] [⟨1⟩],
  .exprStmt ⟨3⟩,
  .block [⟨1⟩],
  .body ⟨8⟩ ⟨1⟩]

/-- The copy is made for the parameter of `S`, which the subscription leaves as it is. A query closes it over
the copy of `S` that `f` uses. -/
theorem incoherent_strayLiteral : strayLiteral.Built ∧ strayLiteral.IsConstruct ⟨0⟩ ∧
    (strayLiteral.link {}).linked.Nodup ∧ ∃ p, (strayLiteral.link {}).result = .ok p ∧
      p.signatures.DefaultsClosed ∧ p.usage? (.expr ⟨0⟩) = some ⟨⟨3⟩, .dependent ⟨1⟩⟩ ∧
        (p.registry.subscription? ⟨1⟩).map (·.host) = some ⟨5⟩ ∧ (p.registry.iteration? ⟨5⟩ ⟨0⟩).isSome = true ∧
          p.registry.mapped? ⟨1⟩ ⟨0⟩ = some ⟨0⟩ ∧ ∀ j, ¬p.MakesIn ⟨0⟩ ⟨3⟩ (p.registry.context ⟨5⟩ ⟨0⟩) j := by
  obtain ⟨p, hlink, hclosed, husage, hhost, hiteration, hmapped, hcall, htype, hargs, hdiffer⟩ :
      ∃ p, (strayLiteral.link {}).result = .ok p ∧ p.signatures.DefaultsClosed ∧
        p.usage? (.expr ⟨0⟩) = some ⟨⟨3⟩, .dependent ⟨1⟩⟩ ∧ (p.registry.subscription? ⟨1⟩).map (·.host) = some ⟨5⟩ ∧
          (p.registry.iteration? ⟨5⟩ ⟨0⟩).isSome = true ∧ p.registry.mapped? ⟨1⟩ ⟨0⟩ = some ⟨0⟩ ∧
            p.callIterationIn? ⟨0⟩ (p.registry.context ⟨5⟩ ⟨0⟩) = some ⟨0⟩ ∧
              p.knownTypeIn? ⟨0⟩ (p.registry.context ⟨5⟩ ⟨0⟩) = some (.linked ⟨3⟩ [.prim (.int 64 true)]) ∧
                p.iterationArgs? ⟨3⟩ ⟨0⟩ = some [.param ⟨0⟩] ∧
                  p.signatures.env.allSame [.prim (.int 64 true)] [.param ⟨0⟩] = false :=
    exists_of_result (by decide +kernel)
  refine ⟨Source.built_ofSteps _, ⟨_, _, _, rfl⟩, by decide +kernel, p, hlink, hclosed, husage, hhost, hiteration,
    hmapped, fun j ⟨hj, args, made, hknown, hmade, hsame⟩ => ?_⟩
  obtain rfl := Option.some.inj (hcall.symm.trans hj)
  obtain ⟨-, rfl⟩ := Ty.linked.inj (Option.some.inj (htype.symm.trans hknown))
  obtain rfl := Option.some.inj (hargs.symm.trans hmade)
  rw [hdiffer] at hsame
  exact Bool.false_ne_true hsame

end Linkage
