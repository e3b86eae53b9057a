import Linkage.Proofs.Link.Naming
import Linkage.Proofs.Link.Stmts

/-!
# Linking declarations

The passes over the declarations fill the signatures, one table after the other, and what each of them writes fits the
declaration it is written for. Those over generic parameters and over aliases only mention types, so they leave the
registry empty. That matters for aliases, on which it depends which types count as the same. The defaults of generic
parameters are complete after the first of the two, and only then can be said whether they are settled.
-/

namespace Linkage

/-- Nothing is known but generic parameters, with their bounds and defaults. -/
structure Known.Early (k : Known) : Prop where
  registry : k.registry = {}
  usages : k.usages = {}
  functions : k.signatures.functions = {}
  fields : k.signatures.fields = {}
  aliasTargets : k.signatures.aliasTargets = {}

theorem Known.Early.orderly {k : Known} (h : k.Early) (hrefused : k.refused ≠ [] → k.reports ≠ [])
    {P : DeclId → List Ty → Prop} {Q : Subscription → Prop} : k.instances.Orderly P Q := by
  have hregistry : k.instances.registry = {} := h.registry
  refine ⟨?_, ?_, hrefused⟩
  all_goals
    rw [hregistry]
    exact nofun

/-- Once the defaults are linked, it can be said whether they are settled. Nothing else that is known yet
depends on that. -/
theorem Outside.settle {r r' : Regime} {src : Source} {s : LinkState} (h : Outside r src s) (hearly : s.known.Early)
    (hsilent : r'.silent = r.silent) (hpart : ¬r.whole) (hpart' : ¬r'.whole)
    (hsettled : r'.settled → s.signatures.DefaultsSettled src ∧ (¬r'.silent → s.signatures.DefaultsClosed)) :
    Outside r' src s := by
  have hrules : r'.rules src = r.rules src := by rw [Regime.rules, Regime.rules, hsilent]
  have hsigs := h.facts.signatures
  refine ⟨?_, h.sees, h.loud⟩
  exact {
    signatures := {
      generics := hsigs.generics
      params := hsigs.params
      bounds := hrules ▸ hsigs.bounds
      defaults := hrules ▸ hsigs.defaults
      declared := hsigs.declared
      mentions := fun g t ht d hd hg k hk hstrict => by
        have hmention : r'.silent ∧ src.hasDefault k = false := by
          rcases hstrict with hs | ⟨-, hquiet, hdefault⟩
          · obtain ⟨hall, hclosed⟩ := hsettled hs
            refine ⟨Classical.by_contradiction fun hloud => ?_, hall g t ht k hk⟩
            exact Ty.isOpen_eq_false_iff.1 (hclosed hloud g t ht) k hk
          · exact ⟨hquiet, hdefault⟩
        rw [hsilent] at hmention ⊢
        exact hsigs.mentions g t ht d hd hg k hk (.inr ⟨hpart, hmention⟩)
      aliases := fun d t ht => by simp [hearly.aliasTargets, Table.get?] at ht
      functions := fun d sig hsig => by simp [hearly.functions, Table.get?] at hsig
      fields := fun d fields hfields => by simp [hearly.fields, Table.get?] at hfields
      cases := hrules ▸ hsigs.cases
      unions := hrules ▸ hsigs.unions
      declTypes := hrules ▸ hsigs.declTypes }
    whole := fun hwhole => absurd hwhole hpart'
    paramTypes := fun d sig hsig => by simp [hearly.functions, Table.get?] at hsig
    bodies := h.facts.bodies
    exprTypes := hrules ▸ h.facts.exprTypes
    usages := fun _ _ site u hu => by simp [hearly.usages, Table.get?] at hu
    sound := h.facts.sound
    orderly := hearly.orderly h.facts.orderly.refused
    coherent := h.facts.coherent }

/-- The tables that linking an annotation looks at. -/
def Signatures.tables (sigs : Signatures) :=
  (sigs.generics, sigs.bounds, sigs.defaults, sigs.aliasTargets, sigs.unionMembers, sigs.implements)

namespace Link

variable {α β : Type} {env : LinkEnv} {r : Regime} {cur : DeclId} {busy : List ExprId} {s s' : LinkState}
  {P : Prop} {host : Option DeclId}

/-! ### What the passes are made of -/

section Compound

variable {T : (α : Type) → LinkM α → Prop} (h : Compound T)
  (hconsults : ∀ {α : Type} {act : LinkM α}, Consults act → T α act)

include h hconsults

omit hconsults in
theorem Compound.linkMention {record : Ty → LinkM Unit} (hlink : ∀ id, T Ty (linkTypeAt host .mention id))
    (hrecord : ∀ ty, T Unit (record ty)) (id : Option TypeExprId) : T Unit (linkMention host record id) := by
  cases id with
  | none => exact h.pure _
  | some id => exact h.bind (hlink id) hrecord

theorem Compound.linkGenericParam {g : GenericId} (hlink : ∀ id, T Ty (linkTypeAt host .mention id))
    (hbound : ∀ ty, T Unit (recordBound g ty)) (hdefault : ∀ ty, T Unit (recordDefault g ty)) :
    T Unit (linkGenericParam host g) := by
  rw [linkGenericParam_eq]
  refine h.bind (hconsults (consults_genericOf g)) fun param => ?_
  exact h.bind (h.linkMention hlink hbound _) fun _ => h.linkMention hlink hdefault _

theorem Compound.linkInterface {id : TypeExprId} (hlink : T Ty (linkTypeAt host .mention id))
    (hreport : ∀ span ty, T Unit (report span (.notInterface ty))) : T (List DeclId) (linkInterface host id) := by
  rw [linkInterface_eq]
  refine h.bind hlink fun ty => h.bind ?_ fun isInterface => ?_
  · cases ty with
    | linked target _ => exact h.bind (hconsults (consults_declOf target)) fun _ => h.pure _
    | _ => exact h.pure _
  · unfold interfaceAt
    split
    · exact h.pure _
    · exact h.pure _
    · have hnode : Consults (do ofOption id ((← source).typeExpr? id)) :=
        .source (fun _ => consults_ofOption _ _) fun _ _ => rfl
      have hall := h.bind (hconsults hnode) fun node =>
        h.bind (hconsults (consults_showTy ty)) fun shown => h.bind (hreport node.span shown) fun _ => h.pure ([] : List DeclId)
      rwa [bind_assoc] at hall

theorem Compound.linkOwnership {decl : DeclId} (hfunction : ∀ name, T (Option DeclId) (functionNamed? name))
    (hreport : ∀ span name owner, T Unit (report span (.noDestructor name owner)))
    (hwrite : ∀ destructor : Option DeclId, T Unit (onSignatures fun sigs =>
      { sigs with disposals := sigs.disposals.insert decl (.owned destructor) }))
    (ownership : Ownership) : T Unit (linkOwnership decl ownership) := by
  cases ownership with
  | copy => exact h.pure _
  | owned name =>
    unfold Link.linkOwnership
    cases name with
    | none => exact h.bind (h.pure _) hwrite
    | some name =>
      dsimp only
      rw [resolveDestructor_eq]
      refine h.bind (h.bind (hfunction name) fun found => ?_) hwrite
      cases found with
      | some found => exact h.pure _
      | none => exact h.bind (hconsults (consults_declOf decl)) fun d => h.bind (hreport _ _ _) fun _ => h.pure _

theorem Compound.linkSignatureKind (hlink : ∀ id, T Ty (linkTypeAt host .use id))
    (hthrow : ∀ {α : Type} fault, T α (throw fault))
    (hwrite : ∀ f : Signatures → Signatures, (∀ sigs, (f sigs).tables = sigs.tables) → T Unit (onSignatures f))
    (decl : DeclId) (kind : DeclKind) : T Unit (linkSignatureKind decl host kind) := by
  have hoptional : ∀ absent id, T Ty (linkOptional host absent id) := by
    intro absent id
    cases id with
    | none => exact h.pure _
    | some id => exact hlink id
  have hparam : ∀ param, T ParamSig (linkParam host param) := by
    intro param
    refine h.bind (hconsults (consults_declOf param)) fun d => ?_
    split
    · exact h.bind (hlink _) fun ty => h.bind (hwrite _ fun _ => rfl) fun _ => h.pure _
    · exact hthrow _
  cases kind with
  | function f =>
    refine h.bind (h.mapM fun param _ => hparam param) fun params => ?_
    exact h.bind (hoptional _ _) fun ret => hwrite _ fun _ => rfl
  | struct st =>
    exact h.bind (h.mapM fun f _ => h.bind (hlink f.ty) fun _ => h.pure _) fun fields => hwrite _ fun _ => rfl
  | variant v =>
    refine h.bind (h.mapM fun c _ => h.bind (h.option fun id _ => hlink id) fun _ => h.pure _) fun cases => ?_
    exact hwrite _ fun _ => rfl
  | var v => exact h.bind (hoptional _ _) fun ty => hwrite _ fun _ => rfl
  | parameter p => exact hthrow _
  | interface | union | typeAlias | genericParam | space => exact h.pure _

end Compound

section Framed

variable {ρ : LinkState → LinkState → Prop} [Sequential ρ] [Enclosed ρ]

theorem framed_linkGenericParams {decl : DeclId} (hlink : ∀ host id, Framed ρ (linkTypeAt host .mention id))
    (hbound : ∀ g ty, Framed ρ (recordBound g ty)) (hdefault : ∀ g ty, Framed ρ (recordDefault g ty)) :
    Framed ρ (linkGenericParams decl) := by
  refine .bind (looks_declOf decl).framed fun d => ?_
  dsimp only
  split
  · exact .pure _
  · refine framed_inGenerics fun host => .forM fun g _ => ?_
    exact compound_framed.linkGenericParam (·.looks.framed) (hlink host) (hbound g) (hdefault g)

theorem framed_linkAlias {decl : DeclId} (hlink : ∀ host id, Framed ρ (linkTypeAt host .mention id))
    (htarget : ∀ ty, Framed ρ (onSignatures fun sigs => { sigs with aliasTargets := sigs.aliasTargets.insert decl ty })) :
    Framed ρ (linkAlias decl) := by
  refine .bind (looks_declOf decl).framed fun d => ?_
  split
  · exact framed_inGenerics fun host => .bind (hlink host _) htarget
  · exact .pure _

end Framed

/-! ### Writing signatures -/

def core (sigs : Signatures) := (sigs.functions, sigs.declTypes, sigs.aliasTargets, sigs.generics)

theorem yields_onSignatures {f : Signatures → Signatures} (hcore : ∀ sigs, core (f sigs) = core sigs)
    (hdefaults : r.settled → ∀ sigs, (f sigs).defaults = sigs.defaults)
    (hfit : ∀ sigs, P → SignaturesFit r env.source sigs → SignaturesFit r env.source (f sigs)) :
    Yields r env cur busy P (onSignatures f) fun _ => True := by
  intro s u s' h
  obtain rfl := runs_modify.1 h
  have hcore := hcore s.program.signatures
  simp only [core, Prod.mk.injEq] at hcore
  obtain ⟨hfunctions, hlocals, haliases, hgenerics⟩ := hcore
  have hlater : s.Later r.settled s := .refl s
  refine ⟨{ hlater with functions := ?_, generics := hgenerics, defaults := ?_ }, ?_⟩
  · intro d hd
    show (f s.program.signatures).functions.contains d = true
    rwa [hfunctions]
  · exact fun hsettled => hdefaults hsettled _
  · refine fun hP hat _ => ⟨⟨?_, ⟨hat.sees.spaces, fun frame hframe name d hd => ?_⟩, hat.loud⟩, trivial⟩
    · refine hat.facts.withTypes (hfit _ hP hat.facts.signatures) hfunctions hlocals ?_
      funext d args
      show ((f s.program.signatures).aliasTargets.get? d).map _ = _
      rw [haliases, Signatures.genericsOf, hgenerics]
      rfl
    · exact (hat.sees.frames frame hframe name d hd).congr hlocals

theorem yields_linkTypeAt (hhost : Hosts env.source cur host) (usage : TypeUse) (id : TypeExprId) :
    Yields r env cur busy True (linkTypeAt host usage id) (r.Fits env.source cur) :=
  fun _ _ _ h => linkTypeAt_keeps hhost h

theorem advances_inNamespaces {act : LinkM α}
    (h : ∀ s a s', Runs env act s a s' → s'.scopes = s.scopes ∧ Keeps r env.source cur [] s True s' True) :
    Advances r env (Outside r env.source) (inNamespaces cur act) := by
  intro s a s' hrun
  obtain ⟨hscopes, hkeeps⟩ := inNamespaces_keeps hrun fun scopes s' => h _ a s'
  exact ⟨hkeeps.later, fun hout hquiet => (hout.leave hkeeps hscopes trivial hquiet).1⟩

/-! ### Generic parameters -/

theorem yields_linkMention (hhost : Hosts env.source cur host) {record : Ty → LinkM Unit} {id : Option TypeExprId}
    (hrecord : id.isSome = true → ∀ ty, Yields r env cur busy (r.Fits env.source cur ty) (record ty) fun _ => True) :
    Yields r env cur busy True (linkMention host record id) fun _ => True := by
  cases id with
  | none => exact .pure fun h => h
  | some id => exact .bind (yields_linkTypeAt hhost .mention id) (hrecord rfl)

theorem yields_linkGenericParam (hloose : ¬r.settled) (hbuilt : env.source.WellBuilt)
    (hhost : Hosts env.source cur host) {g : GenericId} (hg : g ∈ env.source.genericsOf cur) :
    Yields r env cur busy True (linkGenericParam host g) fun _ => True := by
  intro s u s' h
  rw [linkGenericParam_eq, runs_bind] at h
  obtain ⟨param, _, hrun, h⟩ := h
  obtain ⟨hparam, rfl⟩ := runs_genericOf.1 hrun
  refine Yields.bind (yields_linkMention hhost fun _ ty => ?_) (fun _ => yields_linkMention hhost fun hsome ty => ?_) s u s' h
  · refine yields_onSignatures (fun _ => rfl) (absurd · hloose) fun sigs hty hfit => ?_
    exact { hfit with bounds := Table.forall_insert hfit.bounds hty.obeys }
  · have hdeclared : env.source.hasDefault g = true := by
      rw [Source.hasDefault, hparam]
      exact hsome
    refine yields_onSignatures (fun _ => rfl) (absurd · hloose) fun sigs hty hfit => ?_
    exact { hfit with
      defaults := Table.forall_insert hfit.defaults hty.obeys
      declared := Table.forall_insert hfit.declared hdeclared
      mentions := Table.forall_insert hfit.mentions fun d _ hd k hk hstrict => by
        obtain rfl := hbuilt.eq_of_generic hg hd
        obtain ⟨-, hsilent, hnone⟩ := hstrict.resolve_left hloose
        exact ⟨hsilent, hty.inScope k hk hstrict, hnone⟩ }

theorem linkGenericParams_keeps (hloose : ¬r.settled) (hbuilt : env.source.WellBuilt) {u : Unit}
    (h : Runs env (linkGenericParams cur) s u s') :
    s'.scopes = s.scopes ∧ Keeps r env.source cur busy s True s' True := by
  simp only [linkGenericParams, runs_bind, runs_declOf] at h
  obtain ⟨d, _, ⟨hd, rfl⟩, h⟩ := h
  split at h
  · obtain ⟨-, rfl⟩ := runs_pure.1 h
    exact ⟨rfl, .refl fun h _ => h⟩
  · exact inGenerics_keeps hbuilt h fun host hhost scopes s' =>
      Yields.forM (fun g hg => yields_linkGenericParam hloose hbuilt hhost (Source.genericsOf_eq hd ▸ hg)) _ u s'

/-! ### Before anything is used -/

/-- What a run did not spoil. -/
def Stays (inv : Known → Prop) (s s' : LinkState) : Prop := inv s.known → inv s'.known

instance (inv : Known → Prop) : Sequential (Stays inv) where
  refl _ h := h
  trans h h' hs := h' (h hs)

instance (inv : Known → Prop) : Enclosed (Stays inv) where
  close _ h := h

variable {inv : Known → Prop}

theorem stays_mention (hinv : ∀ k reports, inv k → inv { k with reports := reports })
    (host : Option DeclId) (id : TypeExprId) : Framed (Stays inv) (linkTypeAt host .mention id) := by
  intro env s hs
  have hminor : Minor s _ := minor_of_mention (steps_linkTypeAt host .mention id) env s
  rw [hminor.known]
  exact hinv _ _ hs

theorem stays_onSignatures {f : Signatures → Signatures}
    (h : ∀ k, inv k → inv { k with signatures := f k.signatures }) : Framed (Stays inv) (onSignatures f) :=
  .modify fun s => h s.known

theorem stays_linkGenericParams (decl : DeclId) : Framed (Stays Known.Early) (linkGenericParams decl) := by
  refine framed_linkGenericParams (stays_mention fun _ _ h => ⟨h.1, h.2, h.3, h.4, h.5⟩) (fun g ty => ?_) fun g ty => ?_
  · exact stays_onSignatures fun _ h => ⟨h.1, h.2, h.3, h.4, h.5⟩
  · exact stays_onSignatures fun _ h => ⟨h.1, h.2, h.3, h.4, h.5⟩

/-! ### Aliases -/

theorem stays_linkAlias (decl : DeclId) : Framed (Stays fun k => k.registry = {}) (linkAlias decl) :=
  framed_linkAlias (stays_mention fun _ _ h => h) fun _ => stays_onSignatures fun _ h => h

theorem recordAlias_keeps {target : Ty} {u : Unit}
    (h : Runs env (onSignatures fun sigs => { sigs with aliasTargets := sigs.aliasTargets.insert cur target })
      s u s') :
    Keeps r env.source cur busy s (r.Fits env.source cur target ∧ s.known.registry = {}) s' True := by
  obtain rfl := runs_modify.1 h
  refine ⟨LinkState.later_of_eq rfl, fun ⟨hfits, hempty⟩ hat _ => ⟨⟨?_, ⟨hat.sees.spaces, ?_⟩, hat.loud⟩, trivial⟩⟩
  · refine hat.facts.withSignatures ?_ (fun _ h => h) hat.facts.paramTypes ?_ fun v args hv => ?_
    · exact { hat.facts.signatures with aliases := Table.forall_insert hat.facts.signatures.aliases hfits }
    · rw [hempty]
      exact Registry.sound_empty _
    · have hnone : ∀ i, s.known.registry.iteration? v.decl i = none := by
        intro i
        rw [hempty]
        rfl
      unfold Known.Selects at hv ⊢
      split at hv
      · rename_i i _
        obtain ⟨-, it, hit, -⟩ := hv
        rw [hnone] at hit
        exact nomatch hit
      all_goals exact hv
  · exact fun frame hframe name d hd => (hat.sees.frames frame hframe name d hd).congr rfl

theorem linkAlias_keeps (hbuilt : env.source.WellBuilt) {u : Unit} (h : Runs env (linkAlias cur) s u s') :
    s'.scopes = s.scopes ∧ Keeps r env.source cur busy s (s.known.registry = {}) s' True := by
  simp only [linkAlias, runs_bind, runs_declOf] at h
  obtain ⟨d, _, ⟨-, rfl⟩, h⟩ := h
  split at h
  · rename_i a _
    refine inGenerics_keeps hbuilt h fun host hhost scopes s' h => ?_
    simp only [runs_bind] at h
    obtain ⟨target, s₁, hlink, hrecord⟩ := h
    have hempty : Stays (fun k => k.registry = {}) { s with scopes := scopes } s₁ :=
      (stays_mention (fun _ _ h => h) host a.target).of_runs hlink
    refine ((linkTypeAt_keeps hhost hlink).imp (fun _ => trivial) fun hs hfits => ?_).trans (recordAlias_keeps hrecord)
    exact ⟨hfits, hempty hs⟩
  · obtain ⟨-, rfl⟩ := runs_pure.1 h
    exact ⟨rfl, .refl fun _ _ => trivial⟩

theorem advances_linkAlias (hbuilt : env.source.WellBuilt) (decl : DeclId) :
    Advances r env (fun s => Outside r env.source s ∧ s.known.registry = {})
      (inNamespaces decl (linkAlias decl)) := by
  intro s u s' h
  obtain ⟨hscopes, hkeeps⟩ : _ ∧ Keeps r env.source decl [] s (s.known.registry = {}) s' True :=
    inNamespaces_keeps h fun scopes s' h => linkAlias_keeps hbuilt h
  refine ⟨hkeeps.later, fun ⟨hout, hempty⟩ hquiet => ⟨(hout.leave hkeeps hscopes hempty hquiet).1, ?_⟩⟩
  exact (framed_inNamespaces (stays_linkAlias decl)).of_runs h hempty

/-! ### Unions and structs -/

theorem looks_functionNamed? (name : String) : Looks (functionNamed? name) := by
  refine .bind .get fun s => ?_
  split
  · exact .bind (looks_declOf _) fun _ => .pure _
  · exact .pure _

theorem yields_linkOwnership (decl : DeclId) (ownership : Ownership) :
    Yields r env cur busy True (linkOwnership decl ownership) fun _ => True := by
  have hcompound : Compound fun α (act : LinkM α) => Yields r env cur busy True act fun _ => True :=
    ⟨fun _ => .pure fun h => h, .bind⟩
  refine hcompound.linkOwnership (fun hact => .minor (hact.looks.framed _))
    (fun name => .minor ((looks_functionNamed? name).framed _)) (fun span _ _ => .minor (minor_report span _ _))
    (fun destructor => ?_) ownership
  exact yields_onSignatures (fun _ => rfl) (fun _ _ => rfl) fun sigs _ hfit => { hfit with generics := hfit.generics }

theorem yields_linkTypeFacts (hhost : Hosts env.source cur host) :
    Yields r env cur busy True (do
      match (← declOf cur).kind with
      | .union u =>
        let members ← u.members.mapM (linkTypeAt host .use)
        onSignatures fun sigs => { sigs with unionMembers := sigs.unionMembers.insert cur members }
      | .struct s =>
        let interfaces := (← s.implements.mapM (linkInterface host)).flatten
        unless interfaces.isEmpty do
          onSignatures fun sigs => { sigs with implements := sigs.implements.insert cur interfaces }
        linkOwnership cur s.ownership
      | _ => return) fun _ => True := by
  refine .bind (.looks (looks_declOf cur)) fun d => ?_
  split
  · refine .bind (.mapM fun id _ => yields_linkTypeAt hhost .use id) fun members => ?_
    refine yields_onSignatures (fun _ => rfl) (fun _ _ => rfl) fun sigs hmembers hfit => ?_
    exact { hfit with unions := Table.forall_insert hfit.unions fun t ht => (hmembers t ht).obeys }
  · rename_i st _
    have hinterface : ∀ id, Framed Minor (linkInterface host id) := fun id =>
      compound_framed.linkInterface (·.looks.framed) (minor_of_mention (steps_linkTypeAt host .mention id))
        fun span _ => minor_report span _
    refine .bind (.minor (.mapM fun id _ => hinterface id _)) fun interfaces => ?_
    dsimp only
    split
    · exact yields_linkOwnership cur st.ownership
    · refine .bind (yields_onSignatures (fun _ => rfl) (fun _ _ => rfl) fun sigs _ hfit => ?_) fun _ =>
        yields_linkOwnership cur st.ownership
      exact { hfit with generics := hfit.generics }
  · exact .pure fun h => h

theorem advances_linkTypeFacts (hbuilt : env.source.WellBuilt) (decl : DeclId) :
    Advances r env (Outside r env.source) (inNamespaces decl (linkTypeFacts decl)) := by
  refine advances_inNamespaces fun s u s' h => inGenerics_keeps hbuilt h fun host hhost scopes s' => ?_
  exact yields_linkTypeFacts hhost _ u s'

end Link

end Linkage
