import Linkage.Link.Basic
import Linkage.Proofs.Link.Signatures

/-!
# The facts about a linked program

Pass after pass keeps what is known in order, so that it is in order when linking is over. Three regimes
follow one another. Before the defaults of generic parameters are linked it is open whether they are
settled, before the signatures are linked a function may have none, and the bodies are linked under the
regime that is asked for.
-/

namespace Linkage

variable {s : LinkState} {r : Regime} {src : Source}

theorem Regime.Strict.part {g : GenericId} (h : r.Strict src g) : { r with whole := False : Regime }.Strict src g :=
  h.imp id fun ⟨_, hrest⟩ => ⟨fun h => h, hrest⟩

theorem Ty.Fits.whole {d : DeclId} {t : Ty} (h : { r with whole := False : Regime }.Fits src d t) : r.Fits src d t :=
  Ty.Fits.mono h fun _ hvisible hstrict => hvisible hstrict.part

theorem Outside.complete (h : Outside { r with whole := False } src s)
    (hall : ∀ d ∈ src.owners, ∀ decl, src.decl? d = some decl → decl.kind.isFunction = true → d ∉ s.ignored →
      s.signatures.functions.contains d = true) : Outside r src s := by
  have hsigs := h.facts.signatures
  refine ⟨?_, h.sees, h.loud⟩
  exact {
    signatures := {
      generics := hsigs.generics
      params := hsigs.params
      bounds := hsigs.bounds
      defaults := hsigs.defaults
      declared := hsigs.declared
      mentions := fun g t ht d hd hg k hk hstrict => hsigs.mentions g t ht d hd hg k hk hstrict.part
      aliases := fun d t ht => (hsigs.aliases d t ht).whole
      functions := fun d sig hsig =>
        ⟨fun x hx => ((hsigs.functions d sig hsig).1 x hx).whole, (hsigs.functions d sig hsig).2.whole⟩
      fields := fun d fields hfields =>
        ⟨(hsigs.fields d fields hfields).1, fun f hf => ((hsigs.fields d fields hfields).2 f hf).whole⟩
      cases := hsigs.cases
      unions := hsigs.unions
      declTypes := hsigs.declTypes }
    whole := fun _ d hd hnot decl hdecl hfunction => hall d hd decl hdecl hfunction hnot
    paramTypes := fun d sig hsig decl hdecl x hx => by
      obtain ⟨t, ht, hfits⟩ := h.facts.paramTypes d sig hsig decl hdecl x hx
      exact ⟨t, ht, hfits.whole⟩
    bodies := h.facts.bodies
    exprTypes := h.facts.exprTypes
    usages := h.facts.usages
    sound := h.facts.sound
    orderly := by
      obtain ⟨hiterations, hsubscriptions, hrefused⟩ := h.facts.orderly
      refine ⟨fun it hit => ?_, fun sub hsub => ?_, hrefused⟩
      · exact ⟨(hiterations it hit).1, (hiterations it hit).2⟩
      · exact ⟨(hsubscriptions sub hsub).1, (hsubscriptions sub hsub).2, (hsubscriptions sub hsub).3⟩
    coherent := h.facts.coherent }

namespace Link

variable {env : LinkEnv} {s : LinkState}

theorem sees_empty : Sees src src.Reachable {} := by
  refine ⟨fun space name d hd => ?_, fun frame hframe name d hd => ?_⟩
  · simp [Namespaces.find?, Namespaces.frame?, Table.get?] at hd
  · obtain rfl := List.mem_singleton.1 hframe
    simp [Table.get?] at hd

theorem known_of_listed {s₀ s₁ : LinkState} (hbinds : Binds src {} s₀)
    (hlisted : ∃ sigs, s₁ = { s₀ with program.signatures := sigs }) :
    s₁.known = { ({} : LinkState).known with signatures := s₁.signatures } ∧ s₁.quiet = false ∧
      Sees src src.Reachable s₁ := by
  obtain ⟨sigs, rfl⟩ := hlisted
  have hsees := hbinds.sees sees_empty
  refine ⟨?_, hbinds.quiet, hsees.spaces, hsees.frames⟩
  have hknown := hbinds.known
  show ({ s₀.known with signatures := sigs } : Known) = { ({} : LinkState).known with signatures := sigs }
  rw [hknown]

theorem outside_of_early (hloose : ¬r.settled) (hpart : ¬r.whole) (hbuilt : env.source.WellBuilt)
    {s₀ s₁ s₂ : LinkState} {u v : Unit} (hbinds : Binds env.source {} s₀)
    (hlist : Runs env (env.source.owners.forM recordGenerics) s₀ u s₁)
    (hgenerics : Runs env (env.source.owners.forM fun decl => inNamespaces decl (linkGenericParams decl)) s₁ v s₂)
    (hquiet : r.Quiet s₂) : Outside r env.source s₂ ∧ s₂.known.Early := by
  have hnone : Listed env.source [] s₀.signatures := by
    have hsignatures : s₀.signatures = {} := congrArg Known.signatures hbinds.known
    rw [hsignatures]
    exact Listed.nil _
  obtain ⟨hchanged, hlisted⟩ := recordAll_lists hbuilt hlist hnone
  have hlisted : Listed env.source env.source.owners s₁.signatures := by
    rw [List.append_nil] at hlisted
    exact { hlisted with
      listed := fun d hd => hlisted.listed d (List.mem_reverse.2 hd)
      present := fun d hd => hlisted.present d (List.mem_reverse.2 hd) }
  obtain ⟨hknown, hloud, hsees⟩ := known_of_listed hbinds hchanged
  have hadvances : Advances r env (Outside r env.source)
      (env.source.owners.forM fun decl => inNamespaces decl (linkGenericParams decl)) :=
    .forM fun decl _ => advances_inNamespaces fun s u s' => linkGenericParams_keeps hloose hbuilt
  have hstays : Framed (Stays Known.Early)
      (env.source.owners.forM fun decl => inNamespaces decl (linkGenericParams decl)) :=
    .forM fun decl _ => framed_inNamespaces (stays_linkGenericParams decl)
  obtain ⟨hlater, hkept⟩ := hadvances s₁ v s₂ hgenerics
  refine ⟨hkept (outside_of_listed hpart hbuilt hknown hlisted hsees hloud) hquiet, hstays.of_runs hgenerics ?_⟩
  have hearly := hlisted.early
  rw [hknown]
  exact ⟨rfl, rfl, congrArg (·.functions) hearly, congrArg (·.fields) hearly, congrArg (·.aliasTargets) hearly⟩

theorem outside_of_declareAll (hbuilt : env.source.WellBuilt) (hitems : env.source.ItemsOnly)
    (hvalid : env.source.validate = .ok ()) {u : Unit} (h : Runs env declareAll {} u s) (hquiet : r.Quiet s)
    (hsettled : r.settled → s.signatures.DefaultsSettled env.source ∧ (¬r.silent → s.signatures.DefaultsClosed)) :
    Outside r env.source s := by
  have hsound := hbuilt.sound_itemTrees hitems
  simp only [declareAll, declareTypes, linkSignatures, runs_bind, runs_source, runs_pure] at h
  obtain ⟨_, _, ⟨_, _, ⟨rfl, rfl⟩, found, s₀, hnames, _, s₁, hlist, _, s₂, hgenerics, _, s₃, haliases, _, s₄, htypes,
    kept, s₅, hduplicates, -, rfl⟩, _, _, ⟨rfl, rfl⟩, hsignatures⟩ := h
  have howners : env.source.owners = env.source.itemTrees.flatMap (Item.owners env.source) :=
    Item.ownersAll_eq_flatMap _ _
  have hreachable : ∀ x ∈ env.source.itemTrees.flatMap (Item.listings none), env.source.Reachable x.id := by
    refine List.forall_mem_flatMap.2 fun item hitem => reachable_listings (hsound item hitem) (fun d hd => ?_) none
    exact howners ▸ List.mem_flatMap_of_mem hitem hd
  have hkinds : ∀ d ∈ env.source.owners, ∀ decl, env.source.decl? d = some decl → decl.kind.isItem = true := by
    rw [howners]
    exact List.forall_mem_flatMap.2 fun item hitem => (hsound item hitem).isItem_of_owner hvalid
  rw [declareItems_eq, Item.listingsAll_eq_flatMap] at hnames
  obtain ⟨hbinds, hfound⟩ := declareNames_binds hreachable hnames
  -- all passes after the first three leave the defaults alone
  let part : Regime := { r with whole := False }
  have kaliases : Advances part env (fun s => Outside part env.source s ∧ s.known.registry = {})
      (env.source.owners.forM fun decl => inNamespaces decl (linkAlias decl)) :=
    .forM fun decl _ => advances_linkAlias hbuilt decl
  have ktypes : Advances part env (Outside part env.source)
      (env.source.owners.forM fun decl => inNamespaces decl (linkTypeFacts decl)) :=
    .forM fun decl _ => advances_linkTypeFacts hbuilt decl
  obtain ⟨hlater₃, hkept₃⟩ := kaliases s₂ _ s₃ haliases
  obtain ⟨hlater₄, hkept₄⟩ := ktypes s₃ _ s₄ htypes
  obtain ⟨hlater₅, hkept₅⟩ : _ ∧ (Outside part env.source s₄ → part.Quiet s₅ → Outside part env.source s₅) :=
    settleRedeclarations_keeps (hfound sees_empty) (fun d first hd => by simp [Table.get?] at hd) hduplicates
  obtain ⟨hlater₆, hkept₆, hall⟩ : _ ∧ (Outside part env.source s₅ → part.Quiet s → Outside part env.source s) ∧ _ :=
    linkSignatures_keeps hbuilt hkinds hsignatures
  have hlater₂ := hlater₃.trans (hlater₄.trans (hlater₅.trans hlater₆))
  have hquiet : part.Quiet s := hquiet
  obtain ⟨hout₂, hearly⟩ := outside_of_early (r := { r with settled := False, whole := False }) (fun h => h)
    (fun h => h) hbuilt hbinds hlist hgenerics (hquiet.of_later hlater₂)
  have hout₂ : Outside part env.source s₂ := by
    refine hout₂.settle hearly rfl (fun h => h) (fun h => h) fun hs => ?_
    unfold Signatures.DefaultsSettled Signatures.DefaultsClosed
    rw [← hlater₂.defaults hs]
    exact hsettled hs
  have hout₃ := (hkept₃ ⟨hout₂, hearly.registry⟩ (hquiet.of_later (hlater₄.trans (hlater₅.trans hlater₆)))).1
  have hout₄ := hkept₄ hout₃ (hquiet.of_later (hlater₅.trans hlater₆))
  have hout₅ := hkept₅ hout₄ (hquiet.of_later hlater₆)
  exact (hkept₆ hout₅ hquiet).complete hall

end Link

theorem exists_of_result {ε α : Type} {x : Except ε α} {P : α → Prop} [DecidablePred P]
    (h : (match x with | .ok a => decide (P a) | .error _ => false) = true) : ∃ a, x = .ok a ∧ P a := by
  cases x with
  | error e => exact nomatch h
  | ok a => exact ⟨a, rfl, of_decide_eq_true h⟩

theorem Link.exists_of_run {env : LinkEnv} {act : LinkM Unit} {P : LinkState → Prop} [DecidablePred P]
    (h : (match act env s with | (.ok _, s') => decide (P s') | (.error _, _) => false) = true) :
    ∃ s', Runs env act s () s' ∧ P s' := by
  split at h
  · rename_i u s' hrun
    exact ⟨s', hrun, of_decide_eq_true h⟩
  · exact nomatch h

theorem Link.exists_result_of_run {α : Type} {env : LinkEnv} {act : LinkM α}
    {P : α → LinkState → Prop} [∀ a s', Decidable (P a s')]
    (h : (match act env s with | (.ok a, s') => decide (P a s') | (.error _, _) => false) = true) :
    ∃ a s', Runs env act s a s' ∧ P a s' := by
  split at h
  · rename_i a s' hrun
    exact ⟨a, s', hrun, of_decide_eq_true h⟩
  · exact absurd h Bool.false_ne_true

def Setup.declared (setup : Setup) : LinkState := (Link.declareAll setup.linkEnv {}).2

theorem Setup.runs_of_link {setup : Setup} {p : Program} (h : setup.link.result = .ok p) :
    ∃ s₁ s, setup.source.validate = .ok () ∧ Link.Runs setup.linkEnv Link.declareAll {} () s₁ ∧
      Link.Runs setup.linkEnv Link.linkBodies s₁ () s ∧ s.program = p ∧ s.reports = setup.link.reports ∧
        s.linked = setup.link.linked ∧ s.history = setup.link.history := by
  unfold Setup.link Link.phases at h ⊢
  dsimp only at h ⊢
  cases hwork : (do Link.validated; [.declare, .bodies].forM Link.phase : LinkM Unit) setup.linkEnv {} with
  | mk result s =>
    rw [hwork] at h
    cases result with
    | error fault => exact nomatch h
    | ok u =>
      obtain ⟨_, s₀, hvalidated, hphases⟩ := Link.runs_bind.1 hwork
      simp only [Link.validated, Link.runs_bind, Link.runs_source] at hvalidated
      obtain ⟨_, _, ⟨rfl, rfl⟩, hvalidated⟩ := hvalidated
      obtain ⟨s₁, hdeclare, hphases⟩ := Link.runs_forM_cons.1 hphases
      obtain ⟨s₂, hbodies, hphases⟩ := Link.runs_forM_cons.1 hphases
      obtain rfl := Link.runs_forM_nil.1 hphases
      split at hvalidated
      · rename_i hvalid
        obtain ⟨-, rfl⟩ := Link.runs_pure.1 hvalidated
        exact ⟨s₁, s₂, hvalid, hdeclare, hbodies, Except.ok.inj h, rfl, rfl, rfl⟩
      · exact absurd hvalidated Link.not_runs_throw

/-- What is known of a linked program is in order. -/
theorem Setup.facts_of_link {setup : Setup} {p : Program} (hbuilt : setup.source.WellBuilt)
    (hitems : setup.source.ItemsOnly) (h : setup.link.result = .ok p) (hwhole : r.whole)
    (hquiet : r.silent → setup.link.reports = [])
    (hsettled : r.settled → p.signatures.DefaultsSettled setup.source ∧ (¬r.silent → p.signatures.DefaultsClosed)) :
    ∃ s : LinkState, s.program = p ∧ s.linked = setup.link.linked ∧ Facts r setup.source [] s.known := by
  obtain ⟨s₁, s, hvalid, hdeclare, hbodies, rfl, hreports, hlinked, -⟩ := Setup.runs_of_link h
  obtain ⟨hlater, hkept⟩ := Link.advances_linkBodies hwhole hbuilt rfl s₁ () s hbodies
  have hquiet : r.Quiet s := fun hsilent => hreports.trans (hquiet hsilent)
  have hout : Outside r setup.source s₁ := by
    refine Link.outside_of_declareAll hbuilt hitems hvalid hdeclare (hquiet.of_later hlater) fun hs => ?_
    unfold Signatures.DefaultsSettled Signatures.DefaultsClosed
    rw [← hlater.defaults hs]
    exact hsettled hs
  exact ⟨s, rfl, hlinked, (hkept hout hquiet).facts⟩

end Linkage
