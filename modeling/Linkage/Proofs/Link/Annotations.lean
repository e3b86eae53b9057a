import Linkage.Proofs.Link.Steady

/-!
# Annotations that do not depend on the order

Linking an annotation looks up the generic parameters of the declarations it names, the defaults of those that no
argument is written for, and all that a check of a bound can lead to. If the pass writes none of this, then linking
the annotation is steady. Whatever names are resolved to, it is a declaration with the last name of the path, so that
the source unit tells which declarations may be meant.
-/

namespace Linkage

variable {decl : Decl} {d : DeclId} {g : GenericId} {path : List String} {n : Nat} {host : Option DeclId}

/-- Nothing is written that is looked up where the declaration is named with `n` arguments. -/
structure Stage.Spares (stage : Stage) (src : Source) (decl : Decl) (n : Nat) : Prop where
  defaults : ∀ g ∈ decl.generics.drop n, src.hasDefault g = true → ¬stage.writes (.default g)
  bounds : ∀ g ∈ decl.generics, src.hasBound g = true → ∀ k, ¬stage.writes k

def Stage.SparesPath (stage : Stage) (src : Source) (path : List String × Nat) : Prop :=
  ∀ decl ∈ src.decls, path.1.getLast? = some decl.name → stage.Spares src decl path.2

namespace Link

variable {α : Type} {env : LinkEnv} {src : Source} {stage : Stage} {σ : Lookup} {own : Topic → Prop}
  {s t s' : LinkState}

/-! ### What is the same throughout a pass -/

section During

variable (hs : During src stage σ s) (ht : During src stage σ t)

include hs ht in
theorem During.genericsOf_eq (hd : ¬stage.writes (.generics d)) :
    s.signatures.genericsOf d = t.signatures.genericsOf d :=
  congrArg (·.getD []) ((hs.known _ hd).trans (ht.known _ hd).symm)

include hs in
theorem During.mem_genericsOf (hdecl : src.decl? d = some decl) :
    s.signatures.genericsOf d = [] ∨ s.signatures.genericsOf d = decl.generics := by
  cases hget : s.signatures.generics.get? d with
  | none => exact .inl (by rw [Signatures.genericsOf, hget]; rfl)
  | some gs =>
    have hgs : gs = src.genericsOf d := hs.declared (.generics d) gs hget
    exact .inr (by rw [Signatures.genericsOf, hget, ← Source.genericsOf_eq hdecl, hgs]; rfl)

include hs ht in
theorem During.default_eq (hg : src.hasDefault g = true → ¬stage.writes (.default g)) :
    s.signatures.defaults.get? g = t.signatures.defaults.get? g := by
  have hnone : ∀ {s}, During src stage σ s → src.hasDefault g = false → s.signatures.defaults.get? g = none := by
    intro s hs hnot
    cases hget : s.signatures.defaults.get? g with
    | none => rfl
    | some ty => exact absurd (hs.declared (.default g) ty hget) (Bool.eq_false_iff.1 hnot)
  cases hdefault : src.hasDefault g with
  | false => rw [hnone hs hdefault, hnone ht hdefault]
  | true => exact (hs.known _ (hg hdefault)).trans (ht.known _ (hg hdefault)).symm

include hs ht in
theorem During.violatedBound?_eq (hg : src.hasBound g = true → ∀ k, ¬stage.writes k)
    (generics : List GenericId) (args : List Ty) (arg : Ty) :
    s.signatures.violatedBound? generics args g arg = t.signatures.violatedBound? generics args g arg := by
  have hnone : ∀ {s}, During src stage σ s → src.hasBound g = false → s.signatures.bounds.get? g = none := by
    intro s hs hnot
    cases hget : s.signatures.bounds.get? g with
    | none => rfl
    | some ty => exact absurd (hs.declared (.bound g) ty hget) (Bool.eq_false_iff.1 hnot)
  unfold Signatures.violatedBound?
  cases hbound : src.hasBound g with
  | false =>
    rw [hnone hs hbound, hnone ht hbound]
    rfl
  | true =>
    have hview : s.signatures.view = t.signatures.view := funext fun k =>
      (hs.known k (hg hbound k)).trans (ht.known k (hg hbound k)).symm
    have hget : s.signatures.bounds.get? g = t.signatures.bounds.get? g := congrFun hview (.bound g)
    rw [hget, Signatures.env_congr hview]

end During

/-! ### Arguments -/

theorem steady_fillTypeArgs {name : String} {span : Span} {generics rest : List GenericId} {args : List Ty}
    (hrest : ∀ g ∈ rest, env.source.hasDefault g = true → ¬stage.writes (.default g)) :
    Steady env stage σ own (fillTypeArgs name span generics rest args) := by
  induction rest generalizing args with
  | nil => exact .pure _
  | cons g rest ih =>
    have ih := fun args => @ih args fun k hk => hrest k (List.mem_cons_of_mem _ hk)
    unfold fillTypeArgs
    refine steady_signatures (fun s t hs ht => ?_) fun s _ => ?_
    · rw [hs.default_eq ht (hrest g List.mem_cons_self)]
    · split
      · exact .bind (consults_sliceTo _ _).steady fun _ => ih _
      · refine .bind (consults_genericOf g).steady fun _ => ?_
        exact .bind (steady_report _ _) fun _ => ih _

theorem steady_completeTypeArgs (hdecl : env.source.decl? d = some decl)
    (hgenerics : ¬stage.writes (.generics d)) {args : List Ty} (hspares : stage.Spares env.source decl args.length)
    (span : Span) : Steady env stage σ own (completeTypeArgs d args span) := by
  rw [completeTypeArgs_eq]
  refine steady_signatures (fun s t hs ht => ?_) fun s hs => ?_
  · rw [hs.genericsOf_eq ht hgenerics]
  · have hrest : ∀ g ∈ (s.signatures.genericsOf d).drop (args.take (s.signatures.genericsOf d).length).length,
        env.source.hasDefault g = true → ¬stage.writes (.default g) := by
      intro g hg
      rcases hs.mem_genericsOf hdecl with hnil | heq
      · rw [hnil] at hg
        simp at hg
      · refine hspares.defaults g ?_
        rw [heq, List.length_take] at hg
        rcases Nat.le_total args.length decl.generics.length with hle | hle
        · rwa [Nat.min_eq_right hle] at hg
        · rw [Nat.min_eq_left hle, List.drop_length] at hg
          exact absurd hg List.not_mem_nil
    refine .bind (consults_nameOf d).steady fun name => .bind (compound_steady.reportIf (steady_report _ _)) fun _ => ?_
    refine .bind_of (consults_sliceFrom _ _).steady fun rest _ _ _ _ hslice => ?_
    obtain ⟨-, rfl, -⟩ := runs_sliceFrom.1 hslice
    exact steady_fillTypeArgs hrest

/-! ### Bounds -/

/-- The check is noted with the signatures of the moment, which does not show. -/
theorem steady_checkBound (hg : env.source.hasBound g = true → ∀ k, ¬stage.writes k)
    (generics : List GenericId) (args : List Ty) (span : Span) (arg : Ty) :
    Steady env stage σ own (checkBound generics args span g arg) := by
  intro items s u s' hs hrun
  simp only [checkBound, runs_bind, runs_signatures] at hrun
  obtain ⟨_, _, ⟨rfl, rfl⟩, reported, s₁, hreported, -⟩ := hrun
  have hsteady : Steady env stage σ own
      ((s.signatures.violatedBound? generics args g arg).mapM (boundViolation span g arg)) :=
    compound_steady.option fun bound _ => (consults_boundViolation span g arg bound).steady
  obtain ⟨e, ds, -, hacts⟩ := hsteady items s reported s₁ hs hreported
  refine ⟨.nothing, essential reported.toList, allowed_nothing, fun items t ht => ?_⟩
  obtain ⟨t₁, hreported', -⟩ := hacts items t ht
  obtain rfl := (compound_looks.option fun bound _ => (consults_boundViolation span g arg bound).looks).of_runs hreported'
  rw [hs.violatedBound?_eq ht hg] at hreported'
  let c : BoundCheck := { generics, args, param := g, arg, seen := t.signatures, reported }
  refine ⟨{ t with checks := t.checks ++ [c], reports := t.reports ++ reported.toList }, ?_, ?_⟩
  · simp only [checkBound, runs_bind, runs_signatures]
    refine ⟨_, _, ⟨rfl, rfl⟩, reported, t, hreported', runs_modify.2 ?_⟩
    rw [if_neg (by simp [ht.loud])]
  · exact ⟨rfl, rfl, rfl, rfl, rfl, reported.toList, rfl, rfl⟩

theorem steady_checkBounds (hdecl : env.source.decl? d = some decl)
    (hgenerics : ¬stage.writes (.generics d)) (hspares : stage.Spares env.source decl n) (args : List Ty)
    (span : Span) : Steady env stage σ own (checkBounds d args span) := by
  refine steady_signatures (fun s t hs ht => ?_) fun s hs => .forM fun pair hpair => ?_
  · rw [hs.genericsOf_eq ht hgenerics]
  · obtain ⟨g, arg⟩ := pair
    refine steady_checkBound (hspares.bounds g ?_) _ args span arg
    have hg := (List.of_mem_zip hpair).1
    rcases hs.mem_genericsOf hdecl with hnil | heq
    · rw [hnil] at hg
      exact absurd hg List.not_mem_nil
    · rwa [heq] at hg

/-! ### Uses -/

theorem learns_withInstances {x : Instances} (h : Instances.AddsRefusals s.reports x.reports) :
    Learns .nothing [] s (s.withInstances x) := by
  obtain ⟨added, hadded, hkind⟩ := h
  refine ⟨rfl, rfl, rfl, rfl, rfl, added, hadded, List.filter_eq_nil_iff.2 fun d hd => ?_⟩
  simp [hkind d hd]

theorem runs_onInstances (f : TypeEnv → Limits → Instances → α × Instances) (s : LinkState) :
    Runs env (onInstances f) s (f s.env env.options.limits s.instances).1
      (s.withInstances (f s.env env.options.limits s.instances).2) :=
  runs_bind.2 ⟨env, s, runs_read.2 ⟨rfl, rfl⟩, runs_modifyGet.2 rfl⟩

theorem exists_useGeneric (hhost : ∀ d ∈ host, (env.source.decl? d).isSome = true)
    (s : LinkState) (d : DeclId) (args : List Ty) (span : Span) :
    ∃ copy s', Runs env (useGeneric host d args span) s copy s' ∧ Learns .nothing [] s s' := by
  unfold useGeneric
  split
  · exact ⟨_, s, runs_pure.2 ⟨rfl, rfl⟩, .refl s⟩
  · split
    · cases host with
      | none => exact ⟨_, s, runs_pure.2 ⟨rfl, rfl⟩, .refl s⟩
      | some host =>
        obtain ⟨decl, hdecl⟩ := Option.isSome_iff_exists.1 (hhost host rfl)
        let sub : Subscription := { host, hostParams := decl.generics, target := d, template := args, span }
        have hlearns := learns_withInstances (Instances.follows_reports.subscribe s.instances s.env env.options.limits sub)
        have hrun : Runs env _ s _ _ := runs_onInstances (fun env limits x => x.subscribe env limits sub) s
        exact ⟨.dependent _, _, runs_bind.2 ⟨decl, s, runs_declOf.2 ⟨hdecl, rfl⟩,
          runs_bind.2 ⟨_, _, hrun, runs_pure.2 ⟨rfl, rfl⟩⟩⟩, hlearns⟩
    · have hlearns := learns_withInstances (Instances.follows_reports.instantiate s.instances s.env env.options.limits d args span)
      have hrun : Runs env _ s _ _ := runs_onInstances (fun env limits x => x.instantiate env limits d args span) s
      generalize (s.instances.instantiate s.env env.options.limits d args span).1 = index at hrun
      cases index with
      | none => exact ⟨.unresolved, _, runs_bind.2 ⟨none, _, hrun, runs_pure.2 ⟨rfl, rfl⟩⟩, hlearns⟩
      | some index => exact ⟨.iteration index, _, runs_bind.2 ⟨some index, _, hrun, runs_pure.2 ⟨rfl, rfl⟩⟩, hlearns⟩

theorem steady_use (hhost : ∀ d ∈ host, (env.source.decl? d).isSome = true)
    (id : TypeExprId) (span : Span) (ty : Ty) : Steady env stage σ own (do
      match instantiable? (← typeEnv) ty with
      | none => pure ()
      | some (target, args) => recordUsage (.typeExpr id) target (← useGeneric host target args span)
      return ty) := by
  refine .unseen ty fun items s _ => ?_
  simp only [runs_bind, runs_typeEnv]
  cases hty : instantiable? s.env ty with
  | none => exact ⟨s, ⟨_, _, ⟨rfl, rfl⟩, by rw [hty]; exact runs_pure.2 ⟨rfl, rfl⟩⟩, .refl s⟩
  | some found =>
    have hhost' : ∀ d ∈ host, ((env.withItems items).source.decl? d).isSome = true := hhost
    obtain ⟨copy, s₁, hrun, hlearns⟩ := exists_useGeneric hhost' s found.1 found.2 span
    refine ⟨{ s₁ with program.usages := s₁.program.usages.insert (.typeExpr id) ⟨found.1, copy⟩ },
      ⟨_, _, ⟨rfl, rfl⟩, ?_⟩, ?_⟩
    · rw [hty]
      exact runs_bind.2 ⟨copy, s₁, hrun, runs_bind.2 ⟨(), _, runs_modify.2 rfl, runs_pure.2 ⟨rfl, rfl⟩⟩⟩
    · exact ⟨hlearns.scopes, hlearns.spaces, hlearns.quiet, hlearns.ignored, hlearns.view, hlearns.reports⟩

/-! ### Names -/

theorem length_of_linkTypes {usage : TypeUse} {ts : List TypeExpr} {tys : List Ty}
    (h : Runs env (linkTypes host usage ts) s tys s') : tys.length = ts.length := by
  induction ts generalizing s tys with
  | nil =>
    rw [linkTypes] at h
    obtain ⟨rfl, -⟩ := runs_pure.1 h
    rfl
  | cons t ts ih =>
    simp only [linkTypes, runs_bind, runs_pure] at h
    obtain ⟨ty, s₁, -, rest, s₂, hrest, rfl, rfl⟩ := h
    rw [List.length_cons, List.length_cons, ih hrest]

theorem steady_linkDeclared (hhost : ∀ d ∈ host, (env.source.decl? d).isSome = true)
    (usage : TypeUse) (id : TypeExprId) (span : Span)
    (hdecl : env.source.decl? d = some decl) (hgenerics : ¬stage.writes (.generics d))
    (hspares : stage.Spares env.source decl n) {linkArgs : LinkM (List Ty)} (hargs : Steady env stage σ own linkArgs)
    (hlength : ∀ items s args s', Runs (env.withItems items) linkArgs s args s' → args.length = n) :
    Steady env stage σ own (linkDeclared host usage id span d linkArgs) := by
  refine hargs.bind_of fun written items s s' _ hrun => ?_
  obtain rfl := hlength items s written s' hrun
  refine .bind (steady_completeTypeArgs hdecl hgenerics hspares span) fun args => ?_
  refine .bind (steady_checkBounds hdecl hgenerics hspares args span) fun _ => ?_
  dsimp only
  split
  · exact steady_use hhost id span _
  · exact .pure _

theorem descend_withItems (spaces : Namespaces) (src : Source) (items : List DeclId) (d : DeclId)
    (path : List String) : spaces.descend (src.withItems items) d path = spaces.descend src d path := by
  induction path generalizing d with
  | nil => rfl
  | cons segment path ih =>
    simp only [Namespaces.descend, ih]
    rfl

theorem descend_congr {spaces spaces' : Namespaces} (h : spaces.find? = spaces'.find?) (src : Source) (d : DeclId)
    (path : List String) : spaces.descend src d path = spaces'.descend src d path := by
  induction path generalizing d with
  | nil => rfl
  | cons segment path ih => simp only [Namespaces.descend, h, ih]

theorem answers_of_descend {spaces : Namespaces}
    (hspaces : ∀ space name d, spaces.find? space name = some d → src.Answers name d)
    {first : String} {d' : DeclId} (hd : src.Answers first d) (h : spaces.descend src d path = .ok (some d')) :
    ∃ name, (first :: path).getLast? = some name ∧ src.Answers name d' := by
  induction path generalizing first d with
  | nil =>
    rw [Namespaces.descend] at h
    exact ⟨first, rfl, Option.some.inj (Except.ok.inj h) ▸ hd⟩
  | cons segment path ih =>
    rw [Namespaces.descend] at h
    split at h
    · cases h
    · split at h
      · split at h
        · rename_i member hmember
          rw [List.getLast?_cons_cons]
          exact ih (hspaces d segment member hmember) h
        · cases h
      · cases h

theorem During.resolve?_eq (hs : During src stage σ s) (ht : During src stage σ t) (path : List String) :
    s.resolve? src path = t.resolve? src path := by
  have hlookup : s.lookup = t.lookup := hs.lookup.trans ht.lookup.symm
  have hname : s.scopes.find? = t.scopes.find? := congrArg Lookup.name hlookup
  have hmember : s.spaces.find? = t.spaces.find? := congrArg Lookup.member hlookup
  cases path with
  | nil => rfl
  | cons first rest => simp only [LinkState.resolve?, hname, descend_congr hmember]

theorem During.answers (hs : During src stage σ s) (hσ : σ.Proper src)
    (h : s.resolve? src path = .ok (some d)) : ∃ name, path.getLast? = some name ∧ src.Answers name d := by
  rw [← hs.lookup] at hσ
  cases path with
  | nil => cases h
  | cons first rest =>
    rw [LinkState.resolve?] at h
    split at h
    · cases h
    · rename_i start hstart
      exact answers_of_descend hσ.member (hσ.name first start hstart) h

theorem resolve?_withItems (s : LinkState) (src : Source) (items : List DeclId) (path : List String) :
    s.resolve? (src.withItems items) path = s.resolve? src path := by
  cases path with
  | nil => rfl
  | cons first rest => simp only [LinkState.resolve?, descend_withItems]

theorem steady_resolve? (path : List String) : Steady env stage σ own (resolve? path) := by
  refine .looks fun items s found s' hs hrun items t ht => ?_
  obtain ⟨hfound, -⟩ := runs_resolve?.1 hrun
  refine runs_resolve?.2 ⟨?_, rfl⟩
  rw [← hfound]
  show t.resolve? (env.source.withItems _) path = s.resolve? (env.source.withItems _) path
  rw [resolve?_withItems, resolve?_withItems, hs.resolve?_eq ht]

theorem steady_linkNamed (hhost : ∀ d ∈ host, (env.source.decl? d).isSome = true)
    (hσ : σ.Proper env.source) (hgenerics : ∀ d, ¬stage.writes (.generics d)) (usage : TypeUse) (id : TypeExprId)
    (span : Span) (isBare : Bool) (hspares : stage.SparesPath env.source (path, n))
    {linkArgs : LinkM (List Ty)} (hargs : Steady env stage σ own linkArgs)
    (hlength : ∀ items s args s', Runs (env.withItems items) linkArgs s args s' → args.length = n) :
    Steady env stage σ own (linkNamed host usage id span path isBare linkArgs) := by
  unfold linkNamed
  split
  · split
    · exact .pure _
    · exact .bind (steady_report _ _) fun _ => .pure _
  · refine .bind_of (steady_resolve? path) fun found items s s' hs hfound => ?_
    split
    · exact .bind (steady_report _ _) fun _ => .pure _
    · rename_i d
      refine .bind_of (consults_declOf d).steady fun decl _ _ _ _ hdecl => ?_
      obtain ⟨hdecl, -⟩ := runs_declOf.1 hdecl
      -- the path leads to a declaration of its last name, or to a parameter
      have hmay : (∀ g, decl.kind ≠ .genericParam g) → stage.Spares env.source decl n := by
        intro hkind
        have hpath := (resolve?_withItems s env.source items path).symm.trans (runs_resolve?.1 hfound).1
        obtain ⟨name, hlast, decl', hdecl', hname | ⟨g, hg⟩⟩ := hs.answers hσ hpath
        · obtain rfl : decl' = decl := Option.some.inj (hdecl'.symm.trans hdecl)
          exact hspares decl' (List.mem_of_getElem? hdecl') (hname ▸ hlast)
        · obtain rfl : decl' = decl := Option.some.inj (hdecl'.symm.trans hdecl)
          exact absurd hg (hkind g)
      split
      · split
        · exact .pure _
        · exact .bind (steady_report _ _) fun _ => .pure _
      all_goals first
        | exact .bind (steady_report _ _) fun _ => .pure _
        | exact steady_linkDeclared hhost usage id span hdecl (hgenerics d) (hmay (by simp [*])) hargs hlength

theorem steady_linkTypeAt (hhost : ∀ d ∈ host, (env.source.decl? d).isSome = true)
    (hσ : σ.Proper env.source) (hgenerics : ∀ d, ¬stage.writes (.generics d)) (usage : TypeUse) {id : TypeExprId}
    (h : ∀ x ∈ (env.trees.typeExpr id).names, stage.SparesPath env.source x) :
    Steady env stage σ own (linkTypeAt host usage id) :=
  Annotating.linkType ⟨compound_steady, .throw, fun id span _ _ hspares hargs =>
    steady_linkNamed hhost hσ hgenerics usage id span _ hspares hargs fun _ _ _ _ => length_of_linkTypes⟩ _ h

end Link

end Linkage
