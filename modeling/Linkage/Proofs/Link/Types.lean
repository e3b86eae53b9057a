import Linkage.Proofs.Link.Scopes

/-!
# Annotations are linked to types that fit

An annotation inside a declaration is linked to a type that fits there. Its names lead to owners, the arguments that
were left out are closed by settled defaults, and what cannot be linked is reported.
-/

namespace Linkage

variable {decl : DeclId} {args : List Ty} {P : Prop} {sigs : Signatures} {span : Span} {ty : Ty} {id : TypeExprId}

namespace Link

variable {env : LinkEnv} {r : Regime} {cur : DeclId} {busy : List ExprId} {s s' : LinkState}
  {host : Option DeclId} {usage : TypeUse}

theorem at_withInstances (hat : At r env.source cur busy s) {x : Instances}
    (hext : s.program.registry.Extends x.registry) (hsound : x.registry.Sound s.env)
    (horderly : x.Orderly (r.Iterates env.source) (Subscription.Fits r env.source)) :
    At r env.source cur busy (s.withInstances x) :=
  ⟨hat.facts.withInstances hext hsound horderly, ⟨hat.sees.spaces, hat.sees.frames⟩, hat.loud⟩

theorem useGeneric_keeps (hhost : Hosts env.source cur host)
    {copy : Instance} (h : Runs env (useGeneric host decl args span) s copy s') :
    Keeps r env.source cur busy s
      ((r.rules env.source).arity decl args.length ∧ r.AllFit env.source cur args) s'
      ((r.silent → r.settled → copy ≠ .unresolved) ∧ s'.known.Selects ⟨decl, copy⟩ args) := by
  refine ⟨later_of_steps ((steps_useGeneric host decl args span).of_runs h), ?_⟩
  rintro ⟨harity, hargs⟩ hat hquiet
  have hknown : r.silent → args.any (·.hasUnknown) = false := by
    intro hsilent
    refine List.any_eq_false.2 fun a ha => ?_
    rw [(hargs a ha).obeys.hasUnknown (not_not_intro hsilent)]
    exact Bool.false_ne_true
  unfold useGeneric at h
  split at h
  · rename_i hunknown
    obtain ⟨rfl, rfl⟩ := runs_pure.1 h
    refine ⟨hat, fun hsilent _ => ?_, trivial⟩
    exact absurd hunknown (by simp [hknown hsilent])
  rename_i hfull
  have hobeys : ∀ a ∈ args, a.Obeys (r.rules env.source).known := fun a ha =>
    (hargs a ha).obeys.known (Bool.not_eq_true _ ▸ List.any_eq_false.1 (Bool.not_eq_true _ ▸ hfull) a ha)
  split at h
  · rename_i hopen
    obtain ⟨g, hg⟩ := Ty.any_isOpen_iff.1 hopen
    obtain ⟨a, ha, hga⟩ := Ty.mem_occurrencesAll.1 hg
    split at h
    · obtain ⟨rfl, rfl⟩ := runs_pure.1 h
      refine ⟨hat, fun _ hsettled => ?_, trivial⟩
      have hvisible := (hargs a ha).inScope g hga (.inl hsettled)
      simp [hhost.none rfl] at hvisible
    · rename_i host
      simp only [runs_bind, runs_declOf, onInstances, runs_read, runs_modifyGet, runs_pure] at h
      obtain ⟨d, _, ⟨hd, rfl⟩, id, s₁, ⟨_, _, ⟨rfl, rfl⟩, hsub⟩, rfl, rfl⟩ := h
      obtain ⟨rfl, rfl⟩ := Prod.mk.inj hsub
      let sub : Subscription := { host, hostParams := d.generics, target := decl, template := args, span }
      have hfits : sub.Fits r env.source := by
        refine ⟨(Source.genericsOf_eq hd).symm, harity, fun t ht => ⟨hobeys t ht, fun g hg hsettled hnamed => ?_⟩⟩
        exact hhost.some host rfl hnamed g ((hargs t ht).inScope g hg (.inl hsettled))
      have hat' := at_withInstances hat (Instances.follows_extends.subscribe s.instances _ _ sub)
        (Instances.sound_subscribe hat.facts.sound _ sub)
        (hat.facts.orderly.subscribe (Subscription.carries_fits r _) _ env.options.limits hfits)
      obtain ⟨t, ht, -, htarget, htemplate⟩ :=
        Instances.subscription?_subscribe s.instances s.env env.options.limits sub
      exact ⟨hat', by simp, t, ht, htarget, htemplate⟩
  · rename_i hclosed
    have hclosed : ∀ a ∈ args, a.isOpen = false := fun a ha =>
      Bool.not_eq_true _ ▸ List.any_eq_false.1 (Bool.not_eq_true _ ▸ hclosed) a ha
    have hiterates : r.Iterates env.source decl args :=
      ⟨harity, fun a ha => ⟨hobeys a ha, fun g hg => absurd hg (Ty.isOpen_eq_false_iff.1 (hclosed a ha) g)⟩⟩
    simp only [runs_bind, onInstances, runs_read, runs_modifyGet] at h
    obtain ⟨index, s₁, ⟨_, _, ⟨rfl, rfl⟩, hinst⟩, h⟩ := h
    obtain ⟨rfl, rfl⟩ := Prod.mk.inj hinst
    have hat' := at_withInstances hat (Instances.follows_extends.instantiate s.instances _ _ decl args span)
      (Instances.sound_instantiate hat.facts.sound env.options.limits decl args span)
      (hat.facts.orderly.instantiate (Subscription.carries_fits r _) _ _ hiterates span)
    split at h
    · rename_i index hindex
      obtain ⟨rfl, rfl⟩ := runs_pure.1 h
      refine ⟨hat', by simp, hclosed, ?_⟩
      exact Instances.iteration?_instantiate hat.facts.sound (Prod.ext hindex rfl)
    · rename_i hnone
      obtain ⟨rfl, rfl⟩ := runs_pure.1 h
      refine ⟨hat', fun hsilent _ => ?_, trivial⟩
      have hreports := hat.facts.orderly.reports_of_instantiate_none (hknown hsilent) hnone
      exact absurd (hquiet hsilent) hreports

/-! ### Arguments -/

/-- An argument that was filled in fits, once those in `rest` are filled in too. A parameter without a default
is mentioned before its turn only where nothing is reported, and then its turn does not come. -/
abbrev Filled (r : Regime) (src : Source) (cur : DeclId) (sigs : Signatures) (rest : List GenericId) (t : Ty) :
    Prop :=
  t.Fits (r.rules src) fun g => r.Strict src g → g ∈ src.visible cur ∨
    (r.silent ∧ g ∈ rest ∧ sigs.defaults.get? g = none)

theorem filled_default (h : SignaturesFit r env.source sigs)
    (hdecl : env.source.Owner decl) {g : GenericId} {rest : List GenericId} {t : Ty}
    (hrest : (env.source.genericsOf decl).drop args.length = g :: rest) (ht : sigs.defaults.get? g = some t)
    (hargs : ∀ a ∈ args, Filled r env.source cur sigs rest a) :
    Filled r env.source cur sigs rest (t.subst ((env.source.genericsOf decl).take args.length) args) := by
  have hsplit : env.source.genericsOf decl = (env.source.genericsOf decl).take args.length ++ g :: rest := by
    rw [← hrest, List.take_append_drop]
  have hfits : t.Fits (r.rules env.source) fun k => r.Strict env.source k →
      k ∈ (env.source.genericsOf decl).take args.length ∨ (r.silent ∧ k ∈ rest ∧ sigs.defaults.get? k = none) := by
    refine ⟨h.defaults g t ht, fun k hk hstrict => ?_⟩
    have hg : g ∈ env.source.genericsOf decl := by
      rw [hsplit]
      exact List.mem_append_right _ List.mem_cons_self
    obtain ⟨hsilent, hmem, hnone⟩ := h.of_default hdecl hstrict hg ht hk
    rw [hsplit] at hmem
    rcases List.mem_append.1 hmem with hmem | hmem
    · exact .inl hmem
    · refine .inr ⟨hsilent, (List.mem_cons.1 hmem).resolve_left ?_, hnone⟩
      rintro rfl
      exact nomatch hnone.symm.trans ht
  have hlength : args.length = ((env.source.genericsOf decl).take args.length).length := by
    have hdrop := congrArg List.length hrest
    rw [List.length_drop, List.length_cons] at hdrop
    rw [List.length_take]
    omega
  refine hfits.subst (fun k hk => ?_) hlength hargs
  by_cases hstrict : r.Strict env.source k
  · exact (hk hstrict).imp id fun hlate _ => .inr hlate
  · exact .inr fun hs => absurd hs hstrict

theorem fillTypeArgs_keeps (decl : DeclId) {name : String} {generics rest : List GenericId}
    {out : List Ty} (h : Runs env (fillTypeArgs name span generics rest args) s out s') :
    Keeps r env.source cur busy s
      ((env.source.Owner decl ∧ generics = env.source.genericsOf decl) ∧
        (generics.drop args.length = rest ∧ args.length ≤ generics.length) ∧
          ∀ a ∈ args, Filled r env.source cur s.signatures rest a) s'
      (out.length = generics.length ∧ r.AllFit env.source cur out) := by
  induction rest generalizing args s with
  | nil =>
    obtain ⟨rfl, rfl⟩ := runs_pure.1 h
    refine .refl ?_
    rintro ⟨-, ⟨hrest, hle⟩, hargs⟩ _
    refine ⟨?_, fun a ha => (hargs a ha).mono fun g hg hstrict => (hg hstrict).resolve_right ?_⟩
    · have hdrop := congrArg List.length hrest
      rw [List.length_drop, List.length_nil] at hdrop
      omega
    · rintro ⟨-, hmem, -⟩
      exact absurd hmem List.not_mem_nil
  | cons g rest ih =>
    -- the next argument stands for `g`, and what remains starts after it
    have hnext : generics.drop args.length = g :: rest ∧ args.length ≤ generics.length →
        ∀ t, generics.drop (args ++ [t]).length = rest ∧ (args ++ [t]).length ≤ generics.length := by
      rintro ⟨hrest, hle⟩ t
      have hdrop := congrArg List.length hrest
      rw [List.length_drop, List.length_cons] at hdrop
      rw [List.length_append, List.length_singleton]
      refine ⟨?_, by omega⟩
      rw [← List.drop_drop, hrest]
      rfl
    unfold fillTypeArgs at h
    simp only [runs_bind, runs_signatures] at h
    obtain ⟨_, _, ⟨rfl, rfl⟩, h⟩ := h
    split at h
    · rename_i default hdefault
      simp only [runs_bind, runs_sliceTo] at h
      obtain ⟨_, _, ⟨-, rfl, rfl⟩, h⟩ := h
      refine (ih h).pre ?_
      rintro ⟨⟨howner, hgenerics⟩, hrest, hargs⟩ hat
      have hargs : ∀ a ∈ args, Filled r env.source cur s.signatures rest a := by
        refine fun a ha => (hargs a ha).mono fun k hk hstrict => (hk hstrict).imp id ?_
        rintro ⟨hsilent, hmem, hnone⟩
        refine ⟨hsilent, (List.mem_cons.1 hmem).resolve_left ?_, hnone⟩
        rintro rfl
        cases hnone.symm.trans hdefault
      refine ⟨⟨howner, hgenerics⟩, hnext hrest _, fun a ha => ?_⟩
      rcases List.mem_append.1 ha with ha | ha
      · exact hargs a ha
      · rw [List.mem_singleton.1 ha]
        subst hgenerics
        exact filled_default hat.facts.signatures howner hrest.1 hdefault hargs
    · simp only [runs_bind, runs_genericOf] at h
      obtain ⟨p, _, ⟨-, rfl⟩, _, s₁, hreport, h⟩ := h
      refine (report_keeps hreport).trans ((ih h).pre ?_)
      rintro ⟨⟨hdecl, hrest, hargs⟩, hloud⟩ _
      refine ⟨hdecl, hnext hrest _, fun a ha => ?_⟩
      rcases List.mem_append.1 ha with ha | ha
      · refine (hargs a ha).mono fun k hk hstrict => .inl ((hk hstrict).resolve_right ?_)
        exact fun hopen => hloud hopen.1
      · rw [List.mem_singleton.1 ha]
        exact .unknown hloud

theorem reportIf_keeps {c : Prop} [Decidable c] {p : Problem} {u : Unit} (h : Runs env (reportIf c span p) s u s') :
    Keeps r env.source cur busy s P s' P :=
  ((compound_framed.reportIf (minor_report span p)).of_runs h).keeps

theorem completeTypeArgs_keeps {out : List Ty} (h : Runs env (completeTypeArgs decl args span) s out s') :
    Keeps r env.source cur busy s
      (env.source.Owner decl ∧ r.AllFit env.source cur args) s'
      ((r.rules env.source).arity decl out.length ∧ r.AllFit env.source cur out) := by
  simp only [completeTypeArgs_eq, nameOf, runs_bind, runs_signatures, runs_declOf, runs_pure, runs_sliceFrom] at h
  obtain ⟨_, _, ⟨rfl, rfl⟩, _, _, ⟨d, _, ⟨-, rfl⟩, rfl, rfl⟩, _, s₁, hreport, _, _, ⟨-, rfl, rfl⟩, h⟩ := h
  generalize hgen : s.signatures.genericsOf decl = generics at h hreport
  have hfill : Keeps r env.source cur busy s₁
      ((env.source.Owner decl ∧ r.AllFit env.source cur args) ∧ generics = env.source.genericsOf decl) s'
      ((r.rules env.source).arity decl out.length ∧ r.AllFit env.source cur out) := by
    refine (fillTypeArgs_keeps decl h).imp ?_ ?_
    · rintro ⟨⟨howner, hargs⟩, hgenerics⟩
      refine ⟨⟨howner, hgenerics⟩, ⟨rfl, List.length_take_le _ _⟩, fun a ha => ?_⟩
      exact (hargs a (List.mem_of_mem_take ha)).mono fun g hg hstrict => .inl (hg hstrict)
    · rintro ⟨⟨⟨hnamed, howner⟩, -⟩, hgenerics⟩ ⟨hlength, hout⟩
      exact ⟨⟨hnamed, howner, by rw [hlength, hgenerics]⟩, hout⟩
  refine ((reportIf_keeps hreport).trans hfill).pre fun hP hat => ⟨hP, ?_⟩
  exact hgen.symm.trans (hat.facts.signatures.generics decl hP.1.2)

theorem checkBounds_keeps {u : Unit}
    (h : Runs env (checkBounds decl args span) s u s') : Keeps r env.source cur busy s P s' P :=
  (minor_of_steps ((steps_checkBounds decl args span).of_runs h)).keeps

/-! ### Names -/

theorem fits_instantiable (h : SignaturesFit r env.source sigs) (hty : r.Fits env.source cur ty) {target : DeclId}
    (hinst : instantiable? sigs.env ty = some (target, args)) :
    (r.rules env.source).arity target args.length ∧ r.AllFit env.source cur args := by
  have hexpand := hty.expandWithin h.aliasesFit sigs.env.reach
  unfold instantiable? at hinst
  split at hinst
  · simp at hinst
  · rename_i decl args' _ heq
    obtain ⟨rfl, rfl⟩ := Prod.mk.inj (Option.some.inj hinst)
    rw [heq] at hexpand
    exact ⟨hexpand.arity, fun a ha => hexpand.of_mem_args ha⟩
  · simp at hinst

theorem recordTypeUsage_keeps {copy : Instance} {u : Unit}
    (h : Runs env (recordUsage (.typeExpr id) decl copy) s u s') :
    Keeps r env.source cur busy s (r.silent → r.settled → copy ≠ .unresolved) s' True := by
  obtain rfl := runs_modify.1 h
  refine ⟨LinkState.later_of_eq rfl, fun hcopy hat _ => ⟨?_, trivial⟩⟩
  exact ⟨hat.facts.recordTypeUsage id hcopy, ⟨hat.sees.spaces, hat.sees.frames⟩, hat.loud⟩

theorem linkDeclared_keeps (hhost : Hosts env.source cur host) {linkArgs : LinkM (List Ty)}
    (hargs : ∀ {s s' args}, Runs env linkArgs s args s' →
      Keeps r env.source cur busy s True s' (r.AllFit env.source cur args))
    (h : Runs env (linkDeclared host usage id span decl linkArgs) s ty s') :
    Keeps r env.source cur busy s (env.source.Owner decl) s' (r.Fits env.source cur ty) := by
  simp only [linkDeclared, runs_bind] at h
  obtain ⟨written, s₁, hwritten, args, s₂, hcomplete, _, s₃, hbounds, h⟩ := h
  have hwrittenFits : Keeps r env.source cur busy s (env.source.Owner decl) s₁
      (env.source.Owner decl ∧ r.AllFit env.source cur written) :=
    (hargs hwritten).imp (fun _ => trivial) fun howner hfits => ⟨howner, hfits⟩
  have hty : Keeps r env.source cur busy s (env.source.Owner decl) s₃
      (r.Fits env.source cur (.linked decl args)) :=
    (hwrittenFits.trans (completeTypeArgs_keeps hcomplete)).trans
      ((checkBounds_keeps hbounds).imp (fun hargs => hargs) fun _ hargs => .linked hargs.1 hargs.2)
  split at h
  · simp only [runs_bind, runs_typeEnv] at h
    obtain ⟨_, _, ⟨rfl, rfl⟩, h⟩ := h
    split at h
    · obtain ⟨rfl, rfl⟩ := runs_pure.1 h
      exact hty
    · rename_i target targetArgs hinst
      simp only [runs_bind, runs_pure] at h
      obtain ⟨copy, s₄, huse, _, s₅, hrecord, rfl, rfl⟩ := h
      have hused := (useGeneric_keeps hhost huse).pre fun hty (hat : At r env.source cur busy s₃) =>
        fits_instantiable hat.facts.signatures hty hinst
      refine hty.trans (hused.carry.trans ((recordTypeUsage_keeps hrecord).imp ?_ ?_))
      · exact fun hpost => hpost.2.1
      · exact fun hpost _ => hpost.1
  · obtain ⟨rfl, rfl⟩ := runs_pure.1 h
    exact hty

theorem fits_param {d : Decl} {g : GenericId}
    (h : Visible r env.source cur sigs decl) (hdecl : env.source.decl? decl = some d)
    (hkind : d.kind = .genericParam g) : r.Fits env.source cur (.param g) := by
  cases h with
  | reachable h =>
    obtain ⟨d', hd', hitem, -⟩ := h.named
    obtain rfl := Option.some.inj (hdecl.symm.trans hd')
    simp [hkind, DeclKind.isItem] at hitem
  | generic hdecl' hkind' hg =>
    obtain rfl := Option.some.inj (hdecl.symm.trans hdecl')
    obtain rfl := DeclKind.genericParam.inj (hkind.symm.trans hkind')
    exact .param fun _ => hg
  | value hdecl' hkind' _ _ =>
    obtain rfl := Option.some.inj (hdecl.symm.trans hdecl')
    simp [hkind, DeclKind.isValueBinding] at hkind'

theorem reportUnless_keeps {α : Type} {b : Bool} {p : Problem} {x a : α}
    (h : Runs env (if b = true then pure x else do report span p; pure x) s a s') :
    x = a ∧ Keeps r env.source cur busy s P s' P := by
  split at h
  · obtain ⟨hx, rfl⟩ := runs_pure.1 h
    exact ⟨hx, .refl fun hP _ => hP⟩
  · simp only [runs_bind, runs_pure] at h
    obtain ⟨_, s₁, hreport, hx, rfl⟩ := h
    exact ⟨hx, (report_keeps hreport).imp id fun _ => And.left⟩

theorem reportUnknown_keeps {p : Problem} (h : Runs env (do report span p; pure Ty.unknown) s ty s') :
    Keeps r env.source cur busy s P s' (r.Fits env.source cur ty) := by
  simp only [runs_bind, runs_pure] at h
  obtain ⟨_, s₁, hreport, rfl, rfl⟩ := h
  exact (report_keeps hreport).imp id fun _ hpost => .unknown hpost.2

theorem linkNamed_keeps (hhost : Hosts env.source cur host) {id : TypeExprId} {span : Span}
    {path : List String} {isBare : Bool} {linkArgs : LinkM (List Ty)}
    (hargs : ∀ {s s' args}, Runs env linkArgs s args s' →
      Keeps r env.source cur busy s True s' (r.AllFit env.source cur args))
    {ty : Ty} (h : Runs env (linkNamed host usage id span path isBare linkArgs) s ty s') :
    Keeps r env.source cur busy s True s' (r.Fits env.source cur ty) := by
  unfold linkNamed at h
  split at h
  · rename_i p _
    obtain ⟨rfl, hkeeps⟩ := reportUnless_keeps h
    exact hkeeps.imp (fun htrue => htrue) fun _ _ => .prim p
  · simp only [runs_bind, runs_resolve?] at h
    obtain ⟨found, _, ⟨hfound, rfl⟩, h⟩ := h
    split at h
    · exact reportUnknown_keeps h
    · rename_i decl
      simp only [runs_bind, runs_declOf] at h
      obtain ⟨d, _, ⟨hd, rfl⟩, h⟩ := h
      have howner : d.kind.isItem = true → d.kind.isSpace = false →
          At r env.source cur busy s → env.source.Owner decl := fun hitem hspace hat =>
        (hat.resolve? hfound).owner hd hitem hspace
      split at h
      · rename_i g hkind
        obtain ⟨rfl, hkeeps⟩ := reportUnless_keeps h
        exact hkeeps.pre fun _ hat => fits_param (hat.resolve? hfound) hd hkind
      all_goals
        rename_i hkind
        first
        | exact reportUnknown_keeps h
        | exact (linkDeclared_keeps hhost hargs h).pre fun _ =>
            howner (by rw [hkind]; rfl) (by rw [hkind]; rfl)

mutual
theorem linkType_keeps (hhost : Hosts env.source cur host) : ∀ (t : TypeExpr) {s s' : LinkState} {ty : Ty},
    Runs env (linkType host usage t) s ty s' →
      Keeps r env.source cur busy s True s' (r.Fits env.source cur ty)
  | .missing id, s, s', ty, h => by
    rw [linkType] at h
    exact absurd h not_runs_throw
  | .node id span (.named path args), s, s', ty, h => by
    rw [linkType] at h
    exact linkNamed_keeps hhost (fun h => linkTypes_keeps hhost args h) h
  | .node _ _ (.pointer inner), s, s', ty, h => by
    simp only [linkType, runs_bind, runs_pure] at h
    obtain ⟨t, s₁, hinner, rfl, rfl⟩ := h
    exact (linkType_keeps hhost inner hinner).imp id fun _ => .pointer
  | .node _ _ (.reference inner), s, s', ty, h => by
    simp only [linkType, runs_bind, runs_pure] at h
    obtain ⟨t, s₁, hinner, rfl, rfl⟩ := h
    exact (linkType_keeps hhost inner hinner).imp id fun _ => .reference
  | .node _ _ (.array elem len), s, s', ty, h => by
    simp only [linkType, runs_bind, runs_pure] at h
    obtain ⟨t, s₁, helem, rfl, rfl⟩ := h
    exact (linkType_keeps hhost elem helem).imp id fun _ ht => .array ht len
  | .node _ _ (.function params ret), s, s', ty, h => by
    simp only [linkType, runs_bind, runs_pure] at h
    obtain ⟨ts, s₁, hparams, t, s₂, hret, rfl, rfl⟩ := h
    refine (linkTypes_keeps hhost params hparams).trans ((linkType_keeps hhost ret hret).imp ?_ ?_)
    · exact fun _ => trivial
    · exact fun hparams hret => .function hparams hret
theorem linkTypes_keeps (hhost : Hosts env.source cur host) :
    ∀ (ts : List TypeExpr) {s s' : LinkState} {tys : List Ty}, Runs env (linkTypes host usage ts) s tys s' →
      Keeps r env.source cur busy s True s' (r.AllFit env.source cur tys)
  | [], s, s', tys, h => by
    simp only [linkTypes, runs_pure] at h
    obtain ⟨rfl, rfl⟩ := h
    exact .refl fun _ _ => nofun
  | t :: ts, s, s', tys, h => by
    simp only [linkTypes, runs_bind, runs_pure] at h
    obtain ⟨ty, s₁, ht, tys, s₂, hts, rfl, rfl⟩ := h
    refine (linkType_keeps hhost t ht).trans ((linkTypes_keeps hhost ts hts).imp ?_ ?_)
    · exact fun _ => trivial
    · intro hty htys a ha
      rcases List.mem_cons.1 ha with rfl | ha
      · exact hty
      · exact htys a ha
end

theorem linkTypeAt_keeps (hhost : Hosts env.source cur host) (h : Runs env (linkTypeAt host usage id) s ty s') :
    Keeps r env.source cur busy s True s' (r.Fits env.source cur ty) := by
  simp only [linkTypeAt, runs_bind, runs_read] at h
  obtain ⟨_, _, ⟨rfl, rfl⟩, h⟩ := h
  exact linkType_keeps hhost _ h

end Link

end Linkage
