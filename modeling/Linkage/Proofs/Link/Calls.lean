import Linkage.Proofs.Inference.Scoping
import Linkage.Proofs.Link.Values

/-!
# Calls and struct literals

The generic arguments of a call are inferred from types that fit, so they fit, and the copy is selected for exactly
these arguments. A struct literal has the struct, given the same arguments, as its type. How the parts of a call are
linked is a parameter, and what is needed of it a hypothesis.
-/

namespace Linkage

variable {decl func : DeclId} {callee : Expr} {sig : GenericSignature} {linkArgs : List (Option Ty) → LinkM (List Ty)}
  {args : List Argument} {written : List Ty} {typeArgs : List TypeExpr} {found : Option DeclId} {sigs : Signatures}
  {src : Source} {ty : Ty} {u : Unit}

/-- What linking an expression finds out about it. A struct literal is never of a literal's type. -/
structure Typed (r : Regime) (src : Source) (cur : DeclId) (e : ExprId) (ty : Ty) : Prop where
  fits : r.Fits src cur ty
  literal : ty.isLiteral = true → ¬src.IsConstruct e

abbrev Regime.HintFits (r : Regime) (src : Source) (cur : DeclId) (hint : Option Ty) : Prop :=
  ∀ t, hint = some t → r.Fits src cur t

theorem hintFits_of_fits {r : Regime} {d cur : DeclId} (h : r.Fits src d ty) : r.HintFits src cur ty.hint := by
  intro t ht
  unfold Ty.hint at ht
  split at ht
  · simp at ht
  · rename_i hclosed
    obtain rfl := Option.some.inj ht
    exact h.of_closed (Bool.eq_false_iff.2 hclosed)

namespace Link

open Relation

variable {env : LinkEnv} {r : Regime} {cur : DeclId} {busy : List ExprId} {s s' : LinkState} {P : Prop}
  {body : Body} {expected : Option Ty} {id : ExprId} {span : Span}

/-! ### Inference -/

/-- The signature describes the declaration to inference. -/
structure Describes (sigs : Signatures) (decl : DeclId) (sig : GenericSignature) : Prop where
  params : sig.params = sigs.genericsOf decl
  defaults : sig.defaults = sigs.defaultsOf decl

theorem getElem?_seeds (sig : GenericSignature) (i : Nat) :
    sig.seeds[i]? = sig.params[i]?.map fun _ => sig.defaults[i]?.join := by
  rw [GenericSignature.seeds, List.getElem?_mapIdx]

theorem Describes.getElem?_seeds (h : Describes sigs decl sig) (i : Nat) :
    sig.seeds[i]? = (sigs.genericsOf decl)[i]?.map sigs.defaults.get? := by
  rw [Link.getElem?_seeds, h.params, h.defaults, Signatures.defaultsOf, List.getElem?_map]
  cases (sigs.genericsOf decl)[i]? with
  | none => rfl
  | some g => rfl

theorem Describes.defaultsFit (h : Describes sigs decl sig) (hwhole : r.whole) (hsigs : SignaturesFit r env.source sigs)
    (hdecl : env.source.Owner decl) :
    sig.DefaultsFit (r.rules env.source) fun g => r.Strict env.source g → g ∈ env.source.visible cur := by
  intro i t ht
  rw [h.getElem?_seeds] at ht
  obtain ⟨g, hg, hdefault⟩ := Option.map_eq_some_iff.1 ht
  refine ⟨hsigs.defaults g t hdefault, fun k hk => ?_⟩
  by_cases hsettled : r.settled
  · rw [hsigs.generics decl hdecl.2] at hg
    obtain ⟨-, hmem, hnone⟩ := hsigs.of_default hdecl (.inl hsettled) (List.mem_of_getElem? hg) hdefault hk
    rw [← hsigs.generics decl hdecl.2] at hmem
    obtain ⟨j, hj⟩ := List.getElem?_of_mem hmem
    refine .inr ⟨j, by rw [h.params, hj], ?_⟩
    rw [h.getElem?_seeds, hj, Option.map_some, hnone]
  · exact .inl fun _ hstrict => (hstrict.resolve_left hsettled).1.elim hwhole

theorem limitTypeArgs_keeps {out : List Ty} {taken : Nat}
    (h : Runs env (limitTypeArgs decl written taken span) s out s') :
    written.take taken = out ∧ Keeps r env.source cur busy s P s' P := by
  unfold limitTypeArgs at h
  split at h
  · simp only [nameOf, runs_bind, runs_declOf, runs_pure] at h
    obtain ⟨_, _, ⟨d, _, ⟨-, rfl⟩, rfl, rfl⟩, _, s₁, hreport, rfl, rfl⟩ := h
    exact ⟨rfl, ((minor_report _ _).of_runs hreport).keeps⟩
  · obtain ⟨rfl, rfl⟩ := runs_pure.1 h
    exact ⟨rfl, .refl fun hP _ => hP⟩

theorem finishInference_keeps {inferred : Inferred} (h : Runs env (finishInference decl inferred span) s u s') :
    Keeps r env.source cur busy s P s' (P ∧ (r.silent → inferred.unresolved = [])) := by
  simp only [finishInference, nameOf, runs_bind, runs_declOf, runs_pure] at h
  obtain ⟨name, _, ⟨d, _, ⟨-, rfl⟩, rfl, rfl⟩, _, s₁, hreports, hbounds⟩ := h
  refine Keeps.trans ?_ (checkBounds_keeps hbounds)
  cases hunresolved : inferred.unresolved with
  | nil =>
    rw [hunresolved] at hreports
    obtain rfl := runs_forM_nil.1 hreports
    exact .refl fun hP _ => ⟨hP, fun _ => rfl⟩
  | cons g rest =>
    rw [hunresolved, runs_forM_cons] at hreports
    obtain ⟨s₂, hfirst, hrest⟩ := hreports
    simp only [runs_bind, runs_genericOf] at hfirst
    obtain ⟨p, _, ⟨-, rfl⟩, hfirst⟩ := hfirst
    have hminor : Framed Minor (rest.forM fun g => do
        let p ← genericOf g
        report span (.notInferred p.name d.name)) :=
      .forM fun g _ => .bind (looks_genericOf g).framed fun _ => minor_report _ _
    refine (report_keeps hfirst).trans ((hminor.of_runs hrest).keeps.imp (fun hP => hP) ?_)
    exact fun hpost _ => ⟨hpost.1, fun hsilent => absurd hsilent hpost.2⟩

theorem recordUsage_keeps {copy : Instance} (h : Runs env (recordUsage (.expr id) decl copy) s u s') :
    Keeps r env.source cur busy s
      ((env.source.IsConstruct id → id ∈ busy) ∧ (r.silent → r.settled → copy ≠ .unresolved)) s' True := by
  obtain rfl := runs_modify.1 h
  refine ⟨LinkState.later_of_eq rfl, fun ⟨hbusy, hcopy⟩ hat _ => ⟨?_, trivial⟩⟩
  exact ⟨hat.facts.recordUsage hbusy hcopy, ⟨hat.sees.spaces, hat.sees.frames⟩, hat.loud⟩

theorem fits_inferred (hwhole : r.whole) (hbuilt : env.source.WellBuilt)
    (hsigs : SignaturesFit r env.source sigs) (howner : env.source.Owner decl) (hsig : Describes sigs decl sig)
    (hwritten : r.AllFit env.source cur written) {site : CallSite}
    (hargs : ∀ t ∈ site.argTypes, r.Fits env.source cur t) (hexpected : ∀ t ∈ site.expected, r.Fits env.source cur t)
    (hcomplete : r.silent → (sig.infer sigs.env written site).unresolved = []) :
    (r.rules env.source).arity decl (sig.infer sigs.env written site).args.length ∧
      r.AllFit env.source cur (sig.infer sigs.env written site).args := by
  have henv : sigs.env.AliasesFit (r.rules env.source) fun g => r.Strict env.source g → g ∈ env.source.visible cur :=
    hsigs.aliasesFit
  have hgenerics : sig.params = env.source.genericsOf decl :=
    hsig.params.trans (hsigs.generics decl howner.2)
  have hnodup : sig.params.Nodup := by
    rw [hgenerics]
    exact hbuilt.nodup_genericsOf decl
  refine ⟨⟨howner.1, howner.2, ?_⟩, ?_⟩
  · rw [GenericSignature.length_infer henv hargs hexpected, hgenerics]
  · exact GenericSignature.fits_infer hnodup henv (hsig.defaultsFit hwhole hsigs howner) hwritten hargs hexpected
      fun hunknown => hcomplete (Classical.not_not.1 hunknown)

theorem not_isConstruct_of_literalAmong {e : ExprId}
    (hargs : ∀ a ∈ args, Typed r env.source cur a.value.id a.ty) (h : LiteralAmong args e) :
    ¬env.source.IsConstruct e := by
  obtain ⟨a, ha, hliteral, rfl⟩ := h
  exact (hargs a ha).literal hliteral

theorem literalAmong_of_map {formal : Argument → Ty} {e : ExprId}
    (h : LiteralAmong (args.map fun a => { a with formal := formal a }) e) : LiteralAmong args e := by
  obtain ⟨b, hb, hliteral, rfl⟩ := h
  obtain ⟨a, ha, rfl⟩ := List.mem_map.1 hb
  exact ⟨a, ha, hliteral, rfl⟩

/-- The arguments that are inferred fit, and the copy that is recorded was selected for them. -/
theorem useInExpr_keeps (hwhole : r.whole) (hbuilt : env.source.WellBuilt) (hhost : Hosts env.source cur body.host)
    (hid : env.source.IsConstruct id → id ∈ busy) {out : List Ty}
    (h : Runs env (useInExpr body id span decl sig written expected args) s out s') :
    Keeps r env.source cur busy s
      (env.source.Owner decl ∧ Describes s.signatures decl sig ∧ r.AllFit env.source cur written ∧
        r.HintFits env.source cur expected ∧ ∀ a ∈ args, Typed r env.source cur a.value.id a.ty) s'
      ((r.rules env.source).arity decl out.length ∧ r.AllFit env.source cur out ∧
        ∃ copy, s'.program.usages.get? (.expr id) = some ⟨decl, copy⟩ ∧
          s'.known.Selects ⟨decl, copy⟩ out) := by
  simp only [useInExpr, runs_bind, runs_typeEnv, runs_pure] at h
  obtain ⟨_, _, ⟨rfl, rfl⟩, _, s₁, hfinish, copy, s₂, huse, _, s₃, hrecord, _, s₄, hbind, rfl, rfl⟩ := h
  have hpass := (passes_bindToInstance decl copy _).of_runs hbind
  have kfinish : Keeps r env.source cur busy s True s₁ _ := finishInference_keeps hfinish
  have kuse : Keeps r env.source cur busy s₁ _ s₂ _ := useGeneric_keeps hhost huse
  have krecord : Keeps r env.source cur busy s₂ _ s₃ _ := recordUsage_keeps hrecord
  have kpass : Keeps r env.source cur busy s₃ (True ∧ _) s₄ True := passes_keeps hpass
  refine ⟨kfinish.later.trans (kuse.later.trans (krecord.later.trans kpass.later)), ?_⟩
  rintro ⟨howner, hsig, hwritten, hexpected, hargs⟩ hat hquiet
  have hquiet₃ := hquiet.of_later kpass.later
  have hquiet₂ := hquiet₃.of_later krecord.later
  obtain ⟨hat₁, -, hcomplete⟩ := kfinish.holds trivial hat (hquiet₂.of_later kuse.later)
  obtain ⟨harity, hfits⟩ : (r.rules env.source).arity decl
        (sig.infer s.env written ⟨args.map (·.ty), expected.bind Ty.hint⟩).args.length ∧
      r.AllFit env.source cur
        (sig.infer s.env written ⟨args.map (·.ty), expected.bind Ty.hint⟩).args := by
    refine fits_inferred hwhole hbuilt hat.facts.signatures howner hsig hwritten ?_ ?_ hcomplete
    · intro t ht
      obtain ⟨a, ha, rfl⟩ := List.mem_map.1 ht
      exact (hargs a ha).fits
    · intro t ht
      obtain ⟨e, he, ht⟩ := Option.bind_eq_some_iff.1 ht
      exact hintFits_of_fits (hexpected e he) t ht
  obtain ⟨hat₂, hcopy, hselects⟩ := kuse.holds ⟨harity, hfits⟩ hat₁ hquiet₂
  obtain ⟨hat₃, -⟩ := krecord.holds ⟨hid, hcopy⟩ hat₂ hquiet₃
  obtain ⟨hat₄, -⟩ := kpass.holds
    ⟨trivial, fun e he => not_isConstruct_of_literalAmong hargs (literalAmong_of_map he)⟩ hat₃ hquiet
  refine ⟨hat₄, harity, hfits, copy, ?_, ?_⟩
  · rw [(undisturbed_of_passes hpass).usages, ← runs_modify.1 hrecord]
    exact Table.get?_insert_self _ _ _
  · refine (undisturbed_of_passes hpass).selects ?_
    rw [← runs_modify.1 hrecord]
    exact hselects

/-! ### Calls -/

/-- The arguments of a call were linked to these types. -/
def ArgsTyped (r : Regime) (src : Source) (cur : DeclId) (args : List Expr) (types : List Ty) : Prop :=
  ∀ p ∈ args.zip types, Typed r src cur p.1.id p.2

theorem typed_arguments {args : List Expr} {types formals : List Ty} (h : ArgsTyped r src cur args types) :
    ∀ a ∈ arguments args types formals, Typed r src cur a.value.id a.ty := by
  intro a ha
  obtain ⟨⟨value, ty, formal⟩, hp, rfl⟩ := List.mem_map.1 ha
  obtain ⟨i, hi⟩ := List.mem_iff_getElem?.1 hp
  obtain ⟨hvalue, hrest⟩ := List.getElem?_zip_eq_some.1 hi
  obtain ⟨hty, -⟩ := List.getElem?_zip_eq_some.1 hrest
  exact h (value, ty) (List.mem_of_getElem? (List.getElem?_zip_eq_some.2 ⟨hvalue, hty⟩))

/-- A name in scope that leads to a function that is linked. -/
structure Callable (src : Source) (s : LinkState) (func : DeclId) : Prop where
  path : ∃ path, s.resolve? src path = .ok (some func)
  function : ∃ d, src.decl? func = some d ∧ d.kind.isFunction = true
  linked : func ∉ s.ignored

theorem runs_functionAt? {target : Option DeclId} (h : Runs env (functionAt? target) s found s') :
    s = s' ∧ ∀ func, found = some func → target = some func ∧
      (∃ d, env.source.decl? func = some d ∧ d.kind.isFunction = true) ∧ func ∉ s.ignored := by
  cases target with
  | none =>
    obtain ⟨rfl, rfl⟩ := runs_pure.1 h
    exact ⟨rfl, by simp⟩
  | some decl =>
    simp only [functionAt?, runs_bind, runs_declOf, runs_get, runs_pure] at h
    obtain ⟨d, _, ⟨hd, rfl⟩, _, _, ⟨rfl, rfl⟩, rfl, rfl⟩ := h
    refine ⟨rfl, fun func hfunc => ?_⟩
    obtain ⟨⟨hfunction, hlinked⟩, rfl⟩ : (d.kind.isFunction = true ∧ decl ∉ s.ignored) ∧ decl = func := by
      simpa using hfunc
    exact ⟨rfl, ⟨d, hd, hfunction⟩, hlinked⟩

theorem target_of_calledFunction? (h : Runs env (calledFunction? callee) s found s') :
    s = s' ∧ ∀ func, found = some func → Callable env.source s func ∧
      ∃ path, callee.path? = some path ∧ s.resolve? env.source path = .ok (some func) := by
  rw [calledFunction?_eq, runs_bind] at h
  obtain ⟨target, s₁, htarget, h⟩ := h
  obtain ⟨rfl, hfound⟩ := runs_functionAt? h
  cases hpath : callee.path? with
  | none =>
    rw [hpath] at htarget
    obtain ⟨rfl, rfl⟩ := runs_pure.1 htarget
    exact ⟨rfl, fun func hfunc => by simpa using (hfound func hfunc).1⟩
  | some path =>
    rw [hpath] at htarget
    obtain ⟨hresolve, rfl⟩ := runs_resolve?.1 htarget
    refine ⟨rfl, fun func hfunc => ?_⟩
    obtain ⟨rfl, hfunction, hlinked⟩ := hfound func hfunc
    exact ⟨⟨⟨path, hresolve⟩, hfunction, hlinked⟩, path, rfl, hresolve⟩

theorem callable_of_calledFunction? (h : Runs env (calledFunction? callee) s found s') :
    s = s' ∧ ∀ func, found = some func → Callable env.source s func :=
  (target_of_calledFunction? h).imp_right fun htarget func hfunc => (htarget func hfunc).1

theorem Callable.owner (h : Callable env.source s func) (hat : At r env.source cur busy s) : env.source.Owner func := by
  obtain ⟨path, hpath⟩ := h.path
  obtain ⟨d, hd, hfunction⟩ := h.function
  refine (hat.resolve? hpath).owner hd ?_ ?_
  · cases hk : d.kind <;> simp_all [DeclKind.isFunction, DeclKind.function?, DeclKind.isItem]
  · cases hk : d.kind <;> simp_all [DeclKind.isFunction, DeclKind.function?, DeclKind.isSpace]

theorem Callable.signature (h : Callable env.source s func) (hwhole : r.whole)
    (hat : At r env.source cur busy s) : s.signatures.functions.get? func ≠ none := by
  obtain ⟨d, hd, hfunction⟩ := h.function
  have hcontains := hat.facts.whole hwhole func (h.owner hat).2 h.linked d hd hfunction
  intro hnone
  have hsome : (s.signatures.functions.get? func).isSome = true := hcontains
  simp [hnone] at hsome

theorem explicitTypes_fit {d : DeclId} {sig : FunctionSig}
    (h : ∀ p ∈ sig.params, r.Fits src d p.ty) : r.AllFit src d sig.explicitTypes := by
  intro t ht
  obtain ⟨p, hp, rfl⟩ := List.mem_map.1 ht
  exact h p (List.mem_filter.1 hp).1

theorem bindArgs_keeps (h : Runs env (bindArgs args) s u s') :
    Keeps r env.source cur busy s (P ∧ ∀ a ∈ args, Typed r env.source cur a.value.id a.ty) s' P :=
  (passes_keeps ((passes_bindArgs args).of_runs h)).imp
    (fun ⟨hP, hargs⟩ => ⟨hP, fun _ => not_isConstruct_of_literalAmong hargs⟩) fun _ hP => hP

theorem plainUse_keeps (hid : env.source.IsConstruct id → id ∈ busy)
    {x : Ty} (h : Runs env (do recordUsage (.expr id) decl .plain; bindArgs args; pure x) s ty s') :
    x = ty ∧ Keeps r env.source cur busy s (P ∧ ∀ a ∈ args, Typed r env.source cur a.value.id a.ty) s'
      (P ∧ s'.program.usages.get? (.expr id) = some ⟨decl, .plain⟩) := by
  simp only [runs_bind, runs_pure] at h
  obtain ⟨_, s₁, hrecord, _, s₂, hbind, rfl, rfl⟩ := h
  have krecord : Keeps r env.source cur busy s _ s₁ _ := recordUsage_keeps hrecord
  have kbind : Keeps r env.source cur busy s₁ (True ∧ _) s₂ True := bindArgs_keeps hbind
  refine ⟨rfl, krecord.later.trans kbind.later, ?_⟩
  rintro ⟨hP, hargs⟩ hat hquiet
  obtain ⟨hat₁, -⟩ := krecord.holds ⟨hid, by simp⟩ hat (hquiet.of_later kbind.later)
  obtain ⟨hat₂, -⟩ := kbind.holds ⟨trivial, hargs⟩ hat₁ hquiet
  refine ⟨hat₂, hP, ?_⟩
  rw [(undisturbed_of_passes ((passes_bindArgs args).of_runs hbind)).usages, ← runs_modify.1 hrecord]
  exact Table.get?_insert_self _ _ _

/-- What is known of a call of `func` once its arguments are linked. -/
structure CallKnown (r : Regime) (src : Source) (cur func : DeclId) (ret : Ty) (expected : Option Ty)
    (args : List Argument) (written : List Ty) : Prop where
  owner : src.Owner func
  ret : r.Fits src func ret
  expected : r.HintFits src cur expected
  args : ∀ a ∈ args, Typed r src cur a.value.id a.ty
  written : r.AllFit src cur written

theorem plainCall_keeps (hid : env.source.IsConstruct id → id ∈ busy) {ret : Ty}
    (hempty : (s.signatures.genericsOf func).isEmpty = true) (h : Runs env (if written.isEmpty = true then do
        recordUsage (.expr id) func .plain
        bindArgs args
        pure ret
      else do
        let name ← nameOf func
        report span (.notGeneric name)
        recordUsage (.expr id) func .plain
        bindArgs args
        pure ret) s ty s') :
    Keeps r env.source cur busy s (CallKnown r env.source cur func ret expected args written) s'
      (r.Fits env.source cur ty) := by
  have hret : CallKnown r env.source cur func ret expected args written →
      At r env.source cur busy s → r.Fits env.source cur ret ∧
        ∀ a ∈ args, Typed r env.source cur a.value.id a.ty := by
    intro hknown hat
    refine ⟨hknown.ret.mono fun g hg hsettled => ?_, hknown.args⟩
    have hvisible := hg hsettled
    rw [hknown.owner.1.visible_eq, ← hat.genericsOf hknown.owner.2, List.isEmpty_iff.1 hempty] at hvisible
    exact absurd hvisible List.not_mem_nil
  split at h
  · obtain ⟨rfl, kuse⟩ : _ ∧ Keeps r env.source cur busy s (r.Fits env.source cur ret ∧ _) s' _ :=
      plainUse_keeps hid h
    exact (kuse.pre hret).imp (fun hknown => hknown) fun _ => And.left
  · rw [runs_bind] at h
    obtain ⟨name, s₁, hname, h⟩ := h
    obtain rfl := (looks_nameOf func).of_runs hname
    rw [runs_bind] at h
    obtain ⟨_, s₂, hreport, h⟩ := h
    obtain ⟨rfl, kuse⟩ : _ ∧ Keeps r env.source cur busy s₂ (r.Fits env.source cur ret ∧ _) s' _ :=
      plainUse_keeps hid h
    have kreport := ((minor_report _ _).of_runs hreport).keeps.trans kuse
    exact (kreport.pre hret).imp (fun hknown => hknown) fun _ => And.left

theorem linkIndirectCall_keeps {args : List Expr} {linkCallee : LinkM Ty}
    (hcallee : ∀ {s callee s'}, Runs env linkCallee s callee s' →
      Keeps r env.source cur busy s True s' (r.Fits env.source cur callee))
    (hargs : ∀ {hints s types s'}, Runs env (linkArgs hints) s types s' →
      Keeps r env.source cur busy s (∀ hint ∈ hints, r.HintFits env.source cur hint) s'
        (ArgsTyped r env.source cur args types))
    (h : Runs env (linkIndirectCall span args linkCallee linkArgs) s ty s') :
    Keeps r env.source cur busy s True s' (r.Fits env.source cur ty) := by
  simp only [linkIndirectCall, runs_bind, runs_typeEnv] at h
  obtain ⟨callee, s₁, hrun, _, _, ⟨rfl, rfl⟩, h⟩ := h
  refine (hcallee hrun).trans (Keeps.pre ?_ fun hfits hat => hat.expand hfits)
  have hreported : ∀ {p : String → Problem} {Q : Prop}, Runs env (do
        let shown ← showTy callee
        report span (p shown)
        let _ ← linkArgs []
        pure Ty.unknown) s₁ ty s' → Keeps r env.source cur busy s₁ Q s' (r.Fits env.source cur ty) := by
    intro p Q h
    simp only [runs_bind, runs_pure] at h
    obtain ⟨_, s₂, hshow, _, s₃, hreport, types, s₄, hlink, rfl, rfl⟩ := h
    obtain rfl := (looks_showTy callee).of_runs hshow
    refine (report_keeps hreport).trans ((hargs hlink).imp (fun _ => by simp) ?_)
    exact fun hpost _ => .unknown hpost.2
  split at h
  · rename_i formals ret heq
    rw [heq]
    split at h
    · simp only [runs_bind, runs_pure] at h
      obtain ⟨types, s₂, hlink, _, s₃, hbind, rfl, rfl⟩ := h
      refine Keeps.trans ((hargs hlink).imp (fun hfits hint hmem => ?_) fun hfits htyped => ?_)
        (bindArgs_keeps hbind)
      · obtain ⟨formal, hformal, rfl⟩ := List.mem_map.1 hmem
        exact hintFits_of_fits (hfits.of_function.1 formal hformal)
      · exact ⟨hfits.of_function.2, typed_arguments htyped⟩
    · exact hreported h
  · rename_i heq
    simp only [runs_bind, runs_pure] at h
    obtain ⟨types, s₂, hlink, rfl, rfl⟩ := h
    -- the callee was unknown already
    rw [heq]
    exact (hargs hlink).imp (fun _ => by simp) fun hfits _ => .unknown hfits.of_unknown
  · exact hreported h

variable (hwhole : r.whole) (hbuilt : env.source.WellBuilt) (hhost : Hosts env.source cur body.host)

include hwhole hbuilt hhost

theorem genericCall_keeps (hid : env.source.IsConstruct id → id ∈ busy) {ret : Ty}
    (hfunc : s.signatures.functions.contains func = true)
    (h : Runs env (do
        let limited ← limitTypeArgs func written (s.signatures.genericsOf func).length span
        let sigs ← signatures
        match sigs.callSignature? func with
        | none => pure .unknown
        | some generic =>
          let inferred ← useInExpr body id span func generic limited expected args
          pure (ret.subst (s.signatures.genericsOf func) inferred)) s ty s') :
    Keeps r env.source cur busy s (CallKnown r env.source cur func ret expected args written) s'
      (r.Fits env.source cur ty) := by
  simp only [runs_bind, runs_signatures] at h
  obtain ⟨limited, s₁, hlimit, _, _, ⟨rfl, rfl⟩, h⟩ := h
  obtain ⟨rfl, klimit⟩ : _ ∧ Keeps r env.source cur busy s True s₁ True := limitTypeArgs_keeps hlimit
  have hsome := klimit.later.functions func hfunc
  split at h
  · rename_i hnone
    rw [Table.contains, Option.isSome_iff_ne_none] at hsome
    exact absurd (Option.map_eq_none_iff.1 hnone) hsome
  · rename_i generic hgeneric
    obtain ⟨sig, -, rfl⟩ := Option.map_eq_some_iff.1 hgeneric
    simp only [runs_bind, runs_pure] at h
    obtain ⟨inferred, s₂, huse, rfl, rfl⟩ := h
    have kuse : Keeps r env.source cur busy s₁ _ s₂ _ := useInExpr_keeps hwhole hbuilt hhost hid huse
    refine ⟨klimit.later.trans kuse.later, fun hknown hat hquiet => ?_⟩
    obtain ⟨hat₁, -⟩ := klimit.holds trivial hat (hquiet.of_later kuse.later)
    have hwritten : r.AllFit env.source cur (written.take (s.signatures.genericsOf func).length) :=
      fun t ht => hknown.written t (List.mem_of_mem_take ht)
    obtain ⟨hat₂, harity, hfits, -⟩ := kuse.holds
      ⟨hknown.owner, ⟨rfl, rfl⟩, hwritten, hknown.expected, hknown.args⟩ hat₁ hquiet
    rw [hat.genericsOf hknown.owner.2]
    exact ⟨hat₂, fits_subst hknown.ret harity hfits⟩

theorem linkDirectCall_keeps (hid : env.source.IsConstruct id → id ∈ busy) {args : List Expr}
    (hargs : ∀ {hints s types s'}, Runs env (linkArgs hints) s types s' →
      Keeps r env.source cur busy s (∀ hint ∈ hints, r.HintFits env.source cur hint) s'
        (ArgsTyped r env.source cur args types)) (hcallable : Callable env.source s func)
    (h : Runs env (linkDirectCall body expected id span func typeArgs args linkArgs) s ty s') :
    Keeps r env.source cur busy s (r.HintFits env.source cur expected) s' (r.Fits env.source cur ty) := by
  simp only [linkDirectCall, runs_bind, runs_signatures] at h
  obtain ⟨_, _, ⟨rfl, rfl⟩, h⟩ := h
  split at h
  · rename_i hnone
    obtain ⟨rfl, rfl⟩ := runs_pure.1 h
    exact .refl fun _ hat => absurd hnone (hcallable.signature hwhole hat)
  rename_i sig hsig
  split at h
  · simp only [nameOf, runs_bind, runs_declOf, runs_pure] at h
    obtain ⟨_, _, ⟨d, _, ⟨-, rfl⟩, rfl, rfl⟩, _, s₁, hreport, types, s₂, hlink, rfl, rfl⟩ := h
    refine (report_keeps hreport).trans ((hargs hlink).imp (fun _ => by simp) ?_)
    exact fun hpost _ => .unknown hpost.2
  simp only [runs_bind, runs_signatures] at h
  obtain ⟨types, s₁, hlink, written, s₂, hwritten, _, _, ⟨rfl, rfl⟩, h⟩ := h
  have kargs := (hargs hlink).trans ((linkTypes_keeps hhost typeArgs hwritten).imp
    (fun _ => trivial) And.intro)
  have kstart : Keeps r env.source cur busy s (r.HintFits env.source cur expected) s₂
      (CallKnown r env.source cur func sig.ret expected (arguments args types sig.explicitTypes) written) := by
    refine ⟨kargs.later, fun hexpected hat hquiet => ?_⟩
    obtain ⟨hparams, hret⟩ := hat.facts.signatures.functions func sig hsig
    have hhints : ∀ hint ∈ sig.explicitTypes.map Ty.hint, r.HintFits env.source cur hint := by
      intro hint hmem
      obtain ⟨formal, hformal, rfl⟩ := List.mem_map.1 hmem
      exact hintFits_of_fits (explicitTypes_fit hparams formal hformal)
    obtain ⟨hat₂, htyped, hfits⟩ := kargs.holds hhints hat hquiet
    exact ⟨hat₂, hcallable.owner hat, hret, hexpected, typed_arguments htyped, hfits⟩
  refine kstart.trans ?_
  split at h
  · rename_i hempty
    exact plainCall_keeps hid hempty h
  · have hcontains : s.signatures.functions.contains func = true := by
      rw [Table.contains, hsig]
      rfl
    exact genericCall_keeps hwhole hbuilt hhost hid (kargs.later.functions func hcontains) h

theorem linkCall_keeps (hid : env.source.IsConstruct id → id ∈ busy)
    {args : List Expr} {linkCallee : LinkM Ty} (hcallee : ∀ {s ty s'}, Runs env linkCallee s ty s' →
      Keeps r env.source cur busy s True s' (r.Fits env.source cur ty))
    (hargs : ∀ {hints s types s'}, Runs env (linkArgs hints) s types s' →
      Keeps r env.source cur busy s (∀ hint ∈ hints, r.HintFits env.source cur hint) s'
        (ArgsTyped r env.source cur args types))
    (h : Runs env (linkCall body expected id span callee typeArgs args linkCallee linkArgs) s ty s') :
    Keeps r env.source cur busy s (r.HintFits env.source cur expected) s' (r.Fits env.source cur ty) := by
  simp only [linkCall, runs_bind] at h
  obtain ⟨found, s₁, hfound, h⟩ := h
  obtain ⟨rfl, hcallable⟩ := callable_of_calledFunction? hfound
  cases found with
  | none => exact (linkIndirectCall_keeps hcallee hargs h).imp (fun _ => trivial) fun _ hfits => hfits
  | some func =>
    simp only [runs_bind] at h
    obtain ⟨_, s₂, hrecord, h⟩ := h
    have hfunc : Callable env.source s₂ func := by
      obtain rfl := runs_modify.1 hrecord
      exact ⟨(hcallable func rfl).path, (hcallable func rfl).function, (hcallable func rfl).linked⟩
    exact ((minor_recordResolved callee.id func).of_runs hrecord).keeps.trans
      (linkDirectCall_keeps hwhole hbuilt hhost hid hargs hfunc h)

/-! ### Struct literals -/

/-- What is known of an expression whose type is about to be recorded: if a copy was selected for it, and
it is a struct literal that is linked for the first time, then the copy was selected for its type. -/
def Pending (src : Source) (busy : List ExprId) (id : ExprId) (ty : Ty) (s : LinkState) : Prop :=
  src.IsConstruct id → id ∉ busy → ∀ u, s.program.usages.get? (.expr id) = some u →
    u.copy.isSelected = true → id ∈ s.linked ∨ ∃ args, ty = .linked u.decl args ∧ s.known.Selects u args

/-- A run that links the expression `id` up to the point where its type is recorded. -/
structure Links (r : Regime) (src : Source) (cur : DeclId) (busy : List ExprId) (id : ExprId)
    (s : LinkState) (P : Prop) (s' : LinkState) (ty : Ty) : Prop where
  later : s.Later r.settled s'
  holds : P → At r src cur busy s → r.Quiet s' →
    At r src cur (id :: busy) s' ∧ Typed r src cur id ty ∧ Pending src busy id ty s'

omit hwhole hbuilt hhost in
/-- Where no copy is selected, one that was selected before belongs to a literal linked before. -/
theorem links_of_keeps
    (h : Keeps r src cur busy s P s' (Typed r src cur id ty)) : Links r src cur busy id s P s' ty := by
  refine ⟨h.later, fun hP hat hquiet => ?_⟩
  obtain ⟨hat', htyped⟩ := h.holds hP hat hquiet
  refine ⟨hat'.busyWith id, htyped, fun hconstruct hbusy u hu hselected => .inl ?_⟩
  exact (hat'.facts.coherent id hconstruct hbusy u hu hselected).1

omit hwhole hbuilt hhost in
theorem linkNoStruct_keeps {p : Problem} {linkValues : LinkM Unit}
    (hvalues : ∀ {s u s'}, Runs env linkValues s u s' → Keeps r env.source cur busy s True s' True)
    (h : Runs env (linkNoStruct span p linkValues) s ty s') :
    Keeps r env.source cur busy s P s' (Typed r env.source cur id ty) := by
  simp only [linkNoStruct, runs_bind, runs_pure] at h
  obtain ⟨_, s₁, hreport, _, s₂, hlink, rfl, rfl⟩ := h
  refine (report_keeps hreport).trans ((hvalues hlink).imp (fun _ => trivial) ?_)
  exact fun hpost _ => ⟨.unknown hpost.2, by rintro ⟨⟩⟩

/-- What the plan of a struct literal suggests for its values. -/
def FieldPlan.Fits (r : Regime) (src : Source) (cur : DeclId) (plan : FieldPlan) : Prop :=
  ∀ field formal, plan.formal? field = some formal → r.HintFits src cur (plan.hint formal)

/-- What is known of a literal of `struct` once its values are linked. -/
structure LiteralKnown (r : Regime) (src : Source) (cur struct : DeclId) (generics : List GenericId)
    (expected : Option Ty) (args : List Argument) (written : List Ty) : Prop where
  owner : src.Owner struct
  generics : generics = src.genericsOf struct
  expected : r.HintFits src cur expected
  args : ∀ a ∈ args, Typed r src cur a.value.id a.ty
  written : r.AllFit src cur written

theorem literalTail_keeps {struct : DeclId} {generics : List GenericId}
    (h : Runs env (if generics.isEmpty = true then do
        recordUsage (.expr id) struct .plain
        bindArgs args
        pure (.linked struct [])
      else do
        let sigs ← signatures
        let inferred ← useInExpr body id span struct
          (sigs.constructSignature struct (args.map (·.formal))) written expected args
        pure (.linked struct inferred)) s ty s') :
    Keeps r env.source cur (id :: busy) s
      (LiteralKnown r env.source cur struct generics expected args written) s'
      (Typed r env.source cur id ty ∧ Pending env.source busy id ty s') := by
  have hid : env.source.IsConstruct id → id ∈ id :: busy := fun _ => List.mem_cons_self
  split at h
  · rename_i hempty
    obtain ⟨rfl, kuse⟩ : _ ∧ Keeps r env.source cur (id :: busy) s (True ∧ _) s' _ := plainUse_keeps hid h
    refine kuse.imp (fun hknown => ⟨trivial, hknown.args⟩) ?_
    rintro hknown ⟨-, husage⟩
    refine ⟨⟨?_, by rintro ⟨⟩⟩, ?_⟩
    · refine .linked ⟨hknown.owner.1, hknown.owner.2, ?_⟩ (by simp)
      rw [← hknown.generics, List.isEmpty_iff.1 hempty]
      rfl
    · intro _ _ u hu hselected
      obtain rfl := Option.some.inj (husage.symm.trans hu)
      cases hselected
  · simp only [runs_bind, runs_signatures, runs_pure] at h
    obtain ⟨_, _, ⟨rfl, rfl⟩, inferred, s₁, huse, rfl, rfl⟩ := h
    refine (useInExpr_keeps hwhole hbuilt hhost hid huse).imp (fun hknown => ?_) ?_
    · exact ⟨hknown.owner, ⟨rfl, rfl⟩, hknown.written, hknown.expected, hknown.args⟩
    · rintro hknown ⟨harity, hfits, copy, husage, hselects⟩
      refine ⟨⟨.linked harity hfits, by rintro ⟨⟩⟩, fun _ _ u hu _ => .inr ?_⟩
      obtain rfl := Option.some.inj (husage.symm.trans hu)
      exact ⟨inferred, rfl, hselects⟩

theorem linkStructLiteral_links {struct : DeclId} {shown : String} {declared : List (String × Ty)}
    {supplied : List String} {linkFields : FieldPlan → LinkM (List Argument)}
    (hfields : ∀ {plan s args s'}, Runs env (linkFields plan) s args s' →
      Keeps r env.source cur busy s (plan.Fits r env.source cur) s'
        (∀ a ∈ args, Typed r env.source cur a.value.id a.ty))
    (hpath : ∃ path, s.resolve? env.source path = .ok (some struct))
    (hdeclared : s.signatures.fields.get? struct = some declared)
    (h : Runs env (linkStructLiteral body expected id span struct shown declared typeArgs supplied linkFields)
      s ty s') : Links r env.source cur busy id s (r.HintFits env.source cur expected) s' ty := by
  simp only [linkStructLiteral, runs_bind, runs_signatures] at h
  obtain ⟨_, _, ⟨rfl, rfl⟩, written, s₁, hwritten, limited, s₂, hlimit, args, s₃, hlink, _, s₄, hmissing, h⟩ := h
  have kwritten : Keeps r env.source cur busy s _ s₁ _ := linkTypes_keeps hhost typeArgs hwritten
  obtain ⟨rfl, klimit⟩ : _ ∧ Keeps r env.source cur busy s₁ True s₂ True := limitTypeArgs_keeps hlimit
  have kfields := hfields hlink
  have kmissing : Keeps r env.source cur busy s₃ True s₄ True := by
    refine ((Framed.forM fun f _ => (?_ : Framed Minor _)).of_runs hmissing).keeps
    split
    · exact .pure _
    · exact minor_report _ _
  have ktail : Keeps r env.source cur (id :: busy) s₄ _ s' _ := literalTail_keeps hwhole hbuilt hhost h
  have hlater₁ := kfields.later.trans (kmissing.later.trans ktail.later)
  refine ⟨kwritten.later.trans (klimit.later.trans hlater₁), fun hexpected hat hquiet => ?_⟩
  obtain ⟨path, hpath⟩ := hpath
  obtain ⟨⟨d, st, hd, hkind⟩, hformals⟩ := hat.facts.signatures.fields struct declared hdeclared
  have howner : env.source.Owner struct :=
    (hat.resolve? hpath).owner hd (by simp [hkind, DeclKind.isItem]) (by simp [hkind, DeclKind.isSpace])
  have hgenerics := hat.genericsOf howner.2
  have hquiet₂ := hquiet.of_later hlater₁
  obtain ⟨hat₁, hfits⟩ := kwritten.holds trivial hat (hquiet₂.of_later klimit.later)
  obtain ⟨hat₂, -⟩ := klimit.holds trivial hat₁ hquiet₂
  have hlimited : r.AllFit env.source cur (written.take (s.signatures.genericsOf struct).length) :=
    fun t ht => hfits t (List.mem_of_mem_take ht)
  obtain ⟨hat₃, hargs⟩ := kfields.holds (fun field formal hformal => by
    dsimp only
    split
    · rename_i hcomplete
      have harity := beq_iff_eq.1 hcomplete
      rw [hgenerics] at harity ⊢
      refine hintFits_of_fits (fits_subst ?_ ⟨howner.1, howner.2, harity⟩ (hgenerics ▸ hlimited))
      obtain ⟨before, after, hdecl, -⟩ := List.lookup_eq_some_iff.1 hformal
      exact hformals (field, formal) (by simp [hdecl])
    · simp [Regime.HintFits]) hat₂ (hquiet.of_later (kmissing.later.trans ktail.later))
  obtain ⟨hat₄, -⟩ := kmissing.holds trivial hat₃ (hquiet.of_later ktail.later)
  exact ktail.holds ⟨howner, hgenerics, hexpected, hargs, hlimited⟩ (hat₄.busyWith id) hquiet

theorem linkConstruct_links {struct : TypeExpr} {supplied : List String} {linkValues : LinkM Unit}
    {linkFields : FieldPlan → LinkM (List Argument)}
    (hvalues : ∀ {s u s'}, Runs env linkValues s u s' → Keeps r env.source cur busy s True s' True)
    (hfields : ∀ {plan s args s'}, Runs env (linkFields plan) s args s' →
      Keeps r env.source cur busy s (plan.Fits r env.source cur) s'
        (∀ a ∈ args, Typed r env.source cur a.value.id a.ty))
    (h : Runs env (linkConstruct body expected id span struct supplied linkValues linkFields) s ty s') :
    Links r env.source cur busy id s (r.HintFits env.source cur expected) s' ty := by
  unfold linkConstruct at h
  split at h
  · simp at h
  · simp only [runs_bind, runs_resolve?] at h
    obtain ⟨target, _, ⟨htarget, rfl⟩, h⟩ := h
    cases target with
    | none => exact links_of_keeps (linkNoStruct_keeps hvalues h)
    | some struct =>
      simp only [runs_bind, runs_signatures] at h
      obtain ⟨_, _, ⟨rfl, rfl⟩, h⟩ := h
      split at h
      · exact links_of_keeps (linkNoStruct_keeps hvalues h)
      · rename_i declared hdeclared
        simp only [runs_bind] at h
        obtain ⟨_, s₁, hrecord, h⟩ := h
        have krecord : Keeps r env.source cur busy s True s₁ True :=
          ((minor_recordResolved id struct).of_runs hrecord).keeps
        obtain rfl := runs_modify.1 hrecord
        obtain ⟨hlater, hholds⟩ : Links r env.source cur busy id _ _ s' ty :=
          linkStructLiteral_links hwhole hbuilt hhost hfields ⟨_, by exact htarget⟩ (by exact hdeclared) h
        refine ⟨krecord.later.trans hlater, fun hexpected hat hquiet => ?_⟩
        obtain ⟨hat₁, -⟩ := krecord.holds trivial hat (hquiet.of_later hlater)
        exact hholds hexpected hat₁ hquiet
  · exact links_of_keeps (linkNoStruct_keeps hvalues h)

end Link

end Linkage
