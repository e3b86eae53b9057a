import Linkage.Proofs.Link.Run
import Linkage.Proofs.Registry.Origin
import Linkage.Proofs.Source.Items
import Mathlib.Logic.Relation

/-!
# What linking leaves alone

Linking goes one way: reports, registrations, duplicates and bodies are only added, and of the open frames only the
innermost one changes. What linking an annotation does is told step by step: it reports something, though no use of a
moved value and no duplicate, checks a bound, asks for an iteration, makes a subscription, or notes which copy of a
declaration the annotation uses. An annotation that only mentions types does nothing but check bounds and report.
-/

namespace Linkage

/-- The state has moved on from `s` to `s'`. Where `fixed` holds, defaults do not change any more. -/
structure LinkState.Later (fixed : Prop) (s s' : LinkState) : Prop where
  reports : s.reports <+: s'.reports
  quiet : s'.quiet = s.quiet
  registry : s.program.registry.Extends s'.program.registry
  outer : s'.scopes.frames.tail = s.scopes.frames.tail
  ignored : s.ignored <+: s'.ignored
  bodies : s.bodies <+: s'.bodies
  functions : ∀ d, s.signatures.functions.contains d = true → s'.signatures.functions.contains d = true
  generics : s'.signatures.generics = s.signatures.generics
  defaults : fixed → s'.signatures.defaults = s.signatures.defaults

namespace LinkState

variable {fixed : Prop} {s s' s'' : LinkState}

theorem Later.refl (s : LinkState) : s.Later fixed s where
  reports := List.prefix_refl _
  quiet := rfl
  registry := .refl _
  outer := rfl
  ignored := List.prefix_refl _
  bodies := List.prefix_refl _
  functions _ h := h
  generics := rfl
  defaults _ := rfl

theorem Later.trans (h : s.Later fixed s') (h' : s'.Later fixed s'') : s.Later fixed s'' where
  reports := h.reports.trans h'.reports
  quiet := h'.quiet.trans h.quiet
  registry := h.registry.trans h'.registry
  outer := h'.outer.trans h.outer
  ignored := h.ignored.trans h'.ignored
  bodies := h.bodies.trans h'.bodies
  functions d hd := h'.functions d (h.functions d hd)
  generics := h'.generics.trans h.generics
  defaults hfixed := (h'.defaults hfixed).trans (h.defaults hfixed)

def watched (s : LinkState) :=
  (s.reports, s.quiet, s.program.registry, s.scopes, s.ignored, s.bodies, s.signatures.functions,
    s.signatures.generics, s.signatures.defaults)

theorem later_of_eq (h : s'.watched = s.watched) : s.Later fixed s' := by
  simp only [watched, Prod.mk.injEq] at h
  obtain ⟨hreports, hquiet, hregistry, hscopes, hignored, hbodies, hfunctions, hgenerics, hdefaults⟩ := h
  refine ⟨hreports ▸ List.prefix_refl _, hquiet, hregistry ▸ .refl _, by rw [hscopes], ?_, ?_, ?_, hgenerics,
    fun _ => hdefaults⟩
  · exact hignored ▸ List.prefix_refl _
  · exact hbodies ▸ List.prefix_refl _
  · intro d hd
    rwa [hfunctions]

theorem later_report (s : LinkState) (d : Diagnostic) :
    s.Later fixed { s with reports := s.reports ++ [d] } :=
  { Later.refl s with reports := List.prefix_append _ _ }

theorem later_check (s : LinkState) (c : BoundCheck) :
    s.Later fixed { s with checks := s.checks ++ [c], reports := s.reports ++ c.reported.toList } :=
  { Later.refl s with reports := List.prefix_append _ _ }

theorem later_withInstances {x : Instances} (hreports : s.reports <+: x.reports)
    (hregistry : s.program.registry.Extends x.registry) : s.Later fixed (s.withInstances x) :=
  { Later.refl s with reports := hreports, registry := hregistry }

end LinkState

namespace TypeExpr

mutual
/-- The paths in an annotation, each with the number of arguments that are written behind it. -/
def names : TypeExpr → List (List String × Nat)
  | .missing _ => []
  | .node _ _ (.named path args) => (path, args.length) :: namesAll args
  | .node _ _ (.pointer inner) => inner.names
  | .node _ _ (.reference inner) => inner.names
  | .node _ _ (.array elem _) => elem.names
  | .node _ _ (.function params ret) => namesAll params ++ ret.names
def namesAll : List TypeExpr → List (List String × Nat)
  | [] => []
  | t :: ts => t.names ++ namesAll ts
end

end TypeExpr

def LinkEnv.withItems (env : LinkEnv) (items : List DeclId) : LinkEnv :=
  { env with source := env.source.withItems items }

namespace Link

open Relation LinkState

variable {α β : Type} {env : LinkEnv} {s s' : LinkState} {fixed : Prop}

/-! ### Actions that look at something -/

theorem looks_source : Looks source := .bind .read fun _ => .pure _

theorem looks_signatures : Looks signatures := .bind .get fun _ => .pure _

theorem looks_typeEnv : Looks typeEnv := .bind .get fun _ => .pure _

theorem looks_resolve? (path : List String) : Looks (resolve? path) := by
  refine .bind .get fun s => .bind looks_source fun src => ?_
  cases s.resolve? src path with
  | error node => exact .throw _
  | ok found => exact .pure found

theorem looks_placeOf (e : Expr) : Looks (placeOf e) :=
  .bind looks_source fun _ => .bind .get fun _ => .pure _

theorem looks_satisfies (expected actual : Ty) : Looks (satisfies expected actual) :=
  .bind looks_typeEnv fun _ => .pure _

theorem looks_beginBranch : Looks beginBranch := .bind .get fun _ => .pure _

theorem looks_evaluate (e : Expr) : Looks (evaluate e) := by
  refine .bind .read fun env => .bind .get fun s => ?_
  split
  · exact .pure _
  · exact .throw _

/-- The action looks at nodes of the unit and at nothing else, not even at the order of its items. -/
def Consults (act : LinkM α) : Prop := ∀ env : LinkEnv, ∃ r, ∀ items s, act (env.withItems items) s = (r, s)

namespace Consults

theorem pure (a : α) : Consults (pure a : LinkM α) := fun _ => ⟨.ok a, fun _ _ => rfl⟩

theorem throw (fault : Fault) : Consults (throw fault : LinkM α) := fun _ => ⟨.error fault, fun _ _ => rfl⟩

theorem bind {x : LinkM α} {f : α → LinkM β} (hx : Consults x) (hf : ∀ a, Consults (f a)) : Consults (x >>= f) := by
  intro env
  obtain ⟨r, hr⟩ := hx env
  cases r with
  | error fault => exact ⟨.error fault, fun items s => by rw [bind_apply, hr]⟩
  | ok a =>
    obtain ⟨r, hr'⟩ := hf a env
    refine ⟨r, fun items s => ?_⟩
    rw [bind_apply, hr]
    exact hr' items s

theorem source {f : Source → LinkM α} (hf : ∀ src, Consults (f src))
    (heq : ∀ (src : Source) items, f (src.withItems items) = f src) : Consults (source >>= f) := by
  intro env
  obtain ⟨r, hr⟩ := hf env.source env
  refine ⟨r, fun items s => ?_⟩
  show f (env.source.withItems items) (env.withItems items) s = (r, s)
  rw [heq]
  exact hr items s

theorem looks {act : LinkM α} (h : Consults act) : Looks act := by
  intro env s
  obtain ⟨r, hr⟩ := h env
  exact congrArg Prod.snd (hr env.source.items s)

end Consults

theorem compound_consults : Compound fun _ act => Consults act := ⟨.pure, .bind⟩

theorem consults_ofOption {kind : NodeKind} (id : NodeId kind) (o : Option α) : Consults (ofOption id o) := by
  cases o with
  | none => exact .throw _
  | some a => exact .pure a

theorem consults_declOf (id : DeclId) : Consults (declOf id) :=
  .source (fun _ => consults_ofOption _ _) fun _ _ => rfl

theorem consults_genericOf (id : GenericId) : Consults (genericOf id) :=
  .source (fun _ => consults_ofOption _ _) fun _ _ => rfl

theorem consults_nameOf (id : DeclId) : Consults (nameOf id) := .bind (consults_declOf id) fun _ => .pure _

theorem consults_showTy (ty : Ty) : Consults (showTy ty) := by
  refine .source (fun src => ?_) fun src items => by rw [src.showTy_withItems items]
  cases src.showTy ty with
  | error node => exact .throw _
  | ok text => exact .pure text

theorem consults_sliceTo (l : List α) (n : Nat) : Consults (sliceTo l n) := by
  unfold sliceTo
  split
  · exact .pure _
  · exact .throw _

theorem consults_sliceFrom (l : List α) (n : Nat) : Consults (sliceFrom l n) := by
  unfold sliceFrom
  split
  · exact .pure _
  · exact .throw _

theorem consults_spacesAround (decl : DeclId) : Consults (spacesAround decl) := by
  refine .bind (consults_declOf decl) fun _ => .source (fun src => ?_) fun src items => by rw [src.ancestors_withItems]
  exact .bind (compound_consults.mapM fun d _ => .bind (consults_declOf d) fun _ => .pure _) fun _ => .pure _

theorem consults_interfaceOf (d : Decl) : Consults (interfaceOf d) := by
  unfold interfaceOf
  split
  · exact .pure _
  · exact .bind (consults_declOf _) fun _ => .pure _

theorem consults_genericHost (decl : DeclId) : Consults (genericHost decl) := by
  refine .bind (consults_declOf decl) fun d => ?_
  split
  · exact .pure _
  · refine .bind (consults_interfaceOf d) fun interface => ?_
    cases interface with
    | none => exact .pure _
    | some interface => exact .bind (consults_declOf interface) fun _ => .pure _

theorem consults_genericFrame (decl : DeclId) : Consults (genericFrame decl) := by
  refine .bind (consults_declOf decl) fun d => .bind (consults_interfaceOf d) fun interface => ?_
  have hframe : ∀ generics : List GenericId, Consults (do
      let params ← generics.mapM genericOf
      return params.foldl (fun (frame : Frame) g => frame.insert g.name g.decl) {}) :=
    fun generics => .bind (compound_consults.mapM fun g _ => consults_genericOf g) fun _ => .pure _
  cases interface with
  | none => exact .bind (.pure _) fun outer => hframe _
  | some interface => exact .bind (consults_declOf interface) fun _ => .bind (.pure _) fun outer => hframe _

theorem consults_boundViolation (span : Span) (g : GenericId) (arg bound : Ty) :
    Consults (boundViolation span g arg bound) :=
  .bind (consults_genericOf g) fun _ => .bind (consults_showTy arg) fun _ => .bind (consults_showTy bound) fun _ => .pure _

theorem looks_declOf (id : DeclId) : Looks (declOf id) := (consults_declOf id).looks

theorem looks_genericOf (id : GenericId) : Looks (genericOf id) := (consults_genericOf id).looks

theorem looks_nameOf (id : DeclId) : Looks (nameOf id) := (consults_nameOf id).looks

theorem looks_showTy (ty : Ty) : Looks (showTy ty) := (consults_showTy ty).looks

theorem looks_showPlace (p : Place) : Looks (showPlace p) := .bind (looks_nameOf _) fun _ => .pure _

/-! ### Actions inside frames -/

/-- A relation that holds around a frame if it holds inside. -/
class Enclosed (ρ : LinkState → LinkState → Prop) : Prop where
  close : ∀ {s s' : LinkState} (frame : Frame), ρ { s with scopes := s.scopes.push frame } s' →
    ρ s { s' with scopes := s'.scopes.pop }

section Enclosed

variable {ρ : LinkState → LinkState → Prop} [Sequential ρ] [Enclosed ρ]

omit [Sequential ρ] in
theorem framed_withFrame {frame : Frame} {act : LinkM α} (h : Framed ρ act) : Framed ρ (withFrame frame act) :=
  fun env s => Enclosed.close frame (h env { s with scopes := s.scopes.push frame })

omit [Sequential ρ] in
theorem framed_withFrames {frames : List Frame} {act : LinkM α} (h : Framed ρ act) :
    Framed ρ (withFrames frames act) := by
  induction frames with
  | nil => exact h
  | cons frame frames ih => exact framed_withFrame ih

theorem framed_inNamespaces {decl : DeclId} {act : LinkM α} (h : Framed ρ act) :
    Framed ρ (inNamespaces decl act) :=
  .bind (consults_spacesAround decl).looks.framed fun _ => .bind Looks.get.framed fun _ => framed_withFrames h

theorem framed_inGenerics {decl : DeclId} {act : Option DeclId → LinkM α} (h : ∀ host, Framed ρ (act host)) :
    Framed ρ (inGenerics decl act) := by
  refine .bind (consults_genericHost decl).looks.framed fun host => ?_
  exact .bind (consults_genericFrame decl).looks.framed fun frame => framed_withFrame (h host)

end Enclosed

/-! ### Annotations, step by step -/

/-- A violation was reported if and only if the signatures showed one. -/
structure Faithful (c : BoundCheck) : Prop where
  verdict : c.reported.isSome = (c.seen.violatedBound? c.generics c.args c.param c.arg).isSome
  wording : ∀ d ∈ c.reported, d.kind = .typeMismatch ∧ d.phase = .typeChecking

inductive TypeStep : TypeUse → LinkState → LinkState → Prop
  | report {usage : TypeUse} (s : LinkState) (d : Diagnostic) (h : s.quiet = false)
      (hkind : d.kind ≠ .useAfterMove) (hphase : d.phase ≠ .typeChecking) (hsingle : d.kind ≠ .structuralAmbiguity) :
      TypeStep usage s { s with reports := s.reports ++ [d] }
  | check {usage : TypeUse} (s : LinkState) (c : BoundCheck) (h : s.quiet = false) (hseen : c.seen = s.signatures)
      (hfaithful : Faithful c) :
      TypeStep usage s { s with checks := s.checks ++ [c], reports := s.reports ++ c.reported.toList }
  | instantiate (s : LinkState) (limits : Limits) (decl : DeclId) (args : List Ty) (span : Span) :
      TypeStep .use s (s.withInstances (s.instances.instantiate s.env limits decl args span).2)
  | subscribe (s : LinkState) (limits : Limits) (sub : Subscription) :
      TypeStep .use s (s.withInstances (s.instances.subscribe s.env limits sub).2)
  | usage (s : LinkState) (id : TypeExprId) (u : Usage) :
      TypeStep .use s { s with program.usages := s.program.usages.insert (.typeExpr id) u }

abbrev TypeSteps (usage : TypeUse) : LinkState → LinkState → Prop := ReflTransGen (TypeStep usage)

instance (usage : TypeUse) : Sequential (TypeSteps usage) where
  refl _ := .refl
  trans h h' := h.trans h'

variable {usage : TypeUse}

theorem steps_report (span : Span) {p : Problem} (hkind : p.kind ≠ .useAfterMove)
    (hphase : p.phase ≠ .typeChecking) (hsingle : p.kind ≠ .structuralAmbiguity) :
    Framed (TypeSteps usage) (report span p) :=
  fun _ => .report fun s hloud => .single (.report s _ hloud hkind hphase hsingle)

theorem steps_fillTypeArgs (name : String) (span : Span) (generics rest : List GenericId) (args : List Ty) :
    Framed (TypeSteps usage) (fillTypeArgs name span generics rest args) := by
  induction rest generalizing args with
  | nil => exact .pure _
  | cons g rest ih =>
    unfold fillTypeArgs
    refine .bind looks_signatures.framed fun sigs => ?_
    split
    · exact .bind (consults_sliceTo _ _).looks.framed fun _ => ih _
    · refine .bind (looks_genericOf g).framed fun _ => ?_
      exact .bind (steps_report _ nofun nofun nofun) fun _ => ih _

theorem steps_completeTypeArgs (decl : DeclId) (args : List Ty) (span : Span) :
    Framed (TypeSteps usage) (completeTypeArgs decl args span) := by
  rw [completeTypeArgs_eq]
  refine .bind looks_signatures.framed fun sigs => .bind (looks_nameOf decl).framed fun name => ?_
  refine .bind (compound_framed.reportIf (steps_report _ nofun nofun nofun)) fun _ => ?_
  exact .bind (consults_sliceFrom _ _).looks.framed fun _ => steps_fillTypeArgs _ _ _ _ _

theorem wording_of_boundViolation {span : Span} {g : GenericId} {arg bound : Ty} {d : Diagnostic}
    (h : Runs env (boundViolation span g arg bound) s d s') : d.kind = .typeMismatch ∧ d.phase = .typeChecking := by
  simp only [boundViolation, runs_bind] at h
  obtain ⟨_, _, -, _, _, -, _, _, -, h⟩ := h
  obtain ⟨rfl, -⟩ := runs_pure.1 h
  exact ⟨rfl, rfl⟩

theorem faithful_of_runs {c : BoundCheck} {span : Span} (h : Runs env
    ((c.seen.violatedBound? c.generics c.args c.param c.arg).mapM (boundViolation span c.param c.arg))
      s c.reported s') : Faithful c := by
  obtain ⟨hviolated, hreported, -⟩ | ⟨bound, d, hviolated, hreported, hrun⟩ := runs_option h
  · exact ⟨by rw [hviolated, hreported]; rfl, by simp [hreported]⟩
  · refine ⟨by rw [hviolated, hreported]; rfl, fun d' hd' => ?_⟩
    obtain rfl : d = d' := Option.some.inj (hreported.symm.trans hd')
    exact wording_of_boundViolation hrun

theorem steps_noteCheck {c : BoundCheck} (hseen : c.seen = s.signatures) (hfaithful : Faithful c) :
    TypeSteps usage s (noteCheck c env s).2 := by
  show TypeSteps usage s (if s.quiet then s else _)
  split
  · exact .refl
  · rename_i hloud
    exact .single (.check s c (Bool.eq_false_iff.2 hloud) hseen hfaithful)

theorem steps_checkBound (generics : List GenericId) (args : List Ty) (span : Span) (g : GenericId)
    (arg : Ty) : Framed (TypeSteps usage) (checkBound generics args span g arg) := by
  intro env s
  refine looks_signatures.bind_framed fun seen hseen => ?_
  obtain ⟨rfl, -⟩ := runs_signatures.1 hseen
  have hlooks : Looks ((s.signatures.violatedBound? generics args g arg).mapM (boundViolation span g arg)) :=
    compound_looks.option fun bound _ => (consults_boundViolation span g arg bound).looks
  refine hlooks.bind_framed fun reported hreported => ?_
  exact steps_noteCheck rfl (faithful_of_runs hreported)

theorem steps_checkBounds (decl : DeclId) (args : List Ty) (span : Span) :
    Framed (TypeSteps usage) (checkBounds decl args span) := by
  unfold checkBounds
  refine .bind looks_signatures.framed fun sigs => .forM fun p _ => ?_
  exact steps_checkBound _ _ _ _ _

theorem steps_useGeneric (host : Option DeclId) (decl : DeclId) (args : List Ty) (span : Span) :
    Framed (TypeSteps .use) (useGeneric host decl args span) := by
  unfold useGeneric
  split
  · exact .pure _
  · split
    · split
      · exact .pure _
      · refine .bind (looks_declOf _).framed fun d => .bind (.bind Looks.read.framed fun r => ?_) ?_
        · exact .modifyGet fun s => .single (.subscribe s _ _)
        · exact fun _ => .pure _
    · refine .bind (.bind Looks.read.framed fun r => ?_) fun index => ?_
      · exact .modifyGet fun s => .single (.instantiate s _ _ _ _)
      · split
        · exact .pure _
        · exact .pure _

theorem steps_linkDeclared (host : Option DeclId) (id : TypeExprId) (span : Span) (decl : DeclId)
    {linkArgs : LinkM (List Ty)} (hargs : Framed (TypeSteps usage) linkArgs) :
    Framed (TypeSteps usage) (linkDeclared host usage id span decl linkArgs) := by
  unfold linkDeclared
  refine .bind hargs fun written => .bind (steps_completeTypeArgs decl written span) fun args => ?_
  refine .bind (steps_checkBounds decl args span) fun _ => ?_
  dsimp only
  split
  · rename_i huse
    subst huse
    refine .bind looks_typeEnv.framed fun e => ?_
    split
    · exact .pure _
    · refine .bind (steps_useGeneric host _ _ span) fun copy => ?_
      exact .bind (.modify fun s => .single (.usage s id _)) fun _ => .pure _
  · exact .pure _

theorem steps_linkNamed (host : Option DeclId) (id : TypeExprId) (span : Span) (path : List String)
    (isBare : Bool) {linkArgs : LinkM (List Ty)} (hargs : Framed (TypeSteps usage) linkArgs) :
    Framed (TypeSteps usage) (linkNamed host usage id span path isBare linkArgs) := by
  unfold linkNamed
  split
  · split
    · exact .pure _
    · exact .bind (steps_report _ nofun nofun nofun) fun _ => .pure _
  · refine .bind (looks_resolve? path).framed fun found => ?_
    split
    · exact .bind (steps_report _ nofun nofun nofun) fun _ => .pure _
    · rename_i decl
      refine .bind (looks_declOf decl).framed fun d => ?_
      split
      · split
        · exact .pure _
        · exact .bind (steps_report _ nofun nofun nofun) fun _ => .pure _
      all_goals first
        | exact steps_linkDeclared host id span decl hargs
        | exact .bind (steps_report _ nofun nofun nofun) fun _ => .pure _

/-- An annotation has the property if the names in it are allowed: one that is missing has it, and so does one that is
named if its arguments have it. -/
structure Annotating (host : Option DeclId) (usage : TypeUse) (C : List String × Nat → Prop)
    (T : (α : Type) → LinkM α → Prop) : Prop extends Compound T where
  missing : ∀ fault, T Ty (throw fault)
  named : ∀ id span path args, C (path, args.length) → T (List Ty) (linkTypes host usage args) →
    T Ty (linkNamed host usage id span path args.isEmpty (linkTypes host usage args))

section Walk

variable {T : (α : Type) → LinkM α → Prop} {C : List String × Nat → Prop} {host : Option DeclId}

mutual
/-- An annotation is linked name by name. -/
theorem Annotating.linkType (h : Annotating host usage C T) :
    ∀ t : TypeExpr, (∀ x ∈ t.names, C x) → T Ty (linkType host usage t)
  | .missing id, _ => h.missing _
  | .node id span (.named path args), hC => by
    unfold Link.linkType
    rw [TypeExpr.names, List.forall_mem_cons] at hC
    exact h.named id span path args hC.1 (h.linkTypes args hC.2)
  | .node _ _ (.pointer inner), hC => by
    unfold Link.linkType
    exact h.bind (h.linkType inner hC) fun _ => h.pure _
  | .node _ _ (.reference inner), hC => by
    unfold Link.linkType
    exact h.bind (h.linkType inner hC) fun _ => h.pure _
  | .node _ _ (.array elem len), hC => by
    unfold Link.linkType
    exact h.bind (h.linkType elem hC) fun _ => h.pure _
  | .node _ _ (.function params ret), hC => by
    unfold Link.linkType
    rw [TypeExpr.names, List.forall_mem_append] at hC
    refine h.bind (h.linkTypes params hC.1) fun _ => ?_
    exact h.bind (h.linkType ret hC.2) fun _ => h.pure _
theorem Annotating.linkTypes (h : Annotating host usage C T) :
    ∀ ts : List TypeExpr, (∀ x ∈ TypeExpr.namesAll ts, C x) → T (List Ty) (linkTypes host usage ts)
  | [], _ => by
    unfold Link.linkTypes
    exact h.pure _
  | t :: ts, hC => by
    unfold Link.linkTypes
    rw [TypeExpr.namesAll, List.forall_mem_append] at hC
    refine h.bind (h.linkType t hC.1) fun _ => ?_
    exact h.bind (h.linkTypes ts hC.2) fun _ => h.pure _
end

end Walk

theorem annotating_steps (host : Option DeclId) (usage : TypeUse) :
    Annotating host usage (fun _ => True) fun _ act => Framed (TypeSteps usage) act where
  toCompound := compound_framed
  missing := .throw
  named id span path _ _ hargs := steps_linkNamed host id span path _ hargs

theorem steps_linkType (host : Option DeclId) (usage : TypeUse) (t : TypeExpr) :
    Framed (TypeSteps usage) (linkType host usage t) :=
  (annotating_steps host usage).linkType t fun _ _ => trivial

theorem steps_linkTypes (host : Option DeclId) (usage : TypeUse) (ts : List TypeExpr) :
    Framed (TypeSteps usage) (linkTypes host usage ts) :=
  (annotating_steps host usage).linkTypes ts fun _ _ => trivial

theorem steps_linkTypeAt (host : Option DeclId) (usage : TypeUse) (id : TypeExprId) :
    Framed (TypeSteps usage) (linkTypeAt host usage id) :=
  .bind Looks.read.framed fun _ => steps_linkType host usage _

/-! ### What the steps come to -/

theorem TypeStep.later (h : TypeStep usage s s') : s.Later fixed s' := by
  cases h with
  | report _ d => exact later_report s d
  | check _ c => exact later_check s c
  | instantiate =>
    exact later_withInstances (Instances.follows_reports.instantiate s.instances _ _ _ _ _).begins
      (Instances.follows_extends.instantiate s.instances _ _ _ _ _)
  | subscribe =>
    exact later_withInstances (Instances.follows_reports.subscribe s.instances _ _ _).begins
      (Instances.follows_extends.subscribe s.instances _ _ _)
  | usage => exact later_of_eq rfl

theorem later_of_steps (h : TypeSteps usage s s') : s.Later fixed s' := by
  induction h with
  | refl => exact .refl s
  | tail _ hstep ih => exact ih.trans hstep.later

theorem signatures_of_steps (h : TypeSteps usage s s') : s'.program.signatures = s.program.signatures ∧
    s'.scopes = s.scopes ∧ s'.spaces = s.spaces := by
  induction h with
  | refl => exact ⟨rfl, rfl, rfl⟩
  | tail _ hstep ih => cases hstep <;> exact ih

theorem eq_of_mention_steps (h : TypeSteps .mention s s') :
    ∃ checks reports, s' = { s with checks := checks, reports := reports } ∧
      (s.quiet = true → checks = s.checks ∧ reports = s.reports) := by
  induction h with
  | refl => exact ⟨s.checks, s.reports, rfl, fun _ => ⟨rfl, rfl⟩⟩
  | tail _ hstep ih =>
    obtain ⟨checks, reports, rfl, -⟩ := ih
    cases hstep with
    | report _ d hloud => exact ⟨checks, reports ++ [d], rfl, fun hq => absurd hq (Bool.eq_false_iff.1 hloud)⟩
    | check _ c hloud =>
      exact ⟨checks ++ [c], reports ++ c.reported.toList, rfl, fun hq => absurd hq (Bool.eq_false_iff.1 hloud)⟩

end Link

end Linkage
