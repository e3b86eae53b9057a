import Linkage.Proofs.Link.Calls
import Linkage.Proofs.Source.Trees

/-!
# Expressions

Linking an expression gives it a type that fits the declaration it stands in, and records that type. One lemma for
each kind of expression says so of a single node, and the theorem about whole trees puts these together. A local has
the type that was recorded for it, which fits as long as the local is in scope, and a function as a value keeps its
own type, which fits everywhere because it has no parameters.
-/

namespace Linkage

variable {decl : DeclId} {src : Source}

namespace Link

variable {env : LinkEnv} {r : Regime} {cur : DeclId} {busy : List ExprId} {s s' : LinkState} {P : Prop}
  {body : Body} {id : ExprId} {span : Span} {ty : Ty}

/-! ### Names -/

theorem fits_value {sigs : Signatures} (h : Visible r src cur sigs decl)
    {d : Decl} (hdecl : src.decl? decl = some d) (hkind : d.kind.isValueBinding = true) :
    r.Fits src cur ((sigs.declTypes.get? decl).getD .unknown) := by
  cases h with
  | reachable h =>
    obtain ⟨d', hd', hitem, -⟩ := h.named
    obtain rfl := Option.some.inj (hdecl.symm.trans hd')
    cases hk : d.kind <;> simp_all [DeclKind.isItem, DeclKind.isValueBinding]
  | generic hdecl' hkind' _ =>
    obtain rfl := Option.some.inj (hdecl.symm.trans hdecl')
    simp [hkind', DeclKind.isValueBinding] at hkind
  | value _ _ ht hfits =>
    rw [ht]
    exact hfits

theorem fits_asTy (howner : src.Owner decl) (hnone : src.genericsOf decl = [])
    {sig : FunctionSig} (hparams : ∀ p ∈ sig.params, r.Fits src decl p.ty) (hret : r.Fits src decl sig.ret) :
    r.Fits src cur sig.asTy := by
  have hclosed : ∀ t, r.Fits src decl t → r.Fits src cur t := by
    intro t ht
    refine ht.mono fun g hg hsettled => ?_
    have hvisible := hg hsettled
    rw [howner.1.visible_eq, hnone] at hvisible
    exact absurd hvisible List.not_mem_nil
  exact .function (fun t ht => hclosed t (explicitTypes_fit hparams t ht)) (hclosed _ hret)

theorem linkName_keeps {access : Access} {path : List String}
    (h : Runs env (linkName id span access path) s ty s') :
    Keeps r env.source cur busy s True s' (r.Fits env.source cur ty) := by
  simp only [linkName, runs_bind, runs_resolve?] at h
  obtain ⟨target, _, ⟨htarget, rfl⟩, h⟩ := h
  cases target with
  | none => exact reportUnknown_keeps h
  | some decl =>
    simp only [runs_bind, runs_declOf] at h
    obtain ⟨_, s₁, hrecord, d, _, ⟨hd, rfl⟩, h⟩ := h
    have htarget₁ : s₁.resolve? env.source path = .ok (some decl) := by
      obtain rfl := runs_modify.1 hrecord
      exact htarget
    refine Keeps.trans ((minor_recordResolved id decl).of_runs hrecord).keeps ?_
    have hvalue : d.kind.isValueBinding = true → Runs env (do
          checkRead id access (some { root := decl }) span
          let sigs ← signatures
          pure ((sigs.declTypes.get? decl).getD .unknown)) s₁ ty s' →
        Keeps r env.source cur busy s₁ True s' (r.Fits env.source cur ty) := by
      intro hkind h
      simp only [runs_bind, runs_signatures, runs_pure] at h
      obtain ⟨_, s₂, hread, _, _, ⟨rfl, rfl⟩, rfl, rfl⟩ := h
      have hminor := (trackable_minor.checkRead id access _ span).of_runs hread
      have hsigs : s₂.signatures = s₁.signatures := congrArg Known.signatures hminor.known
      rw [hsigs]
      exact hminor.keeps.pre fun _ hat => fits_value (hat.resolve? htarget₁) hd hkind
    split at h
    · rename_i hkind
      exact hvalue (by rw [hkind]; rfl) h
    · rename_i hkind
      exact hvalue (by rw [hkind]; rfl) h
    · rename_i f hkind
      simp only [runs_bind, runs_signatures] at h
      obtain ⟨_, _, ⟨rfl, rfl⟩, h⟩ := h
      split at h
      · rename_i sig hgenerics hsig
        obtain ⟨rfl, rfl⟩ := runs_pure.1 h
        refine .refl fun _ hat => ?_
        have howner := (hat.resolve? htarget₁).owner hd (by rw [hkind]; rfl) (by rw [hkind]; rfl)
        obtain ⟨hparams, hret⟩ := hat.facts.signatures.functions decl sig hsig
        refine fits_asTy howner ?_ hparams hret
        rw [Source.genericsOf_eq hd, Decl.generics, hkind]
        exact hgenerics
      · exact reportUnknown_keeps h
    all_goals exact reportUnknown_keeps h

/-! ### Fields -/

theorem fits_pointee (hat : At r env.source cur busy s) {t : Ty} (h : r.Fits env.source cur t) :
    r.Fits env.source cur (s.env.pointee t) := by
  unfold TypeEnv.pointee
  have hexpand := hat.expand h
  split
  · rename_i inner heq
    rw [heq] at hexpand
    exact hat.expand hexpand.of_pointer
  · rename_i inner heq
    rw [heq] at hexpand
    exact hat.expand hexpand.of_reference
  · exact hexpand

theorem fits_fieldType (hat : At r env.source cur busy s) {args : List Ty} {field : String}
    (h : r.Fits env.source cur (.linked decl args)) {t : Ty}
    (hfield : s.signatures.fieldType? decl args field = some t) : r.Fits env.source cur t := by
  simp only [Signatures.fieldType?, Option.bind_eq_bind, Option.bind_eq_some_iff, Option.some.injEq] at hfield
  obtain ⟨fields, hfields, formal, hformal, rfl⟩ := hfield
  obtain ⟨before, after, hdeclared, -⟩ := List.lookup_eq_some_iff.1 hformal
  have hfits := (hat.facts.signatures.fields decl fields hfields).2 (field, formal) (by simp [hdeclared])
  rw [hat.genericsOf h.arity.2.1]
  exact fits_subst hfits h.arity fun a ha => h.of_mem_args ha

theorem linkField_keeps {base : Ty} {field : String} (h : Runs env (linkField span base field) s ty s') :
    Keeps r env.source cur busy s (r.Fits env.source cur base) s' (r.Fits env.source cur ty) := by
  simp only [linkField, runs_bind, runs_typeEnv] at h
  obtain ⟨_, _, ⟨rfl, rfl⟩, h⟩ := h
  have hreported : ∀ {t : Ty} {p : String → Problem} {Q : Prop}, Runs env (do
        let shown ← showTy t
        report span (p shown)
        pure Ty.unknown) s ty s' → Keeps r env.source cur busy s Q s' (r.Fits env.source cur ty) := by
    intro t p Q h
    rw [runs_bind] at h
    obtain ⟨shown, s₁, hshow, h⟩ := h
    obtain rfl := (looks_showTy t).of_runs hshow
    exact reportUnknown_keeps h
  refine Keeps.pre ?_ fun hfits hat => fits_pointee hat hfits
  split at h
  · rename_i heq
    obtain ⟨rfl, rfl⟩ := runs_pure.1 h
    rw [heq]
    exact .refl fun hfits _ => hfits
  · rename_i decl args heq
    simp only [runs_bind, runs_signatures] at h
    obtain ⟨_, _, ⟨rfl, rfl⟩, h⟩ := h
    rw [heq]
    split at h
    · split at h
      · rename_i t hfield
        obtain ⟨rfl, rfl⟩ := runs_pure.1 h
        exact .refl fun hfits hat => fits_fieldType hat hfits hfield
      · exact hreported h
    · exact hreported h
  · exact hreported h

/-! ### Operators -/

theorem minor_showUnless {b : Bool} {shown x : Ty} {p : String → Problem}
    (h : Runs env (if b = true then pure x else do
      let text ← showTy shown
      report span (p text)
      pure x) s ty s') : x = ty ∧ Minor s s' := by
  split at h
  · obtain ⟨hx, rfl⟩ := runs_pure.1 h
    exact ⟨hx, Sequential.refl s⟩
  · simp only [runs_bind, runs_pure] at h
    obtain ⟨text, s₁, hshow, _, s₂, hreport, hx, rfl⟩ := h
    obtain rfl := (looks_showTy shown).of_runs hshow
    exact ⟨hx, (minor_report _ _).of_runs hreport⟩

theorem checkNot_keeps {operand : Ty} (h : Runs env (checkNot span operand) s ty s') :
    Keeps r env.source cur busy s P s' (r.Fits env.source cur ty) := by
  simp only [checkNot, runs_bind] at h
  obtain ⟨fits, s₁, hfits, h⟩ := h
  obtain rfl := (looks_satisfies .bool operand).of_runs hfits
  obtain ⟨rfl, hminor⟩ := minor_showUnless h
  exact hminor.keeps.imp (fun hP => hP) fun _ _ => .prim .bool

theorem checkNeg_keeps {operand : Ty} (h : Runs env (checkNeg span operand) s ty s') :
    Keeps r env.source cur busy s (r.Fits env.source cur operand) s' (r.Fits env.source cur ty) := by
  simp only [checkNeg, runs_bind, runs_typeEnv] at h
  obtain ⟨_, _, ⟨rfl, rfl⟩, h⟩ := h
  obtain ⟨rfl, hminor⟩ := minor_showUnless h
  exact hminor.keeps

theorem settleLiteral_keeps {e : Expr} {actual expected : Ty} {u : Unit}
    (h : Runs env (settleLiteral e actual expected) s u s') :
    Keeps r env.source cur busy s (P ∧ Typed r env.source cur e.id actual) s' P := by
  have hpass : Passes (fun e' => actual.isLiteral = true ∧ e' = e.id) s s' :=
    (passes_settleLiteral e actual expected fun hliteral => ⟨hliteral, rfl⟩).of_runs h
  refine (passes_keeps hpass).imp (fun ⟨hP, htyped⟩ => ⟨hP, ?_⟩) fun _ hP => hP
  rintro e' ⟨hliteral, rfl⟩
  exact htyped.literal hliteral

theorem fits_operand {lhsTy rhsTy : Ty} (op : BinaryOp) (hlhs : r.Fits src cur lhsTy) (hrhs : r.Fits src cur rhsTy) :
    r.Fits src cur (if op.isComparison = true then .bool else if lhsTy.isLiteral = true then rhsTy else lhsTy) := by
  split
  · exact .prim .bool
  · split
    · exact hrhs
    · exact hlhs

theorem checkBinary_keeps {op : BinaryOp} {lhs rhs : Expr} {lhsTy rhsTy : Ty}
    (h : Runs env (checkBinary op span lhs rhs lhsTy rhsTy) s ty s') :
    Keeps r env.source cur busy s
      (Typed r env.source cur lhs.id lhsTy ∧ Typed r env.source cur rhs.id rhsTy) s'
      (r.Fits env.source cur ty) := by
  simp only [checkBinary, runs_bind] at h
  obtain ⟨forward, s₁, hforward, back, s₂, hback, h⟩ := h
  obtain rfl := (looks_satisfies lhsTy rhsTy).of_runs hforward
  obtain rfl := (looks_satisfies rhsTy lhsTy).of_runs hback
  split at h
  · simp only [runs_bind, runs_pure] at h
    obtain ⟨_, s₁, hshow, _, s₂, hshow', _, s₃, hreport, rfl, rfl⟩ := h
    obtain rfl := (looks_showTy lhsTy).of_runs hshow
    obtain rfl := (looks_showTy rhsTy).of_runs hshow'
    refine (report_keeps hreport).imp (fun htyped => htyped) fun _ hpost => ?_
    split
    · exact .prim .bool
    · exact .unknown hpost.2
  · split at h
    · simp only [runs_bind, runs_pure] at h
      obtain ⟨_, s₁, hsettle, rfl, rfl⟩ := h
      refine (settleLiteral_keeps hsettle).imp (fun htyped => ⟨htyped, htyped.1⟩) fun htyped _ => ?_
      exact fits_operand op htyped.1.fits htyped.2.fits
    · simp only [runs_bind, runs_pure] at h
      obtain ⟨_, s₁, hsettle, rfl, rfl⟩ := h
      refine (settleLiteral_keeps hsettle).imp (fun htyped => ⟨htyped, htyped.2⟩) fun htyped _ => ?_
      exact fits_operand op htyped.1.fits htyped.2.fits
    · obtain ⟨rfl, rfl⟩ := runs_pure.1 h
      exact .refl fun htyped _ => fits_operand op htyped.1.fits htyped.2.fits

/-! ### Trees -/

theorem hintFits_none : r.HintFits src cur none := nofun

theorem hintFits_bool : r.HintFits src cur (some .bool) := by
  intro t ht
  obtain rfl := Option.some.inj ht
  exact .prim .bool

theorem hintFits_referent {hint : Option Ty} (h : r.HintFits src cur hint) :
    r.HintFits src cur (hint.bind referent?) := by
  intro t ht
  obtain ⟨outer, houter, hreferent⟩ := Option.bind_eq_some_iff.1 ht
  unfold referent? at hreferent
  split at hreferent
  · obtain rfl := Option.some.inj hreferent
    exact (h _ houter).of_reference
  · simp at hreferent

theorem hintFits_operand (h : r.Fits src cur ty) : r.HintFits src cur (operandHint ty) := by
  unfold operandHint
  split
  · exact hintFits_none
  · exact hintFits_of_fits h

/-- What linking the expression `e` to the type `ty` leaves behind. -/
structure Linked (r : Regime) (src : Source) (cur : DeclId) (e : ExprId) (ty : Ty) (s : LinkState) : Prop where
  typed : Typed r src cur e ty
  recorded : s.program.exprTypes.get? e = some ty

theorem recordLinked_keeps {s₁ : LinkState} {u : Unit} (hlinks : Links r env.source cur busy id s P s₁ ty)
    (h : Runs env (recordLinked id ty) s₁ u s') :
    Keeps r env.source cur busy s P s' (Linked r env.source cur id ty s') := by
  simp only [recordLinked, recordType, runs_bind, runs_modify] at h
  obtain ⟨_, _, rfl, rfl⟩ := h
  refine ⟨hlinks.later.trans (LinkState.later_of_eq rfl), fun hP hat hquiet => ?_⟩
  obtain ⟨hat₁, htyped, hpending⟩ := hlinks.holds hP hat hquiet
  refine ⟨⟨hat₁.facts.recordLinked htyped.fits.obeys hpending, ?_, hat₁.loud⟩, htyped, ?_⟩
  · exact ⟨hat₁.sees.spaces, hat₁.sees.frames⟩
  · exact Table.get?_insert_self _ _ _

theorem not_isConstruct {node : ExprNode} (hnode : src.expr? id = some node)
    (hshape : node.shape.isConstruct = false) : ¬src.IsConstruct id := by
  rintro ⟨span, ty, fields, hconstruct⟩
  obtain rfl := Option.some.inj (hnode.symm.trans hconstruct)
  exact nomatch hshape

theorem links_of_fits (hid : ¬src.IsConstruct id)
    (h : Keeps r src cur busy s P s' (r.Fits src cur ty)) : Links r src cur busy id s P s' ty :=
  links_of_keeps (h.imp (fun hP => hP) fun _ hfits => ⟨hfits, fun _ => hid⟩)

mutual
theorem linkExpr_keeps (hwhole : r.whole) (hbuilt : env.source.WellBuilt)
    (hhost : Hosts env.source cur body.host) : ∀ (e : Expr), e.Unfolds env.source →
    ∀ {hint : Option Ty} {access : Access} {s s' : LinkState} {ty : Ty},
      Runs env (linkExpr body hint access e) s ty s' →
      Keeps r env.source cur busy s (r.HintFits env.source cur hint) s'
        (Linked r env.source cur e.id ty s')
  | .missing id, _, hint, access, s, s', ty, h => by
    rw [linkExpr] at h
    exact absurd h not_runs_throw
  | .node id span shape, hunfolds, hint, access, s, s', ty, h => by
    simp only [linkExpr, runs_bind, runs_pure] at h
    obtain ⟨t, s₁, hshape, _, s₂, hrecord, rfl, rfl⟩ := h
    cases hunfolds with
    | node hnode hkind hparts =>
      refine recordLinked_keeps (linkShape_links hwhole hbuilt hhost shape ?_ hparts hshape) hrecord
      exact fun hnot => not_isConstruct hnode (hkind.trans hnot)
theorem linkShape_links (hwhole : r.whole) (hbuilt : env.source.WellBuilt)
    (hhost : Hosts env.source cur body.host) : ∀ (shape : ExprShape Expr TypeExpr) {id : ExprId} {span : Span},
    (shape.isConstruct = false → ¬env.source.IsConstruct id) → (∀ e ∈ shape.parts, e.Unfolds env.source) →
    ∀ {hint : Option Ty} {access : Access} {s s' : LinkState} {ty : Ty},
      Runs env (linkShape body hint access id span shape) s ty s' →
      Links r env.source cur busy id s (r.HintFits env.source cur hint) s' ty
  | .intLit _, id, span, hid, _, hint, access, s, s', ty, h => by
    simp only [linkShape, runs_pure] at h
    obtain ⟨rfl, rfl⟩ := h
    exact links_of_fits (hid rfl) (.refl fun _ _ => .literal .int)
  | .floatLit _, id, span, hid, _, hint, access, s, s', ty, h => by
    simp only [linkShape, runs_pure] at h
    obtain ⟨rfl, rfl⟩ := h
    exact links_of_fits (hid rfl) (.refl fun _ _ => .literal .float)
  | .strLit _, id, span, hid, _, hint, access, s, s', ty, h => by
    simp only [linkShape, runs_pure] at h
    obtain ⟨rfl, rfl⟩ := h
    exact links_of_fits (hid rfl) (.refl fun _ _ => .literal .str)
  | .boolLit _, id, span, hid, _, hint, access, s, s', ty, h => by
    simp only [linkShape, runs_pure] at h
    obtain ⟨rfl, rfl⟩ := h
    exact links_of_fits (hid rfl) (.refl fun _ _ => .prim .bool)
  | .name name, id, span, hid, _, hint, access, s, s', ty, h => by
    rw [linkShape] at h
    exact links_of_fits (hid rfl) ((linkName_keeps h).imp (fun _ => trivial) fun _ hfits => hfits)
  | .path path, id, span, hid, _, hint, access, s, s', ty, h => by
    rw [linkShape] at h
    exact links_of_fits (hid rfl) ((linkName_keeps h).imp (fun _ => trivial) fun _ hfits => hfits)
  | .call callee typeArgs args, id, span, hid, hparts, hint, access, s, s', ty, h => by
    rw [linkShape] at h
    refine links_of_fits (hid rfl) (linkCall_keeps hwhole hbuilt hhost (absurd · (hid rfl)) ?_ ?_ h)
    · intro s t s' hcallee
      exact (linkExpr_keeps hwhole hbuilt hhost callee (hparts callee List.mem_cons_self) hcallee).imp
        (fun _ => hintFits_none) fun _ hlinked => hlinked.typed.fits
    · intro hints s types s' hargs
      exact linkArgs_keeps hwhole hbuilt hhost args (fun e he => hparts e (List.mem_cons_of_mem _ he)) hargs
  | .construct struct fields, id, span, _, hparts, hint, access, s, s', ty, h => by
    rw [linkShape] at h
    have hfields : ∀ f ∈ fields, f.2.Unfolds env.source := fun f hf => hparts f.2 (List.mem_map_of_mem hf)
    exact linkConstruct_links hwhole hbuilt hhost (fun h => linkValues_keeps hwhole hbuilt hhost fields hfields h)
      (fun h => linkFields_keeps hwhole hbuilt hhost fields hfields h) h
  | .member base field, id, span, hid, hparts, hint, access, s, s', ty, h => by
    simp only [linkShape, runs_bind] at h
    obtain ⟨t, s₁, hbase, place, s₂, hplace, _, s₃, hread, h⟩ := h
    obtain rfl := (looks_placeOf base).of_runs hplace
    have kbase := linkExpr_keeps hwhole hbuilt hhost base (hparts base List.mem_cons_self) hbase
    refine links_of_fits (hid rfl) (Keeps.trans ?_ (linkField_keeps h))
    refine (kbase.imp (fun _ => hintFits_none) fun _ hlinked => hlinked.typed.fits).trans ?_
    exact ((trackable_minor.checkRead _ _ _ _).of_runs hread).keeps
  | .addressOf place, id, span, hid, hparts, hint, access, s, s', ty, h => by
    simp only [linkShape, runs_bind, runs_pure] at h
    obtain ⟨t, s₁, hplace, rfl, rfl⟩ := h
    have kplace := linkExpr_keeps hwhole hbuilt hhost place (hparts place List.mem_cons_self) hplace
    exact links_of_fits (hid rfl)
      (kplace.imp hintFits_referent fun _ hlinked => .reference hlinked.typed.fits.concrete)
  | .unary .not operand, id, span, hid, hparts, hint, access, s, s', ty, h => by
    simp only [linkShape, runs_bind] at h
    obtain ⟨t, s₁, hoperand, h⟩ := h
    have koperand := linkExpr_keeps hwhole hbuilt hhost operand (hparts operand List.mem_cons_self) hoperand
    exact links_of_fits (hid rfl)
      ((koperand.imp (fun _ => hintFits_bool) fun _ hlinked => hlinked).trans (checkNot_keeps h))
  | .unary .neg operand, id, span, hid, hparts, hint, access, s, s', ty, h => by
    simp only [linkShape, runs_bind] at h
    obtain ⟨t, s₁, hoperand, h⟩ := h
    have koperand := linkExpr_keeps hwhole hbuilt hhost operand (hparts operand List.mem_cons_self) hoperand
    exact links_of_fits (hid rfl)
      ((koperand.imp (fun hhint => hhint) fun _ hlinked => hlinked.typed.fits).trans (checkNeg_keeps h))
  | .binary op lhs rhs, id, span, hid, hparts, hint, access, s, s', ty, h => by
    have hlhs := hparts lhs List.mem_cons_self
    have hrhs := hparts rhs (List.mem_cons_of_mem _ List.mem_cons_self)
    refine links_of_fits (hid rfl) ?_
    rw [linkShape] at h
    split at h
    · simp only [runs_bind, runs_pure] at h
      obtain ⟨t, s₁, hleft, _, s₂, hcheck, t', s₃, hright, _, s₄, hcheck', rfl, rfl⟩ := h
      have kleft : Keeps r env.source cur busy s True s₁ True :=
        (linkExpr_keeps hwhole hbuilt hhost lhs hlhs hleft).imp (fun _ => hintFits_bool) fun _ _ => trivial
      have kright : Keeps r env.source cur busy s₂ True s₃ True :=
        (linkExpr_keeps hwhole hbuilt hhost rhs hrhs hright).imp (fun _ => hintFits_bool) fun _ _ => trivial
      have hminor := (trackable_minor.checkLogical op lhs t).of_runs hcheck
      have hminor' := (trackable_minor.checkLogical op rhs t').of_runs hcheck'
      have kall := kleft.trans (hminor.keeps.trans (kright.trans hminor'.keeps))
      exact kall.imp (fun _ => trivial) fun _ _ => .prim .bool
    · simp only [runs_bind] at h
      obtain ⟨t, s₁, hleft, t', s₂, hright, h⟩ := h
      have kleft := linkExpr_keeps hwhole hbuilt hhost lhs hlhs hleft
      have kright := linkExpr_keeps hwhole hbuilt hhost rhs hrhs hright
      refine (kleft.imp (fun hhint => ?_) fun _ hlinked => hlinked.typed).trans
        ((kright.imp (fun htyped => hintFits_operand htyped.fits) fun htyped hlinked => ?_).trans
          (checkBinary_keeps h))
      · split
        · exact hintFits_none
        · exact hhint
      · exact ⟨htyped, hlinked.typed⟩
theorem linkArgs_keeps (hwhole : r.whole) (hbuilt : env.source.WellBuilt)
    (hhost : Hosts env.source cur body.host) : ∀ (args : List Expr), (∀ e ∈ args, e.Unfolds env.source) →
    ∀ {hints : List (Option Ty)} {s s' : LinkState} {types : List Ty},
      Runs env (linkArgs body hints args) s types s' →
      Keeps r env.source cur busy s (∀ hint ∈ hints, r.HintFits env.source cur hint) s'
        (ArgsTyped r env.source cur args types)
  | [], _, hints, s, s', types, h => by
    simp only [linkArgs, runs_pure] at h
    obtain ⟨rfl, rfl⟩ := h
    exact .refl fun _ _ => nofun
  | e :: es, hunfolds, hints, s, s', types, h => by
    simp only [linkArgs, runs_bind, runs_pure] at h
    obtain ⟨ty, s₁, hfirst, types, s₂, hrest, rfl, rfl⟩ := h
    have kfirst := linkExpr_keeps hwhole hbuilt hhost e (hunfolds e List.mem_cons_self) hfirst
    have krest := linkArgs_keeps hwhole hbuilt hhost es (fun e he => hunfolds e (List.mem_cons_of_mem _ he)) hrest
    have hhead : (∀ hint ∈ hints, r.HintFits env.source cur hint) →
        r.HintFits env.source cur (hints.headD none) ∧ ∀ hint ∈ hints.tail, r.HintFits env.source cur hint := by
      intro hhints
      cases hints with
      | nil => exact ⟨hintFits_none, nofun⟩
      | cons hint hints =>
        exact ⟨hhints hint List.mem_cons_self, fun h hh => hhints h (List.mem_cons_of_mem _ hh)⟩
    refine (kfirst.imp (fun hhints => (hhead hhints).1) fun hhints hlinked =>
      And.intro (hhead hhints).2 hlinked.typed).trans (krest.imp And.left fun ⟨_, htyped⟩ hrest => ?_)
    intro p hp
    rcases List.mem_cons.1 hp with rfl | hp
    · exact htyped
    · exact hrest p hp
theorem linkValues_keeps (hwhole : r.whole) (hbuilt : env.source.WellBuilt)
    (hhost : Hosts env.source cur body.host) : ∀ (fields : List (String × Expr)),
    (∀ f ∈ fields, f.2.Unfolds env.source) → ∀ {s s' : LinkState} {u : Unit},
      Runs env (linkValues body fields) s u s' → Keeps r env.source cur busy s True s' True
  | [], _, s, s', u, h => by
    rw [linkValues] at h
    obtain ⟨-, rfl⟩ := runs_pure.1 h
    exact .refl fun _ _ => trivial
  | (_, value) :: fields, hunfolds, s, s', u, h => by
    simp only [linkValues, runs_bind] at h
    obtain ⟨ty, s₁, hfirst, hrest⟩ := h
    have kfirst := linkExpr_keeps hwhole hbuilt hhost value (hunfolds _ List.mem_cons_self) hfirst
    refine (kfirst.imp (fun _ => hintFits_none) fun _ _ => trivial).trans ?_
    exact linkValues_keeps hwhole hbuilt hhost fields (fun f hf => hunfolds f (List.mem_cons_of_mem _ hf)) hrest
theorem linkFields_keeps (hwhole : r.whole) (hbuilt : env.source.WellBuilt)
    (hhost : Hosts env.source cur body.host) : ∀ (fields : List (String × Expr)),
    (∀ f ∈ fields, f.2.Unfolds env.source) →
    ∀ {plan : FieldPlan} {s s' : LinkState} {args : List Argument},
      Runs env (linkFields body plan fields) s args s' →
      Keeps r env.source cur busy s (plan.Fits r env.source cur) s'
        (∀ a ∈ args, Typed r env.source cur a.value.id a.ty)
  | [], _, plan, s, s', args, h => by
    simp only [linkFields, runs_pure] at h
    obtain ⟨rfl, rfl⟩ := h
    exact .refl fun _ _ => nofun
  | (name, value) :: fields, hunfolds, plan, s, s', args, h => by
    have hvalue := hunfolds _ List.mem_cons_self
    have hfields : ∀ f ∈ fields, f.2.Unfolds env.source := fun f hf => hunfolds f (List.mem_cons_of_mem _ hf)
    rw [linkFields] at h
    split at h
    · simp only [runs_bind] at h
      obtain ⟨_, s₁, hreport, ty, s₂, hfirst, hrest⟩ := h
      have kfirst := linkExpr_keeps hwhole hbuilt hhost value hvalue hfirst
      have hminor := (minor_report _ _).of_runs hreport
      refine hminor.keeps.trans ((kfirst.imp (fun _ => hintFits_none) fun hplan _ => hplan).trans ?_)
      exact linkFields_keeps hwhole hbuilt hhost fields hfields hrest
    · rename_i formal hformal
      simp only [runs_bind, runs_pure] at h
      obtain ⟨ty, s₁, hfirst, args, s₂, hrest, rfl, rfl⟩ := h
      have kfirst := linkExpr_keeps hwhole hbuilt hhost value hvalue hfirst
      have krest := linkFields_keeps hwhole hbuilt hhost fields hfields hrest
      refine (kfirst.imp (fun hplan => hplan name formal hformal) fun hplan hlinked =>
        And.intro hplan hlinked.typed).trans (krest.imp And.left fun ⟨_, htyped⟩ hrest => ?_)
      intro a ha
      rcases List.mem_cons.1 ha with rfl | ha
      · exact htyped
      · exact hrest a ha
end

end Link

end Linkage
