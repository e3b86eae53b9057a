import Linkage.Proofs.Link.Lookups

/-!
# Look-ups in annotations

A whole tree is linked to a type that is present, since every name in it is resolved to a declaration that exists, and
so is every generic parameter it leads to. Where arguments were left out the parameters before them are as many as the
arguments that are there, so the part of the list that the default is closed over lies within it.
-/

namespace Linkage

/-- What linking reads is complete: no reference leads nowhere, what stands under an identifier that exists is a
whole tree, and a whole expression can be evaluated. -/
structure LinkEnv.Complete (env : LinkEnv) : Prop where
  closed : env.source.Closed
  types : ∀ id, env.source.HasType id → (env.trees.typeExpr id).Whole
  blocks : ∀ id, env.source.HasBlock id → (env.trees.block id).Whole env.source
  evaluate : ∀ known (e : Expr), e.Whole → ∃ value, env.evaluate known e = .ok value

theorem Source.Closed.hasDecl_ancestorsWithin {src : Source} (h : src.Closed) (n : Nat) (decl : DeclId) :
    ∀ d ∈ src.ancestorsWithin n decl, src.HasDecl d := by
  induction n generalizing decl with
  | zero => exact nofun
  | succ n ih =>
    unfold ancestorsWithin
    split
    · rename_i parent hparent
      obtain ⟨d, hd, hparent⟩ := Option.bind_eq_some_iff.1 hparent
      exact List.forall_mem_cons.2 ⟨(h.decl hd).parent parent hparent, ih parent⟩
    · exact nofun

namespace Link

variable {α : Type} {env : LinkEnv} {P : α → Prop} {decl : DeclId} {host : Option DeclId}

/-! ### Looking at nodes -/

theorem finds_source : Finds env source (· = env.source) :=
  finds_read.bind fun _ h => .pure (h ▸ rfl)

theorem finds_ofOption {kind : NodeKind} {id : NodeId kind} {o : Option α} (h : o.isSome = true) :
    Finds env (ofOption id o) fun a => o = some a := by
  obtain ⟨a, rfl⟩ := Option.isSome_iff_exists.1 h
  exact .pure rfl

theorem finds_ofLookup {r : Except NodeRef α} (h : ∃ a, r = .ok a ∧ P a) : Finds env (ofLookup r) P := by
  obtain ⟨a, rfl, ha⟩ := h
  exact .pure ha

theorem finds_sliceTo {l : List α} {n : Nat} (h : n ≤ l.length) : Finds env (sliceTo l n) (· = l.take n) := by
  rw [sliceTo, if_pos h]
  exact .pure rfl

theorem finds_sliceFrom {l : List α} {n : Nat} (h : n ≤ l.length) : Finds env (sliceFrom l n) (· = l.drop n) := by
  rw [sliceFrom, if_pos h]
  exact .pure rfl

theorem finds_signatures : Finds env signatures (Signatures.Present env.source) :=
  finds_get.bind fun _ h => .pure h.signatures

theorem finds_typeEnv : Finds env typeEnv (TypeEnv.AliasesFit · env.source.presence env.source.HasGeneric) :=
  finds_get.bind fun _ h => .pure h.signatures.aliasesFit

theorem finds_showTy {ty : Ty} (h : ty.Present env.source) : Safe env (showTy ty) := by
  refine finds_source.bind fun src hsrc => finds_ofLookup ?_
  obtain ⟨text, htext⟩ := Source.exists_showTy h
  exact ⟨text, hsrc ▸ htext, trivial⟩

theorem finds_resolve (path : List String) :
    Finds env (resolve? path) fun found => ∀ d ∈ found, env.source.HasDecl d := by
  refine finds_get.bind fun s hs => finds_source.bind fun src hsrc => finds_ofLookup ?_
  exact hsrc ▸ hs.resolve path

theorem finds_genericOf {g : GenericId} (h : env.source.HasGeneric g) :
    Finds env (genericOf g) fun p => env.source.HasDecl p.decl ∧ (∀ t ∈ p.bound, env.source.HasType t) ∧
      ∀ t ∈ p.default, env.source.HasType t := by
  obtain ⟨p, hp, hparts⟩ := h
  refine finds_source.bind fun src hsrc => (finds_ofOption ?_).imp fun q hq => ?_
  · rw [hsrc, hp]
    rfl
  · rw [hsrc, hp] at hq
    exact Option.some.inj hq ▸ hparts

/-! ### Reports and records -/

theorem safe_report (span : Span) (p : Problem) : Safe env (report span p) :=
  finds_modify_other fun s => by split <;> rfl

theorem safe_noteCheck (c : BoundCheck) : Safe env (noteCheck c) :=
  finds_modify_other fun s => by split <;> rfl

theorem safe_note (e : Event) : Safe env (note e) := finds_modify_other fun _ => rfl

theorem safe_mark (m : Mark) : Safe env (mark m) := finds_modify_other fun _ => rfl

theorem safe_recordType (e : ExprId) (ty : Ty) : Safe env (recordType e ty) := finds_modify_other fun _ => rfl

theorem safe_recordLinked (e : ExprId) (ty : Ty) : Safe env (recordLinked e ty) :=
  (safe_recordType e ty).bind fun _ _ => finds_modify_other fun _ => rfl

theorem safe_recordUsage (site : UsageSite) (decl : DeclId) (copy : Instance) :
    Safe env (recordUsage site decl copy) := finds_modify_other fun _ => rfl

theorem safe_recordResolved (e : ExprId) (h : env.source.HasDecl decl) : Safe env (recordResolved e decl) :=
  finds_modify fun _ hs => { hs with resolved := hs.resolved.insert e h }

theorem safe_onSignatures {f : Signatures → Signatures}
    (h : ∀ sigs, sigs.Present env.source → (f sigs).Present env.source) : Safe env (onSignatures f) :=
  finds_modify fun s hs => { hs with signatures := h s.signatures hs.signatures }

theorem safe_recordDeclType (decl : DeclId) {ty : Ty} (h : ty.Present env.source) :
    Safe env (recordDeclType decl ty) :=
  safe_onSignatures fun _ hsigs => { hsigs with declTypes := hsigs.declTypes.insert decl h }

theorem safe_declareLocal (name : String) (h : env.source.HasDecl decl) : Safe env (declareLocal name decl) :=
  finds_modify fun _ hs => hs.declare name h

theorem safe_declareIn (space : Option DeclId) (name : String) (h : env.source.HasDecl decl) :
    Safe env (declareIn space name decl) := by
  cases space with
  | none => exact safe_declareLocal name h
  | some space => exact finds_modify fun _ hs => hs.declareMember space name h

theorem safe_onInstances (f : TypeEnv → Limits → Instances → α × Instances) : Safe env (onInstances f) :=
  finds_read.bind fun _ _ => finds_modifyGet fun _ hs => ⟨trivial, hs.of_eq rfl⟩

section Complete

variable (henv : env.Complete)
include henv

theorem finds_declOf (h : env.source.HasDecl decl) :
    Finds env (declOf decl) fun d => env.source.decl? decl = some d ∧ env.source.ClosedDecl d := by
  refine finds_source.bind fun src hsrc => ?_
  subst hsrc
  exact (finds_ofOption h).imp fun d hd => ⟨hd, henv.closed.decl hd⟩

theorem safe_nameOf (h : env.source.HasDecl decl) : Safe env (nameOf decl) :=
  (finds_declOf henv h).bind fun _ _ => .pure trivial

/-! ### Frames -/

theorem safe_spacesAround (h : env.source.HasDecl decl) : Safe env (spacesAround decl) := by
  refine (finds_declOf henv h).bind fun _ _ => finds_source.bind fun src hsrc => ?_
  subst hsrc
  have hmembers : ∀ d ∈ env.source.ancestors decl,
      Safe env (do return if (← declOf d).kind.isSpace then [d] else []) := fun d hd =>
    (finds_declOf henv (henv.closed.hasDecl_ancestorsWithin _ decl d hd)).bind fun _ _ => .pure trivial
  exact (Finds.mapM hmembers).bind fun _ _ => .pure trivial

theorem finds_inNamespaces (h : env.source.HasDecl decl) {act : LinkM α} (hact : Finds env act P) :
    Finds env (inNamespaces decl act) P := by
  refine (safe_spacesAround henv h).bind fun around _ => finds_get.bind fun s hs => finds_withFrames ?_ hact
  intro frame hframe
  obtain ⟨space, -, rfl⟩ := List.mem_map.1 hframe
  cases hget : s.spaces.frame? space with
  | none => exact Table.within_empty
  | some frame => exact hs.spaces.of_get? hget

theorem finds_interfaceOf {d : Decl} (hd : env.source.ClosedDecl d) :
    Finds env (interfaceOf d) fun found => ∀ i ∈ found, env.source.HasDecl i := by
  unfold interfaceOf
  split
  · exact .pure nofun
  · rename_i parent hparent
    have hparent := hd.parent parent hparent
    refine (finds_declOf henv hparent).bind fun _ _ => .pure ?_
    split
    · exact fun i hi => Option.some.inj hi ▸ hparent
    · exact nofun

theorem finds_genericHost (h : env.source.HasDecl decl) :
    Finds env (genericHost decl) fun found => ∀ d ∈ found, env.source.HasDecl d := by
  refine (finds_declOf henv h).bind fun d hd => ?_
  split
  · exact .pure fun i hi => Option.some.inj hi ▸ h
  · refine (finds_interfaceOf henv hd.2).bind fun found hfound => ?_
    cases found with
    | none => exact .pure nofun
    | some interface =>
      refine (finds_declOf henv (hfound interface rfl)).bind fun _ _ => .pure ?_
      split
      · exact fun i hi => Option.some.inj hi ▸ hfound interface rfl
      · exact nofun

theorem finds_genericFrame (h : env.source.HasDecl decl) :
    Finds env (genericFrame decl) fun frame => frame.Within env.source.HasDecl := by
  have hframe : ∀ generics : List GenericId, (∀ g ∈ generics, env.source.HasGeneric g) → Finds env (do
      let params ← generics.mapM genericOf
      return params.foldl (fun (frame : Frame) g => frame.insert g.name g.decl) {})
      fun frame => frame.Within env.source.HasDecl := by
    intro generics hgenerics
    refine (Finds.mapM fun g hg => finds_genericOf (hgenerics g hg)).bind fun params hparams => .pure ?_
    exact Table.within_empty.foldl_insert fun p hp => (hparams p hp).1
  refine (finds_declOf henv h).bind fun d hd => (finds_interfaceOf henv hd.2).bind fun found hfound => ?_
  cases found with
  | none => exact Finds.bind (.pure (P := fun outer => ∀ g ∈ outer, env.source.HasGeneric g) nofun) fun outer houter =>
      hframe _ (List.forall_mem_append.2 ⟨houter, hd.2.generics⟩)
  | some interface =>
    refine (finds_declOf henv (hfound interface rfl)).bind fun i hi => ?_
    exact hframe _ (List.forall_mem_append.2 ⟨hi.2.generics, hd.2.generics⟩)

theorem finds_inGenerics (h : env.source.HasDecl decl) {act : Option DeclId → LinkM α}
    (hact : ∀ host : Option DeclId, (∀ d ∈ host, env.source.HasDecl d) → Finds env (act host) P) :
    Finds env (inGenerics decl act) P := by
  refine (finds_genericHost henv h).bind fun host hhost => ?_
  exact (finds_genericFrame henv h).bind fun frame hframe => finds_withFrame hframe (hact host hhost)

/-! ### Annotations -/

theorem safe_useGeneric (hhost : ∀ d ∈ host, env.source.HasDecl d) (target : DeclId) (args : List Ty)
    (span : Span) : Safe env (useGeneric host target args span) := by
  unfold useGeneric
  split
  · exact .pure trivial
  · split
    · cases host with
      | none => exact .pure trivial
      | some host =>
        refine (finds_declOf henv (hhost host rfl)).bind fun _ _ => ?_
        exact (safe_onInstances _).bind fun _ _ => .pure trivial
    · refine (safe_onInstances _).bind fun index _ => ?_
      cases index <;> exact .pure trivial

omit henv in
theorem finds_fillTypeArgs (name : String) (span : Span) {generics rest : List GenericId} {args : List Ty}
    (hrest : ∀ g ∈ rest, env.source.HasGeneric g) (hargs : ∀ t ∈ args, t.Present env.source)
    (hlength : args.length + rest.length = generics.length) :
    Finds env (fillTypeArgs name span generics rest args) fun out => ∀ t ∈ out, t.Present env.source := by
  induction rest generalizing args with
  | nil => exact .pure hargs
  | cons g rest ih =>
    obtain ⟨hg, hrest⟩ := List.forall_mem_cons.1 hrest
    rw [List.length_cons] at hlength
    have hnext : ∀ t : Ty, t.Present env.source →
        Finds env (fillTypeArgs name span generics rest (args ++ [t])) fun out => ∀ t ∈ out, t.Present env.source := by
      intro t ht
      refine ih hrest (List.forall_mem_append.2 ⟨hargs, List.forall_mem_singleton.2 ht⟩) ?_
      rw [List.length_append, List.length_singleton]
      omega
    unfold fillTypeArgs
    refine finds_signatures.bind fun sigs hsigs => ?_
    split
    · rename_i default hdefault
      -- the arguments so far are no more than the parameters
      have hle : args.length ≤ generics.length := by omega
      refine (finds_sliceTo hle).bind fun before _ => hnext _ ?_
      exact (hsigs.defaults.of_get? hdefault).subst_of_fits hargs before
    · refine (finds_genericOf hg).bind fun p _ => (safe_report span _).bind fun _ _ => ?_
      exact hnext _ (.unknown trivial)

theorem finds_completeTypeArgs (h : env.source.HasDecl decl) {args : List Ty}
    (hargs : ∀ t ∈ args, t.Present env.source) (span : Span) :
    Finds env (completeTypeArgs decl args span) fun out => ∀ t ∈ out, t.Present env.source := by
  rw [completeTypeArgs_eq]
  refine finds_signatures.bind fun sigs hsigs => (safe_nameOf henv h).bind fun name _ => ?_
  refine .seq (compound_safe.reportIf (safe_report span _)) fun _ => ?_
  have hle : (args.take (sigs.genericsOf decl).length).length ≤ (sigs.genericsOf decl).length := by
    rw [List.length_take]
    omega
  refine (finds_sliceFrom hle).bind fun rest hrest => ?_
  subst hrest
  refine finds_fillTypeArgs name span (fun g hg => hsigs.genericsOf decl g (List.mem_of_mem_drop hg))
    (fun t ht => hargs t (List.mem_of_mem_take ht)) ?_
  rw [List.length_drop]
  omega

omit henv in
theorem safe_boundViolation (span : Span) {g : GenericId} (hg : env.source.HasGeneric g) {arg bound : Ty}
    (harg : arg.Present env.source) (hbound : bound.Present env.source) :
    Safe env (boundViolation span g arg bound) := by
  refine (finds_genericOf hg).bind fun _ _ => (finds_showTy harg).bind fun _ _ => ?_
  exact (finds_showTy hbound).bind fun _ _ => .pure trivial

omit henv in
theorem safe_checkBounds (decl : DeclId) {args : List Ty} (hargs : ∀ t ∈ args, t.Present env.source)
    (span : Span) : Safe env (checkBounds decl args span) := by
  refine finds_signatures.bind fun sigs hsigs => Finds.forM fun p hp => ?_
  obtain ⟨hg, harg⟩ := List.of_mem_zip hp
  refine finds_signatures.bind fun seen hseen => ?_
  refine (Finds.option fun bound hbound => safe_boundViolation span (hsigs.genericsOf decl _ hg) (hargs _ harg)
    (hseen.violatedBound hargs hbound)).bind fun _ _ => safe_noteCheck _

theorem finds_linkDeclared (hhost : ∀ d ∈ host, env.source.HasDecl d) (usage : TypeUse) (id : TypeExprId)
    (span : Span) (h : env.source.HasDecl decl) {linkArgs : LinkM (List Ty)}
    (hargs : Finds env linkArgs fun args => ∀ t ∈ args, t.Present env.source) :
    Finds env (linkDeclared host usage id span decl linkArgs) (Ty.Present env.source) := by
  unfold linkDeclared
  refine hargs.bind fun written hwritten => (finds_completeTypeArgs henv h hwritten span).bind fun args hargs => ?_
  refine (safe_checkBounds decl hargs span).bind fun _ _ => ?_
  have hty : (Ty.linked decl args).Present env.source := .linked h hargs
  dsimp only
  split
  · refine finds_typeEnv.bind fun e _ => ?_
    split
    · exact .pure hty
    · refine (safe_useGeneric henv hhost _ _ span).bind fun copy _ => ?_
      exact (safe_recordUsage _ _ copy).bind fun _ _ => .pure hty
  · exact .pure hty

theorem finds_linkNamed (hhost : ∀ d ∈ host, env.source.HasDecl d) (usage : TypeUse) (id : TypeExprId)
    (span : Span) (path : List String) (isBare : Bool) {linkArgs : LinkM (List Ty)}
    (hargs : Finds env linkArgs fun args => ∀ t ∈ args, t.Present env.source) :
    Finds env (linkNamed host usage id span path isBare linkArgs) (Ty.Present env.source) := by
  have hreport : ∀ (p : Problem) {t : Ty}, t.Present env.source →
      Finds env (do report span p; return t) (Ty.Present env.source) :=
    fun p t ht => (safe_report span p).bind fun _ _ => .pure ht
  unfold linkNamed
  split
  · split
    · exact .pure (.prim _)
    · exact hreport _ (.prim _)
  · refine (finds_resolve path).bind fun found hfound => ?_
    split
    · exact hreport _ (.unknown trivial)
    · rename_i decl
      have hdecl := hfound decl rfl
      refine (finds_declOf henv hdecl).bind fun d hd => ?_
      have hkind := hd.2.kind
      split
      · rename_i g hg
        rw [hg] at hkind
        split
        · exact .pure (.param hkind)
        · exact hreport _ (.param hkind)
      all_goals first
        | exact finds_linkDeclared henv hhost usage id span hdecl hargs
        | exact hreport _ (.unknown trivial)

omit henv in
theorem finds_linkTypes_of_forall {usage : TypeUse} {ts : List TypeExpr}
    (h : ∀ t ∈ ts, Finds env (linkType host usage t) (Ty.Present env.source)) :
    Finds env (linkTypes host usage ts) fun out => ∀ t ∈ out, t.Present env.source := by
  induction ts with
  | nil =>
    unfold linkTypes
    exact .pure (by simp)
  | cons t ts ih =>
    obtain ⟨ht, hts⟩ := List.forall_mem_cons.1 h
    unfold linkTypes
    exact ht.bind fun ty hty => (ih hts).bind fun tys htys => .pure (List.forall_mem_cons.2 ⟨hty, htys⟩)

section Annotations

variable (hhost : ∀ d ∈ host, env.source.HasDecl d) (usage : TypeUse)
include hhost

theorem finds_linkType {t : TypeExpr} (h : t.Whole) :
    Finds env (linkType host usage t) (Ty.Present env.source) := by
  induction h with
  | @node id span shape _ ih =>
    cases shape with
    | named path args =>
      unfold linkType
      exact finds_linkNamed henv hhost usage id span path _ (finds_linkTypes_of_forall ih)
    | pointer inner =>
      unfold linkType
      exact (ih inner List.mem_cons_self).bind fun _ ht => .pure ht.pointer
    | reference inner =>
      unfold linkType
      exact (ih inner List.mem_cons_self).bind fun _ ht => .pure ht.reference
    | array elem len =>
      unfold linkType
      exact (ih elem List.mem_cons_self).bind fun _ ht => .pure (ht.array len)
    | function params ret =>
      obtain ⟨hparams, hret⟩ := List.forall_mem_append.1 ih
      unfold linkType
      refine (finds_linkTypes_of_forall hparams).bind fun _ hps => ?_
      exact (hret ret List.mem_cons_self).bind fun _ ht => .pure (.function hps ht)

theorem finds_linkTypes {ts : List TypeExpr} (h : ∀ t ∈ ts, t.Whole) :
    Finds env (linkTypes host usage ts) fun out => ∀ t ∈ out, t.Present env.source :=
  finds_linkTypes_of_forall fun t ht => finds_linkType henv hhost usage (h t ht)

theorem finds_linkTypeAt {id : TypeExprId} (h : env.source.HasType id) :
    Finds env (linkTypeAt host usage id) (Ty.Present env.source) := by
  refine finds_read.bind fun r hr => ?_
  subst hr
  exact finds_linkType henv hhost usage (henv.types id h)

end Annotations

end Complete

end Link

end Linkage
