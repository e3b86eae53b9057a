import Linkage.Proofs.Link.AnnotationLookups
import Linkage.Proofs.Link.Naming
import Linkage.Proofs.Source.Items

/-!
# Look-ups while declarations are linked

The items of a closed unit exist, and so do the members of namespaces and the methods of interfaces. So every
pass over the declarations of the unit finds what it looks at, and the types that it records are present.
A parameter that is listed as an item is the one thing that linking refuses.
-/

namespace Linkage

/-! ### Items -/

inductive Item.Present (src : Source) : Item → Prop
  | decl {id : DeclId} (h : src.HasDecl id) : Present src (.decl id)
  | space {id : DeclId} {members : List Item} (h : src.HasDecl id) (hmembers : ∀ item ∈ members, Present src item) :
      Present src (.space id members)

theorem Source.Closed.present_itemTree {src : Source} (h : src.Closed) (n : Nat) {id : DeclId}
    (hid : src.HasDecl id) : (src.itemTree n id).Present src := by
  induction n generalizing id with
  | zero => exact .decl hid
  | succ n ih =>
    unfold itemTree
    split
    · rename_i members hspace
      have hmembers : ∀ m ∈ members, src.HasDecl m := (h.decl hspace).kind
      refine .space hid fun item hitem => ?_
      obtain ⟨m, hm, rfl⟩ := List.mem_map.1 hitem
      exact ih (hmembers m hm)
    · exact .decl hid

theorem Source.Closed.hasDecl_ownersOf {src : Source} (h : src.Closed) {id : DeclId} (hid : src.HasDecl id) :
    ∀ d ∈ src.ownersOf id, src.HasDecl d := by
  unfold ownersOf
  split
  · rename_i i hinterface
    refine List.forall_mem_cons.2 ⟨hid, fun m hm => ?_⟩
    obtain ⟨md, hmd, -⟩ := (h.decl hinterface).kind m hm
    exact hasDecl_of_eq_some hmd
  · exact List.forall_mem_singleton.2 hid

theorem Item.Present.hasDecl_owners {src : Source} (hclosed : src.Closed) {item : Item} (h : item.Present src) :
    ∀ d ∈ item.owners src, src.HasDecl d := by
  induction h with
  | decl h =>
    rw [Item.owners]
    exact hclosed.hasDecl_ownersOf h
  | space _ _ ih =>
    rw [Item.owners, Item.ownersAll_eq_flatMap]
    exact List.forall_mem_flatMap.2 ih

theorem Item.Present.hasDecl_listings {src : Source} {item : Item} (h : item.Present src) (space : Option DeclId) :
    ∀ x ∈ item.listings space, src.HasDecl x.id := by
  induction h generalizing space with
  | decl h =>
    rw [Item.listings]
    exact List.forall_mem_singleton.2 h
  | space h _ ih =>
    rw [Item.listings, Item.listingsAll_eq_flatMap]
    exact List.forall_mem_cons.2 ⟨h, List.forall_mem_flatMap.2 fun item hitem => ih item hitem _⟩

theorem Source.Closed.hasDecl_owners {src : Source} (h : src.Closed) :
    ∀ d ∈ src.owners, src.HasDecl d := by
  rw [owners, Item.ownersAll_eq_flatMap]
  intro d hd
  obtain ⟨item, hitem, hd⟩ := List.mem_flatMap.1 hd
  obtain ⟨id, hid, rfl⟩ := List.mem_map.1 hitem
  exact (h.present_itemTree _ (h.items id hid)).hasDecl_owners h d hd

namespace Link

variable {α : Type} {env : LinkEnv} {P : α → Prop} {decl : DeclId} {host : Option DeclId}

section Complete

variable (henv : env.Complete)
include henv

/-! ### Names -/

def Redeclaration.Present (src : Source) (r : Redeclaration) : Prop := src.HasDecl r.first ∧ src.HasDecl r.second

theorem finds_declareName (space : Option DeclId) (h : env.source.HasDecl decl) :
    Finds env (declareName space decl) fun found => ∀ r ∈ found, Redeclaration.Present env.source r := by
  refine (finds_declOf henv h).bind fun d _ => finds_get.bind fun s hs => ?_
  dsimp only
  refine (safe_declareIn space d.name h).bind fun _ _ => ?_
  split
  · exact .pure (by simp)
  · rename_i first hprevious
    have hfirst : env.source.HasDecl first := by
      cases space with
      | none => exact hs.findInnermost hprevious
      | some space => exact hs.findMember hprevious
    refine (finds_declOf henv hfirst).bind fun _ _ => .pure ?_
    split
    · exact List.forall_mem_singleton.2 ⟨hfirst, h⟩
    · simp

theorem finds_declareItems (space : Option DeclId) {items : List Item} (h : ∀ item ∈ items, item.Present env.source) :
    Finds env (declareItems space items) fun found => ∀ r ∈ found, Redeclaration.Present env.source r := by
  rw [declareItems_eq, Item.listingsAll_eq_flatMap]
  have hdecls : ∀ x ∈ items.flatMap (Item.listings space), env.source.HasDecl x.id :=
    List.forall_mem_flatMap.2 fun item hitem => (h item hitem).hasDecl_listings space
  refine (Finds.mapM fun x hx => finds_declareName henv x.space (hdecls x hx)).bind fun found hfound => .pure ?_
  exact List.forall_mem_flatten.2 hfound

/-! ### Generic parameters, aliases and declared types -/

theorem safe_recordGenerics (h : env.source.HasDecl decl) : Safe env (recordGenerics decl) := by
  refine (finds_declOf henv h).bind fun d hd => ?_
  dsimp only
  split
  · exact .pure trivial
  · have hgenerics := hd.2.generics
    refine .seq (Finds.forM fun g hg => ?_) fun _ => safe_onSignatures fun sigs hsigs => ?_
    · exact (finds_genericOf (hgenerics g hg)).bind fun _ _ => safe_onSignatures fun _ hsigs => { hsigs with }
    · exact { hsigs with generics := hsigs.generics.insert decl hgenerics }

theorem safe_linkMention (hhost : ∀ d ∈ host, env.source.HasDecl d) {record : Ty → LinkM Unit}
    {id : Option TypeExprId} (hid : ∀ t ∈ id, env.source.HasType t)
    (hrecord : ∀ ty : Ty, ty.Present env.source → Safe env (record ty)) : Safe env (linkMention host record id) := by
  cases id with
  | none => exact .pure trivial
  | some id => exact (finds_linkTypeAt henv hhost .mention (hid id rfl)).bind hrecord

theorem safe_linkGenericParam (hhost : ∀ d ∈ host, env.source.HasDecl d) {g : GenericId}
    (hg : env.source.HasGeneric g) : Safe env (linkGenericParam host g) := by
  rw [linkGenericParam_eq]
  refine (finds_genericOf hg).bind fun param hparam => ?_
  obtain ⟨-, hbound, hdefault⟩ := hparam
  refine .seq (safe_linkMention henv hhost hbound fun ty hty => ?_) fun _ => safe_linkMention henv hhost hdefault fun ty hty => ?_
  · exact safe_onSignatures fun _ hsigs => { hsigs with bounds := hsigs.bounds.insert g hty }
  · exact safe_onSignatures fun _ hsigs => { hsigs with defaults := hsigs.defaults.insert g hty }

theorem safe_linkGenericParams (h : env.source.HasDecl decl) : Safe env (linkGenericParams decl) := by
  refine (finds_declOf henv h).bind fun d hd => ?_
  dsimp only
  split
  · exact .pure trivial
  · refine finds_inGenerics henv h fun host hhost => Finds.forM fun g hg => ?_
    exact safe_linkGenericParam henv hhost (hd.2.generics g hg)

theorem safe_linkAlias (h : env.source.HasDecl decl) : Safe env (linkAlias decl) := by
  refine (finds_declOf henv h).bind fun d hd => ?_
  have hkind := hd.2.kind
  split
  · rename_i a ha
    rw [ha] at hkind
    refine finds_inGenerics henv h fun host hhost => ?_
    refine (finds_linkTypeAt henv hhost .mention hkind).bind fun ty hty => ?_
    exact safe_onSignatures fun _ hsigs => { hsigs with aliasTargets := hsigs.aliasTargets.insert decl hty }
  · exact .pure trivial

theorem safe_linkInterface (hhost : ∀ d ∈ host, env.source.HasDecl d) {id : TypeExprId}
    (h : env.source.HasType id) : Safe env (linkInterface host id) := by
  rw [linkInterface_eq]
  refine (finds_linkTypeAt henv hhost .mention h).bind fun ty hty => .seq ?_ fun isInterface => ?_
  · cases ty with
    | linked target _ => exact (finds_declOf henv hty.arity).bind fun _ _ => .pure trivial
    | _ => exact .pure trivial
  · unfold interfaceAt
    split
    · exact .pure trivial
    · exact .pure trivial
    · refine finds_source.bind fun src hsrc => ?_
      subst hsrc
      refine (finds_ofOption h).bind fun node _ => (finds_showTy hty).bind fun _ _ => ?_
      exact (safe_report _ _).bind fun _ _ => .pure trivial

theorem safe_resolveDestructor (h : env.source.HasDecl decl) (name : String) :
    Safe env (resolveDestructor decl name) := by
  rw [resolveDestructor_eq]
  refine .seq (finds_get.bind fun s hs => ?_) fun found => ?_
  · split
    · rename_i hfind
      exact (finds_declOf henv (hs.find hfind)).bind fun _ _ => .pure trivial
    · exact .pure trivial
  · cases found with
    | some found => exact .pure trivial
    | none => exact (finds_declOf henv h).bind fun d _ => (safe_report _ _).bind fun _ _ => .pure trivial

theorem safe_linkOwnership (h : env.source.HasDecl decl) (o : Ownership) : Safe env (linkOwnership decl o) := by
  have hrecord : ∀ destructor : Option DeclId, Safe env (onSignatures fun sigs =>
      { sigs with disposals := sigs.disposals.insert decl (.owned destructor) }) :=
    fun _ => safe_onSignatures fun _ hsigs => { hsigs with }
  cases o with
  | copy => exact .pure trivial
  | owned name =>
    cases name with
    | none => exact hrecord none
    | some name => exact (safe_resolveDestructor henv h name).bind fun destructor _ => hrecord destructor

theorem safe_linkTypeFacts (h : env.source.HasDecl decl) : Safe env (linkTypeFacts decl) := by
  refine finds_inGenerics henv h fun host hhost => (finds_declOf henv h).bind fun d hd => ?_
  have hkind := hd.2.kind
  split
  · rename_i u hu
    rw [hu] at hkind
    refine (Finds.mapM fun t ht => finds_linkTypeAt henv hhost .use (hkind t ht)).bind fun _ _ => ?_
    exact safe_onSignatures fun _ hsigs => { hsigs with }
  · rename_i st hst
    rw [hst] at hkind
    refine (Finds.mapM fun t ht => safe_linkInterface henv hhost (hkind.2 t ht)).bind fun interfaces _ => ?_
    dsimp only
    split
    · exact safe_linkOwnership henv h st.ownership
    · refine .seq ?_ fun _ => safe_linkOwnership henv h st.ownership
      exact safe_onSignatures fun _ hsigs => { hsigs with }
  · exact .pure trivial

/-! ### Duplicate functions -/

theorem safe_mentionedParams (h : env.source.HasDecl decl) : Safe env (mentionedParams decl) := by
  refine (finds_declOf henv h).bind fun d hd => ?_
  have hkind := hd.2.kind
  split
  · rename_i f hf
    rw [hf] at hkind
    refine finds_inNamespaces henv h (finds_inGenerics henv h fun host hhost => finds_quietly ?_)
    refine (Finds.mapM fun param hparam => (?_ : Safe env _)).bind fun _ _ => .pure trivial
    obtain ⟨pd, hpd, -⟩ := hkind.1 param hparam
    refine (finds_declOf henv (Source.hasDecl_of_eq_some hpd)).bind fun pd hpd => ?_
    have hparamKind := hpd.2.kind
    split
    · rename_i p hp
      rw [hp] at hparamKind
      split
      · exact .pure trivial
      · exact (finds_linkTypeAt henv hhost .mention hparamKind).bind fun _ _ => .pure trivial
    · exact .pure trivial
  · exact .pure trivial

theorem finds_settleRedeclaration {kept : Table DeclId DeclId} (hkept : kept.Within env.source.HasDecl)
    {r : Redeclaration} (hr : Redeclaration.Present env.source r) :
    Finds env (settleRedeclaration kept r) fun kept => kept.Within env.source.HasDecl := by
  have hfirst : env.source.HasDecl ((kept.get? r.first).getD r.first) := by
    cases hget : kept.get? r.first with
    | none => exact hr.1
    | some first => exact hkept.of_get? hget
  refine (safe_mentionedParams henv hfirst).bind fun _ _ => (safe_mentionedParams henv hr.2).bind fun _ _ => ?_
  refine finds_typeEnv.bind fun e _ => ?_
  split
  · refine (finds_declOf henv hr.2).bind fun d _ => (safe_report _ _).bind fun _ _ => ?_
    refine .seq (finds_modify_other fun _ => rfl) fun _ => ?_
    exact (safe_declareIn r.space d.name hfirst).bind fun _ _ => .pure (hkept.insert r.second hfirst)
  · exact .pure hkept

/-! ### Signatures -/

theorem finds_linkParam (hhost : ∀ d ∈ host, env.source.HasDecl d) {param : DeclId}
    (h : ∃ d, env.source.decl? param = some d ∧ d.kind.isParameter = true) :
    Finds env (linkParam host param) fun sig => sig.ty.Present env.source := by
  obtain ⟨pd, hpd, hparameter⟩ := h
  refine (finds_declOf henv (Source.hasDecl_of_eq_some hpd)).bind fun d hd => ?_
  obtain rfl := Option.some.inj (hpd.symm.trans hd.1)
  have hkind := hd.2.kind
  split
  · rename_i p hp
    rw [hp] at hkind
    refine (finds_linkTypeAt henv hhost .use hkind).bind fun ty hty => ?_
    exact (safe_recordDeclType param hty).bind fun _ _ => .pure hty
  · rename_i hnot
    cases hk : pd.kind with
    | parameter p => exact absurd hk (hnot p)
    | _ => simp [hk, DeclKind.isParameter] at hparameter

theorem finds_linkOptional (hhost : ∀ d ∈ host, env.source.HasDecl d) {absent : Ty}
    (habsent : absent.Present env.source) {id : Option TypeExprId} (h : ∀ t ∈ id, env.source.HasType t) :
    Finds env (linkOptional host absent id) (Ty.Present env.source) := by
  cases id with
  | none => exact .pure habsent
  | some id => exact finds_linkTypeAt henv hhost .use (h id rfl)

theorem safe_linkSignatureKind (hhost : ∀ d ∈ host, env.source.HasDecl d) {k : DeclKind}
    (h : env.source.ClosedKind k) (hplace : k.isParameter = true → Misplaced env.source decl) :
    Safe env (linkSignatureKind decl host k) := by
  cases k with
  | function f =>
    obtain ⟨hparams, hret, -⟩ := h
    refine (Finds.mapM fun p hp => finds_linkParam henv hhost (hparams p hp)).bind fun params hps => ?_
    refine (finds_linkOptional henv hhost (.prim .void) hret).bind fun ret hret => ?_
    exact safe_onSignatures fun _ hsigs => { hsigs with functions := hsigs.functions.insert decl ⟨hps, hret⟩ }
  | struct st =>
    have hfield : ∀ f ∈ st.fields, Finds env (do return (f.name, ← linkTypeAt host .use f.ty))
        fun field : String × Ty => field.2.Present env.source :=
      fun f hf => (finds_linkTypeAt henv hhost .use (h.1 f hf)).bind fun ty hty => .pure hty
    refine (Finds.mapM hfield).bind fun fields hfields => ?_
    exact safe_onSignatures fun _ hsigs => { hsigs with fields := hsigs.fields.insert decl hfields }
  | variant v =>
    have hcase : ∀ c ∈ v.cases, Safe env (do return (c.name, ← c.payload.mapM (linkTypeAt host .use))) :=
      fun c hc => (Finds.option fun t ht => finds_linkTypeAt henv hhost .use (h c hc t ht)).bind
        fun _ _ => .pure trivial
    refine (Finds.mapM hcase).bind fun cases _ => ?_
    exact safe_onSignatures fun _ hsigs => { hsigs with }
  | var v =>
    refine (finds_linkOptional henv hhost (.unknown trivial) h).bind fun ty hty => ?_
    exact safe_recordDeclType decl hty
  | parameter p => exact .notItem (hplace rfl)
  | interface _ | union _ | typeAlias _ | genericParam _ | space _ => exact .pure trivial

theorem safe_linkSignature (h : decl ∈ env.source.owners) : Safe env (linkSignature decl) := by
  have hdecl := henv.closed.hasDecl_owners decl h
  refine (finds_declOf henv hdecl).bind fun d hd => ?_
  dsimp only
  have hkind : ∀ host, (∀ d ∈ host, env.source.HasDecl d) → Safe env (linkSignatureKind decl host d.kind) :=
    fun host hhost => safe_linkSignatureKind henv hhost hd.2.kind fun hparam => ⟨h, d, hd.1, hparam⟩
  refine .seq (finds_inGenerics henv hdecl hkind) fun _ => ?_
  split
  · rename_i hbody
    obtain ⟨block, hblock⟩ := Option.isSome_iff_exists.1 hbody
    obtain ⟨f, hf, hblock⟩ := Option.bind_eq_some_iff.1 hblock
    have hkind : d.kind = .function f := by
      cases hk : d.kind <;> simp_all [DeclKind.function?]
    refine finds_modify fun s hs => { hs with bodies := ?_ }
    exact List.forall_mem_append.2 ⟨hs.bodies, List.forall_mem_singleton.2 ⟨d, f, block, hd.1, hkind, hblock⟩⟩
  · exact .pure trivial

theorem safe_eachOwner {act : DeclId → LinkM Unit} (h : ∀ d, env.source.HasDecl d → Safe env (act d)) :
    Safe env (env.source.owners.forM fun d => inNamespaces d (act d)) :=
  Finds.forM fun d hd =>
    have hdecl := henv.closed.hasDecl_owners d hd
    finds_inNamespaces henv hdecl (h d hdecl)

theorem safe_declareTypes : Safe env declareTypes := by
  refine finds_source.bind fun src hsrc => ?_
  subst hsrc
  dsimp only
  have hitems : ∀ item ∈ env.source.itemTrees, item.Present env.source := by
    intro item hitem
    obtain ⟨id, hid, rfl⟩ := List.mem_map.1 hitem
    exact henv.closed.present_itemTree _ (henv.closed.items id hid)
  refine (finds_declareItems henv none hitems).bind fun redeclared hredeclared => ?_
  refine (Finds.forM fun d hd => safe_recordGenerics henv (henv.closed.hasDecl_owners d hd)).bind fun _ _ => ?_
  refine (safe_eachOwner henv fun d hd => safe_linkGenericParams henv hd).bind fun _ _ => ?_
  refine (safe_eachOwner henv fun d hd => safe_linkAlias henv hd).bind fun _ _ => ?_
  refine (safe_eachOwner henv fun d hd => safe_linkTypeFacts henv hd).bind fun _ _ => ?_
  refine (Finds.foldlM (fun kept r hr hkept => finds_settleRedeclaration henv hkept (hredeclared r hr))
    Table.within_empty).bind fun _ _ => .pure trivial

theorem safe_linkSignatures : Safe env linkSignatures := by
  refine finds_source.bind fun src hsrc => ?_
  subst hsrc
  refine Finds.forM fun d hd => finds_get.bind fun s _ => ?_
  have hdecl := henv.closed.hasDecl_owners d hd
  split
  · exact .pure trivial
  · exact finds_inNamespaces henv hdecl (safe_linkSignature henv hd)

theorem safe_declareAll : Safe env declareAll :=
  (safe_declareTypes henv).bind fun _ _ => safe_linkSignatures henv

end Complete

end Link

end Linkage
