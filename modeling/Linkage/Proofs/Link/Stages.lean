import Linkage.Proofs.Link.Annotations

/-!
# The passes are steady

After the names are bound, five passes go over the declarations. Each of them writes topics of its own, and at a
declaration only those that concern it. An annotation is linked to the same, whatever its turn is, unless the pass
writes something that is looked up for it: defaults where an argument is left out, and, where a bounded declaration is
named, the bounds and all that a check of them depends on.
-/

namespace Linkage

variable {o : DeclId} {id : TypeExprId}

inductive Pass where
  | generics
  | params
  | aliases
  | relations
  | signatures
  deriving DecidableEq

def Topic.pass : Topic → Pass
  | .generics _ => .generics
  | .bound _ | .default _ => .params
  | .target _ => .aliases
  | .members _ | .interfaces _ => .relations

namespace Pass

def stage (pass : Pass) (known : View) : Stage where
  writes k := k.pass = pass
  known := known

def act : Pass → DeclId → LinkM Unit
  | .generics, decl => Link.recordGenerics decl
  | .params, decl => Link.inNamespaces decl (Link.linkGenericParams decl)
  | .aliases, decl => Link.inNamespaces decl (Link.linkAlias decl)
  | .relations, decl => Link.inNamespaces decl (Link.linkTypeFacts decl)
  | .signatures, decl => do
    unless (← get).ignored.contains decl do
      Link.inNamespaces decl (Link.linkSignature decl)

end Pass

namespace Source

def Concerns (src : Source) (o : DeclId) : Topic → Prop
  | .generics d | .target d | .members d | .interfaces d => d = o
  | .bound g | .default g => g ∈ src.genericsOf o

theorem WellBuilt.eq_of_concerns {src : Source} (h : src.WellBuilt) {o' : DeclId} {k : Topic}
    (ho : src.Concerns o k) (ho' : src.Concerns o' k) : o = o' := by
  cases k with
  | bound g => exact h.eq_of_generic ho ho'
  | default g => exact h.eq_of_generic ho ho'
  | _ => exact ho.symm.trans ho'

/-- The parameters of the declaration that no argument is written for have no defaults. -/
def NeedsNoDefault (src : Source) (decl : Decl) (n : Nat) : Prop :=
  ∀ g ∈ decl.generics.drop n, src.hasDefault g = false

def Unbounded (src : Source) (decl : Decl) : Prop := ∀ g ∈ decl.generics, src.hasBound g = false

/-- The condition holds of every declaration that a name in the annotation may lead to, which is one of the
last name of the path. It is also given the number of arguments behind the name. -/
def AllNamed (src : Source) (P : Decl → Nat → Prop) (id : TypeExprId) : Prop :=
  ∀ x ∈ (src.trees.typeExpr id).names, ∀ decl ∈ src.decls, x.1.getLast? = some decl.name → P decl x.2

/-- The annotations that are linked before all bounds can be checked: the target of an alias, the members of a
union and the interfaces of a struct. -/
def relationsOf : DeclKind → List TypeExprId
  | .typeAlias a => [a.target]
  | .union u => u.members
  | .struct s => s.implements
  | _ => []

/-- No annotation is linked with the help of something that the same pass links. -/
structure OrderFree (src : Source) : Prop where
  params : ∀ p ∈ src.generics, ∀ id ∈ p.bound.toList ++ p.default.toList,
    src.AllNamed (fun decl n => src.Unbounded decl ∧ src.NeedsNoDefault decl n) id
  relations : ∀ decl ∈ src.decls, ∀ id ∈ relationsOf decl.kind, src.AllNamed (fun decl _ => src.Unbounded decl) id

section Decidable

variable (src : Source)

instance (decl : Decl) (n : Nat) : Decidable (src.NeedsNoDefault decl n) :=
  inferInstanceAs (Decidable (∀ g ∈ decl.generics.drop n, src.hasDefault g = false))

instance (decl : Decl) : Decidable (src.Unbounded decl) :=
  inferInstanceAs (Decidable (∀ g ∈ decl.generics, src.hasBound g = false))

instance (P : Decl → Nat → Prop) [∀ decl n, Decidable (P decl n)] (id : TypeExprId) : Decidable (src.AllNamed P id) :=
  inferInstanceAs (Decidable (∀ x ∈ (src.trees.typeExpr id).names, ∀ decl ∈ src.decls,
    x.1.getLast? = some decl.name → P decl x.2))

instance : Decidable src.OrderFree :=
  decidable_of_iff
    ((∀ p ∈ src.generics, ∀ id ∈ p.bound.toList ++ p.default.toList,
        src.AllNamed (fun decl n => src.Unbounded decl ∧ src.NeedsNoDefault decl n) id) ∧
      ∀ decl ∈ src.decls, ∀ id ∈ relationsOf decl.kind, src.AllNamed (fun decl _ => src.Unbounded decl) id)
    ⟨fun h => ⟨h.1, h.2⟩, fun h => ⟨h.1, h.2⟩⟩

end Decidable

end Source

namespace Link

variable {env : LinkEnv} {known : View} {σ : Lookup}

/-- The annotation is linked with nothing that the pass writes. -/
def Spared (env : LinkEnv) (pass : Pass) (known : View) (id : TypeExprId) : Prop :=
  ∀ x ∈ (env.trees.typeExpr id).names, (pass.stage known).SparesPath env.source x

theorem spared_params (htrees : env.trees = env.source.trees) (h : env.source.AllNamed
    (fun decl n => env.source.Unbounded decl ∧ env.source.NeedsNoDefault decl n) id) : Spared env .params known id := by
  intro x hx decl hdecl hlast
  obtain ⟨hbounds, hdefaults⟩ := h x (htrees ▸ hx) decl hdecl hlast
  refine ⟨fun g hg hdefault => ?_, fun g hg hbound => ?_⟩
  · rw [hdefaults g hg] at hdefault
    exact nomatch hdefault
  · rw [hbounds g hg] at hbound
    exact nomatch hbound

theorem spared_of_unbounded (htrees : env.trees = env.source.trees) {pass : Pass} (hpass : pass ≠ .params)
    (h : env.source.AllNamed (fun decl _ => env.source.Unbounded decl) id) : Spared env pass known id := by
  intro x hx decl hdecl hlast
  have hbounds := h x (htrees ▸ hx) decl hdecl hlast
  refine ⟨fun _ _ _ hwrites => hpass hwrites.symm, fun g hg hbound => ?_⟩
  rw [hbounds g hg] at hbound
  exact nomatch hbound

theorem spared_signatures (id : TypeExprId) : Spared env .signatures known id := by
  have hnone : ∀ k, ¬(Pass.stage .signatures known).writes k := by
    intro k hk
    cases k <;> exact nomatch hk
  exact fun _ _ _ _ _ => ⟨fun _ _ _ => hnone _, fun _ _ _ => hnone⟩

theorem steady_linkTypeAt_of_spared {host : Option DeclId} (hhost : ∀ d ∈ host, (env.source.decl? d).isSome = true)
    (hσ : σ.Proper env.source) {own : Topic → Prop} (usage : TypeUse) {pass : Pass}
    (hspared : Spared env pass known id) (hpass : pass ≠ .generics) :
    Steady env (pass.stage known) σ own (linkTypeAt host usage id) := by
  refine steady_linkTypeAt hhost hσ (fun d hwrites => ?_) usage hspared
  exact hpass (Eq.symm hwrites)

/-! ### Generic parameters -/

theorem steady_recordGenerics (o : DeclId) :
    Steady env (Pass.stage .generics known) σ (env.source.Concerns o) (recordGenerics o) := by
  refine .bind_of (consults_declOf o).steady fun decl _ _ _ _ hdecl => ?_
  obtain ⟨hdecl, -⟩ := runs_declOf.1 hdecl
  dsimp only
  split
  · exact .pure _
  · refine .bind (.forM fun g _ => .bind (consults_genericOf g).steady fun _ => ?_) fun _ => ?_
    · exact steady_onSignatures fun _ => rfl
    · exact steady_learn (.generics o) decl.generics rfl rfl (Source.genericsOf_eq hdecl).symm

theorem steady_linkGenericParam {host : Option DeclId} (hhost : ∀ d ∈ host, (env.source.decl? d).isSome = true)
    (hσ : σ.Proper env.source) {g : GenericId} (hg : g ∈ env.source.genericsOf o)
    (hspared : ∀ p, env.source.generic? g = some p → ∀ id ∈ p.bound.toList ++ p.default.toList,
      Spared env .params known id) :
    Steady env (Pass.stage .params known) σ (env.source.Concerns o) (linkGenericParam host g) := by
  have hmention : ∀ {record : Ty → LinkM Unit} {id : Option TypeExprId}, (∀ t ∈ id, Spared env .params known t) →
      (id.isSome = true → ∀ ty, Steady env (Pass.stage .params known) σ (env.source.Concerns o) (record ty)) →
      Steady env (Pass.stage .params known) σ (env.source.Concerns o) (linkMention host record id) := by
    intro record id hid hrecord
    cases id with
    | none => exact .pure _
    | some id => exact .bind (steady_linkTypeAt_of_spared hhost hσ .mention (hid id rfl) (by simp)) (hrecord rfl)
  rw [linkGenericParam_eq]
  refine .bind_of (consults_genericOf g).steady fun p _ _ _ _ hp => ?_
  have hp : env.source.generic? g = some p := (runs_genericOf.1 hp).1
  refine .bind (hmention (fun t ht => hspared p hp t (by simp_all)) fun hsome ty => ?_)
    fun _ => hmention (fun t ht => hspared p hp t (by simp_all)) fun hsome ty => ?_
  · have hdeclares : env.source.hasBound g = true := by rwa [Source.hasBound, hp]
    exact steady_learn (.bound g) ty rfl hg hdeclares
  · have hdeclares : env.source.hasDefault g = true := by rwa [Source.hasDefault, hp]
    exact steady_learn (.default g) ty rfl hg hdeclares

theorem steady_linkGenericParams (hbuilt : env.source.WellBuilt) (hσ : σ.Proper env.source)
    (hspared : ∀ p ∈ env.source.generics, ∀ id ∈ p.bound.toList ++ p.default.toList, Spared env .params known id) :
    Steady env (Pass.stage .params known) σ (env.source.Concerns o) (linkGenericParams o) := by
  refine .bind_of (consults_declOf o).steady fun decl _ _ _ _ hdecl => ?_
  obtain ⟨hdecl, -⟩ := runs_declOf.1 hdecl
  dsimp only
  split
  · exact .pure _
  · refine steady_inGenerics hbuilt hσ fun host σ' hhost hσ' => .forM fun g hg => ?_
    have hg : g ∈ env.source.genericsOf o := Source.genericsOf_eq hdecl ▸ hg
    exact steady_linkGenericParam hhost hσ' hg fun p hp => hspared p (List.mem_of_getElem? hp)

/-! ### Aliases -/

theorem steady_linkAlias (hbuilt : env.source.WellBuilt) (hσ : σ.Proper env.source)
    (hspared : ∀ decl ∈ env.source.decls, ∀ id ∈ Source.relationsOf decl.kind, Spared env .aliases known id) :
    Steady env (Pass.stage .aliases known) σ (env.source.Concerns o) (linkAlias o) := by
  refine .bind_of (consults_declOf o).steady fun decl _ _ _ _ hdecl => ?_
  obtain ⟨hdecl, -⟩ := runs_declOf.1 hdecl
  have hspared := hspared decl (List.mem_of_getElem? hdecl)
  split
  · rename_i a hkind
    refine steady_inGenerics hbuilt hσ fun host σ' hhost hσ' => ?_
    have htarget := hspared a.target (by simp [hkind, Source.relationsOf])
    refine .bind (steady_linkTypeAt_of_spared hhost hσ' .mention htarget nofun) fun ty => ?_
    exact steady_learn (.target o) ty rfl rfl trivial
  · exact .pure _

/-! ### Unions, interfaces and ownership -/

section Facts

variable {stage : Stage} {own : Topic → Prop}

theorem steady_functionNamed? (name : String) : Steady env stage σ own (functionNamed? name) := by
  refine steady_get (fun s t hs ht => ?_) fun s _ => ?_
  · have hname : s.scopes.find? = t.scopes.find? := congrArg Lookup.name (hs.lookup.trans ht.lookup.symm)
    rw [hname]
  · split
    · exact .bind (consults_declOf _).steady fun _ => .pure _
    · exact .pure _

theorem steady_linkOwnership (decl : DeclId) (ownership : Ownership) :
    Steady env stage σ own (linkOwnership decl ownership) :=
  compound_steady.linkOwnership (·.steady) steady_functionNamed? (fun _ _ _ => steady_report _ _)
    (fun _ => steady_onSignatures fun _ => rfl) ownership

end Facts

theorem steady_linkTypeFacts (hbuilt : env.source.WellBuilt) (hσ : σ.Proper env.source)
    (hspared : ∀ decl ∈ env.source.decls, ∀ id ∈ Source.relationsOf decl.kind, Spared env .relations known id) :
    Steady env (Pass.stage .relations known) σ (env.source.Concerns o) (linkTypeFacts o) := by
  refine steady_inGenerics hbuilt hσ fun host σ' hhost hσ' => ?_
  refine .bind_of (consults_declOf o).steady fun decl _ _ _ _ hdecl => ?_
  obtain ⟨hdecl, -⟩ := runs_declOf.1 hdecl
  have hspared := hspared decl (List.mem_of_getElem? hdecl)
  split
  · rename_i u hkind
    rw [hkind] at hspared
    refine .bind (.mapM fun id hid => steady_linkTypeAt_of_spared hhost hσ' .use (hspared id hid) nofun) fun members => ?_
    exact steady_learn (.members o) members rfl rfl trivial
  · rename_i s hkind
    rw [hkind] at hspared
    refine .bind (.mapM fun id hid => compound_steady.linkInterface (·.steady) ?_ fun _ _ => steady_report _ _)
      fun interfaces => ?_
    · exact steady_linkTypeAt_of_spared hhost hσ' .mention (hspared id hid) nofun
    · dsimp only
      split
      · exact steady_linkOwnership o s.ownership
      · refine .bind (steady_learn (.interfaces o) interfaces.flatten rfl rfl trivial) fun _ => ?_
        exact steady_linkOwnership o s.ownership
  · exact .pure _

/-! ### Signatures -/

theorem steady_linkSignature (hbuilt : env.source.WellBuilt) (hσ : σ.Proper env.source) (o : DeclId)
    {own : Topic → Prop} : Steady env (Pass.stage .signatures known) σ own (linkSignature o) := by
  refine .bind (consults_declOf o).steady fun decl => ?_
  dsimp only
  refine .bind (steady_inGenerics hbuilt hσ fun host σ' hhost hσ' => ?_) fun _ => ?_
  · exact compound_steady.linkSignatureKind (·.steady)
      (fun id => steady_linkTypeAt_of_spared hhost hσ' .use (spared_signatures id) nofun) .throw
      (fun f hf => steady_onSignatures fun sigs => Signatures.view_of_tables (hf sigs)) o decl.kind
  · split
    · exact .modify fun s => ⟨rfl, rfl, rfl, rfl, rfl, [], (List.append_nil _).symm, rfl⟩
    · exact .pure _

/-! ### All passes -/

theorem steady_act (htrees : env.trees = env.source.trees) (hbuilt : env.source.WellBuilt)
    (hfree : env.source.OrderFree) (hσ : σ.Proper env.source) (pass : Pass) (o : DeclId) :
    Steady env (pass.stage known) σ (env.source.Concerns o) (pass.act o) := by
  have hrelations : ∀ pass, pass ≠ .params → ∀ decl ∈ env.source.decls, ∀ id ∈ Source.relationsOf decl.kind,
      Spared env pass known id :=
    fun pass hpass decl hdecl id hid => spared_of_unbounded htrees hpass (hfree.relations decl hdecl id hid)
  cases pass with
  | generics => exact steady_recordGenerics o
  | params =>
    refine steady_inNamespaces (steady_linkGenericParams hbuilt (hσ.enter _) fun p hp id hid => ?_)
    exact spared_params htrees (hfree.params p hp id hid)
  | aliases => exact steady_inNamespaces (steady_linkAlias hbuilt (hσ.enter _) (hrelations .aliases nofun))
  | relations => exact steady_inNamespaces (steady_linkTypeFacts hbuilt (hσ.enter _) (hrelations .relations nofun))
  | signatures =>
    -- nothing is ignored, as nothing was redeclared
    refine steady_get (fun s t hs ht => by rw [hs.kept, ht.kept]) fun s _ => ?_
    split
    · exact .pure _
    · exact steady_inNamespaces (steady_linkSignature hbuilt (hσ.enter _) o)

end Link

end Linkage
