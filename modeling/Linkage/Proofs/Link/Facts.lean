import Linkage.Proofs.Link.Frame
import Linkage.Proofs.Source.Owners
import Linkage.Proofs.Ty.Scoping

/-!
# What is known while linking

The facts about a state say that everything recorded so far is in order: types are given as many arguments as they
take, the types of a declaration mention its own parameters only, what was used was registered, and a struct literal
that was linked once is recorded with the type that its copy was selected for. How much of this is true depends on the
run. A regime says whether it reports nothing, so that there are no unknown types, and whether types keep to the
parameters in scope.
-/

namespace Linkage

variable {e : ExprId} {sigs : Signatures} {t : Ty} {u : Usage}

/-- No default mentions a parameter that is declared with a default itself. Then one round of substitution
closes it. -/
def Signatures.DefaultsSettled (sigs : Signatures) (src : Source) : Prop :=
  ∀ g t, sigs.defaults.get? g = some t → ∀ k ∈ t.occurrences, src.hasDefault k = false

instance (sigs : Signatures) (src : Source) : Decidable (sigs.DefaultsSettled src) :=
  decidable_of_iff (∀ g ∈ sigs.defaults.keys, ∀ t ∈ sigs.defaults.get? g, ∀ k ∈ t.occurrences, src.hasDefault k = false)
    ⟨fun h g t ht => h g (Table.mem_keys_of_get? ht) t ht, fun h g _ t ht => h g t ht⟩

def Signatures.DefaultsClosed (sigs : Signatures) : Prop :=
  ∀ g t, sigs.defaults.get? g = some t → t.isOpen = false

instance (sigs : Signatures) : Decidable sigs.DefaultsClosed :=
  decidable_of_iff (∀ g ∈ sigs.defaults.keys, ∀ t ∈ sigs.defaults.get? g, t.isOpen = false)
    ⟨fun h g t ht => h g (Table.mem_keys_of_get? ht) t ht, fun h g _ t ht => h g t ht⟩

theorem Signatures.DefaultsClosed.settled (h : sigs.DefaultsClosed) (src : Source) : sigs.DefaultsSettled src :=
  fun g t ht k hk => absurd hk (Ty.isOpen_eq_false_iff.1 (h g t ht) k)

structure Regime where
  /-- Nothing is reported. -/
  silent : Prop
  /-- The defaults of generic parameters are settled, or closed where something is reported. -/
  settled : Prop
  /-- The signatures of all functions are linked. -/
  whole : Prop

namespace Regime

variable (r : Regime) (src : Source)

def rules : TyRules where
  unknown := ¬r.silent
  arity d n := src.Named d ∧ d ∈ src.owners ∧ n = (src.genericsOf d).length

/-- The parameter is mentioned only where it is visible. Before bodies are linked, whatever the defaults are,
this is so in a silent run for those without a default: nothing can be left of a default but parameters
that have defaults too. -/
def Strict (g : GenericId) : Prop := r.settled ∨ (¬r.whole ∧ r.silent ∧ src.hasDefault g = false)

abbrev Fits (d : DeclId) (t : Ty) : Prop := t.Fits (r.rules src) fun g => r.Strict src g → g ∈ src.visible d

abbrev AllFit (d : DeclId) (ts : List Ty) : Prop := ∀ t ∈ ts, r.Fits src d t

def Quiet (s : LinkState) : Prop := r.silent → s.reports = []

theorem Quiet.of_later {r : Regime} {fixed : Prop} {s s' : LinkState} (h : r.Quiet s')
    (hlater : s.Later fixed s') :
    r.Quiet s := by
  intro hsilent
  have hreports := hlater.reports
  rw [h hsilent] at hreports
  exact List.prefix_nil.1 hreports

end Regime

def Source.IsConstruct (src : Source) (e : ExprId) : Prop :=
  ∃ span ty fields, src.expr? e = some ⟨span, .construct ty fields⟩

def Instance.isSelected : Instance → Bool
  | .iteration _ | .dependent _ => true
  | .plain | .unresolved => false

/-- The part of the state that the facts are about. -/
structure Known where
  signatures : Signatures
  registry : Registry
  exprTypes : Table ExprId Ty
  usages : Table UsageSite Usage
  refused : List DeclId
  reports : List Diagnostic
  linked : List ExprId
  ignored : List DeclId
  bodies : List DeclId

def LinkState.known (s : LinkState) : Known where
  signatures := s.program.signatures
  registry := s.program.registry
  exprTypes := s.program.exprTypes
  usages := s.program.usages
  refused := s.refused
  reports := s.reports
  linked := s.linked
  ignored := s.ignored
  bodies := s.bodies

namespace Known

def instances (k : Known) : Instances := ⟨k.registry, k.refused, k.reports⟩

def Selects (k : Known) (u : Usage) (args : List Ty) : Prop :=
  match u.copy with
  | .iteration i => (∀ a ∈ args, a.isOpen = false) ∧ ∃ it, k.registry.iteration? u.decl i = some it ∧
      k.signatures.env.allSame it.args args = true
  | .dependent id => ∃ sub, k.registry.subscription? id = some sub ∧ sub.target = u.decl ∧
      sub.template = args
  | .plain => True
  | .unresolved => True

theorem Selects.mono {k k' : Known} {args : List Ty} (h : k.Selects u args) (hregistry : k.registry.Extends k'.registry)
    (henv : k'.signatures.env.allSame = k.signatures.env.allSame) : k'.Selects u args := by
  unfold Selects at h ⊢
  split
  · rename_i i hcopy
    rw [hcopy] at h
    obtain ⟨hclosed, it, hit, hsame⟩ := h
    exact ⟨hclosed, it, hregistry.iteration? hit, by rwa [henv]⟩
  · rename_i id hcopy
    rw [hcopy] at h
    obtain ⟨sub, hsub, hrest⟩ := h
    exact ⟨sub, hregistry.subscription? hsub, hrest⟩
  · trivial
  · trivial

end Known

/-- The declaration may be iterated for the arguments. They are known, and closed where types keep to the
parameters in scope. -/
structure Regime.Iterates (r : Regime) (src : Source) (d : DeclId) (args : List Ty) : Prop where
  arity : (r.rules src).arity d args.length
  args : ∀ a ∈ args, a.Fits (r.rules src).known fun _ => ¬r.settled

theorem Regime.Iterates.owner {r : Regime} {src : Source} {d : DeclId} {args : List Ty} (h : r.Iterates src d args) :
    src.Owner d :=
  ⟨h.arity.1, h.arity.2.1⟩

/-- The subscription is made by its host for arguments that mention the host's parameters. -/
structure Subscription.Fits (r : Regime) (src : Source) (sub : Subscription) : Prop where
  hostParams : sub.hostParams = src.genericsOf sub.host
  arity : (r.rules src).arity sub.target sub.template.length
  template : ∀ t ∈ sub.template, t.Fits (r.rules src).known fun g => r.settled → src.Named sub.host →
    g ∈ src.genericsOf sub.host

/-- Closing the template over the arguments of a host iteration leaves nothing open. -/
theorem Subscription.carries_fits (r : Regime) (src : Source) :
    Instances.Carries (r.Iterates src) (Subscription.Fits r src) := by
  intro sub hsub args hargs
  rw [targetArgs, Ty.substAll, hsub.hostParams]
  refine ⟨by rw [List.length_map]; exact hsub.arity, fun b hb => ?_⟩
  obtain ⟨t, ht, rfl⟩ := List.mem_map.1 hb
  refine (hsub.template t ht).subst (fun g hg => ?_) hargs.arity.2.2 hargs.args
  by_cases hsettled : r.settled
  · exact .inl (hg hsettled hargs.owner.1)
  · exact .inr hsettled

structure SignaturesFit (r : Regime) (src : Source) (sigs : Signatures) : Prop where
  generics : ∀ d ∈ src.owners, sigs.genericsOf d = src.genericsOf d
  params : ∀ d ∈ src.owners, ∀ (i : Nat) g, (src.genericsOf d)[i]? = some g →
    sigs.params.get? g = some ⟨d, i⟩
  bounds : ∀ g t, sigs.bounds.get? g = some t → t.Obeys (r.rules src)
  defaults : ∀ g t, sigs.defaults.get? g = some t → t.Obeys (r.rules src)
  declared : ∀ g t, sigs.defaults.get? g = some t → src.hasDefault g = true
  mentions : ∀ g t, sigs.defaults.get? g = some t → ∀ d ∈ src.owners, g ∈ src.genericsOf d →
    ∀ k ∈ t.occurrences, r.Strict src k → r.silent ∧ k ∈ src.visible d ∧ src.hasDefault k = false
  aliases : ∀ d t, sigs.aliasTargets.get? d = some t → r.Fits src d t
  functions : ∀ d sig, sigs.functions.get? d = some sig →
    (∀ p ∈ sig.params, r.Fits src d p.ty) ∧ r.Fits src d sig.ret
  fields : ∀ d fields, sigs.fields.get? d = some fields →
    (∃ decl st, src.decl? d = some decl ∧ decl.kind = .struct st) ∧ ∀ f ∈ fields, r.Fits src d f.2
  cases : ∀ d cases, sigs.cases.get? d = some cases → ∀ c ∈ cases, ∀ t, c.2 = some t →
    t.Obeys (r.rules src)
  unions : ∀ d members, sigs.unionMembers.get? d = some members → ∀ t ∈ members, t.Obeys (r.rules src)
  declTypes : ∀ d t, sigs.declTypes.get? d = some t → t.Obeys (r.rules src)

/-- What is known is in order. The expressions in `busy` are being linked: a copy may be selected for them
already, and their types are not recorded yet. -/
structure Facts (r : Regime) (src : Source) (busy : List ExprId) (k : Known) : Prop where
  signatures : SignaturesFit r src k.signatures
  whole : r.whole → ∀ d ∈ src.owners, d ∉ k.ignored → ∀ decl, src.decl? d = some decl →
    decl.kind.isFunction = true → k.signatures.functions.contains d = true
  paramTypes : ∀ d sig, k.signatures.functions.get? d = some sig → ∀ decl, src.decl? d = some decl →
    ∀ p ∈ decl.kind.params, ∃ t, k.signatures.declTypes.get? p = some t ∧ r.Fits src d t
  bodies : ∀ d ∈ k.bodies, k.signatures.functions.contains d = true
  exprTypes : ∀ e t, k.exprTypes.get? e = some t → t.Obeys (r.rules src)
  usages : r.silent → r.settled → ∀ site u, k.usages.get? site = some u → u.copy ≠ .unresolved
  sound : k.registry.Sound k.signatures.env
  orderly : k.instances.Orderly (r.Iterates src) (Subscription.Fits r src)
  coherent : ∀ e, src.IsConstruct e → e ∉ busy → ∀ u, k.usages.get? (.expr e) = some u →
    u.copy.isSelected = true → e ∈ k.linked ∧ (k.linked.count e = 1 →
      ∃ args, k.exprTypes.get? e = some (.linked u.decl args) ∧ k.Selects u args)

namespace Facts

variable {r : Regime} {src : Source} {busy : List ExprId} {k : Known}

theorem reports (h : Facts r src busy k) {reports : List Diagnostic} (hreports : k.reports <+: reports) :
    Facts r src busy { k with reports := reports } := by
  refine { h with orderly := ⟨h.orderly.iterations, h.orderly.subscriptions, ?_⟩ }
  intro hrefused heq
  obtain rfl : reports = [] := heq
  exact h.orderly.refused hrefused (List.prefix_nil.1 hreports)

theorem active (h : Facts r src busy k) (active : Table DeclId IterationId) :
    Facts r src busy { k with registry.active := active } :=
  { h with
    sound := h.sound.of_eq rfl rfl rfl
    orderly := ⟨h.orderly.iterations, h.orderly.subscriptions, h.orderly.refused⟩ }

theorem busyWith (h : Facts r src busy k) (e : ExprId) : Facts r src (e :: busy) k :=
  { h with coherent := fun e' he' hbusy => h.coherent e' he' fun hmem => hbusy (List.mem_cons_of_mem e hmem) }

theorem recordType (h : Facts r src busy k) (ht : t.Obeys (r.rules src))
    (he : src.IsConstruct e → e ∈ busy ∨ k.exprTypes.get? e = some t) :
    Facts r src busy { k with exprTypes := k.exprTypes.insert e t } := by
  refine { h with
    exprTypes := Table.forall_insert h.exprTypes ht
    coherent := fun e' hconstruct hbusy u hu hsel => ?_ }
  · obtain ⟨hlinked, hcount⟩ := h.coherent e' hconstruct hbusy u hu hsel
    refine ⟨hlinked, fun hone => ?_⟩
    obtain ⟨args, htype, hselects⟩ := hcount hone
    refine ⟨args, ?_, hselects⟩
    rw [Table.get?_insert]
    split
    · rename_i heq
      subst heq
      exact ((he hconstruct).resolve_left hbusy).symm.trans htype
    · exact htype

theorem recordTypeUsage (h : Facts r src busy k) (id : TypeExprId) (hu : r.silent → r.settled → u.copy ≠ .unresolved) :
    Facts r src busy { k with usages := k.usages.insert (.typeExpr id) u } := by
  refine { h with
    usages := fun hsilent hsettled => Table.forall_insert (h.usages hsilent hsettled) (hu hsilent hsettled)
    coherent := fun e he hbusy v hv => ?_ }
  · rw [Table.get?_insert_of_ne _ _ (by simp)] at hv
    exact h.coherent e he hbusy v hv

theorem recordUsage (h : Facts r src busy k)
    (he : src.IsConstruct e → e ∈ busy) (hu : r.silent → r.settled → u.copy ≠ .unresolved) :
    Facts r src busy { k with usages := k.usages.insert (.expr e) u } := by
  refine { h with
    usages := fun hsilent hsettled => Table.forall_insert (h.usages hsilent hsettled) (hu hsilent hsettled)
    coherent := fun e' he' hbusy v hv => ?_ }
  · have hne : UsageSite.expr e ≠ .expr e' := by
      rintro ⟨⟩
      exact hbusy (he he')
    rw [Table.get?_insert_of_ne _ _ hne] at hv
    exact h.coherent e' he' hbusy v hv

/-- A literal that is linked for the first time comes with the copy selected for its type. Of one that
is linked again nothing is claimed. -/
theorem recordLinked (h : Facts r src (e :: busy) k) (ht : t.Obeys (r.rules src))
    (he : src.IsConstruct e → e ∉ busy → ∀ u, k.usages.get? (.expr e) = some u → u.copy.isSelected = true →
      e ∈ k.linked ∨ ∃ args, t = .linked u.decl args ∧ k.Selects u args) :
    Facts r src busy { k with exprTypes := k.exprTypes.insert e t, linked := e :: k.linked } := by
  refine { h with
    exprTypes := Table.forall_insert h.exprTypes ht
    coherent := fun e' hconstruct hbusy u hu hsel => ?_ }
  · by_cases heq : e = e'
    · subst heq
      refine ⟨List.mem_cons_self, fun hone => ?_⟩
      rw [List.count_cons_self] at hone
      have hnew : e ∉ k.linked := List.count_eq_zero.1 (by omega)
      obtain ⟨args, rfl, hselects⟩ := (he hconstruct hbusy u hu hsel).resolve_left hnew
      exact ⟨args, Table.get?_insert_self _ _ _, hselects⟩
    · have hnot : e' ∉ e :: busy := fun hmem => (List.mem_cons.1 hmem).elim (heq ∘ Eq.symm) hbusy
      obtain ⟨hlinked, hcount⟩ := h.coherent e' hconstruct hnot u hu hsel
      refine ⟨List.mem_cons_of_mem _ hlinked, fun hone => ?_⟩
      rw [List.count_cons_of_ne heq] at hone
      obtain ⟨args, htype, hselects⟩ := hcount hone
      exact ⟨args, by rwa [Table.get?_insert_of_ne _ _ heq], hselects⟩

theorem withInstances (h : Facts r src busy k) {x : Instances} (hext : k.registry.Extends x.registry)
    (hsound : x.registry.Sound k.signatures.env)
    (horderly : x.Orderly (r.Iterates src) (Subscription.Fits r src)) :
    Facts r src busy { k with registry := x.registry, refused := x.refused, reports := x.reports } := by
  refine { h with sound := hsound, orderly := horderly, coherent := fun e he hbusy u hu hsel => ?_ }
  obtain ⟨hlinked, hcount⟩ := h.coherent e he hbusy u hu hsel
  refine ⟨hlinked, fun hone => ?_⟩
  obtain ⟨args, htype, hselects⟩ := hcount hone
  exact ⟨args, htype, hselects.mono hext rfl⟩

/-- Give a local or a parameter its type. The type of a parameter fits the function whose it is. -/
theorem recordDeclType (h : Facts r src busy k) {d : DeclId} (ht : t.Obeys (r.rules src))
    (hparam : ∀ f decl, src.decl? f = some decl → d ∈ decl.kind.params → r.Fits src f t) :
    Facts r src busy { k with signatures.declTypes := k.signatures.declTypes.insert d t } := by
  refine { h with
    signatures := { h.signatures with declTypes := Table.forall_insert h.signatures.declTypes ht }
    paramTypes := fun f sig hsig decl hdecl p hp => ?_ }
  show ∃ t', (k.signatures.declTypes.insert d t).get? p = some t' ∧ _
  rw [Table.get?_insert]
  split
  · rename_i heq
    subst heq
    exact ⟨t, rfl, hparam f decl hdecl hp⟩
  · exact h.paramTypes f sig hsig decl hdecl p hp

theorem withSignatures (h : Facts r src busy k) (hfit : SignaturesFit r src sigs)
    (hfunctions : ∀ d, k.signatures.functions.contains d = true → sigs.functions.contains d = true)
    (hparams : ∀ d sig, sigs.functions.get? d = some sig → ∀ decl, src.decl? d = some decl →
      ∀ p ∈ decl.kind.params, ∃ t, sigs.declTypes.get? p = some t ∧ r.Fits src d t) (hsound : k.registry.Sound sigs.env)
    (hselects : ∀ u args, k.Selects u args → { k with signatures := sigs }.Selects u args) :
    Facts r src busy { k with signatures := sigs } where
  signatures := hfit
  whole hwhole d hd hignored decl hdecl hkind := hfunctions d (h.whole hwhole d hd hignored decl hdecl hkind)
  paramTypes := hparams
  bodies d hd := hfunctions d (h.bodies d hd)
  exprTypes := h.exprTypes
  usages := h.usages
  sound := hsound
  orderly := h.orderly
  coherent e he hbusy u hu hsel := by
    obtain ⟨hlinked, hcount⟩ := h.coherent e he hbusy u hu hsel
    refine ⟨hlinked, fun hone => ?_⟩
    obtain ⟨args, htype, hsel⟩ := hcount hone
    exact ⟨args, htype, hselects u args hsel⟩

/-- Other signatures that leave the functions, the locals and the aliases alone. -/
theorem withTypes (h : Facts r src busy k) (hfit : SignaturesFit r src sigs)
    (hfunctions : sigs.functions = k.signatures.functions) (hlocals : sigs.declTypes = k.signatures.declTypes)
    (haliases : sigs.env.aliasTarget = k.signatures.env.aliasTarget) :
    Facts r src busy { k with signatures := sigs } := by
  have hsame : sigs.env.allSame = k.signatures.env.allSame := TypeEnv.allSame_congr haliases rfl
  refine h.withSignatures hfit (fun d hd => ?_) ?_ (h.sound.congr hsame) fun u args hu => hu.mono (.refl _) hsame
  · rwa [hfunctions]
  · rw [hfunctions, hlocals]
    exact h.paramTypes

end Facts

end Linkage
