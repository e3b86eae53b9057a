import Linkage.Proofs.Registry.Growth

/-!
# Where iterations come from

An iteration was asked for, or some subscription carried over the arguments of a host iteration. So what holds of the
iterations that are asked for, and is carried over by the subscriptions, holds of every iteration. Reports are only
added, all of them about refusals, and whoever was refused an iteration was reported at some time.
-/

namespace Linkage

variable {decl : DeclId} {args : List Ty}

namespace Instances

/-- The declarations of iterations are in `P` with the arguments they are given, and the subscriptions
in `Q`. -/
structure Orderly (P : DeclId → List Ty → Prop) (Q : Subscription → Prop) (x : Instances) : Prop where
  iterations : ∀ it ∈ x.registry.iterations, P it.decl it.args
  subscriptions : ∀ s ∈ x.registry.subscriptions, Q s
  refused : x.refused ≠ [] → x.reports ≠ []

/-- A subscription in `Q` asks for an iteration in `P` wherever it is made for one. -/
def Carries (P : DeclId → List Ty → Prop) (Q : Subscription → Prop) : Prop :=
  ∀ s, Q s → ∀ args, P s.host args → P s.target (s.targetArgs args)

variable {P : DeclId → List Ty → Prop} {Q : Subscription → Prop} {x : Instances} {env : TypeEnv} {limits : Limits}

def AddsRefusals (reports reports' : List Diagnostic) : Prop :=
  ∃ added, reports' = reports ++ added ∧ ∀ d ∈ added, d.kind = .instantiationLimit

theorem AddsRefusals.refl (reports : List Diagnostic) : AddsRefusals reports reports :=
  ⟨[], (List.append_nil _).symm, nofun⟩

theorem AddsRefusals.trans {a b c : List Diagnostic} (h : AddsRefusals a b) (h' : AddsRefusals b c) :
    AddsRefusals a c := by
  obtain ⟨added, rfl, hkind⟩ := h
  obtain ⟨added', rfl, hkind'⟩ := h'
  refine ⟨added ++ added', List.append_assoc _ _ _, fun d hd => ?_⟩
  rcases List.mem_append.1 hd with hd | hd
  · exact hkind d hd
  · exact hkind' d hd

theorem AddsRefusals.begins {a b : List Diagnostic} (h : AddsRefusals a b) : a <+: b := by
  obtain ⟨added, rfl, -⟩ := h
  exact List.prefix_append _ _

theorem reports_refuse (x : Instances) (decl : DeclId) (span : Span) (why : Refusal) :
    AddsRefusals x.reports (x.refuse decl span why).reports := by
  unfold refuse
  split
  · exact .refl _
  · refine ⟨_, rfl, fun d hd => ?_⟩
    rw [List.mem_singleton.1 hd]
    rfl

theorem Orderly.refuse (hx : x.Orderly P Q) (decl : DeclId) (span : Span) (why : Refusal) :
    (x.refuse decl span why).Orderly P Q where
  iterations := by simpa using hx.iterations
  subscriptions := by simpa using hx.subscriptions
  refused := by
    unfold Instances.refuse
    split
    · exact hx.refused
    · simp

theorem Orderly.make (hx : x.Orderly P Q) (hargs : P decl args) (depth : Nat) :
    (x.make decl args depth).Orderly P Q where
  iterations it hit := by
    rcases List.mem_append.1 hit with hit | hit
    · exact hx.iterations it hit
    · rwa [List.mem_singleton.1 hit]
  subscriptions := hx.subscriptions
  refused := hx.refused

theorem Orderly.of_iteration? (hx : x.Orderly P Q) {i : IterationId} {it : Iteration}
    (hit : x.registry.iteration? decl i = some it) : P decl it.args := by
  have hmem : it ∈ x.registry.iterations := List.mem_of_mem_filter (List.mem_of_getElem? hit)
  rw [← Registry.decl_of_iteration? hit]
  exact hx.iterations it hmem

theorem Orderly.deliver (hcarries : Carries P Q) (hx : x.Orderly P Q) (env : TypeEnv) (limits : Limits)
    (notice : Notice) : (x.deliver env limits notice).Orderly P Q := by
  obtain ⟨h, -⟩ | ⟨s, host, hs, hhost, ⟨t, -, h⟩ | ⟨why, h⟩ | ⟨-, h⟩⟩ := deliver_cases x env limits notice
  · rwa [h]
  · rw [h]
    exact ⟨hx.iterations, hx.subscriptions, hx.refused⟩
  · rw [h]
    exact hx.refuse _ _ _
  · have htarget : P s.target (s.targetArgs host.args) :=
      hcarries s (hx.subscriptions s (Registry.mem_subscriptions_of_get? hs)) _ (hx.of_iteration? hhost)
    have hmake := hx.make htarget host.nextDepth
    rw [h]
    exact ⟨hmake.iterations, hmake.subscriptions, hmake.refused⟩

theorem Orderly.drain (hcarries : Carries P Q) (hx : x.Orderly P Q) (env : TypeEnv) (limits : Limits) :
    (x.drain env limits).Orderly P Q := by
  refine drain_induction ?_ hx
  intro y notice rest _ hy
  have hrest : (y.withPending rest).Orderly P Q := ⟨hy.iterations, hy.subscriptions, hy.refused⟩
  exact hrest.deliver hcarries env limits notice

theorem follows_reports : Follows fun x y => AddsRefusals x.reports y.reports where
  refl _ := .refl _
  trans h h' := h.trans h'
  refuse := reports_refuse
  make _ _ _ _ := .refl _
  record _ _ _ := .refl _
  pending _ _ := .refl _
  subscription _ _ := .refl _

/-! ### Asking for an iteration -/

theorem Orderly.instantiate (hcarries : Carries P Q) (hx : x.Orderly P Q) (env : TypeEnv) (limits : Limits)
    (hargs : P decl args) (span : Span) : (x.instantiate env limits decl args span).2.Orderly P Q := by
  unfold Instances.instantiate
  split
  · exact hx
  · obtain ⟨i, -, h⟩ | ⟨-, why, h⟩ | ⟨-, -, -, h⟩ := create_cases x env limits decl args 0 span
    · rw [h]
      exact hx.drain hcarries env limits
    · rw [h]
      exact hx.refuse decl span why
    · rw [h]
      exact (hx.make hargs 0).drain hcarries env limits

theorem Orderly.reports_of_instantiate_none (hx : x.Orderly P Q) {span : Span} (hargs : args.any (·.hasUnknown) = false)
    (h : (x.instantiate env limits decl args span).1 = none) :
    (x.instantiate env limits decl args span).2.reports ≠ [] := by
  unfold Instances.instantiate at h ⊢
  rw [if_neg (by simp [hargs])] at h ⊢
  obtain ⟨i, -, hcreate⟩ | ⟨-, why, hcreate⟩ | ⟨-, -, -, hcreate⟩ :=
    create_cases x env limits decl args 0 span
  · simp [hcreate] at h
  · rw [hcreate]
    refine (hx.refuse decl span why).refused ?_
    exact List.ne_nil_of_mem (refused_refuse x decl span why)
  · simp [hcreate] at h

/-! ### Subscribing -/

theorem mem_addSubscription {r : Registry} {s t : Subscription}
    (h : t ∈ (r.addSubscription s).2.subscriptions) : t ∈ r.subscriptions ∨ t = s := by
  unfold Registry.addSubscription at h
  split at h
  · exact .inl h
  · simpa using h

theorem Orderly.subscribe (hcarries : Carries P Q) (hx : x.Orderly P Q) (env : TypeEnv) (limits : Limits)
    {s : Subscription} (hs : Q s) : (x.subscribe env limits s).2.Orderly P Q := by
  have hiterations : (x.registry.addSubscription s).2.iterations = x.registry.iterations := by
    unfold Registry.addSubscription
    split <;> rfl
  have hadd : ({ x with registry := (x.registry.addSubscription s).2 } : Instances).Orderly P Q := by
    refine ⟨?_, fun t ht => ?_, hx.refused⟩
    · rw [hiterations]
      exact hx.iterations
    · rcases mem_addSubscription ht with ht | rfl
      · exact hx.subscriptions t ht
      · exact hs
  unfold Instances.subscribe
  split
  · rename_i h
    rwa [h] at hadd
  · rename_i h
    rw [h] at hadd
    refine Orderly.drain hcarries ?_ env limits
    exact ⟨hadd.iterations, hadd.subscriptions, hadd.refused⟩

theorem subscription?_subscribe (x : Instances) (env : TypeEnv) (limits : Limits) (s : Subscription) :
    ∃ t, (x.subscribe env limits s).2.registry.subscription? (x.subscribe env limits s).1 = some t ∧
      t.host = s.host ∧ t.target = s.target ∧ t.template = s.template := by
  have hadd : ∃ t, (x.registry.addSubscription s).2.subscription? (x.registry.addSubscription s).1.1 = some t ∧
      t.host = s.host ∧ t.target = s.target ∧ t.template = s.template := by
    unfold Registry.addSubscription
    split
    · rename_i i hi
      obtain ⟨hlt, hagrees, -⟩ := List.findIdx?_eq_some_iff_getElem.1 hi
      refine ⟨x.registry.subscriptions[i], List.getElem?_eq_getElem hlt, ?_⟩
      simpa [Subscription.agrees, and_assoc] using hagrees
    · exact ⟨s, NodeId.get?_next x.registry.subscriptions s, rfl, rfl, rfl⟩
  obtain ⟨t, ht, hrest⟩ := hadd
  refine ⟨t, ?_, hrest⟩
  unfold subscribe
  split
  · rename_i h
    rwa [h] at ht
  · rename_i id registry h
    rw [h] at ht
    let notices : List Notice := (registry.iterationsOf s.host).map (⟨id, ·.index⟩)
    exact (follows_extends.drain { x with registry := registry.enqueue notices } env limits).subscription? ht

end Instances

end Linkage
