import Linkage.Proofs.Registry.Growth

/-!
# Propagation is complete

After each call every subscription has been told of every iteration of its host, and has either found the iteration of
its target that it calls for, or was refused one, which has been reported. While the queue is worked off a pair of a
subscription and a host iteration is covered if it is mapped, refused or queued. A delivery takes one pair off the
queue and maps or refuses it; a new iteration or a new subscription brings new pairs and queues all of them.
-/

namespace Linkage

variable {x : Instances} {queue : List Notice} {env : TypeEnv}

/-- A call that asks for an iteration or makes a subscription. -/
inductive Call where
  | instantiate (decl : DeclId) (args : List Ty) (span : Span)
  | subscribe (s : Subscription)
  deriving DecidableEq, Repr, Inhabited

namespace Instances

def call (x : Instances) (env : TypeEnv) (limits : Limits) : Call → Instances
  | .instantiate decl args span => (x.instantiate env limits decl args span).2
  | .subscribe s => (x.subscribe env limits s).2

def calls (x : Instances) (env : TypeEnv) (limits : Limits) (cs : List Call) : Instances :=
  cs.foldl (fun x c => x.call env limits c) x

/-- A refusal for the declaration has been reported. The reports are the refusals one by one. -/
def ReportedFor (x : Instances) (decl : DeclId) : Prop :=
  ∃ why span, (decl, Refusal.diagnostic why span) ∈ x.refused.zip x.reports

/-- Every pair of a subscription and an iteration of its host is mapped, refused or in the queue. -/
def CoveredBy (x : Instances) (queue : List Notice) : Prop :=
  ∀ id s h host, x.registry.subscription? id = some s → x.registry.iteration? s.host h = some host →
    x.registry.mapped? id h ≠ none ∨ s.target ∈ x.refused ∨ ⟨id, h⟩ ∈ queue

/-- What holds while the queue is worked off. -/
structure Settling (env : TypeEnv) (x : Instances) : Prop where
  sound : x.registry.Sound env
  covered : x.CoveredBy x.registry.pending
  reported : List.Forall₂ (fun _ d => ∃ why span, d = Refusal.diagnostic why span) x.refused x.reports

theorem settling_empty (env : TypeEnv) : ({} : Instances).Settling env where
  sound := Registry.sound_empty env
  covered id s h host hs _ := by simp [Registry.subscription?, NodeId.get?] at hs
  reported := .nil

theorem reportedFor_of_mem_refused (hx : x.Settling env) {decl : DeclId}
    (h : decl ∈ x.refused) : x.ReportedFor decl := by
  obtain ⟨hlength, hreports⟩ := List.forall₂_iff_zip.1 hx.reported
  obtain ⟨i, hi, rfl⟩ := List.mem_iff_getElem.1 h
  have hzip : (x.refused[i], x.reports[i]) ∈ x.refused.zip x.reports := by
    refine List.mem_iff_getElem.2 ⟨i, ?_, List.getElem_zip⟩
    rw [List.length_zip]
    omega
  obtain ⟨why, span, hd⟩ := hreports hzip
  exact ⟨why, span, hd ▸ hzip⟩

/-! ### Refusals -/

theorem refused_subset_refuse (x : Instances) (decl : DeclId) (span : Span) (why : Refusal) :
    x.refused ⊆ (x.refuse decl span why).refused := by
  unfold refuse
  split
  · exact List.Subset.refl _
  · exact List.subset_append_left _ _

theorem reported_refuse (h : List.Forall₂ (fun _ d => ∃ why span, d = Refusal.diagnostic why span) x.refused x.reports)
    (decl : DeclId) (span : Span) (why : Refusal) :
    List.Forall₂ (fun _ d => ∃ why span, d = Refusal.diagnostic why span)
      (x.refuse decl span why).refused (x.refuse decl span why).reports := by
  unfold refuse
  split
  · exact h
  · exact List.rel_append h (.cons ⟨why, span, rfl⟩ .nil)

theorem coveredBy_refuse (h : x.CoveredBy queue) (decl : DeclId)
    (span : Span) (why : Refusal) : (x.refuse decl span why).CoveredBy queue := by
  intro id s i host hs hhost
  rw [registry_refuse] at hs hhost ⊢
  rcases h id s i host hs hhost with hmapped | hrefused | hqueue
  · exact .inl hmapped
  · exact .inr (.inl (refused_subset_refuse x decl span why hrefused))
  · exact .inr (.inr hqueue)

/-! ### New pairs -/

theorem mem_subscriptionsOf {r : Registry} {id : SubscriptionId} {s : Subscription}
    (h : r.subscription? id = some s) : id ∈ r.subscriptionsOf s.host := by
  obtain ⟨hlt, hget⟩ := List.getElem?_eq_some_iff.1 h
  have hlink : (id, s) ∈ r.numbered :=
    List.mem_mapIdx.2 ⟨id.index, hlt, by rw [hget]⟩
  exact List.mem_map.2 ⟨(id, s), List.mem_filter.2 ⟨hlink, by simp⟩, rfl⟩

theorem coveredBy_make (h : x.CoveredBy queue) (decl : DeclId) (args : List Ty) (depth : Nat) :
    (x.make decl args depth).CoveredBy
      (queue ++ (x.registry.subscriptionsOf decl).map (⟨·, ⟨x.registry.count decl⟩⟩)) := by
  intro id s i host hs hhost
  rcases Registry.iteration?_add hhost with hold | ⟨hdecl, rfl⟩
  · rcases h id s i host hs hold with hmapped | hrefused | hqueue
    · exact .inl hmapped
    · exact .inr (.inl hrefused)
    · exact .inr (.inr (List.mem_append_left _ hqueue))
  · have hid : id ∈ x.registry.subscriptionsOf decl := hdecl ▸ mem_subscriptionsOf hs
    exact .inr (.inr (List.mem_append_right _ (List.mem_map.2 ⟨id, hid, rfl⟩)))

theorem coveredBy_record {notice : Notice} (h : x.CoveredBy (notice :: queue)) (t : IterationId) :
    ({ x with registry := x.registry.record notice t } : Instances).CoveredBy queue := by
  intro id s i host hs hhost
  have hmapped? : (x.registry.record notice t).mapped? id i =
      if (notice.subscription, notice.iteration) = (id, i) then some t else x.registry.mapped? id i :=
    Table.get?_insert _ _ _ _
  by_cases hkey : (notice.subscription, notice.iteration) = (id, i)
  · refine .inl ?_
    rw [hmapped?, if_pos hkey]
    simp
  · rcases h id s i host hs hhost with hmapped | hrefused | hqueue
    · refine .inl ?_
      rwa [hmapped?, if_neg hkey]
    · exact .inr (.inl hrefused)
    · rcases List.mem_cons.1 hqueue with rfl | hqueue
      · exact absurd rfl hkey
      · exact .inr (.inr hqueue)

/-! ### The queue -/

theorem settling_deliver (limits : Limits) {notice : Notice}
    {rest : List Notice} (hpending : x.registry.pending = notice :: rest) (hx : x.Settling env) :
    ((x.withPending rest).deliver env limits notice).Settling env := by
  have hsound : (x.withPending rest).registry.Sound env := hx.sound.of_eq rfl rfl rfl
  have hcovered : (x.withPending rest).CoveredBy (notice :: rest) := hpending ▸ hx.covered
  refine ⟨sound_deliver hsound limits notice, ?_, ?_⟩
  · obtain ⟨h, hnone⟩ | ⟨s, host, hs, hhost, ⟨t, -, h⟩ | ⟨why, h⟩ | ⟨-, h⟩⟩ :=
      deliver_cases (x.withPending rest) env limits notice
    · rw [h]
      intro id s i host hs hhost
      rcases hcovered id s i host hs hhost with hmapped | hrefused | hqueue
      · exact .inl hmapped
      · exact .inr (.inl hrefused)
      · rcases List.mem_cons.1 hqueue with rfl | hqueue
        · simp [hnone s hs] at hhost
        · exact .inr (.inr hqueue)
    · rw [h]
      exact coveredBy_record hcovered t
    · rw [h, registry_refuse]
      intro id u i host' hu hhost'
      rcases coveredBy_refuse hcovered s.target s.span why id u i host' hu hhost' with hm | hr | hqueue
      · exact .inl hm
      · exact .inr (.inl hr)
      · rcases List.mem_cons.1 hqueue with rfl | hqueue
        -- the notice itself: its target is the one that was refused just now
        · rw [registry_refuse] at hu
          obtain rfl := Option.some.inj (hu.symm.trans hs)
          exact .inr (.inl (refused_refuse _ _ _ _))
        · exact .inr (.inr hqueue)
    · rw [h]
      exact coveredBy_record (coveredBy_make hcovered s.target _ _) _
  · obtain ⟨h, -⟩ | ⟨s, host, -, -, ⟨t, -, h⟩ | ⟨why, h⟩ | ⟨-, h⟩⟩ :=
      deliver_cases (x.withPending rest) env limits notice
    · rw [h]
      exact hx.reported
    · rw [h]
      exact hx.reported
    · rw [h]
      exact reported_refuse (x := x.withPending rest) hx.reported s.target s.span why
    · rw [h]
      exact hx.reported

theorem settling_drain (limits : Limits) (hx : x.Settling env) : (x.drain env limits).Settling env :=
  drain_induction (P := fun y => y.Settling env) (fun _ _ _ => settling_deliver limits) hx

theorem settling_instantiate (limits : Limits) (hx : x.Settling env) (decl : DeclId) (args : List Ty) (span : Span) :
    (x.instantiate env limits decl args span).2.Settling env := by
  unfold instantiate
  split
  · exact hx
  · obtain ⟨i, -, h⟩ | ⟨-, why, h⟩ | ⟨hfind, -, -, h⟩ := create_cases x env limits decl args 0 span
    · rw [h]
      exact settling_drain limits hx
    · rw [h]
      refine ⟨?_, ?_, reported_refuse hx.reported decl span why⟩
      · rw [registry_refuse]
        exact hx.sound
      · rw [registry_refuse]
        exact coveredBy_refuse hx.covered decl span why
    · rw [h]
      exact settling_drain limits
        ⟨sound_make hx.sound hfind 0, coveredBy_make hx.covered decl args 0, hx.reported⟩

theorem coveredBy_addSubscription (hx : x.Settling env) (s : Subscription) :
    ({ x with registry := { x.registry with subscriptions := x.registry.subscriptions ++ [s] } } :
        Instances).CoveredBy
      (x.registry.pending ++ (x.registry.iterationsOf s.host).map
        (⟨NodeId.next x.registry.subscriptions, ·.index⟩)) := by
  intro id u i host hu hhost
  by_cases hlt : id.index < x.registry.subscriptions.length
  · have hold : x.registry.subscription? id = some u := by
      rwa [Registry.subscription?, NodeId.get?, List.getElem?_append_left hlt] at hu
    rcases hx.covered id u i host hold hhost with hmapped | hrefused | hqueue
    · exact .inl hmapped
    · exact .inr (.inl hrefused)
    · exact .inr (.inr (List.mem_append_left _ hqueue))
  · have hindex : id.index = x.registry.subscriptions.length := by
      have := (List.getElem?_eq_some_iff.1 hu).1
      simp only [List.length_append, List.length_singleton] at this
      omega
    have hid : id = NodeId.next x.registry.subscriptions := by
      cases id
      exact congrArg NodeId.mk hindex
    subst hid
    have hus : s = u := by simpa [Registry.subscription?] using hu
    subst hus
    have hi : host.index = i := hx.sound.numbered s.host i host hhost
    refine .inr (.inr (List.mem_append_right _ (List.mem_map.2 ⟨host, List.mem_of_getElem? hhost, ?_⟩)))
    rw [hi]

theorem settling_subscribe (limits : Limits) (hx : x.Settling env)
    (s : Subscription) : (x.subscribe env limits s).2.Settling env := by
  have hsound := hx.sound.addSubscription s
  have hcovered := coveredBy_addSubscription hx s
  unfold Registry.addSubscription at hsound
  unfold subscribe Registry.addSubscription
  cases h : x.registry.subscriptions.findIdx? (·.agrees s) with
  | some i => exact hx
  | none =>
    rw [h] at hsound
    exact settling_drain limits ⟨hsound.of_eq rfl rfl rfl, hcovered, hx.reported⟩

theorem settling_call (limits : Limits) (hx : x.Settling env) (c : Call) : (x.call env limits c).Settling env := by
  cases c with
  | instantiate decl args span => exact settling_instantiate limits hx decl args span
  | subscribe s => exact settling_subscribe limits hx s

theorem settling_calls (limits : Limits) (hx : x.Settling env)
    (cs : List Call) : (x.calls env limits cs).Settling env := by
  induction cs generalizing x with
  | nil => exact hx
  | cons c cs ih => exact ih (settling_call limits hx c)

/-! ### No call leaves anything in the queue -/

theorem pending_instantiate (hx : x.registry.pending = []) (env : TypeEnv)
    (limits : Limits) (decl : DeclId) (args : List Ty) (span : Span) :
    (x.instantiate env limits decl args span).2.registry.pending = [] := by
  unfold instantiate
  split
  · exact hx
  · obtain ⟨i, -, h⟩ | ⟨-, why, h⟩ | ⟨-, -, -, h⟩ := create_cases x env limits decl args 0 span
    · rw [h]
      exact pending_drain x env limits
    · rw [h, registry_refuse]
      exact hx
    · rw [h]
      exact pending_drain _ env limits

theorem pending_subscribe (hx : x.registry.pending = []) (env : TypeEnv)
    (limits : Limits) (s : Subscription) : (x.subscribe env limits s).2.registry.pending = [] := by
  unfold subscribe Registry.addSubscription
  cases x.registry.subscriptions.findIdx? (·.agrees s) with
  | some i => exact hx
  | none => exact pending_drain _ env limits

theorem pending_calls (hx : x.registry.pending = []) (env : TypeEnv) (limits : Limits)
    (cs : List Call) : (x.calls env limits cs).registry.pending = [] := by
  induction cs generalizing x with
  | nil => exact hx
  | cons c cs ih =>
    refine ih ?_
    cases c with
    | instantiate decl args span => exact pending_instantiate hx env limits decl args span
    | subscribe s => exact pending_subscribe hx env limits s

/-- After any calls on a fresh registry the queue is empty, and each subscription has for each
iteration of its host the iteration that it calls for, or a reported refusal. It has nothing for what
is not an iteration of its host. -/
theorem calls_propagated (env : TypeEnv) (limits : Limits) (cs : List Call) :
    let x := ({} : Instances).calls env limits cs
    x.registry.pending = [] ∧
      ∀ id s, x.registry.subscription? id = some s →
        (∀ h host, x.registry.iteration? s.host h = some host →
          (∃ t it, x.registry.mapped? id h = some t ∧ x.registry.iteration? s.target t = some it ∧
              env.allSame it.args (s.targetArgs host.args) = true) ∨
            x.registry.mapped? id h = none ∧ x.ReportedFor s.target) ∧
        ∀ h, x.registry.iteration? s.host h = none → x.registry.mapped? id h = none := by
  intro x
  have hx : x.Settling env := settling_calls limits (settling_empty env) cs
  have hpending : x.registry.pending = [] := pending_calls rfl env limits cs
  refine ⟨hpending, fun id s hs => ⟨fun h host hhost => ?_, fun h hnone => ?_⟩⟩
  · cases hmapped : x.registry.mapped? id h with
    | some t =>
      obtain ⟨s', host', it, hs', hhost', hit, hsame⟩ := hx.sound.mapped id h t hmapped
      obtain rfl := Option.some.inj (hs'.symm.trans hs)
      obtain rfl := Option.some.inj (hhost'.symm.trans hhost)
      exact .inl ⟨t, it, rfl, hit, hsame⟩
    | none =>
      rcases hx.covered id s h host hs hhost with hm | hrefused | hqueue
      · exact absurd hmapped hm
      · exact .inr ⟨rfl, reportedFor_of_mem_refused hx hrefused⟩
      · simp [hpending] at hqueue
  · cases hmapped : x.registry.mapped? id h with
    | none => rfl
    | some t =>
      obtain ⟨s', host', it, hs', hhost', -⟩ := hx.sound.mapped id h t hmapped
      obtain rfl := Option.some.inj (hs'.symm.trans hs)
      simp [hnone] at hhost'

end Instances

end Linkage
