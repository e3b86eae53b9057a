import Mathlib.Logic.Relation
import Linkage.Proofs.Registry.Closure
import Linkage.Proofs.Registry.Cursors

/-!
# What a context binds

A declaration that was seen once is not looked at again, whichever iteration it comes with. So in general an
exploration can miss what another iteration of the same declaration would have led to. It cannot if each subscription
selects something for each iteration of its host: then what a declaration leads to does not depend on the iteration,
and a context binds all that can be reached. Propagation sees to that unless a limit is in the way.
-/

namespace Linkage

namespace Registry

variable {r : Registry} {visited : List DeclId} {queue : List Binding} {b : Binding}

def Leads (r : Registry) (host target : DeclId) : Prop :=
  ∃ s ∈ r.subscriptions, s.host = host ∧ s.target = target

/-- A subscription of one of the bindings selects `b` for it. -/
def SelectedBy (r : Registry) (earlier : List Binding) (b : Binding) : Prop :=
  ∃ id s k, r.subscription? id = some s ∧ s.target = b.1 ∧ (s.host, k) ∈ earlier ∧ r.mapped? id k = some b.2

theorem SelectedBy.mono {earlier more : List Binding} (h : r.SelectedBy earlier b) (hsub : earlier ⊆ more) :
    r.SelectedBy more b := by
  obtain ⟨id, s, k, hs, htarget, hhost, hmapped⟩ := h
  exact ⟨id, s, k, hs, htarget, hsub hhost, hmapped⟩

theorem mem_linksOf_iff {host : DeclId} {id : SubscriptionId} {s : Subscription} :
    (id, s) ∈ r.linksOf host ↔ r.subscription? id = some s ∧ s.host = host := by
  rw [linksOf, List.mem_filter, beq_iff_eq]
  refine and_congr_left fun _ => ?_
  constructor
  · intro h
    obtain ⟨i, hi, heq⟩ := List.mem_mapIdx.1 h
    obtain ⟨rfl, rfl⟩ := Prod.mk.inj heq
    exact List.getElem?_eq_getElem hi
  · intro h
    obtain ⟨hlt, hget⟩ := List.getElem?_eq_some_iff.1 h
    exact List.mem_mapIdx.2 ⟨id.index, hlt, by rw [hget]⟩

/-! ### One binding -/

theorem selectedBy_of_mem_discover {host : DeclId} {iteration : IterationId}
    (h : b ∈ r.discover iteration (r.linksOf host) visited) : r.SelectedBy [(host, iteration)] b := by
  suffices hlink : ∀ links visited, b ∈ r.discover iteration links visited →
      ∃ link ∈ links, link.2.target = b.1 ∧ r.mapped? link.1 iteration = some b.2 by
    obtain ⟨⟨id, s⟩, hmem, htarget, hmapped⟩ := hlink _ _ h
    obtain ⟨hs, rfl⟩ := mem_linksOf_iff.1 hmem
    exact ⟨id, s, iteration, hs, htarget, List.mem_singleton.2 rfl, hmapped⟩
  intro links
  induction links with
  | nil => simp [discover]
  | cons link links ih =>
    intro visited h
    have later : ∀ {seen}, b ∈ r.discover iteration links seen →
        ∃ link' ∈ link :: links, link'.2.target = b.1 ∧ r.mapped? link'.1 iteration = some b.2 := by
      intro seen hb
      obtain ⟨link', hmem, hlink'⟩ := ih seen hb
      exact ⟨link', List.mem_cons_of_mem _ hmem, hlink'⟩
    rw [discover] at h
    split at h
    · exact later h
    · rename_i target hmapped
      split at h
      · exact later h
      · rcases List.mem_cons.1 h with rfl | h
        · exact ⟨link, List.mem_cons_self, rfl, hmapped⟩
        · exact later h

theorem mem_discover_of_mapped {iteration : IterationId} {links : List (SubscriptionId × Subscription)}
    {link : SubscriptionId × Subscription} {target : IterationId} (hlink : link ∈ links)
    (hmapped : r.mapped? link.1 iteration = some target) (visited : List DeclId) :
    link.2.target ∈ visited ∨ link.2.target ∈ (r.discover iteration links visited).map (·.1) := by
  induction links generalizing visited with
  | nil => exact absurd hlink List.not_mem_nil
  | cons first links ih =>
    rw [discover]
    rcases List.mem_cons.1 hlink with rfl | hlink
    · rw [hmapped]
      by_cases hseen : link.2.target ∈ visited
      · exact .inl hseen
      · simp [hseen]
    · split
      · exact ih hlink visited
      · split
        · exact ih hlink visited
        · rcases ih hlink (first.2.target :: visited) with hseen | hfound
          · rcases List.mem_cons.1 hseen with heq | hseen
            · exact .inr (heq ▸ List.mem_cons_self)
            · exact .inl hseen
          · exact .inr (List.mem_cons_of_mem _ hfound)

/-! ### The whole exploration -/

/-- A binding is in the queue from the start, or selected for one that comes before it. -/
theorem explore_selected {before after : List Binding}
    (h : r.explore visited queue = before ++ b :: after) : b ∈ queue ∨ r.SelectedBy before b := by
  fun_induction explore r visited queue generalizing before with
  | case1 => simp at h
  | case2 visited host iteration rest found =>
    rename_i ih
    cases before with
    | nil => exact .inl ((List.cons.inj h).1 ▸ List.mem_cons_self)
    | cons first before =>
      obtain ⟨rfl, htail⟩ := List.cons.inj h
      rcases ih htail with hqueue | hselected
      · rcases List.mem_append.1 hqueue with hrest | hfound
        · exact .inl (List.mem_cons_of_mem _ hrest)
        · exact .inr ((selectedBy_of_mem_discover hfound).mono (by simp))
      · exact .inr (hselected.mono (List.subset_cons_self _ _))

/-- What holds of the queue, and passes from a binding to those that are selected for it, holds of all that is
explored. -/
theorem explore_forall {P : Binding → Prop} (hqueue : ∀ b ∈ queue, P b)
    (hstep : ∀ a b, P a → r.SelectedBy [a] b → P b) : ∀ b ∈ r.explore visited queue, P b := by
  fun_induction explore r visited queue with
  | case1 => simp
  | case2 visited host iteration rest found ih =>
    have hfirst : P (host, iteration) := hqueue _ List.mem_cons_self
    have hnext : ∀ b ∈ rest ++ found, P b := by
      intro b hb
      rcases List.mem_append.1 hb with hrest | hfound
      · exact hqueue b (List.mem_cons_of_mem _ hrest)
      · exact hstep _ b hfirst (selectedBy_of_mem_discover hfound)
    exact List.forall_mem_cons.2 ⟨hfirst, ih hnext⟩

theorem subset_explore : queue ⊆ r.explore visited queue := by
  fun_induction explore r visited queue with
  | case1 => exact List.nil_subset _
  | case2 visited host iteration rest found =>
    rename_i ih
    exact List.cons_subset_cons _ (List.Subset.trans (List.subset_append_left _ _) ih)

/-- What is selected for a binding that is explored was visited before, or its declaration is explored as well. -/
theorem explore_closed {link : SubscriptionId × Subscription} {target : IterationId}
    (hb : b ∈ r.explore visited queue) (hlink : link ∈ r.linksOf b.1)
    (hmapped : r.mapped? link.1 b.2 = some target) :
    link.2.target ∈ visited ∨ link.2.target ∈ (r.explore visited queue).map (·.1) := by
  fun_induction explore r visited queue with
  | case1 => simp at hb
  | case2 visited host iteration rest found ih =>
    have hfound : link.2.target ∈ found.map (·.1) →
        link.2.target ∈ (r.explore (visited ++ found.map (·.1)) (rest ++ found)).map (·.1) := by
      intro h
      exact List.map_subset _ (List.Subset.trans (List.subset_append_right _ _) subset_explore) h
    have hlater : link.2.target ∈ visited ∨
        link.2.target ∈ (r.explore (visited ++ found.map (·.1)) (rest ++ found)).map (·.1) := by
      rcases List.mem_cons.1 hb with rfl | hb
      · exact (mem_discover_of_mapped hlink hmapped visited).imp_right hfound
      · rcases ih hb with hseen | hlater
        · exact (List.mem_append.1 hseen).imp_right hfound
        · exact .inr hlater
    exact hlater.imp_right (List.mem_cons_of_mem _)

/-! ### Contexts -/

variable {d x : DeclId} {i : IterationId}

theorem bindings_context (r : Registry) (d : DeclId) (i : IterationId) :
    ∃ more, (r.context d i).bindings = (d, i) :: more := by
  rw [context, explore]
  exact ⟨_, rfl⟩

theorem reaches_of_mem_context (hb : b ∈ (r.context d i).bindings) : Relation.ReflTransGen r.Leads d b.1 := by
  refine explore_forall (P := fun b => Relation.ReflTransGen r.Leads d b.1) ?_ ?_ b hb
  · intro a ha
    rw [List.mem_singleton.1 ha]
  · rintro a c hreach ⟨id, s, k, hs, htarget, hhost, -⟩
    obtain rfl := List.mem_singleton.1 hhost
    exact hreach.tail ⟨s, mem_subscriptions_of_get? hs, rfl, htarget⟩

/-- Every subscription selects something for every iteration of its host, and that is an iteration of its target. -/
structure Settled (r : Registry) : Prop where
  selects : ∀ id s k, r.subscription? id = some s → (r.iteration? s.host k).isSome → (r.mapped? id k).isSome
  exist : ∀ id s k t, r.subscription? id = some s → r.mapped? id k = some t → (r.iteration? s.target t).isSome

theorem Settled.exists_of_mem_context (h : r.Settled) (hi : (r.iteration? d i).isSome)
    (hb : b ∈ (r.context d i).bindings) : (r.iteration? b.1 b.2).isSome := by
  refine explore_forall (P := fun b => (r.iteration? b.1 b.2).isSome) ?_ ?_ b hb
  · intro a ha
    rwa [List.mem_singleton.1 ha]
  · rintro a c - ⟨id, s, k, hs, htarget, -, hmapped⟩
    exact htarget ▸ h.exist id s k c.2 hs hmapped

theorem Settled.mem_context_of_reaches (h : r.Settled) (hi : (r.iteration? d i).isSome)
    (hreach : Relation.ReflTransGen r.Leads d x) : x ∈ (r.context d i).bindings.map (·.1) := by
  have hroot : d ∈ (r.context d i).bindings.map (·.1) := by
    obtain ⟨more, hmore⟩ := bindings_context r d i
    rw [hmore]
    exact List.mem_cons_self
  induction hreach with
  | refl => exact hroot
  | tail _ hedge ih =>
    obtain ⟨s, hmem, rfl, rfl⟩ := hedge
    obtain ⟨n, hn⟩ := List.getElem?_of_mem hmem
    have hs : r.subscription? ⟨n⟩ = some s := hn
    obtain ⟨⟨host, k⟩, hb, rfl⟩ := List.mem_map.1 ih
    -- The iteration that the host is bound to exists, so the subscription selects something for it.
    have hk := h.exists_of_mem_context hi hb
    obtain ⟨t, ht⟩ := Option.isSome_iff_exists.1 (h.selects ⟨n⟩ s k hs hk)
    rcases explore_closed hb (mem_linksOf_iff.2 ⟨hs, rfl⟩) ht with hseen | hbound
    · exact List.mem_singleton.1 hseen ▸ hroot
    · exact hbound

end Registry

namespace Instances

theorem Settling.settled {env : TypeEnv} {x : Instances} (hx : x.Settling env) (hpending : x.registry.pending = [])
    (hfree : x.refused = []) : x.registry.Settled where
  selects id s k hs hk := by
    obtain ⟨host, hhost⟩ := Option.isSome_iff_exists.1 hk
    rcases hx.covered id s k host hs hhost with hmapped | hrefused | hqueue
    · exact Option.isSome_iff_ne_none.2 hmapped
    · simp [hfree] at hrefused
    · simp [hpending] at hqueue
  exist id s k t hs hmapped := by
    obtain ⟨s', -, it, hs', -, hit, -⟩ := hx.sound.mapped id k t hmapped
    obtain rfl := Option.some.inj (hs'.symm.trans hs)
    exact Option.isSome_iff_exists.2 ⟨it, hit⟩

/-- After any calls on a fresh registry that no limit got in the way of, the context of an iteration starts with that
iteration and binds the declarations that can be reached from its own, all of them and each once. Each binding is an
iteration that exists, and each but the first is what a subscription selects for a binding before it. -/
theorem context_binds_reachable (env : TypeEnv) (limits : Limits) (cs : List Call)
    (hfree : (({} : Instances).calls env limits cs).refused = []) (d : DeclId) (i : IterationId)
    (hi : ((({} : Instances).calls env limits cs).registry.iteration? d i).isSome) :
    let r := (({} : Instances).calls env limits cs).registry
    (r.context d i).root? = some (d, i) ∧
      ((r.context d i).bindings.map (·.1)).Nodup ∧
      (∀ x, x ∈ (r.context d i).bindings.map (·.1) ↔ Relation.ReflTransGen r.Leads d x) ∧
      ∀ before b after, (r.context d i).bindings = before ++ b :: after →
        (r.iteration? b.1 b.2).isSome ∧ (before = [] ∨ r.SelectedBy before b) := by
  intro r
  have hsettled : r.Settled :=
    (settling_calls limits (settling_empty env) cs).settled (pending_calls rfl env limits cs) hfree
  obtain ⟨more, hmore⟩ := r.bindings_context d i
  refine ⟨by rw [Context.root?, hmore]; rfl, r.nodup_context d i, fun x => ⟨?_, ?_⟩, ?_⟩
  · intro hx
    obtain ⟨b, hb, rfl⟩ := List.mem_map.1 hx
    exact Registry.reaches_of_mem_context hb
  · exact hsettled.mem_context_of_reaches hi
  · intro before b after hbindings
    have hb : b ∈ (r.context d i).bindings := hbindings ▸ List.mem_append_right _ List.mem_cons_self
    refine ⟨hsettled.exists_of_mem_context hi hb, ?_⟩
    rcases Registry.explore_selected hbindings with hfirst | hselected
    · cases before with
      | nil => exact .inl rfl
      | cons first before =>
        -- Only the first binding is that of the queue, for no declaration is bound twice.
        have hnodup := r.nodup_context d i
        have hfirst' : first = (d, i) := (List.cons.inj (hmore.symm.trans hbindings)).1.symm
        rw [hbindings, hfirst', List.mem_singleton.1 hfirst] at hnodup
        simp at hnodup
    · exact .inr hselected

end Instances

/-- Two ways lead from the first declaration to the last, with a pointer around the argument on one of them, and the
last one uses itself. -/
def diamondCalls : List Call := [
  .subscribe ⟨⟨0⟩, [⟨0⟩], ⟨1⟩, [.pointer (.param ⟨0⟩)], {}⟩,
  .subscribe ⟨⟨0⟩, [⟨0⟩], ⟨2⟩, [.param ⟨0⟩], {}⟩,
  .instantiate ⟨0⟩ [.int] {},
  .subscribe ⟨⟨1⟩, [⟨1⟩], ⟨3⟩, [.param ⟨1⟩], {}⟩,
  .subscribe ⟨⟨2⟩, [⟨2⟩], ⟨3⟩, [.param ⟨2⟩], {}⟩,
  .subscribe ⟨⟨3⟩, [⟨3⟩], ⟨3⟩, [.int], {}⟩]

theorem context_diamondCalls :
    let r := (({} : Instances).calls {} {} diamondCalls).registry
    (r.context ⟨0⟩ ⟨0⟩).bindings = [(⟨0⟩, ⟨0⟩), (⟨1⟩, ⟨0⟩), (⟨2⟩, ⟨0⟩), (⟨3⟩, ⟨0⟩)] ∧
      (∀ x, x ∈ (r.context ⟨0⟩ ⟨0⟩).bindings.map (·.1) ↔ Relation.ReflTransGen r.Leads ⟨0⟩ x) := by
  refine ⟨by decide +kernel, ?_⟩
  exact (Instances.context_binds_reachable {} {} diamondCalls (by decide +kernel) ⟨0⟩ ⟨0⟩ (by decide +kernel)).2.2.1

end Linkage
