import Linkage.Proofs.Registry.Bounds

/-!
# The order of calls does not matter

Indices, depths and even the spelling of arguments depend on the order of calls. What there is in the end does not, as
long as no limit is in the way. An iteration is there because a call asked for it or because a subscription called for
it on behalf of an iteration that was there before (`Grown`). In the other direction, what calls ask for is there in
the end, and what subscriptions call for is there too (`Closed`). Both are said of a collection of calls without
regard to its order.
-/

namespace Linkage

/-- The iterations came one after the other, each with arguments that a call asks for, or that a
subscription calls for on behalf of an iteration before it. -/
inductive Grown (cs : List Call) : List Iteration → Prop
  | nil : Grown cs []
  | asked {its : List Iteration} {it : Iteration} {span : Span} (h : Grown cs its)
      (hcall : .instantiate it.decl it.args span ∈ cs) (hknown : it.args.any (·.hasUnknown) = false) :
      Grown cs (its ++ [it])
  | derived {its : List Iteration} {it host : Iteration} {s : Subscription} (h : Grown cs its)
      (hcall : .subscribe s ∈ cs) (hhost : host ∈ its) (hdecl : host.decl = s.host)
      (htarget : it.decl = s.target) (hargs : it.args = s.targetArgs host.args) : Grown cs (its ++ [it])

theorem Grown.mono {cs cs' : List Call} (hsub : cs ⊆ cs') {its : List Iteration} (h : Grown cs its) :
    Grown cs' its := by
  induction h with
  | nil => exact .nil
  | asked _ hcall hknown ih => exact ih.asked (hsub hcall) hknown
  | derived _ hcall hhost hdecl htarget hargs ih =>
    exact ih.derived (hsub hcall) hhost hdecl htarget hargs

namespace Registry

structure Traced (cs : List Call) (r : Registry) : Prop where
  grown : Grown cs r.iterations
  subscriptions : ∀ s ∈ r.subscriptions, .subscribe s ∈ cs

/-- Everything that the calls ask for is in the registry, and what the subscriptions call for too. -/
structure Closed (env : TypeEnv) (cs : List Call) (r : Registry) : Prop where
  asked : ∀ decl args span, .instantiate decl args span ∈ cs → args.any (·.hasUnknown) = false →
    ∃ i it, r.iteration? decl i = some it ∧ env.allSame it.args args = true
  subscribed : ∀ s, .subscribe s ∈ cs → ∃ id t, r.subscription? id = some t ∧ t.agrees s = true
  mapped : ∀ id s h host, r.subscription? id = some s → r.iteration? s.host h = some host →
    ∃ t it, r.mapped? id h = some t ∧ r.iteration? s.target t = some it ∧
      env.allSame it.args (s.targetArgs host.args) = true

/-- Each iteration and each subscription of `r` has a counterpart in `r'`, and counterparts are mapped
to counterparts. -/
structure Matches (env : TypeEnv) (r r' : Registry) : Prop where
  iterations : ∀ decl i it, r.iteration? decl i = some it →
    ∃ j it', r'.iteration? decl j = some it' ∧ env.allSame it.args it'.args = true
  subscriptions : ∀ id s, r.subscription? id = some s →
    ∃ id' s', r'.subscription? id' = some s' ∧ s'.agrees s = true
  mapped : ∀ id s id' s' h host h' host', r.subscription? id = some s → r'.subscription? id' = some s' →
    s'.agrees s = true → r.iteration? s.host h = some host → r'.iteration? s.host h' = some host' →
    env.allSame host.args host'.args = true →
    ∃ t it t' it', r.mapped? id h = some t ∧ r.iteration? s.target t = some it ∧
      r'.mapped? id' h' = some t' ∧ r'.iteration? s.target t' = some it' ∧
        env.allSame it.args it'.args = true

/-- Where the iterations of the host have the same arguments in both registries, the subscription calls
for the same. -/
def Respects (env : TypeEnv) (s : Subscription) (r r' : Registry) : Prop :=
  ∀ a ∈ r.iterationsOf s.host, ∀ b ∈ r'.iterationsOf s.host, env.allSame a.args b.args = true →
    env.allSame (s.targetArgs a.args) (s.targetArgs b.args) = true

theorem Respects.symm {env : TypeEnv} {s : Subscription} {r r' : Registry} (h : Respects env s r r') :
    Respects env s r' r := fun a ha b hb hsame =>
  TypeEnv.allSame_symm (h b hb a ha (TypeEnv.allSame_symm hsame))

end Registry

theorem Subscription.agrees_iff {s t : Subscription} :
    s.agrees t = true ↔ s.host = t.host ∧ s.target = t.target ∧ s.template = t.template := by
  simp [Subscription.agrees, and_assoc]

/-- The subscriptions of a host list the same parameters of it. -/
def ParamsOfHost (cs : List Call) : Prop :=
  ∀ s t, .subscribe s ∈ cs → .subscribe t ∈ cs → s.host = t.host → s.hostParams = t.hostParams

theorem ParamsOfHost.targetArgs {cs : List Call} (h : ParamsOfHost cs) {s t : Subscription}
    (hs : .subscribe s ∈ cs) (ht : .subscribe t ∈ cs) (hagrees : s.agrees t = true) :
    s.targetArgs = t.targetArgs := by
  obtain ⟨hhost, -, htemplate⟩ := Subscription.agrees_iff.1 hagrees
  funext args
  rw [Subscription.targetArgs, Subscription.targetArgs, htemplate, h s t hs ht hhost]

/-! ### A registry that grew from calls matches one that is closed under them -/

namespace Registry

variable {env : TypeEnv} {cs : List Call} {r r' : Registry}

theorem mem_iterationsOf {it : Iteration} (h : it ∈ r.iterations) : it ∈ r.iterationsOf it.decl :=
  List.mem_filter.2 ⟨h, by simp⟩

theorem Closed.counterpart (hclosed : Closed env cs r') (htraced : Traced cs r') (hparams : ParamsOfHost cs)
    {s : Subscription} (hs : .subscribe s ∈ cs) {host : Iteration} {h : IterationId}
    (hhost : r'.iteration? s.host h = some host) :
    ∃ t it, r'.iteration? s.target t = some it ∧ env.allSame it.args (s.targetArgs host.args) = true := by
  obtain ⟨id, u, hu, hagrees⟩ := hclosed.subscribed s hs
  obtain ⟨huhost, hutarget, -⟩ := Subscription.agrees_iff.1 hagrees
  have hcall := htraced.subscriptions u (mem_subscriptions_of_get? hu)
  obtain ⟨t, it, -, hit, hsame⟩ := hclosed.mapped id u h host hu (huhost ▸ hhost)
  rw [hparams.targetArgs hcall hs hagrees] at hsame
  exact ⟨t, it, hutarget ▸ hit, hsame⟩

/-- Induction along the growth of `r`: the host of an iteration was there before, so its counterpart has
been found already. -/
theorem Closed.iteration?_of_grown (hclosed : Closed env cs r') (htraced : Traced cs r')
    (hparams : ParamsOfHost cs) (hrespects : ∀ s, .subscribe s ∈ cs → Respects env s r r')
    {its : List Iteration} (hgrown : Grown cs its) (hsub : its ⊆ r.iterations) :
    ∀ it ∈ its, ∃ j it', r'.iteration? it.decl j = some it' ∧ env.allSame it.args it'.args = true := by
  induction hgrown with
  | nil => simp
  | @asked its it span _ hcall hknown ih =>
    intro a ha
    rcases List.mem_append.1 ha with ha | ha
    · exact ih ((List.append_subset.1 hsub).1) a ha
    · obtain rfl := List.mem_singleton.1 ha
      obtain ⟨j, it', hit', hsame⟩ := hclosed.asked _ _ span hcall hknown
      exact ⟨j, it', hit', TypeEnv.allSame_symm hsame⟩
  | @derived its it host s _ hcall hhost hdecl htarget hargs ih =>
    intro a ha
    rcases List.mem_append.1 ha with ha | ha
    · exact ih ((List.append_subset.1 hsub).1) a ha
    · obtain rfl := List.mem_singleton.1 ha
      obtain ⟨h, host', hhost', hsame⟩ := ih ((List.append_subset.1 hsub).1) host hhost
      rw [hdecl] at hhost'
      have hmem : host ∈ r.iterationsOf s.host :=
        hdecl ▸ mem_iterationsOf (hsub (List.mem_append_left _ hhost))
      have hargs' : env.allSame (s.targetArgs host.args) (s.targetArgs host'.args) = true :=
        hrespects s hcall host hmem host' (List.mem_of_getElem? hhost') hsame
      obtain ⟨t, it', hit', hit'same⟩ := hclosed.counterpart htraced hparams hcall hhost'
      refine ⟨t, it', htarget ▸ hit', ?_⟩
      rw [hargs]
      exact TypeEnv.allSame_trans hargs' (TypeEnv.allSame_symm hit'same)

theorem Closed.matches (hclosed : Closed env cs r) (htraced : Traced cs r) (hclosed' : Closed env cs r')
    (htraced' : Traced cs r') (hparams : ParamsOfHost cs)
    (hrespects : ∀ s, .subscribe s ∈ cs → Respects env s r r') : Matches env r r' where
  iterations decl i it hit := by
    have hmem : it ∈ r.iterations := (List.mem_filter.1 (List.mem_of_getElem? hit)).1
    have hfound := hclosed'.iteration?_of_grown htraced' hparams hrespects htraced.grown
      (List.Subset.refl _) it hmem
    rwa [decl_of_iteration? hit] at hfound
  subscriptions id s hs :=
    hclosed'.subscribed s (htraced.subscriptions s (mem_subscriptions_of_get? hs))
  mapped id s id' s' h host h' host' hs hs' hagrees hhost hhost' hsame := by
    obtain ⟨heqhost, heqtarget, -⟩ := Subscription.agrees_iff.1 hagrees
    have hcall := htraced.subscriptions s (mem_subscriptions_of_get? hs)
    have hcall' := htraced'.subscriptions s' (mem_subscriptions_of_get? hs')
    obtain ⟨t, it, ht, hit, hargs⟩ := hclosed.mapped id s h host hs hhost
    obtain ⟨t', it', ht', hit', hargs'⟩ := hclosed'.mapped id' s' h' host' hs' (heqhost ▸ hhost')
    rw [hparams.targetArgs hcall' hcall hagrees] at hargs'
    have hcalled : env.allSame (s.targetArgs host.args) (s.targetArgs host'.args) = true :=
      hrespects s hcall host (List.mem_of_getElem? hhost) host' (List.mem_of_getElem? hhost') hsame
    refine ⟨t, it, t', it', ht, hit, ht', heqtarget ▸ hit', ?_⟩
    exact TypeEnv.allSame_trans hargs (TypeEnv.allSame_trans hcalled (TypeEnv.allSame_symm hargs'))

theorem Traced.perm {cs' : List Call} (h : Traced cs r) (hperm : cs.Perm cs') : Traced cs' r where
  grown := h.grown.mono hperm.subset
  subscriptions s hs := hperm.subset (h.subscriptions s hs)

theorem Closed.perm {cs' : List Call} (h : Closed env cs r) (hperm : cs.Perm cs') : Closed env cs' r where
  asked decl args span hcall := h.asked decl args span (hperm.symm.subset hcall)
  subscribed s hcall := h.subscribed s (hperm.symm.subset hcall)
  mapped := h.mapped

end Registry

namespace Instances

variable {env : TypeEnv} {limits : Limits} {x : Instances} {cs : List Call} {ds : List Denial}

/-! ### What is there goes back to the calls -/

theorem traced_create {decl : DeclId} {args : List Ty} {depth : Nat} {span : Span}
    (h : x.registry.Traced cs)
    (hgrown : ∀ i, Grown cs (x.registry.iterations ++ [⟨decl, i, args, depth⟩])) :
    (x.create env limits decl args depth span).2.registry.Traced cs := by
  obtain ⟨i, -, hcreate⟩ | ⟨-, why, hcreate⟩ | ⟨-, -, -, hcreate⟩ :=
    create_cases x env limits decl args depth span
  · rwa [hcreate]
  · rwa [hcreate, registry_refuse]
  · rw [hcreate]
    exact ⟨hgrown _, h.subscriptions⟩

theorem traced_start (h : x.registry.Traced cs) (c : Call) :
    (x.start env limits c).registry.Traced (cs ++ [c]) := by
  have hmore : x.registry.Traced (cs ++ [c]) :=
    ⟨h.grown.mono (List.subset_append_left _ _), fun s hs => List.mem_append_left _ (h.subscriptions s hs)⟩
  cases c with
  | instantiate decl args span =>
    cases hunknown : args.any (·.hasUnknown) with
    | true => rwa [start_instantiate_of_unknown hunknown]
    | false =>
      rw [start_instantiate hunknown]
      have hcall : .instantiate decl args span ∈ cs ++ [.instantiate decl args span] := by simp
      exact traced_create hmore fun i => hmore.grown.asked hcall hunknown
  | subscribe s =>
    simp only [start, Registry.addSubscription]
    cases x.registry.subscriptions.findIdx? (·.agrees s) with
    | some i => exact hmore
    | none =>
      refine ⟨hmore.grown, fun t ht => ?_⟩
      rcases List.mem_append.1 ht with ht | ht
      · exact hmore.subscriptions t ht
      · rw [List.mem_singleton.1 ht]
        exact List.mem_append_right _ List.mem_cons_self

theorem traced_deliver (h : x.registry.Traced cs) (notice : Notice) :
    (x.deliver env limits notice).registry.Traced cs := by
  obtain ⟨heq, -⟩ | ⟨s, host, hs, hhost, ⟨t, -, heq⟩ | ⟨why, heq⟩ | ⟨-, heq⟩⟩ :=
    deliver_cases x env limits notice
  · rwa [heq]
  · rw [heq]
    exact ⟨h.grown, h.subscriptions⟩
  · rwa [heq, registry_refuse]
  · rw [heq]
    have hcall := h.subscriptions s (Registry.mem_subscriptions_of_get? hs)
    have hmem : host ∈ x.registry.iterations := (List.mem_filter.1 (List.mem_of_getElem? hhost)).1
    exact ⟨h.grown.derived hcall hmem (Registry.decl_of_iteration? hhost) rfl rfl, h.subscriptions⟩

theorem Reached.traced (h : Reached env limits cs ds x) : x.registry.Traced cs := by
  induction h with
  | fresh => exact ⟨.nil, by simp⟩
  | called c _ _ ih => exact traced_start ih c
  | @delivered _ _ x notice rest _ _ ih =>
    have hrest : (x.withPending rest).registry.Traced _ := ⟨ih.grown, ih.subscriptions⟩
    exact traced_deliver hrest notice

/-! ### What the calls ask for is there -/

def AnswersCall (env : TypeEnv) (x : Instances) : Call → Prop
  | .instantiate decl args _ => args.any (·.hasUnknown) = false → decl ∉ x.refused →
    ∃ i it, x.registry.iteration? decl i = some it ∧ env.allSame it.args args = true
  | .subscribe s => ∃ id t, x.registry.subscription? id = some t ∧ t.agrees s = true

theorem AnswersCall.mono {y : Instances} {c : Call} (h : AnswersCall env x c)
    (hext : x.registry.Extends y.registry) (hrefused : x.refused ⊆ y.refused) : AnswersCall env y c := by
  cases c with
  | instantiate decl args span =>
    intro hknown hnot
    obtain ⟨i, it, hit, hsame⟩ := h hknown fun hmem => hnot (hrefused hmem)
    exact ⟨i, it, hext.iteration? hit, hsame⟩
  | subscribe s =>
    obtain ⟨id, t, ht, hagrees⟩ := h
    exact ⟨id, t, hext.subscription? ht, hagrees⟩

theorem answersCall_start (hx : x.registry.Sound env) (c : Call) :
    AnswersCall env (x.start env limits c) c := by
  cases c with
  | instantiate decl args span =>
    intro hknown hnot
    rw [start_instantiate hknown] at hnot ⊢
    obtain ⟨i, hfind, hcreate⟩ | ⟨-, why, hcreate⟩ | ⟨-, -, -, hcreate⟩ :=
      create_cases x env limits decl args 0 span
    · rw [hcreate]
      exact ⟨i, hx.iteration?_of_find? hfind⟩
    · rw [hcreate] at hnot
      exact absurd (refused_refuse x decl span why) hnot
    · rw [hcreate]
      exact ⟨_, _, Registry.iteration?_add_self x.registry decl args 0, env.allSame_refl args⟩
  | subscribe s =>
    simp only [AnswersCall, start, Registry.addSubscription]
    cases hfind : x.registry.subscriptions.findIdx? (·.agrees s) with
    | some i =>
      obtain ⟨hlt, hagrees, -⟩ := List.findIdx?_eq_some_iff_getElem.1 hfind
      exact ⟨⟨i⟩, x.registry.subscriptions[i], List.getElem?_eq_getElem hlt, hagrees⟩
    | none =>
      exact ⟨_, s, NodeId.get?_next x.registry.subscriptions s, Subscription.agrees_iff.2 ⟨rfl, rfl, rfl⟩⟩

theorem follows_refused : Follows fun x y => x.refused ⊆ y.refused where
  refl _ := List.Subset.refl _
  trans h h' := List.Subset.trans h h'
  refuse := refused_subset_refuse
  make _ _ _ _ := List.Subset.refl _
  record _ _ _ := List.Subset.refl _
  pending _ _ := List.Subset.refl _
  subscription _ _ := List.Subset.refl _

theorem Reached.answersCall (h : Reached env limits cs ds x) : ∀ c ∈ cs, AnswersCall env x c := by
  induction h with
  | fresh => simp
  | @called cs ds x c hx hidle ih =>
    intro c' hc'
    rcases List.mem_append.1 hc' with hc' | hc'
    · exact (ih c' hc').mono (follows_extends.start x env limits c) (follows_refused.start x env limits c)
    · rw [List.mem_singleton.1 hc']
      exact answersCall_start hx.sound c
  | @delivered _ _ x notice rest _ _ ih =>
    intro c hc
    have hrest : x.registry.Extends (x.withPending rest).registry := .of_eq rfl rfl
    exact (ih c hc).mono (hrest.trans (follows_extends.deliver (x.withPending rest) env limits notice))
      (follows_refused.deliver (x.withPending rest) env limits notice)

/-! ### No limit in the way -/

theorem closed_calls (h : (({} : Instances).calls env limits cs).reports = []) :
    (({} : Instances).calls env limits cs).registry.Closed env cs := by
  have hreached : ∃ ds, Reached env limits cs ds (({} : Instances).calls env limits cs) :=
    Reached.fresh.calls rfl cs
  have hsettling : (({} : Instances).calls env limits cs).Settling env :=
    settling_calls limits (settling_empty env) cs
  have hidle : (({} : Instances).calls env limits cs).registry.pending = [] := pending_calls rfl env limits cs
  have hrefused : (({} : Instances).calls env limits cs).refused = [] := by
    have hlength := hsettling.reported.length_eq
    rwa [h, List.length_nil, List.length_eq_zero_iff] at hlength
  obtain ⟨ds, hreached⟩ := hreached
  refine ⟨fun decl args span hcall hknown => ?_, fun s hcall => hreached.answersCall _ hcall,
    fun id s i host hs hhost => ?_⟩
  · exact hreached.answersCall _ hcall hknown (by simp [hrefused])
  · rcases hsettling.covered id s i host hs hhost with hmapped | hmem | hqueue
    · obtain ⟨t, ht⟩ := Option.ne_none_iff_exists'.1 hmapped
      obtain ⟨it, hit, hsame⟩ := hsettling.sound.mapped_args hs hhost ht
      exact ⟨t, it, ht, hit, hsame⟩
    · simp [hrefused] at hmem
    · simp [hidle] at hqueue

theorem traced_calls (env : TypeEnv) (limits : Limits) (cs : List Call) :
    (({} : Instances).calls env limits cs).registry.Traced cs := by
  have hreached : ∃ ds, Reached env limits cs ds (({} : Instances).calls env limits cs) :=
    Reached.fresh.calls rfl cs
  obtain ⟨ds, hreached⟩ := hreached
  exact hreached.traced

/-- The same calls are made in two orders, and no limit is met with in either. Each subscription calls
for the same where its host has the same arguments, as it does wherever substitution keeps sameness. Then
what there is in the end is the same: the iterations up to sameness of arguments, the subscriptions, and
what was selected for which iteration. -/
theorem calls_perm_matches (env : TypeEnv) (limits : Limits) {cs cs' : List Call} (hperm : cs.Perm cs')
    (hparams : ParamsOfHost cs) (hx : (({} : Instances).calls env limits cs).reports = [])
    (hy : (({} : Instances).calls env limits cs').reports = [])
    (hrespects : ∀ s, .subscribe s ∈ cs → Registry.Respects env s
      (({} : Instances).calls env limits cs).registry (({} : Instances).calls env limits cs').registry) :
    (({} : Instances).calls env limits cs).registry.Matches env
        (({} : Instances).calls env limits cs').registry ∧
      (({} : Instances).calls env limits cs').registry.Matches env
        (({} : Instances).calls env limits cs).registry := by
  have hclosed := closed_calls hx
  have hclosed' := (closed_calls hy).perm hperm.symm
  have htraced := traced_calls env limits cs
  have htraced' := (traced_calls env limits cs').perm hperm.symm
  exact ⟨hclosed.matches htraced hclosed' htraced' hparams hrespects,
    hclosed'.matches htraced' hclosed htraced hparams fun s hs => (hrespects s hs).symm⟩

end Instances

def aliasEnv : TypeEnv where
  aliasTarget decl _ := if decl = ⟨9⟩ then some .int else none
  reach := 10

/-- Pointers to the argument of the first declaration are used as argument of the second. -/
def pointerUse : Subscription := ⟨⟨0⟩, [⟨0⟩], ⟨1⟩, [.pointer (.param ⟨0⟩)], {}⟩

def spelledCalls : List Call := [
  .instantiate ⟨0⟩ [.linked ⟨9⟩ []] {},
  .subscribe pointerUse,
  .instantiate ⟨0⟩ [.int] {}]

theorem matches_spelledCalls :
    let x := ({} : Instances).calls aliasEnv {} spelledCalls
    let y := ({} : Instances).calls aliasEnv {} spelledCalls.reverse
    x.registry.iterations ≠ y.registry.iterations ∧
      x.registry.Matches aliasEnv y.registry ∧ y.registry.Matches aliasEnv x.registry := by
  have honly : ∀ s, .subscribe s ∈ spelledCalls → s = pointerUse := by
    simp [spelledCalls]
  refine ⟨by decide +kernel, ?_⟩
  refine Instances.calls_perm_matches aliasEnv {} (List.reverse_perm _).symm ?_ (by decide +kernel)
    (by decide +kernel) ?_
  · intro s t hs ht _
    rw [honly s hs, honly t ht]
  · intro s hs
    rw [honly s hs]
    unfold Registry.Respects
    decide +kernel

end Linkage
