import Linkage.Proofs.Registry.Closure
import Mathlib.Algebra.Group.Nat.Defs

/-!
# Expansion is bounded

Nothing but the limits keeps the growth of a registry within bounds. Every state on the way through
the queue keeps to them, and an iteration that no one asked for directly can be traced back: some
subscription selected it for a host iteration that is one step closer to the source code. That the
queue runs empty follows from the backlog, which a delivery makes smaller. A declaration may be
refused many times, and is reported the first time.
-/

namespace Linkage

variable {decl : DeclId} {x : Instances} {limits : Limits} {cs : List Call} {args : List Ty} {r : Registry}
  {env : TypeEnv}

namespace Registry

/-- Some subscription selected the iteration for a host iteration of depth `depth - 1`. -/
def Derives (r : Registry) (decl : DeclId) (i : IterationId) (depth : Nat) : Prop :=
  ∃ id s h host, r.subscription? id = some s ∧ s.target = decl ∧ r.iteration? s.host h = some host ∧
    r.mapped? id h = some i ∧ host.depth + 1 = depth

theorem Derives.mono {r' : Registry} {i : IterationId} {depth : Nat} (h : r.Derives decl i depth) (hext : r.Extends r')
    (hmapped : ∀ id h t, r.mapped? id h = some t → r'.mapped? id h = some t) : r'.Derives decl i depth := by
  obtain ⟨id, s, h, host, hs, htarget, hhost, hm, hdepth⟩ := h
  exact ⟨id, s, h, host, hext.subscription? hs, htarget, hext.iteration? hhost, hmapped id h i hm, hdepth⟩

theorem mapped?_record (r : Registry) (notice : Notice) (t : IterationId) (id : SubscriptionId)
    (h : IterationId) : (r.record notice t).mapped? id h =
      if (notice.subscription, notice.iteration) = (id, h) then some t else r.mapped? id h :=
  Table.get?_insert _ _ _ _

/-- Recording what was recorded already, or nothing was recorded for, loses no mapping. -/
theorem mapped?_record_of_some {notice : Notice} {t : IterationId}
    (hkey : ∀ u, r.mapped? notice.subscription notice.iteration = some u → u = t) {id : SubscriptionId}
    {h u : IterationId} (hm : r.mapped? id h = some u) : (r.record notice t).mapped? id h = some u := by
  rw [mapped?_record]
  split
  · rename_i heq
    obtain ⟨rfl, rfl⟩ := Prod.mk.inj heq
    rw [hkey u hm]
  · exact hm

theorem Sound.mapped_args (hr : r.Sound env) {id : SubscriptionId}
    {s : Subscription} {h t : IterationId} {host : Iteration} (hs : r.subscription? id = some s)
    (hhost : r.iteration? s.host h = some host) (ht : r.mapped? id h = some t) :
    ∃ it, r.iteration? s.target t = some it ∧ env.allSame it.args (s.targetArgs host.args) = true := by
  obtain ⟨s', host', it, hs', hhost', hit, hsame⟩ := hr.mapped _ _ _ ht
  obtain rfl := Option.some.inj (hs'.symm.trans hs)
  obtain rfl := Option.some.inj (hhost'.symm.trans hhost)
  exact ⟨it, hit, hsame⟩

end Registry

structure Denial where
  decl : DeclId
  span : Span
  deriving DecidableEq, Repr, Inhabited

namespace Instances

/-! ### Calls, delivery by delivery -/

/-- The state in which a call leaves the queue to be worked off. -/
def start (x : Instances) (env : TypeEnv) (limits : Limits) : Call → Instances
  | .instantiate decl args span =>
    if args.any (·.hasUnknown) then x else (x.create env limits decl args 0 span).2
  | .subscribe s =>
    match x.registry.addSubscription s with
    | ((_, false), registry) => { x with registry }
    | ((id, true), registry) =>
      { x with registry := registry.enqueue ((registry.iterationsOf s.host).map (⟨id, ·.index⟩)) }

def denials (x : Instances) (env : TypeEnv) (limits : Limits) (decl : DeclId) (args : List Ty)
    (depth : Nat) (span : Span) : List Denial :=
  if (x.create env limits decl args depth span).1 = none then [⟨decl, span⟩] else []

def callDenials (x : Instances) (env : TypeEnv) (limits : Limits) : Call → List Denial
  | .instantiate decl args span =>
    if args.any (·.hasUnknown) then [] else x.denials env limits decl args 0 span
  | .subscribe _ => []

def noticeDenials (x : Instances) (env : TypeEnv) (limits : Limits) (notice : Notice) : List Denial :=
  match x.registry.subscription? notice.subscription with
  | none => []
  | some s =>
    match x.registry.iteration? s.host notice.iteration with
    | none => []
    | some host => x.denials env limits s.target (s.targetArgs host.args) host.nextDepth s.span

/-- `n` notices are delivered, one after the other, from `x` to `y`. -/
inductive Deliveries (env : TypeEnv) (limits : Limits) : Nat → Instances → Instances → Prop
  | none (x : Instances) : Deliveries env limits 0 x x
  | next {n : Nat} {x y : Instances} {notice : Notice} {rest : List Notice}
      (hpending : x.registry.pending = notice :: rest)
      (h : Deliveries env limits n ((x.withPending rest).deliver env limits notice) y) :
      Deliveries env limits (n + 1) x y

/-- The state is reached in the course of the calls on a fresh registry, with the denials on the way.
A call is made when the queue is empty. -/
inductive Reached (env : TypeEnv) (limits : Limits) : List Call → List Denial → Instances → Prop
  | fresh : Reached env limits [] [] {}
  | called {cs : List Call} {ds : List Denial} {x : Instances} (c : Call)
      (h : Reached env limits cs ds x) (hidle : x.registry.pending = []) :
      Reached env limits (cs ++ [c]) (ds ++ x.callDenials env limits c) (x.start env limits c)
  | delivered {cs : List Call} {ds : List Denial} {x : Instances} {notice : Notice} {rest : List Notice}
      (h : Reached env limits cs ds x) (hpending : x.registry.pending = notice :: rest) :
      Reached env limits cs (ds ++ (x.withPending rest).noticeDenials env limits notice)
        ((x.withPending rest).deliver env limits notice)

theorem start_instantiate (hknown : args.any (·.hasUnknown) = false) (x : Instances)
    (env : TypeEnv) (limits : Limits) (decl : DeclId) (span : Span) :
    x.start env limits (.instantiate decl args span) = (x.create env limits decl args 0 span).2 :=
  if_neg (by simp [hknown])

theorem start_instantiate_of_unknown (hunknown : args.any (·.hasUnknown) = true)
    (x : Instances) (env : TypeEnv) (limits : Limits) (decl : DeclId) (span : Span) :
    x.start env limits (.instantiate decl args span) = x :=
  if_pos hunknown

theorem Follows.start {ρ : Instances → Instances → Prop} (h : Follows ρ) (x : Instances) (env : TypeEnv)
    (limits : Limits) (c : Call) : ρ x (x.start env limits c) := by
  cases c with
  | instantiate decl args span =>
    cases hunknown : args.any (·.hasUnknown) with
    | true => rw [start_instantiate_of_unknown hunknown]; exact h.refl x
    | false => rw [start_instantiate hunknown]; exact h.create x env limits decl args 0 span
  | subscribe s =>
    have hadd := h.subscription x s
    simp only [Instances.start, Registry.addSubscription] at hadd ⊢
    cases hfind : x.registry.subscriptions.findIdx? (·.agrees s) with
    | some i => exact h.refl x
    | none =>
      rw [hfind] at hadd
      exact h.trans hadd (h.pending _ _)

theorem sound_start (hx : x.registry.Sound env) (limits : Limits) (c : Call) :
    (x.start env limits c).registry.Sound env := by
  cases c with
  | instantiate decl args span =>
    cases hunknown : args.any (·.hasUnknown) with
    | true => rw [start_instantiate_of_unknown hunknown]; exact hx
    | false => rw [start_instantiate hunknown]; exact sound_create hx limits decl args 0 span
  | subscribe s =>
    have hadd := hx.addSubscription s
    simp only [start, Registry.addSubscription] at hadd ⊢
    cases hfind : x.registry.subscriptions.findIdx? (·.agrees s) with
    | some i => exact hx
    | none =>
      rw [hfind] at hadd
      exact hadd.of_eq rfl rfl rfl

theorem Reached.sound {ds : List Denial} (h : Reached env limits cs ds x) : x.registry.Sound env := by
  induction h with
  | fresh => exact Registry.sound_empty env
  | called c _ _ ih => exact sound_start ih limits c
  | @delivered _ _ x notice rest _ _ ih =>
    have hrest : (x.withPending rest).registry.Sound env := ih.of_eq rfl rfl rfl
    exact sound_deliver hrest limits notice

theorem drain_of_idle (hidle : x.registry.pending = []) (env : TypeEnv) (limits : Limits) : x.drain env limits = x := by
  rw [drain]
  split
  · rfl
  · rename_i h
    rw [hidle] at h
    contradiction

theorem call_eq_drain_start (hidle : x.registry.pending = []) (env : TypeEnv)
    (limits : Limits) (c : Call) : x.call env limits c = (x.start env limits c).drain env limits := by
  cases c with
  | instantiate decl args span =>
    cases hunknown : args.any (·.hasUnknown) with
    | true =>
      rw [start_instantiate_of_unknown hunknown, drain_of_idle hidle]
      simp only [call, instantiate, hunknown, if_true]
    | false =>
      rw [start_instantiate hunknown]
      simp only [call, instantiate, hunknown, Bool.false_eq_true, if_false]
      obtain ⟨i, -, h⟩ | ⟨-, why, h⟩ | ⟨-, -, -, h⟩ := create_cases x env limits decl args 0 span
      · rw [h]
      · rw [h]
        refine (drain_of_idle ?_ env limits).symm
        rw [registry_refuse]
        exact hidle
      · rw [h]
  | subscribe s =>
    simp only [call, subscribe, start, Registry.addSubscription]
    cases x.registry.subscriptions.findIdx? (·.agrees s) with
    | some i => exact (drain_of_idle hidle env limits).symm
    | none => rfl

theorem Reached.drain {ds : List Denial}
    (h : Reached env limits cs ds x) : ∃ ds', Reached env limits cs ds' (x.drain env limits) :=
  drain_induction (P := fun y => ∃ ds', Reached env limits cs ds' y)
    (fun _ _ _ hpending ⟨_, hy⟩ => ⟨_, hy.delivered hpending⟩) ⟨ds, h⟩

theorem Reached.calls {ds : List Denial}
    (h : Reached env limits cs ds x) (hidle : x.registry.pending = []) (more : List Call) :
    ∃ ds', Reached env limits (cs ++ more) ds' (x.calls env limits more) := by
  induction more generalizing cs ds x with
  | nil => exact ⟨ds, by rwa [List.append_nil]⟩
  | cons c more ih =>
    obtain ⟨ds', hcall⟩ := (h.called c hidle).drain
    have hrest := ih hcall (pending_drain _ env limits)
    rw [← call_eq_drain_start hidle, List.append_assoc] at hrest
    exact hrest

/-! ### The queue runs empty -/

theorem Deliveries.le_backlog {n : Nat} {y : Instances} (h : Deliveries env limits n x y) : n ≤ x.backlog limits := by
  induction h with
  | none x => exact Nat.zero_le _
  | @next n x y notice rest hpending _ ih =>
    have hrest : (x.withPending rest).backlog limits + 1 = x.backlog limits := by
      show rest.length + x.room limits * (x.registry.subscriptions.length + 1) + 1 =
        x.registry.pending.length + x.room limits * (x.registry.subscriptions.length + 1)
      rw [hpending, List.length_cons]
      omega
    have hle := backlog_deliver_le (x.withPending rest) env limits notice
    omega

theorem deliveries_drain (x : Instances) (env : TypeEnv) (limits : Limits) :
    ∃ n, Deliveries env limits n x (x.drain env limits) := by
  fun_induction Instances.drain x env limits with
  | case1 x _ => exact ⟨0, .none x⟩
  | case2 x notice rest hpending ih =>
    obtain ⟨n, hn⟩ := ih
    exact ⟨n + 1, .next hpending hn⟩

/-! ### Refusals are reported once -/

/-- The denials in `firsts` are those in `ds` that are the first for their declaration, in order. -/
structure Firsts (ds firsts : List Denial) : Prop where
  ordered : firsts.Sublist ds
  once : (firsts.map (·.decl)).Nodup
  all : ∀ d ∈ ds, d.decl ∈ firsts.map (·.decl)
  first : ∀ d ∈ firsts, ∃ before after, ds = before ++ d :: after ∧ d.decl ∉ before.map (·.decl)

/-- One report has been made for each declaration with a denial, where its first denial was. -/
def ReportsFirsts (x : Instances) (ds : List Denial) : Prop :=
  ∃ firsts, Firsts ds firsts ∧ x.refused = firsts.map (·.decl) ∧
    List.Forall₂ (fun d report => ∃ why, report = Refusal.diagnostic why d.span) firsts x.reports

theorem Firsts.again {ds firsts : List Denial} (h : Firsts ds firsts) {d : Denial}
    (hd : d.decl ∈ firsts.map (·.decl)) : Firsts (ds ++ [d]) firsts where
  ordered := h.ordered.trans (List.sublist_append_left _ _)
  once := h.once
  all e he := by
    rcases List.mem_append.1 he with he | he
    · exact h.all e he
    · rwa [List.mem_singleton.1 he]
  first e he := by
    obtain ⟨before, after, rfl, hnot⟩ := h.first e he
    exact ⟨before, after ++ [d], by simp, hnot⟩

theorem Firsts.another {ds firsts : List Denial} (h : Firsts ds firsts) {d : Denial}
    (hd : d.decl ∉ firsts.map (·.decl)) : Firsts (ds ++ [d]) (firsts ++ [d]) where
  ordered := h.ordered.append (.refl _)
  once := by
    rw [List.map_append, List.nodup_append]
    refine ⟨h.once, by simp, fun a ha b hb hab => hd ?_⟩
    have hb : b = d.decl := List.mem_singleton.1 hb
    rwa [← hb, ← hab]
  all e he := by
    rw [List.map_append]
    rcases List.mem_append.1 he with he | he
    · exact List.mem_append_left _ (h.all e he)
    · exact List.mem_append_right _ (List.mem_map_of_mem he)
  first e he := by
    rcases List.mem_append.1 he with he | he
    · obtain ⟨before, after, rfl, hnot⟩ := h.first e he
      exact ⟨before, after ++ [d], by simp, hnot⟩
    · obtain rfl := List.mem_singleton.1 he
      refine ⟨ds, [], rfl, fun hmem => hd ?_⟩
      obtain ⟨earlier, hearlier, hdecl⟩ := List.mem_map.1 hmem
      exact hdecl ▸ h.all earlier hearlier

theorem ReportsFirsts.refuse {ds : List Denial} (h : x.ReportsFirsts ds) (decl : DeclId)
    (span : Span) (why : Refusal) : (x.refuse decl span why).ReportsFirsts (ds ++ [⟨decl, span⟩]) := by
  obtain ⟨firsts, hfirsts, hrefused, hreports⟩ := h
  unfold Instances.refuse
  split
  · rename_i hmem
    rw [List.contains_iff_mem, hrefused] at hmem
    exact ⟨firsts, hfirsts.again hmem, hrefused, hreports⟩
  · rename_i hmem
    rw [List.contains_iff_mem, hrefused] at hmem
    refine ⟨firsts ++ [⟨decl, span⟩], hfirsts.another hmem, ?_, ?_⟩
    · simp [hrefused]
    · exact List.rel_append hreports (.cons ⟨why, rfl⟩ .nil)

theorem ReportsFirsts.create {ds : List Denial} (h : x.ReportsFirsts ds) (env : TypeEnv)
    (limits : Limits) (decl : DeclId) (args : List Ty) (depth : Nat) (span : Span) :
    (x.create env limits decl args depth span).2.ReportsFirsts
      (ds ++ x.denials env limits decl args depth span) := by
  unfold denials
  obtain ⟨i, -, hcreate⟩ | ⟨-, why, hcreate⟩ | ⟨-, -, -, hcreate⟩ :=
    create_cases x env limits decl args depth span
  · rw [hcreate, if_neg (by simp), List.append_nil]
    exact h
  · rw [hcreate, if_pos rfl]
    exact h.refuse decl span why
  · rw [hcreate, if_neg (by simp), List.append_nil]
    exact h

theorem ReportsFirsts.deliver {ds : List Denial} (h : x.ReportsFirsts ds) (env : TypeEnv)
    (limits : Limits) (notice : Notice) :
    (x.deliver env limits notice).ReportsFirsts (ds ++ x.noticeDenials env limits notice) := by
  unfold Instances.deliver noticeDenials
  cases x.registry.subscription? notice.subscription with
  | none => rwa [List.append_nil]
  | some s =>
    dsimp only
    cases x.registry.iteration? s.host notice.iteration with
    | none => rwa [List.append_nil]
    | some host =>
      have hcreate := h.create env limits s.target (s.targetArgs host.args) host.nextDepth s.span
      dsimp only
      split
      · rename_i heq
        rwa [heq] at hcreate
      · rename_i heq
        rwa [heq] at hcreate

theorem ReportsFirsts.start {ds : List Denial} (h : x.ReportsFirsts ds) (env : TypeEnv) (limits : Limits) (c : Call) :
    (x.start env limits c).ReportsFirsts (ds ++ x.callDenials env limits c) := by
  cases c with
  | instantiate decl args span =>
    cases hunknown : args.any (·.hasUnknown) with
    | true =>
      rw [start_instantiate_of_unknown hunknown]
      simp only [callDenials, hunknown, if_true, List.append_nil]
      exact h
    | false =>
      rw [start_instantiate hunknown]
      simp only [callDenials, hunknown, Bool.false_eq_true, if_false]
      exact h.create env limits decl args 0 span
  | subscribe s =>
    simp only [Instances.start, callDenials, Registry.addSubscription, List.append_nil]
    cases x.registry.subscriptions.findIdx? (·.agrees s) with
    | some i => exact h
    | none => exact h

theorem Reached.reportsFirsts {ds : List Denial} (h : Reached env limits cs ds x) : x.ReportsFirsts ds := by
  induction h with
  | fresh => exact ⟨[], ⟨.refl _, List.nodup_nil, by simp, by simp⟩, rfl, .nil⟩
  | called c _ _ ih => exact ih.start env limits c
  | @delivered _ _ x notice rest _ _ ih =>
    have hrest : (x.withPending rest).ReportsFirsts _ := ih
    exact hrest.deliver env limits notice

/-! ### Every state keeps to the limits -/

structure Bounded (env : TypeEnv) (limits : Limits) (r : Registry) : Prop where
  sound : r.Sound env
  count : ∀ decl, r.count decl ≤ limits.maxPerDecl
  depth : ∀ decl i it, r.iteration? decl i = some it → it.depth ≤ limits.maxDepth
  derived : ∀ decl i it, r.iteration? decl i = some it → 0 < it.depth → r.Derives decl i it.depth

variable {env : TypeEnv} {limits : Limits} {x : Instances} {r r' : Registry}

theorem bounded_empty (env : TypeEnv) (limits : Limits) : Bounded env limits {} where
  sound := Registry.sound_empty env
  count _ := Nat.zero_le _
  depth _ _ _ h := by simp [Registry.iteration?, Registry.iterationsOf, NodeId.get?] at h
  derived _ _ _ h := by simp [Registry.iteration?, Registry.iterationsOf, NodeId.get?] at h

theorem Bounded.of_extends (h : Bounded env limits r) (hsound : r'.Sound env) (hext : r.Extends r')
    (hiterations : r'.iterations = r.iterations)
    (hmapped : ∀ id h t, r.mapped? id h = some t → r'.mapped? id h = some t) : Bounded env limits r' := by
  have hiteration : ∀ decl i, r'.iteration? decl i = r.iteration? decl i := by
    intro decl i
    simp only [Registry.iteration?, Registry.iterationsOf, hiterations]
  refine ⟨hsound, fun decl => ?_, fun decl i it hit => ?_, fun decl i it hit hpos => ?_⟩
  · rw [Registry.count, hiterations]
    exact h.count decl
  · rw [hiteration] at hit
    exact h.depth decl i it hit
  · rw [hiteration] at hit
    exact (h.derived decl i it hit hpos).mono hext hmapped

theorem Bounded.of_add (h : Bounded env limits r) (args : List Ty) {depth : Nat}
    (hcount : r.count decl < limits.maxPerDecl) (hdepth : depth ≤ limits.maxDepth) (hsound : r'.Sound env)
    (hiterations : r'.iterations = (r.add decl args depth).iterations) (hext : r.Extends r')
    (hmapped : ∀ id h t, r.mapped? id h = some t → r'.mapped? id h = some t)
    (hderived : 0 < depth → r'.Derives decl ⟨r.count decl⟩ depth) : Bounded env limits r' := by
  have hiteration : ∀ other i it, r'.iteration? other i = some it → r.iteration? other i = some it ∨
      other = decl ∧ i = ⟨r.count decl⟩ ∧ it.depth = depth := by
    intro other i it hit
    have hadd : (r.add decl args depth).iteration? other i = some it := by
      simpa only [Registry.iteration?, Registry.iterationsOf, hiterations] using hit
    rcases Registry.iteration?_add hadd with hold | ⟨rfl, rfl⟩
    · exact .inl hold
    · rw [Registry.iteration?_add_self, Option.some.injEq] at hadd
      exact .inr ⟨rfl, rfl, by rw [← hadd]⟩
  refine ⟨hsound, fun other => ?_, fun other i it hit => ?_, fun other i it hit hpos => ?_⟩
  · have hothers : r'.count other = (r.add decl args depth).count other := by
      simp only [Registry.count, hiterations]
    by_cases hdecl : decl = other
    · subst hdecl
      rw [hothers, Registry.count_add_self]
      omega
    · rw [hothers, Registry.count_add_of_ne r args depth hdecl]
      exact h.count other
  · rcases hiteration other i it hit with hold | ⟨rfl, rfl, heq⟩
    · exact h.depth other i it hold
    · rw [heq]
      exact hdepth
  · rcases hiteration other i it hit with hold | ⟨rfl, rfl, heq⟩
    · exact (h.derived other i it hold hpos).mono hext hmapped
    · rw [heq] at hpos ⊢
      exact hderived hpos

theorem Bounded.start (h : Bounded env limits x.registry) (c : Call) :
    Bounded env limits (x.start env limits c).registry := by
  cases c with
  | instantiate decl args span =>
    cases hunknown : args.any (·.hasUnknown) with
    | true => rwa [start_instantiate_of_unknown hunknown]
    | false =>
      rw [start_instantiate hunknown]
      obtain ⟨i, -, hcreate⟩ | ⟨-, why, hcreate⟩ | ⟨hfind, -, hroom, hcreate⟩ :=
        create_cases x env limits decl args 0 span
      · rwa [hcreate]
      · rwa [hcreate, registry_refuse]
      · rw [hcreate]
        exact h.of_add args hroom (Nat.zero_le _) (sound_make h.sound hfind 0) rfl
          (extends_make x decl args 0) (fun _ _ _ hm => hm) (fun hpos => absurd hpos (Nat.lt_irrefl 0))
  | subscribe s =>
    have hsound := sound_start h.sound limits (.subscribe s)
    have hext := follows_extends.start x env limits (.subscribe s)
    simp only [Instances.start, Registry.addSubscription] at hsound hext ⊢
    cases hfind : x.registry.subscriptions.findIdx? (·.agrees s) with
    | some i => exact h
    | none =>
      rw [hfind] at hsound hext
      exact h.of_extends hsound hext rfl fun _ _ _ hm => hm

/-- The depth of what a delivery makes is one more than that of its host. The limit on depths keeps the
count of 32 bits from starting over. -/
theorem Bounded.deliver (hwide : limits.maxDepth < 2 ^ 32 - 1) (h : Bounded env limits x.registry)
    (notice : Notice) : Bounded env limits (x.deliver env limits notice).registry := by
  have hsound : (x.deliver env limits notice).registry.Sound env := sound_deliver h.sound limits notice
  have hextends := follows_extends.deliver x env limits notice
  unfold Instances.deliver at hsound hextends ⊢
  cases hs : x.registry.subscription? notice.subscription with
  | none => exact h
  | some s =>
    cases hhost : x.registry.iteration? s.host notice.iteration with
    | none => simpa only [hs, hhost] using h
    | some host =>
      simp only [hs, hhost] at hsound hextends ⊢
      obtain ⟨i, hfind, hcreate⟩ | ⟨-, why, hcreate⟩ | ⟨hfind, hdepth, hroom, hcreate⟩ :=
        create_cases x env limits s.target (s.targetArgs host.args) host.nextDepth s.span
      · rw [hcreate] at hsound hextends ⊢
        refine h.of_extends hsound hextends rfl fun id k t => Registry.mapped?_record_of_some fun u hu => ?_
        obtain ⟨a, ha, hasame⟩ := h.sound.mapped_args hs hhost hu
        obtain ⟨b, hb, hbsame⟩ := h.sound.iteration?_of_find? hfind
        exact h.sound.eq_of_allSame ha hb (TypeEnv.allSame_trans hasame (TypeEnv.allSame_symm hbsame))
      · rwa [hcreate, registry_refuse]
      · rw [hcreate] at hsound hextends ⊢
        have hnext : host.nextDepth = host.depth + 1 := by
          have hle := h.depth _ _ _ hhost
          exact Iteration.nextDepth_of_lt (by omega)
        have hmapped : ∀ u, x.registry.mapped? notice.subscription notice.iteration = some u →
            u = ⟨x.registry.count s.target⟩ := by
          intro u hu
          obtain ⟨a, ha, hasame⟩ := h.sound.mapped_args hs hhost hu
          have hnot := Registry.not_allSame_of_find?_eq_none hfind (List.mem_of_getElem? ha)
          rw [hnot] at hasame
          contradiction
        refine h.of_add (s.targetArgs host.args) hroom hdepth hsound rfl hextends
          (fun id k t => Registry.mapped?_record_of_some hmapped) fun _ => ?_
        refine ⟨notice.subscription, s, notice.iteration, host, hextends.subscription? hs, rfl,
          hextends.iteration? hhost, ?_, hnext.symm⟩
        exact (Registry.mapped?_record _ notice _ _ _).trans (if_pos rfl)

theorem Reached.bounded (hwide : limits.maxDepth < 2 ^ 32 - 1) {ds : List Denial}
    (h : Reached env limits cs ds x) : Bounded env limits x.registry := by
  induction h with
  | fresh => exact bounded_empty env limits
  | called c _ _ ih => exact ih.start c
  | @delivered _ _ x notice rest _ _ ih =>
    have hrest : Bounded env limits (x.withPending rest).registry :=
      ih.of_extends (ih.sound.of_eq rfl rfl rfl) (.of_eq rfl rfl) rfl fun _ _ _ hm => hm
    exact hrest.deliver hwide notice

theorem registry_of_instantiate_none {span : Span} (h : (x.instantiate env limits decl args span).1 = none) :
    (x.instantiate env limits decl args span).2.registry = x.registry := by
  unfold instantiate at h ⊢
  split
  · rfl
  · rename_i hknown
    rw [if_neg hknown] at h
    obtain ⟨i, -, hcreate⟩ | ⟨-, why, hcreate⟩ | ⟨-, -, -, hcreate⟩ :=
      create_cases x env limits decl args 0 span
    · simp [hcreate] at h
    · rw [hcreate]
      exact registry_refuse x decl span why
    · simp [hcreate] at h

/-- Calls on a fresh registry come to an end, and so does working off the queue from any state on the
way. In each of these states no declaration has more iterations than the limit allows, no iteration is
deeper, and one that is not at depth zero was selected for a host iteration at the depth before. A
request that is turned down changes nothing in the registry. One report is made for each declaration that
was denied an iteration, for the first denial, and none for others. -/
theorem reached_within_limits (env : TypeEnv) (limits : Limits) (hwide : limits.maxDepth < 2 ^ 32 - 1)
    (cs : List Call) :
    (∃ ds, Reached env limits cs ds (({} : Instances).calls env limits cs)) ∧
      ∀ ds x, Reached env limits cs ds x →
        ((∀ n y, Deliveries env limits n x y → n ≤ x.backlog limits) ∧
          (∃ n, Deliveries env limits n x (x.drain env limits)) ∧
            (x.drain env limits).registry.pending = []) ∧
        (∀ decl, x.registry.count decl ≤ limits.maxPerDecl) ∧
        (∀ decl i it, x.registry.iteration? decl i = some it → it.depth ≤ limits.maxDepth ∧
          (0 < it.depth → x.registry.Derives decl i it.depth)) ∧
        (∀ decl args span, (x.instantiate env limits decl args span).1 = none →
          (x.instantiate env limits decl args span).2.registry = x.registry) ∧
        x.ReportsFirsts ds := by
  refine ⟨Reached.fresh.calls rfl cs, fun ds x hx => ?_⟩
  have hbounded := hx.bounded hwide
  refine ⟨⟨fun n y => Deliveries.le_backlog, deliveries_drain x env limits, pending_drain x env limits⟩,
    hbounded.count, fun decl i it hit => ⟨hbounded.depth decl i it hit, hbounded.derived decl i it hit⟩,
    fun decl args span => registry_of_instantiate_none, hx.reportsFirsts⟩

end Instances

/-- A declaration that calls for an iteration of itself, with a pointer around the argument. -/
def growingCalls : List Call := [
  .subscribe ⟨⟨0⟩, [⟨0⟩], ⟨0⟩, [.pointer (.param ⟨0⟩)], {}⟩,
  .instantiate ⟨0⟩ [.int] {}]

theorem within_limits_growingCalls :
    let x := ({} : Instances).calls {} ⟨5, 100⟩ growingCalls
    (x.registry.count ⟨0⟩ = 6 ∧ x.reports.length = 1) ∧
      (∀ i it, x.registry.iteration? ⟨0⟩ i = some it → it.depth ≤ 5 ∧
        (0 < it.depth → x.registry.Derives ⟨0⟩ i it.depth)) ∧ ∃ ds, x.ReportsFirsts ds := by
  have hwide : (⟨5, 100⟩ : Limits).maxDepth < 2 ^ 32 - 1 := by decide
  obtain ⟨⟨ds, hds⟩, hall⟩ := Instances.reached_within_limits {} ⟨5, 100⟩ hwide growingCalls
  obtain ⟨-, -, hdepth, -, hreports⟩ := hall ds _ hds
  exact ⟨by decide +kernel, hdepth ⟨0⟩, ds, hreports⟩

end Linkage
