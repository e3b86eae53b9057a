import Linkage.Registry.Propagation
import Linkage.Proofs.Ty.Sameness

/-!
# How a registry grows

Iterations and subscriptions are only ever appended, so what an index or an identifier named stays
what it was. Beside that a registry stays sound: the index of an iteration is its position, no two
iterations of a declaration have the same arguments, and a mapping leads from an iteration of the
host to an iteration of the target with the arguments that the subscription calls for. What every
delivery keeps, working off the queue keeps, and this is said once, in `drain_induction`.
-/

namespace Linkage

variable {decl : DeclId} {x : Instances} {it : Iteration} {i : IterationId} {args : List Ty} {r r' : Registry}
  {env : TypeEnv}

namespace Registry

/-- Whatever stands in `r` stands in `r'` at the same place. -/
structure Extends (r r' : Registry) : Prop where
  iterations : r.iterations <+: r'.iterations
  subscriptions : r.subscriptions <+: r'.subscriptions

theorem Extends.refl (r : Registry) : r.Extends r := ⟨List.prefix_refl _, List.prefix_refl _⟩

theorem Extends.trans {r'' : Registry} (h : r.Extends r') (h' : r'.Extends r'') : r.Extends r'' :=
  ⟨h.iterations.trans h'.iterations, h.subscriptions.trans h'.subscriptions⟩

theorem Extends.of_eq (hiterations : r'.iterations = r.iterations)
    (hsubscriptions : r'.subscriptions = r.subscriptions) : r.Extends r' :=
  ⟨hiterations ▸ List.prefix_refl _, hsubscriptions ▸ List.prefix_refl _⟩

theorem Extends.iterationsOf (h : r.Extends r') (decl : DeclId) : r.iterationsOf decl <+: r'.iterationsOf decl :=
  h.iterations.filter _

theorem getElem?_of_begins {α : Type} {l l' : List α} (h : l <+: l') {i : Nat} {a : α}
    (ha : l[i]? = some a) : l'[i]? = some a := by
  obtain ⟨more, rfl⟩ := h
  have hlt := (List.getElem?_eq_some_iff.1 ha).1
  rwa [List.getElem?_append_left hlt]

theorem Extends.iteration? (h : r.Extends r')
    (hit : r.iteration? decl i = some it) : r'.iteration? decl i = some it :=
  getElem?_of_begins (h.iterationsOf decl) hit

theorem Extends.subscription? (h : r.Extends r') {id : SubscriptionId} {s : Subscription}
    (hs : r.subscription? id = some s) : r'.subscription? id = some s :=
  getElem?_of_begins h.subscriptions hs

theorem extends_add (r : Registry) (decl : DeclId) (args : List Ty) (depth : Nat) :
    r.Extends (r.add decl args depth) :=
  ⟨List.prefix_append _ _, List.prefix_refl _⟩

theorem extends_addSubscription (r : Registry) (s : Subscription) :
    r.Extends (r.addSubscription s).2 := by
  unfold addSubscription
  split
  · exact .refl r
  · exact ⟨List.prefix_refl _, List.prefix_append _ _⟩

theorem decl_of_iteration? (h : r.iteration? decl i = some it) : it.decl = decl := by
  have hmem : it ∈ r.iterationsOf decl := List.mem_of_getElem? h
  simpa using (List.mem_filter.1 hmem).2

/-- The iterations of a declaration after one has been added: those it had, and perhaps the new one
behind them. -/
theorem iteration?_add {other : DeclId} {depth : Nat} (h : (r.add decl args depth).iteration? other i = some it) :
    r.iteration? other i = some it ∨ other = decl ∧ i = ⟨r.count decl⟩ := by
  unfold iteration? NodeId.get? at h ⊢
  rw [iterationsOf_add] at h
  split at h
  · rename_i hdecl
    subst hdecl
    rw [count_eq_length]
    rcases Nat.lt_or_ge i.index (r.iterationsOf decl).length with hlt | hge
    · rw [List.getElem?_append_left hlt] at h
      exact .inl h
    · have hlt := (List.getElem?_eq_some_iff.1 h).1
      rw [List.length_append, List.length_singleton] at hlt
      have hindex : i.index = (r.iterationsOf decl).length := by omega
      exact .inr ⟨rfl, by rw [← hindex]⟩
  · exact .inl h

theorem iteration?_add_self (r : Registry) (decl : DeclId) (args : List Ty) (depth : Nat) :
    (r.add decl args depth).iteration? decl ⟨r.count decl⟩ =
      some { decl, index := ⟨r.count decl⟩, args, depth } := by
  simp [iteration?, NodeId.get?, iterationsOf_add, count_eq_length]

/-! ### Soundness -/

structure Sound (env : TypeEnv) (r : Registry) : Prop where
  numbered : ∀ decl i it, r.iteration? decl i = some it → it.index = i
  distinct : ∀ decl, (r.iterationsOf decl).Pairwise fun a b => env.allSame a.args b.args = false
  mapped : ∀ id h t, r.mapped? id h = some t → ∃ s host it, r.subscription? id = some s ∧
    r.iteration? s.host h = some host ∧ r.iteration? s.target t = some it ∧
      env.allSame it.args (s.targetArgs host.args) = true

theorem Sound.of_eq (h : r.Sound env)
    (hiterations : r'.iterations = r.iterations) (hsubscriptions : r'.subscriptions = r.subscriptions)
    (hmapping : r'.mapping = r.mapping) : r'.Sound env := by
  obtain ⟨hnumbered, hdistinct, hmapped⟩ := h
  simp only [iteration?, iterationsOf, subscription?, mapped?, ← hiterations, ← hsubscriptions,
    ← hmapping] at hnumbered hdistinct hmapped
  exact ⟨hnumbered, hdistinct, hmapped⟩

theorem Sound.congr {env' : TypeEnv} (h : r.Sound env) (heq : env'.allSame = env.allSame) : r.Sound env' where
  numbered := h.numbered
  distinct := by rw [heq]; exact h.distinct
  mapped := by rw [heq]; exact h.mapped

theorem sound_empty (env : TypeEnv) : ({} : Registry).Sound env where
  numbered _ _ _ h := by simp [iteration?, iterationsOf, NodeId.get?] at h
  distinct _ := by simp [iterationsOf]
  mapped _ _ _ h := by simp [mapped?, Table.get?] at h

theorem mapped_of_extends (hext : r.Extends r')
    (hmapped : ∀ id h t, r.mapped? id h = some t → ∃ s host it, r.subscription? id = some s ∧
      r.iteration? s.host h = some host ∧ r.iteration? s.target t = some it ∧
        env.allSame it.args (s.targetArgs host.args) = true)
    {id : SubscriptionId} {h t : IterationId} (hm : r.mapped? id h = some t) :
    ∃ s host it, r'.subscription? id = some s ∧ r'.iteration? s.host h = some host ∧
      r'.iteration? s.target t = some it ∧ env.allSame it.args (s.targetArgs host.args) = true := by
  obtain ⟨s, host, it, hs, hhost, hit, hsame⟩ := hmapped id h t hm
  exact ⟨s, host, it, hext.subscription? hs, hext.iteration? hhost, hext.iteration? hit, hsame⟩

theorem Sound.iteration?_of_find? (hr : r.Sound env) (h : r.find? env decl args = some i) :
    ∃ it, r.iteration? decl i = some it ∧ env.allSame it.args args = true := by
  rw [find?_eq_find?_iterationsOf] at h
  obtain ⟨it, hfind, rfl⟩ := Option.map_eq_some_iff.1 h
  have hmem := List.mem_of_find?_eq_some hfind
  obtain ⟨k, hk⟩ := List.mem_iff_getElem?.1 hmem
  have hindex : it.index = ⟨k⟩ := hr.numbered decl ⟨k⟩ it hk
  have hsame : env.allSame it.args args = true := by simpa using List.find?_some hfind
  refine ⟨it, ?_, hsame⟩
  rw [hindex]
  exact hk

theorem not_allSame_of_find?_eq_none (h : r.find? env decl args = none) (hit : it ∈ r.iterationsOf decl) :
    env.allSame it.args args = false := by
  rw [find?_eq_find?_iterationsOf, Option.map_eq_none_iff, List.find?_eq_none] at h
  simpa using h it hit

theorem Sound.add (hr : r.Sound env)
    (hfind : r.find? env decl args = none) (depth : Nat) : (r.add decl args depth).Sound env where
  numbered other i it hit := by
    rcases iteration?_add hit with hold | ⟨rfl, rfl⟩
    · exact hr.numbered other i it hold
    · rw [iteration?_add_self, Option.some.injEq] at hit
      subst hit
      rfl
  distinct other := by
    rw [iterationsOf_add]
    split
    · rename_i hdecl
      subst hdecl
      refine List.pairwise_append.2 ⟨hr.distinct decl, List.pairwise_singleton _ _, ?_⟩
      intro a ha b hb
      rw [List.mem_singleton.1 hb]
      exact not_allSame_of_find?_eq_none hfind ha
    · exact hr.distinct other
  mapped id h t hm := mapped_of_extends (extends_add r decl args depth) hr.mapped hm

theorem Sound.addSubscription (hr : r.Sound env) (s : Subscription) : (r.addSubscription s).2.Sound env := by
  have hext := extends_addSubscription r s
  unfold Registry.addSubscription at hext ⊢
  split
  · exact hr
  · rename_i hnone
    rw [hnone] at hext
    exact ⟨hr.numbered, hr.distinct, fun id h t hm => mapped_of_extends hext hr.mapped hm⟩

theorem Sound.record (hr : r.Sound env) {notice : Notice} {s : Subscription} {host : Iteration} {t : IterationId}
    (hs : r.subscription? notice.subscription = some s)
    (hhost : r.iteration? s.host notice.iteration = some host) (hit : r.iteration? s.target t = some it)
    (hsame : env.allSame it.args (s.targetArgs host.args) = true) : (r.record notice t).Sound env := by
  refine ⟨hr.numbered, hr.distinct, fun id h u hm => ?_⟩
  rw [mapped?, Registry.record, Table.get?_insert] at hm
  split at hm
  · rename_i hkey
    obtain ⟨rfl, rfl⟩ := Prod.mk.inj hkey
    obtain rfl := Option.some.inj hm
    exact ⟨s, host, it, hs, hhost, hit, hsame⟩
  · exact hr.mapped id h u hm

theorem getOrCreate_cases (r : Registry) (env : TypeEnv) (decl : DeclId) (args : List Ty) (depth : Nat) :
    (∃ i, r.find? env decl args = some i ∧ r.getOrCreate env decl args depth = ((i, false), r)) ∨
      (r.find? env decl args = none ∧
        r.getOrCreate env decl args depth = ((⟨r.count decl⟩, true), r.add decl args depth)) := by
  unfold getOrCreate
  cases r.find? env decl args with
  | some i => exact .inl ⟨i, rfl, rfl⟩
  | none => exact .inr ⟨rfl, rfl⟩

theorem extends_getOrCreate (r : Registry) (env : TypeEnv) (decl : DeclId) (args : List Ty) (depth : Nat) :
    r.Extends (r.getOrCreate env decl args depth).2 := by
  obtain ⟨i, -, h⟩ | ⟨-, h⟩ := getOrCreate_cases r env decl args depth
  · rw [h]
    exact .refl r
  · rw [h]
    exact extends_add r decl args depth

theorem Sound.getOrCreate (hr : r.Sound env) (decl : DeclId) (args : List Ty)
    (depth : Nat) : (r.getOrCreate env decl args depth).2.Sound env := by
  obtain ⟨i, -, h⟩ | ⟨hfind, h⟩ := getOrCreate_cases r env decl args depth
  · rwa [h]
  · rw [h]
    exact hr.add hfind depth

theorem Sound.iteration?_getOrCreate (hr : r.Sound env) (decl : DeclId) (args : List Ty) (depth : Nat) :
    ∃ it, (r.getOrCreate env decl args depth).2.iteration? decl
        (r.getOrCreate env decl args depth).1.1 = some it ∧ env.allSame it.args args = true := by
  obtain ⟨i, hfind, h⟩ | ⟨hfind, h⟩ := getOrCreate_cases r env decl args depth
  · rw [h]
    exact hr.iteration?_of_find? hfind
  · rw [h]
    exact ⟨_, iteration?_add_self r decl args depth, env.allSame_refl args⟩

theorem Sound.eq_of_allSame (hr : r.Sound env) {j : IterationId} {a b : Iteration} (ha : r.iteration? decl i = some a)
    (hb : r.iteration? decl j = some b) (h : env.allSame a.args b.args = true) : i = j := by
  obtain ⟨hi, rfl⟩ := List.getElem?_eq_some_iff.1 ha
  obtain ⟨hj, rfl⟩ := List.getElem?_eq_some_iff.1 hb
  have hdistinct := List.pairwise_iff_getElem.1 (hr.distinct decl)
  rcases Nat.lt_trichotomy i.index j.index with hlt | heq | hlt
  · simp [hdistinct i.index j.index hi hj hlt] at h
  · cases i
    cases j
    exact congrArg NodeId.mk heq
  · have hsymm := TypeEnv.allSame_symm h
    simp [hdistinct j.index i.index hj hi hlt] at hsymm

end Registry

namespace Instances

theorem drain_induction {P : Instances → Prop} {limits : Limits}
    (hstep : ∀ x notice rest, x.registry.pending = notice :: rest → P x →
      P ((x.withPending rest).deliver env limits notice)) (hx : P x) : P (x.drain env limits) := by
  fun_induction drain x env limits with
  | case1 x _ => exact hx
  | case2 x notice rest hpending ih => exact ih (hstep x notice rest hpending hx)

theorem deliver_cases (x : Instances) (env : TypeEnv) (limits : Limits) (notice : Notice) :
    (x.deliver env limits notice = x ∧ ∀ s, x.registry.subscription? notice.subscription = some s →
        x.registry.iteration? s.host notice.iteration = none) ∨
      ∃ s host, x.registry.subscription? notice.subscription = some s ∧
        x.registry.iteration? s.host notice.iteration = some host ∧
        ((∃ t, x.registry.find? env s.target (s.targetArgs host.args) = some t ∧
            x.deliver env limits notice = { x with registry := x.registry.record notice t }) ∨
          (∃ why, x.deliver env limits notice = x.refuse s.target s.span why) ∨
          (x.registry.find? env s.target (s.targetArgs host.args) = none ∧
            x.deliver env limits notice =
              { x with
                registry := (x.make s.target (s.targetArgs host.args) host.nextDepth).registry.record
                  notice ⟨x.registry.count s.target⟩ })) := by
  cases hs : x.registry.subscription? notice.subscription with
  | none => exact .inl ⟨by simp [deliver, hs], by simp⟩
  | some s =>
    cases hhost : x.registry.iteration? s.host notice.iteration with
    | none => exact .inl ⟨by simp [deliver, hs, hhost], by simp [hhost]⟩
    | some host =>
      refine .inr ⟨s, host, rfl, hhost, ?_⟩
      obtain ⟨t, hfind, h⟩ | ⟨-, why, h⟩ | ⟨hfind, -, -, h⟩ :=
        create_cases x env limits s.target (s.targetArgs host.args) host.nextDepth s.span
      · exact .inl ⟨t, hfind, by simp [deliver, hs, hhost, h]⟩
      · exact .inr (.inl ⟨why, by simp [deliver, hs, hhost, h]⟩)
      · exact .inr (.inr ⟨hfind, by simp [deliver, hs, hhost, h, make]⟩)

/-! ### What every operation does -/

/-- A relation that each small change of the instances is in, and so each operation. -/
structure Follows (ρ : Instances → Instances → Prop) : Prop where
  refl : ∀ x, ρ x x
  trans : ∀ {x y z}, ρ x y → ρ y z → ρ x z
  refuse : ∀ x decl span why, ρ x (x.refuse decl span why)
  make : ∀ x decl args depth, ρ x (x.make decl args depth)
  record : ∀ x notice t, ρ x { x with registry := x.registry.record notice t }
  pending : ∀ x notices, ρ x (x.withPending notices)
  subscription : ∀ x s, ρ x { x with registry := (x.registry.addSubscription s).2 }

section Follows

variable {ρ : Instances → Instances → Prop} (h : Follows ρ) (x : Instances) (env : TypeEnv) (limits : Limits)

include h

theorem Follows.create (decl : DeclId) (args : List Ty) (depth : Nat) (span : Span) :
    ρ x (x.create env limits decl args depth span).2 := by
  obtain ⟨i, -, hcreate⟩ | ⟨-, why, hcreate⟩ | ⟨-, -, -, hcreate⟩ := create_cases x env limits decl args depth span
  · rw [hcreate]
    exact h.refl x
  · rw [hcreate]
    exact h.refuse x decl span why
  · rw [hcreate]
    exact h.make x decl args depth

theorem Follows.deliver (notice : Notice) : ρ x (x.deliver env limits notice) := by
  obtain ⟨hdeliver, -⟩ | ⟨s, host, -, -, ⟨t, -, hdeliver⟩ | ⟨why, hdeliver⟩ | ⟨-, hdeliver⟩⟩ :=
    deliver_cases x env limits notice
  · rw [hdeliver]
    exact h.refl x
  · rw [hdeliver]
    exact h.record x notice t
  · rw [hdeliver]
    exact h.refuse x _ _ why
  · rw [hdeliver]
    exact h.trans (h.make x _ _ _) (h.record _ notice _)

theorem Follows.drain : ρ x (x.drain env limits) := by
  refine drain_induction (P := ρ x) (fun y notice rest _ hy => ?_) (h.refl x)
  exact h.trans hy (h.trans (h.pending y rest) (h.deliver _ env limits notice))

theorem Follows.instantiate (decl : DeclId) (args : List Ty) (span : Span) :
    ρ x (x.instantiate env limits decl args span).2 := by
  have hcreate := h.create x env limits decl args 0 span
  unfold Instances.instantiate
  split
  · exact h.refl x
  · split
    · rename_i heq
      rwa [heq] at hcreate
    · rename_i heq
      rw [heq] at hcreate
      exact h.trans hcreate (h.drain _ env limits)

theorem Follows.subscribe (s : Subscription) : ρ x (x.subscribe env limits s).2 := by
  have hadd := h.subscription x s
  unfold Instances.subscribe
  split
  · rename_i heq
    rwa [heq] at hadd
  · rename_i heq
    rw [heq] at hadd
    exact h.trans hadd (h.trans (h.pending _ _) (h.drain _ env limits))

end Follows

theorem extends_make (x : Instances) (decl : DeclId) (args : List Ty) (depth : Nat) :
    x.registry.Extends (x.make decl args depth).registry :=
  (Registry.extends_add x.registry decl args depth).trans (.of_eq rfl rfl)

theorem follows_extends : Follows fun x y => x.registry.Extends y.registry where
  refl _ := .refl _
  trans h h' := h.trans h'
  refuse x decl span why := by
    rw [registry_refuse]
    exact .refl _
  make := extends_make
  record _ _ _ := .of_eq rfl rfl
  pending _ _ := .of_eq rfl rfl
  subscription x s := Registry.extends_addSubscription x.registry s

/-! ### Every operation keeps the registry sound -/

theorem sound_make (hx : x.registry.Sound env) (hfind : x.registry.find? env decl args = none) (depth : Nat) :
    (x.make decl args depth).registry.Sound env :=
  (hx.add hfind depth).of_eq rfl rfl rfl

theorem sound_create (hx : x.registry.Sound env) (limits : Limits)
    (decl : DeclId) (args : List Ty) (depth : Nat) (span : Span) :
    (x.create env limits decl args depth span).2.registry.Sound env := by
  obtain ⟨i, -, h⟩ | ⟨-, why, h⟩ | ⟨hfind, -, -, h⟩ := create_cases x env limits decl args depth span
  · rwa [h]
  · rwa [h, registry_refuse]
  · rw [h]
    exact sound_make hx hfind depth

theorem sound_deliver (hx : x.registry.Sound env) (limits : Limits)
    (notice : Notice) : (x.deliver env limits notice).registry.Sound env := by
  obtain ⟨h, -⟩ | ⟨s, host, hs, hhost, ⟨t, hfind, h⟩ | ⟨why, h⟩ | ⟨hfind, h⟩⟩ :=
    deliver_cases x env limits notice
  · rwa [h]
  · rw [h]
    obtain ⟨it, hit, hsame⟩ := hx.iteration?_of_find? hfind
    exact hx.record hs hhost hit hsame
  · rwa [h, registry_refuse]
  · rw [h]
    have hext := extends_make x s.target (s.targetArgs host.args) host.nextDepth
    refine (sound_make hx hfind host.nextDepth).record (hext.subscription? hs) (hext.iteration? hhost)
      (Registry.iteration?_add_self x.registry _ _ _) ?_
    exact env.allSame_refl _

theorem sound_drain (hx : x.registry.Sound env) (limits : Limits) : (x.drain env limits).registry.Sound env := by
  refine drain_induction (P := fun y => y.registry.Sound env) ?_ hx
  intro y notice rest _ hy
  have hrest : (y.withPending rest).registry.Sound env := hy.of_eq rfl rfl rfl
  exact sound_deliver hrest limits notice

theorem sound_instantiate (hx : x.registry.Sound env) (limits : Limits) (decl : DeclId) (args : List Ty) (span : Span) :
    (x.instantiate env limits decl args span).2.registry.Sound env := by
  have hcreate := sound_create hx limits decl args 0 span
  unfold instantiate
  split
  · exact hx
  · split
    · rename_i h
      rwa [h] at hcreate
    · rename_i h
      rw [h] at hcreate
      exact sound_drain hcreate limits

theorem sound_subscribe (hx : x.registry.Sound env) (limits : Limits)
    (s : Subscription) : (x.subscribe env limits s).2.registry.Sound env := by
  have hadd := hx.addSubscription s
  unfold subscribe
  split
  · rename_i h
    rwa [h] at hadd
  · rename_i h
    rw [h] at hadd
    exact sound_drain (hadd.of_eq rfl rfl rfl) limits

/-! ### What an answer stands for -/

theorem iteration?_create {x y : Instances} {env : TypeEnv} (hx : x.registry.Sound env) {limits : Limits}
    {decl : DeclId} {args : List Ty} {depth : Nat} {span : Span} {i : IterationId}
    (h : x.create env limits decl args depth span = (some i, y)) :
    ∃ it, y.registry.iteration? decl i = some it ∧ env.allSame it.args args = true := by
  obtain ⟨j, hfind, hcreate⟩ | ⟨-, why, hcreate⟩ | ⟨-, -, -, hcreate⟩ :=
    create_cases x env limits decl args depth span
  · obtain ⟨hj, rfl⟩ := Prod.mk.inj (h.symm.trans hcreate)
    obtain rfl := Option.some.inj hj
    exact hx.iteration?_of_find? hfind
  · simp [hcreate] at h
  · obtain ⟨hj, rfl⟩ := Prod.mk.inj (h.symm.trans hcreate)
    obtain rfl := Option.some.inj hj
    exact ⟨_, Registry.iteration?_add_self x.registry decl args depth, env.allSame_refl args⟩

theorem iteration?_instantiate {x y : Instances} {env : TypeEnv} (hx : x.registry.Sound env)
    {limits : Limits} {decl : DeclId} {args : List Ty} {span : Span} {i : IterationId}
    (h : x.instantiate env limits decl args span = (some i, y)) :
    ∃ it, y.registry.iteration? decl i = some it ∧ env.allSame it.args args = true := by
  unfold instantiate at h
  split at h
  · simp at h
  · split at h
    · simp at h
    · rename_i index z hcreate
      obtain ⟨hindex, rfl⟩ := Prod.mk.inj h
      obtain rfl := Option.some.inj hindex
      obtain ⟨it, hit, hsame⟩ := iteration?_create hx hcreate
      exact ⟨it, (follows_extends.drain z env limits).iteration? hit, hsame⟩

end Instances

end Linkage
