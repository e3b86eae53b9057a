import Linkage.Proofs.Registry.Bounds
import Mathlib.Data.List.Induction

/-!
# The forecast of iterations

While notices are pending, `total` says how many iterations a declaration is going to have: those it has, and one for
each class of arguments that a pending notice asks for in vain. The class of an iteration that a delivery makes moves
from the forecast to what is there, and the notices that the new iteration gives rise to can only add classes. So the
forecast never falls, and it is what the queue leads to unless new notices ask for more.

A notice of an iteration that is not there yet asks for nothing, and it begins to ask for something when the iteration
is made. But then the subscription is told of the iteration anyway, by a notice that is new.
-/

namespace Linkage

namespace TypeEnv

theorem length_le_of_covered {env : TypeEnv} {us ws : List (List Ty)}
    (hdistinct : us.Pairwise fun a b => env.allSame a b = false)
    (hcovered : ∀ u ∈ us, ∃ w ∈ ws, env.allSame u w = true) : us.length ≤ ws.length := by
  induction us generalizing ws with
  | nil => exact Nat.zero_le _
  | cons u us ih =>
    rw [List.pairwise_cons] at hdistinct
    rw [List.forall_mem_cons] at hcovered
    obtain ⟨⟨w, hw, hsame⟩, hrest⟩ := hcovered
    obtain ⟨before, after, rfl⟩ := List.append_of_mem hw
    -- what the others are the same as is not `w`, which stands for `u` alone
    have hothers : ∀ v ∈ us, ∃ w' ∈ before ++ after, env.allSame v w' = true := by
      intro v hv
      obtain ⟨w', hw', hsame'⟩ := hrest v hv
      have hne : w' ≠ w := by
        rintro rfl
        have huv := allSame_trans hsame (allSame_symm hsame')
        simp [hdistinct.1 v hv] at huv
      simp only [List.mem_append, List.mem_cons] at hw' ⊢
      exact ⟨w', by tauto, hsame'⟩
    have hle := ih hdistinct.2 hothers
    simp only [List.length_append, List.length_cons] at hle ⊢
    omega

/-- The list has one member for each class of arguments that are wanted. -/
structure Represents (env : TypeEnv) (us : List (List Ty)) (W : List Ty → Prop) : Prop where
  distinct : us.Pairwise fun a b => env.allSame a b = false
  wanted : ∀ u ∈ us, W u
  covered : ∀ a, W a → ∃ u ∈ us, env.allSame a u = true

namespace Represents

variable {env : TypeEnv} {us us' : List (List Ty)} {W W' : List Ty → Prop}

theorem length_le (h : env.Represents us W) (h' : env.Represents us' W')
    (hmore : ∀ a, W a → ∃ b, W' b ∧ env.allSame a b = true) : us.length ≤ us'.length := by
  refine length_le_of_covered h.distinct fun u hu => ?_
  obtain ⟨b, hb, hsame⟩ := hmore u (h.wanted u hu)
  obtain ⟨w, hw, hsame'⟩ := h'.covered b hb
  exact ⟨w, hw, allSame_trans hsame hsame'⟩

theorem cons (h : env.Represents us W) {args : List Ty} (hnew : ∀ a, W a → env.allSame args a = false) :
    env.Represents (args :: us) fun a => a = args ∨ W a where
  distinct := List.pairwise_cons.2 ⟨fun u hu => hnew u (h.wanted u hu), h.distinct⟩
  wanted u hu := by
    rcases List.mem_cons.1 hu with rfl | hu
    · exact .inl rfl
    · exact .inr (h.wanted u hu)
  covered a ha := by
    rcases ha with rfl | ha
    · exact ⟨a, List.mem_cons_self, env.allSame_refl a⟩
    · obtain ⟨u, hu, hsame⟩ := h.covered a ha
      exact ⟨u, List.mem_cons_of_mem _ hu, hsame⟩

end Represents

end TypeEnv

namespace Registry

variable {r r' : Registry} {env : TypeEnv} {d t : DeclId} {args : List Ty} {depth : Nat} {notice : Notice}

theorem requested?_eq_some : r.requested? d notice = some args ↔
    ∃ s host, r.subscription? notice.subscription = some s ∧ s.target = d ∧
      r.iteration? s.host notice.iteration = some host ∧ s.targetArgs host.args = args := by
  simp only [requested?, Option.bind_eq_bind, Option.bind_eq_some_iff]
  constructor
  · rintro ⟨s, hs, h⟩
    split at h
    · rename_i htarget
      obtain ⟨host, hhost, h⟩ := Option.bind_eq_some_iff.1 h
      exact ⟨s, host, hs, htarget, hhost, Option.some.inj h⟩
    · simp at h
  · rintro ⟨s, host, hs, htarget, hhost, hargs⟩
    refine ⟨s, hs, ?_⟩
    rw [if_pos htarget, hhost, Option.bind_some, hargs]

theorem Extends.requested? (h : r.Extends r') (hargs : r.requested? d notice = some args) :
    r'.requested? d notice = some args := by
  obtain ⟨s, host, hs, htarget, hhost, rfl⟩ := requested?_eq_some.1 hargs
  exact requested?_eq_some.2 ⟨s, host, h.subscription? hs, htarget, h.iteration? hhost, rfl⟩

theorem find?_eq_none_iff : r.find? env d args = none ↔ ∀ it ∈ r.iterationsOf d, env.allSame it.args args = false := by
  rw [find?_eq_find?_iterationsOf, Option.map_eq_none_iff, List.find?_eq_none]
  simp

theorem find?_add_self (r : Registry) (env : TypeEnv) (d : DeclId) (args : List Ty) (depth : Nat) (a : List Ty) :
    (r.add d args depth).find? env d a = none ↔ r.find? env d a = none ∧ env.allSame args a = false := by
  rw [find?_eq_none_iff, find?_eq_none_iff, iterationsOf_add, if_pos rfl]
  simp [or_imp, forall_and]

theorem find?_add_of_ne (r : Registry) (env : TypeEnv) (hne : t ≠ d) (args : List Ty) (depth : Nat) (a : List Ty) :
    (r.add t args depth).find? env d a = r.find? env d a := by
  rw [find?_eq_find?_iterationsOf, find?_eq_find?_iterationsOf, iterationsOf_add, if_neg hne]

theorem find?_congr (h : r'.iterations = r.iterations) : r'.find? env d args = r.find? env d args := by
  rw [find?, find?, h]

theorem count_congr (h : r'.iterations = r.iterations) : r'.count d = r.count d := by
  rw [count, count, h]

/-! ### The arguments that pending notices ask for -/

/-- A pending notice asks for an iteration that is not there. -/
def Wanted (r : Registry) (env : TypeEnv) (d : DeclId) (args : List Ty) : Prop :=
  r.find? env d args = none ∧ ∃ notice ∈ r.pending, r.requested? d notice = some args

theorem upcoming_append (r : Registry) (env : TypeEnv) (d : DeclId) (requests : List (List Ty)) (args : List Ty) :
    r.upcoming env d (requests ++ [args]) =
      if (r.find? env d args).isNone && !(r.upcoming env d requests).any (env.allSame · args) then
        r.upcoming env d requests ++ [args]
      else r.upcoming env d requests := by
  rw [upcoming, List.foldl_append]
  rfl

theorem represents_upcoming (r : Registry) (env : TypeEnv) (d : DeclId) (requests : List (List Ty)) :
    env.Represents (r.upcoming env d requests) fun args => r.find? env d args = none ∧ args ∈ requests := by
  induction requests using List.reverseRecOn with
  | nil => exact ⟨.nil, by simp [upcoming], by simp⟩
  | append_singleton requests args ih =>
    rw [upcoming_append]
    split
    · rename_i hnew
      simp only [Bool.and_eq_true, Option.isNone_iff_eq_none, Bool.not_eq_true', List.any_eq_false] at hnew
      obtain ⟨hnone, hnew⟩ := hnew
      refine ⟨?_, fun u hu => ?_, fun a ha => ?_⟩
      · refine List.pairwise_append.2 ⟨ih.distinct, List.pairwise_singleton _ _, fun u hu b hb => ?_⟩
        rw [List.mem_singleton.1 hb]
        simpa using hnew u hu
      · rcases List.mem_append.1 hu with hu | hu
        · exact ⟨(ih.wanted u hu).1, List.mem_append_left _ (ih.wanted u hu).2⟩
        · rw [List.mem_singleton.1 hu]
          exact ⟨hnone, by simp⟩
      · rcases List.mem_append.1 ha.2 with hmem | hmem
        · obtain ⟨u, hu, hsame⟩ := ih.covered a ⟨ha.1, hmem⟩
          exact ⟨u, List.mem_append_left _ hu, hsame⟩
        · exact ⟨a, List.mem_append_right _ hmem, env.allSame_refl a⟩
    · rename_i hold
      refine ⟨ih.distinct, fun u hu => ⟨(ih.wanted u hu).1, List.mem_append_left _ (ih.wanted u hu).2⟩, fun a ha => ?_⟩
      rcases List.mem_append.1 ha.2 with hmem | hmem
      · exact ih.covered a ⟨ha.1, hmem⟩
      · obtain rfl := List.mem_singleton.1 hmem
        -- it was not added although it is not there, so something the same was found before
        rw [ha.1] at hold
        simp only [Option.isNone_none, Bool.true_and, Bool.not_eq_true', Bool.not_eq_false, List.any_eq_true] at hold
        obtain ⟨u, hu, hsame⟩ := hold
        exact ⟨u, hu, TypeEnv.allSame_symm hsame⟩

theorem represents_wanted (r : Registry) (env : TypeEnv) (d : DeclId) :
    env.Represents (r.upcoming env d (r.pending.filterMap (r.requested? d))) (r.Wanted env d) := by
  have h := r.represents_upcoming env d (r.pending.filterMap (r.requested? d))
  simp only [List.mem_filterMap] at h
  exact h

theorem total_of_idle (env : TypeEnv) (d : DeclId) (h : r.pending = []) : r.total env d = r.count d := by
  rw [total, h]
  rfl

/-! ### One notice -/

def Targets (r : Registry) (notice : Notice) (d : DeclId) : Prop :=
  ∃ s, r.subscription? notice.subscription = some s ∧ s.target = d

/-- The first notice is taken off the queue and makes nothing, since it asks for nothing that is not there. -/
structure Skips (env : TypeEnv) (notice : Notice) (r r' : Registry) : Prop where
  pending : r.pending = notice :: r'.pending
  present : ∀ d args, r.requested? d notice = some args → r.find? env d args ≠ none
  iterations : r'.iterations = r.iterations
  subscriptions : r'.subscriptions = r.subscriptions

/-- The first notice is taken off the queue and makes what it asks for. The notices of the new iteration are
queued. -/
structure Makes (env : TypeEnv) (notice : Notice) (t : DeclId) (args : List Ty) (added : List Notice)
    (r r' : Registry) : Prop where
  pending : ∃ rest, r.pending = notice :: rest ∧ r'.pending = rest ++ added
  requested : r.requested? t notice = some args
  absent : r.find? env t args = none
  iterations : ∃ depth, r'.iterations = (r.add t args depth).iterations
  subscriptions : r'.subscriptions = r.subscriptions
  notices : added = (r.subscriptionsOf t).map (⟨·, ⟨r.count t⟩⟩)

theorem total_le_total (hcount : r.count d ≤ r'.count d)
    (hwanted : ∀ a, r.Wanted env d a → r'.Wanted env d a) : r.total env d ≤ r'.total env d := by
  refine Nat.add_le_add hcount ((r.represents_wanted env d).length_le (r'.represents_wanted env d) fun a ha => ?_)
  exact ⟨a, hwanted a ha, env.allSame_refl a⟩

theorem total_eq_total (hcount : r'.count d = r.count d)
    (hwanted : ∀ a, r'.Wanted env d a ↔ r.Wanted env d a) : r'.total env d = r.total env d :=
  Nat.le_antisymm (total_le_total (Nat.le_of_eq hcount) fun a ha => (hwanted a).1 ha)
    (total_le_total (Nat.le_of_eq hcount.symm) fun a ha => (hwanted a).2 ha)

theorem Skips.total (h : Skips env notice r r') (d : DeclId) : r'.total env d = r.total env d := by
  have hext : r.Extends r' := .of_eq h.iterations h.subscriptions
  have hext' : r'.Extends r := .of_eq h.iterations.symm h.subscriptions.symm
  refine total_eq_total (count_congr h.iterations) fun a => ?_
  rw [Wanted, Wanted, h.pending, find?_congr h.iterations]
  refine and_congr_right fun hnone => ⟨?_, ?_⟩
  · rintro ⟨n, hn, hrequested⟩
    exact ⟨n, List.mem_cons_of_mem _ hn, hext'.requested? hrequested⟩
  · rintro ⟨n, hn, hrequested⟩
    rcases List.mem_cons.1 hn with rfl | hn
    · exact absurd hnone (h.present d a hrequested)
    · exact ⟨n, hn, hext.requested? hrequested⟩

namespace Makes

variable {added : List Notice} (h : Makes env notice t args added r r')
include h

theorem grows : r.Extends r' := by
  obtain ⟨depth, hiterations⟩ := h.iterations
  exact (extends_add r t args depth).trans (.of_eq hiterations h.subscriptions)

theorem count_self : r'.count t = r.count t + 1 := by
  obtain ⟨depth, hiterations⟩ := h.iterations
  exact (count_congr hiterations).trans (count_add_self r t args depth)

theorem count_of_ne (hne : t ≠ d) : r'.count d = r.count d := by
  obtain ⟨depth, hiterations⟩ := h.iterations
  exact (count_congr hiterations).trans (count_add_of_ne r args depth hne)

theorem find?_self {a : List Ty} :
    r'.find? env t a = none ↔ r.find? env t a = none ∧ env.allSame args a = false := by
  obtain ⟨depth, hiterations⟩ := h.iterations
  rw [find?_congr hiterations]
  exact r.find?_add_self env t args depth a

theorem find?_of_ne (hne : t ≠ d) {a : List Ty} :
    r'.find? env d a = r.find? env d a := by
  obtain ⟨depth, hiterations⟩ := h.iterations
  exact (find?_congr hiterations).trans (r.find?_add_of_ne env hne args depth a)

theorem wanted {a : List Ty} (ha : r.Wanted env d a) :
    r'.Wanted env d a ∨ t = d ∧ env.allSame args a = true := by
  obtain ⟨hnone, n, hn, hrequested⟩ := ha
  obtain ⟨rest, hpending, hpending'⟩ := h.pending
  rw [hpending] at hn
  rcases List.mem_cons.1 hn with rfl | hn
  · -- the notice that was delivered asked for the target and for nothing else
    obtain ⟨s, host, hs, htarget, hhost, rfl⟩ := requested?_eq_some.1 h.requested
    obtain ⟨s', host', hs', htarget', hhost', rfl⟩ := requested?_eq_some.1 hrequested
    obtain rfl := Option.some.inj (hs.symm.trans hs')
    obtain rfl := Option.some.inj (hhost.symm.trans hhost')
    exact .inr ⟨htarget.symm.trans htarget', env.allSame_refl _⟩
  · have hasked : ∃ n ∈ r'.pending, r'.requested? d n = some a := by
      rw [hpending']
      exact ⟨n, List.mem_append_left _ hn, h.grows.requested? hrequested⟩
    by_cases htd : t = d
    · subst htd
      cases hsame : env.allSame args a with
      | true => exact .inr ⟨rfl, rfl⟩
      | false => exact .inl ⟨h.find?_self.2 ⟨hnone, hsame⟩, hasked⟩
    · exact .inl ⟨(h.find?_of_ne htd).trans hnone, hasked⟩

theorem wanted_of_quiet (hquiet : ∀ n ∈ added, ¬r.Targets n d)
    {a : List Ty} (ha : r'.Wanted env d a) : r.Wanted env d a := by
  obtain ⟨hnone, n, hn, hrequested⟩ := ha
  obtain ⟨rest, hpending, hpending'⟩ := h.pending
  obtain ⟨depth, hiterations⟩ := h.iterations
  obtain ⟨s, host, hs, htarget, hhost, rfl⟩ := requested?_eq_some.1 hrequested
  have hs : r.subscription? n.subscription = some s := by rwa [subscription?, h.subscriptions] at hs
  refine ⟨?_, n, ?_, ?_⟩
  · by_cases htd : t = d
    · subst htd
      exact (h.find?_self.1 hnone).1
    · exact (h.find?_of_ne htd).symm.trans hnone
  · rw [hpending'] at hn
    rw [hpending]
    rcases List.mem_append.1 hn with hn | hn
    · exact List.mem_cons_of_mem _ hn
    · exact absurd ⟨s, hs, htarget⟩ (hquiet n hn)
  · have hhost : (r.add t args depth).iteration? s.host n.iteration = some host := by
      rwa [iteration?, iterationsOf, hiterations] at hhost
    rcases iteration?_add hhost with hold | ⟨hst, hindex⟩
    · exact requested?_eq_some.2 ⟨s, host, hs, htarget, hold, rfl⟩
    · -- the host is the new iteration, so the subscription has been told of it
      have hadded : (⟨n.subscription, ⟨r.count t⟩⟩ : Notice) ∈ added := by
        rw [h.notices, ← hst]
        exact List.mem_map.2 ⟨_, Instances.mem_subscriptionsOf hs, by rw [hst]⟩
      exact absurd ⟨s, hs, htarget⟩ (hquiet _ hadded)

theorem represents :
    env.Represents (args :: r'.upcoming env t (r'.pending.filterMap (r'.requested? t)))
      fun a => a = args ∨ r'.Wanted env t a :=
  (r'.represents_wanted env t).cons fun _ ha => (h.find?_self.1 ha.1).2

theorem total_le (d : DeclId) : r.total env d ≤ r'.total env d := by
  by_cases htd : t = d
  · subst htd
    have hle := (r.represents_wanted env t).length_le h.represents fun a ha => by
      rcases h.wanted ha with hwanted | ⟨-, hsame⟩
      · exact ⟨a, .inr hwanted, env.allSame_refl a⟩
      · exact ⟨args, .inl rfl, TypeEnv.allSame_symm hsame⟩
    rw [total, total, h.count_self]
    rw [List.length_cons] at hle
    omega
  · refine total_le_total (Nat.le_of_eq (h.count_of_ne htd).symm) fun a ha => ?_
    exact (h.wanted ha).resolve_right fun hmade => htd hmade.1

theorem total_eq (hquiet : ∀ n ∈ added, ¬r.Targets n d) :
    r'.total env d = r.total env d := by
  by_cases htd : t = d
  · subst htd
    have hle := h.represents.length_le (r.represents_wanted env t) fun a ha => by
      refine ⟨a, ?_, env.allSame_refl a⟩
      rcases ha with rfl | hwanted
      · obtain ⟨rest, hpending, -⟩ := h.pending
        exact ⟨h.absent, notice, by simp [hpending], h.requested⟩
      · exact h.wanted_of_quiet hquiet hwanted
    have hge := h.total_le t
    rw [total, total, h.count_self] at hge ⊢
    rw [List.length_cons] at hle
    omega
  · refine total_eq_total (h.count_of_ne htd) fun a => ⟨h.wanted_of_quiet hquiet, fun ha => ?_⟩
    exact (h.wanted ha).resolve_right fun hmade => htd hmade.1

theorem iterations_ne : r'.iterations ≠ r.iterations := by
  intro heq
  have hcount := h.count_self
  rw [count_congr heq] at hcount
  omega

end Makes

end Registry

namespace Instances

open Registry

variable {env : TypeEnv} {limits : Limits} {x y : Instances} {notice : Notice} {rest : List Notice}

/-- Where no limit is in the way, delivering a notice makes what it asks for if it is not there, and nothing else. -/
theorem deliver_of_noticeDenials (hdenials : x.noticeDenials env limits notice = []) :
    ((∀ d args, x.registry.requested? d notice = some args → x.registry.find? env d args ≠ none) ∧
        ∃ mapping, (x.deliver env limits notice).registry = { x.registry with mapping := mapping }) ∨
      ∃ t args depth mapping, x.registry.requested? t notice = some args ∧ x.registry.find? env t args = none ∧
        (x.deliver env limits notice).registry = { (x.make t args depth).registry with mapping := mapping } := by
  cases hs : x.registry.subscription? notice.subscription with
  | none =>
    refine .inl ⟨fun d args hrequested => ?_, x.registry.mapping, by simp [deliver, hs]⟩
    simp [requested?, hs] at hrequested
  | some s =>
    cases hhost : x.registry.iteration? s.host notice.iteration with
    | none =>
      refine .inl ⟨fun d args hrequested => ?_, x.registry.mapping, by simp [deliver, hs, hhost]⟩
      simp [requested?, hs, hhost] at hrequested
    | some host =>
      simp only [noticeDenials, hs, hhost, denials] at hdenials
      obtain ⟨i, hfind, h⟩ | ⟨-, why, h⟩ | ⟨hfind, -, -, h⟩ :=
        create_cases x env limits s.target (s.targetArgs host.args) host.nextDepth s.span
      · refine .inl ⟨fun d args hrequested => ?_, _, by simp only [deliver, hs, hhost, h]; rfl⟩
        obtain ⟨s', host', hs', rfl, hhost', rfl⟩ := requested?_eq_some.1 hrequested
        obtain rfl := Option.some.inj (hs.symm.trans hs')
        obtain rfl := Option.some.inj (hhost.symm.trans hhost')
        simp [hfind]
      · simp [h] at hdenials
      · refine .inr ⟨s.target, s.targetArgs host.args, host.nextDepth, _, ?_, hfind, by
          simp only [deliver, hs, hhost, h]; rfl⟩
        exact requested?_eq_some.2 ⟨s, host, hs, rfl, hhost, rfl⟩

theorem skips_or_makes (hpending : x.registry.pending = notice :: rest)
    (hdenials : (x.withPending rest).noticeDenials env limits notice = []) :
    Skips env notice x.registry ((x.withPending rest).deliver env limits notice).registry ∨
      ∃ t args added, Makes env notice t args added x.registry
        ((x.withPending rest).deliver env limits notice).registry := by
  obtain ⟨hpresent, mapping, h⟩ | ⟨t, args, depth, mapping, hrequested, habsent, h⟩ := deliver_of_noticeDenials hdenials
  · rw [h]
    exact .inl ⟨hpending, hpresent, rfl, rfl⟩
  · rw [h]
    exact .inr ⟨t, args, _, ⟨rest, hpending, rfl⟩, hrequested, habsent, ⟨depth, rfl⟩, rfl, rfl⟩

/-! ### The whole queue -/

/-- All that is in the queue is worked off, from `x` to `y`, with the denials on the way and the notices that were
queued. -/
inductive Drained (env : TypeEnv) (limits : Limits) : Instances → List Denial → List Notice → Instances → Prop
  | done {x : Instances} (hpending : x.registry.pending = []) : Drained env limits x [] [] x
  | next {x y : Instances} {notice : Notice} {rest added more : List Notice} {ds : List Denial}
      (hpending : x.registry.pending = notice :: rest)
      (hadded : ((x.withPending rest).deliver env limits notice).registry.pending = rest ++ added)
      (h : Drained env limits ((x.withPending rest).deliver env limits notice) ds more y) :
      Drained env limits x ((x.withPending rest).noticeDenials env limits notice ++ ds) (added ++ more) y

theorem pending_deliver (x : Instances) (env : TypeEnv) (limits : Limits) (notice : Notice) :
    ∃ added, (x.deliver env limits notice).registry.pending = x.registry.pending ++ added := by
  obtain ⟨h, -⟩ | ⟨s, host, -, -, ⟨t, -, h⟩ | ⟨why, h⟩ | ⟨-, h⟩⟩ := deliver_cases x env limits notice
  · exact ⟨[], by rw [h, List.append_nil]⟩
  · exact ⟨[], by rw [h, List.append_nil]; rfl⟩
  · exact ⟨[], by rw [h, registry_refuse, List.append_nil]⟩
  · exact ⟨_, by rw [h]; rfl⟩

theorem Deliveries.drained {n : Nat} (h : Deliveries env limits n x y) (hidle : y.registry.pending = []) :
    ∃ ds added, Drained env limits x ds added y := by
  induction h with
  | none x => exact ⟨[], [], .done hidle⟩
  | @next n x y notice rest hpending _ ih =>
    obtain ⟨ds, more, hrun⟩ := ih hidle
    obtain ⟨added, hadded⟩ := pending_deliver (x.withPending rest) env limits notice
    exact ⟨_, _, .next hpending hadded hrun⟩

theorem drained_drain (x : Instances) (env : TypeEnv) (limits : Limits) :
    ∃ ds added, Drained env limits x ds added (x.drain env limits) := by
  obtain ⟨n, hn⟩ := deliveries_drain x env limits
  exact hn.drained (pending_drain x env limits)

theorem Drained.undenied (added : List Notice) {more : List Notice} (hpending : x.registry.pending = notice :: rest)
    (hdenials : (x.withPending rest).noticeDenials env limits notice = [])
    (hadded : ((x.withPending rest).deliver env limits notice).registry.pending = rest ++ added)
    (h : Drained env limits ((x.withPending rest).deliver env limits notice) [] more y) :
    Drained env limits x [] (added ++ more) y := by
  have hnext := Drained.next hpending hadded h
  rwa [hdenials] at hnext

theorem drain_of_pending (hpending : x.registry.pending = notice :: rest) :
    x.drain env limits = ((x.withPending rest).deliver env limits notice).drain env limits := by
  rw [drain]
  split
  · rename_i h
    rw [hpending] at h
    contradiction
  · rename_i h
    rw [hpending] at h
    obtain ⟨rfl, rfl⟩ := List.cons.inj h
    rfl

theorem Drained.eq_drain {ds : List Denial} {added : List Notice} (h : Drained env limits x ds added y) :
    y = x.drain env limits := by
  induction h with
  | done hpending => exact (drain_of_idle hpending env limits).symm
  | next hpending _ _ ih => rw [drain_of_pending hpending, ih]

theorem Drained.total {ds : List Denial} {added : List Notice} (h : Drained env limits x ds added y) (hds : ds = [])
    (d : DeclId) : x.registry.total env d ≤ y.registry.total env d ∧
      ((∀ n ∈ added, ¬x.registry.Targets n d) → y.registry.total env d = x.registry.total env d) := by
  induction h with
  | done _ => exact ⟨Nat.le_refl _, fun _ => rfl⟩
  | @next x y notice rest added more ds hpending hadded _ ih =>
    obtain ⟨hdenials, rfl⟩ := List.append_eq_nil_iff.1 hds
    obtain ⟨hle, heq⟩ := ih rfl
    rcases skips_or_makes hpending hdenials with hskips | ⟨t, args, added', hmakes⟩
    · rw [hskips.total] at hle heq
      refine ⟨hle, fun hquiet => heq fun n hn => ?_⟩
      rw [Targets, subscription?, hskips.subscriptions]
      exact hquiet n (List.mem_append_right _ hn)
    · refine ⟨Nat.le_trans (hmakes.total_le d) hle, fun hquiet => ?_⟩
      obtain ⟨rest', hpending', hadded'⟩ := hmakes.pending
      obtain rfl : rest' = rest := (List.cons.inj (hpending'.symm.trans hpending)).2
      obtain rfl : added' = added := List.append_cancel_left (hadded'.symm.trans hadded)
      rw [← hmakes.total_eq fun n hn => hquiet n (List.mem_append_left _ hn)]
      refine heq fun n hn => ?_
      rw [Targets, subscription?, hmakes.subscriptions]
      exact hquiet n (List.mem_append_right _ hn)

/-- Unless a limit is in the way, delivering the first notice never lowers the forecast for any declaration, and it
leaves all forecasts as they are if it makes nothing. So a queue that is worked off without a denial leads to at least
as many iterations as were forecast, and to no more where none of the notices queued on the way is of a subscription
to the declaration. -/
theorem total_forecast (x : Instances) (env : TypeEnv) (limits : Limits) :
    (∀ notice rest, x.registry.pending = notice :: rest →
      (x.withPending rest).noticeDenials env limits notice = [] →
      let next := (x.withPending rest).deliver env limits notice
      (∀ d, x.registry.total env d ≤ next.registry.total env d) ∧
        (next.registry.iterations = x.registry.iterations →
          ∀ d, next.registry.total env d = x.registry.total env d)) ∧
    (∃ ds added, Drained env limits x ds added (x.drain env limits)) ∧
    ∀ added y, Drained env limits x [] added y →
      y = x.drain env limits ∧
        ∀ d, x.registry.total env d ≤ y.registry.count d ∧
          ((∀ n ∈ added, ¬x.registry.Targets n d) → y.registry.count d = x.registry.total env d) := by
  refine ⟨fun notice rest hpending hdenials => ?_, drained_drain x env limits, fun added y h => ?_⟩
  · rcases skips_or_makes hpending hdenials with hskips | ⟨t, args, added, hmakes⟩
    · exact ⟨fun d => Nat.le_of_eq (hskips.total d).symm, fun _ => hskips.total⟩
    · exact ⟨hmakes.total_le, fun hsame => absurd hsame hmakes.iterations_ne⟩
  · have hy := h.eq_drain
    have hidle : y.registry.pending = [] := hy ▸ pending_drain x env limits
    refine ⟨hy, fun d => ?_⟩
    rw [← total_of_idle env d hidle]
    exact h.total rfl d

end Instances

/-- A pair of `int` has asked for a box of `int` twice, and a box is going to ask for a list of pointers. -/
def queuedPair : Instances where
  registry := {
    iterations := [⟨⟨0⟩, ⟨0⟩, [.int], 0⟩]
    subscriptions := [⟨⟨0⟩, [⟨0⟩], ⟨1⟩, [.param ⟨0⟩], {}⟩, ⟨⟨1⟩, [⟨1⟩], ⟨2⟩, [.pointer (.param ⟨1⟩)], {}⟩]
    pending := [⟨⟨0⟩, ⟨0⟩⟩, ⟨⟨0⟩, ⟨0⟩⟩] }

/-- The box is forecast, once. The list is not, since nothing has asked for it yet. -/
theorem total_queuedPair :
    (queuedPair.registry.total {} ⟨1⟩ = 1 ∧ queuedPair.registry.total {} ⟨2⟩ = 0) ∧
      ∃ y, Instances.Drained {} {} queuedPair [] [⟨⟨1⟩, ⟨0⟩⟩] y ∧ y = queuedPair.drain {} {} ∧
        y.registry.count ⟨1⟩ = queuedPair.registry.total {} ⟨1⟩ ∧
        queuedPair.registry.total {} ⟨2⟩ ≤ y.registry.count ⟨2⟩ := by
  let box := (queuedPair.withPending [⟨⟨0⟩, ⟨0⟩⟩]).deliver {} {} ⟨⟨0⟩, ⟨0⟩⟩
  let again := (box.withPending [⟨⟨1⟩, ⟨0⟩⟩]).deliver {} {} ⟨⟨0⟩, ⟨0⟩⟩
  let list := (again.withPending []).deliver {} {} ⟨⟨1⟩, ⟨0⟩⟩
  have hlist : Instances.Drained {} {} again [] [] list := .undenied [] rfl rfl rfl (.done rfl)
  have hagain : Instances.Drained {} {} box [] [] list := .undenied [] rfl rfl rfl hlist
  have hrun : Instances.Drained {} {} queuedPair [] [⟨⟨1⟩, ⟨0⟩⟩] list := .undenied [⟨⟨1⟩, ⟨0⟩⟩] rfl rfl rfl hagain
  obtain ⟨-, -, hforecast⟩ := Instances.total_forecast queuedPair {} {}
  obtain ⟨hdrain, hcount⟩ := hforecast [⟨⟨1⟩, ⟨0⟩⟩] list hrun
  refine ⟨⟨rfl, rfl⟩, list, hrun, hdrain, (hcount ⟨1⟩).2 fun n hn => ?_, (hcount ⟨2⟩).1⟩
  rintro ⟨s, hs, htarget⟩
  obtain rfl := List.mem_singleton.1 hn
  obtain rfl := Option.some.inj hs
  simp at htarget

end Linkage
