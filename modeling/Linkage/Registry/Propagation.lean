import Linkage.Diagnostic
import Linkage.Options
import Linkage.Registry.Cursor

/-!
# Propagation

Making an iteration tells the subscriptions of its declaration about it; each of them asks for an
iteration of its target, which may be new and tell its own subscriptions in turn. Without a bound
this need not end, for a declaration may call for ever larger iterations of itself. The limits stop
it: an iteration is refused if it is too many steps away from one that source code asked for, or if
its declaration has too many. The first refusal for a declaration is reported.

The backlog counts the notices that can still come up: those in the queue, and as many again for
each iteration that there is room for as there are subscriptions. Delivering a notice never adds to
it, so the work comes to an end.
-/

namespace Linkage

inductive Refusal where
  | tooDeep (max : Nat)
  | tooMany (max : Nat)
  deriving DecidableEq, Repr, Inhabited

def Refusal.message : Refusal → String
  | .tooDeep max => "generic instantiation limit exceeded: nesting depth above " ++ max.repr
  | .tooMany max => "generic instantiation limit exceeded: more than " ++ max.repr ++ " iterations"

def Refusal.diagnostic (why : Refusal) (span : Span) : Diagnostic :=
  { kind := .instantiationLimit, phase := .instantiation, severity := .error, span, message := why.message }

/-- The registry, the declarations that were refused an iteration, and the reports so far. -/
structure Instances where
  registry : Registry := {}
  refused : List DeclId := []
  reports : List Diagnostic := []
  deriving Repr, Inhabited

namespace Instances

/-- Note that the declaration was refused an iteration, and report it if it is the first time. -/
def refuse (x : Instances) (decl : DeclId) (span : Span) (why : Refusal) : Instances :=
  if x.refused.contains decl then x
  else
    { x with
      refused := x.refused ++ [decl]
      reports := x.reports ++ [why.diagnostic span] }

/-- Make an iteration that is not there yet, and queue a notice for each of its subscriptions. -/
def make (x : Instances) (decl : DeclId) (args : List Ty) (depth : Nat) : Instances :=
  let index : IterationId := ⟨x.registry.count decl⟩
  let notices := (x.registry.subscriptionsOf decl).map (⟨·, index⟩)
  { x with registry := (x.registry.add decl args depth).enqueue notices }

/-- The iteration for the arguments, found or made, unless a limit is in the way. -/
def create (x : Instances) (env : TypeEnv) (limits : Limits) (decl : DeclId) (args : List Ty)
    (depth : Nat) (span : Span) : Option IterationId × Instances :=
  match x.registry.find? env decl args with
  | some index => (some index, x)
  | none =>
    if limits.maxDepth < depth then (none, x.refuse decl span (.tooDeep limits.maxDepth))
    else if limits.maxPerDecl ≤ x.registry.count decl then
      (none, x.refuse decl span (.tooMany limits.maxPerDecl))
    else (some ⟨x.registry.count decl⟩, x.make decl args depth)

/-- Pass a host iteration on to the target of a subscription. A notice of something that does not
exist has no effect. -/
def deliver (x : Instances) (env : TypeEnv) (limits : Limits) (notice : Notice) : Instances :=
  match x.registry.subscription? notice.subscription with
  | none => x
  | some s =>
    match x.registry.iteration? s.host notice.iteration with
    | none => x
    | some host =>
      match x.create env limits s.target (s.targetArgs host.args) host.nextDepth s.span with
      | (some target, x) => { x with registry := x.registry.record notice target }
      | (none, x) => x

/-- Take the notices off the queue up to `pending`. -/
def withPending (x : Instances) (pending : List Notice) : Instances :=
  { x with registry.pending := pending }

/-- How many iterations the limits leave room for, counted once for every subscription that may ask
for them. -/
def room (x : Instances) (limits : Limits) : Nat :=
  x.registry.subscriptions.foldr (fun s n => limits.maxPerDecl - x.registry.count s.target + n) 0

def backlog (x : Instances) (limits : Limits) : Nat :=
  x.registry.pending.length + x.room limits * (x.registry.subscriptions.length + 1)

@[simp] theorem registry_refuse (x : Instances) (decl : DeclId) (span : Span) (why : Refusal) :
    (x.refuse decl span why).registry = x.registry := by
  unfold refuse
  split <;> rfl

theorem refused_refuse (x : Instances) (decl : DeclId) (span : Span) (why : Refusal) :
    decl ∈ (x.refuse decl span why).refused := by
  unfold refuse
  split
  · exact List.contains_iff_mem.1 (by assumption)
  · exact List.mem_append_right _ List.mem_cons_self

theorem room_make_lt (x : Instances) {limits : Limits} {s : Subscription} (args : List Ty) (depth : Nat)
    (hs : s ∈ x.registry.subscriptions) (hroom : x.registry.count s.target < limits.maxPerDecl) :
    (x.make s.target args depth).room limits < x.room limits := by
  have hle : ∀ t : Subscription, limits.maxPerDecl - (x.make s.target args depth).registry.count t.target ≤
      limits.maxPerDecl - x.registry.count t.target := fun t =>
    Nat.sub_le_sub_left (Registry.count_le_count_add x.registry s.target args depth t.target) _
  have hlt : limits.maxPerDecl - (x.make s.target args depth).registry.count s.target <
      limits.maxPerDecl - x.registry.count s.target := by
    have hcount : (x.make s.target args depth).registry.count s.target = x.registry.count s.target + 1 :=
      Registry.count_add_self x.registry s.target args depth
    omega
  obtain ⟨before, after, hsplit⟩ := List.append_of_mem hs
  have hsame : (x.make s.target args depth).registry.subscriptions = x.registry.subscriptions := rfl
  rw [room, room, hsame, hsplit, List.foldr_append, List.foldr_append, List.foldr_cons, List.foldr_cons]
  -- nothing grows behind the subscription and before it, and there is less room for its own target
  refine List.foldr_rel (r := (· < ·)) (Nat.add_lt_add_of_lt_of_le hlt ?_) fun t _ _ _ h =>
    Nat.add_lt_add_of_le_of_lt (hle t) h
  exact List.foldr_rel (r := (· ≤ ·)) (Nat.le_refl 0) fun t _ _ _ h => Nat.add_le_add (hle t) h

theorem backlog_make_le (x : Instances) {limits : Limits} {s : Subscription} (args : List Ty) (depth : Nat)
    (hs : s ∈ x.registry.subscriptions) (hroom : x.registry.count s.target < limits.maxPerDecl) :
    (x.make s.target args depth).backlog limits ≤ x.backlog limits := by
  have hpending : (x.make s.target args depth).registry.pending.length =
      x.registry.pending.length + (x.registry.linksOf s.target).length := by
    simp [make, Registry.enqueue, Registry.add, Registry.subscriptionsOf]
  have hlinks := x.registry.length_linksOf_le s.target
  have hlt : (x.make s.target args depth).room limits + 1 ≤ x.room limits := room_make_lt x args depth hs hroom
  have hmul := Nat.mul_le_mul_right (x.registry.subscriptions.length + 1) hlt
  rw [Nat.succ_mul] at hmul
  show (x.make s.target args depth).registry.pending.length +
      (x.make s.target args depth).room limits * (x.registry.subscriptions.length + 1) ≤
    x.registry.pending.length + x.room limits * (x.registry.subscriptions.length + 1)
  omega

/-- What can come of asking for an iteration. -/
theorem create_cases (x : Instances) (env : TypeEnv) (limits : Limits) (decl : DeclId) (args : List Ty)
    (depth : Nat) (span : Span) :
    (∃ index, x.registry.find? env decl args = some index ∧
        x.create env limits decl args depth span = (some index, x)) ∨
      (x.registry.find? env decl args = none ∧
        ∃ why, x.create env limits decl args depth span = (none, x.refuse decl span why)) ∨
      (x.registry.find? env decl args = none ∧ depth ≤ limits.maxDepth ∧
        x.registry.count decl < limits.maxPerDecl ∧
        x.create env limits decl args depth span =
          (some ⟨x.registry.count decl⟩, x.make decl args depth)) := by
  cases hfind : x.registry.find? env decl args with
  | some index => exact .inl ⟨index, rfl, by simp [create, hfind]⟩
  | none =>
    by_cases hdepth : limits.maxDepth < depth
    · exact .inr (.inl ⟨rfl, .tooDeep limits.maxDepth, by simp only [create, hfind, hdepth, if_true]⟩)
    · by_cases hcount : limits.maxPerDecl ≤ x.registry.count decl
      · exact .inr (.inl ⟨rfl, .tooMany limits.maxPerDecl, by
          simp only [create, hfind, hdepth, hcount, if_true, if_false]⟩)
      · exact .inr (.inr ⟨rfl, Nat.le_of_not_lt hdepth, Nat.lt_of_not_le hcount, by
          simp only [create, hfind, hdepth, hcount, if_false]⟩)

theorem backlog_deliver_le (x : Instances) (env : TypeEnv) (limits : Limits) (notice : Notice) :
    (x.deliver env limits notice).backlog limits ≤ x.backlog limits := by
  unfold deliver
  split
  · exact Nat.le_refl _
  · rename_i s hs
    split
    · exact Nat.le_refl _
    · rename_i host _
      obtain ⟨index, -, h⟩ | ⟨-, why, h⟩ | ⟨-, -, hcount, h⟩ :=
        create_cases x env limits s.target (s.targetArgs host.args) host.nextDepth s.span
      · rw [h]
        exact Nat.le_refl _
      · rw [h]
        simp [backlog, room]
      · rw [h]
        exact backlog_make_le x _ _ (Registry.mem_subscriptions_of_get? hs) hcount

def drain (x : Instances) (env : TypeEnv) (limits : Limits) : Instances :=
  match _hpending : x.registry.pending with
  | [] => x
  | notice :: rest => ((x.withPending rest).deliver env limits notice).drain env limits
termination_by x.backlog limits
decreasing_by
  have hrest : (x.withPending rest).backlog limits < x.backlog limits := by
    show rest.length + x.room limits * _ < x.registry.pending.length + x.room limits * _
    rw [_hpending, List.length_cons]
    exact Nat.add_lt_add_right (Nat.lt_succ_self _) _
  exact Nat.lt_of_le_of_lt (backlog_deliver_le (x.withPending rest) env limits notice) hrest

/-- The iteration for closed arguments, with all that follows from it. There is none for arguments
that contain the unknown type, or if a limit is in the way. -/
def instantiate (x : Instances) (env : TypeEnv) (limits : Limits) (decl : DeclId) (args : List Ty)
    (span : Span) : Option IterationId × Instances :=
  if args.any (·.hasUnknown) then (none, x)
  else
    match x.create env limits decl args 0 span with
    | (none, x) => (none, x)
    | (some index, x) => (some index, x.drain env limits)

/-- Register a subscription. A new one is told of every iteration that its host has. -/
def subscribe (x : Instances) (env : TypeEnv) (limits : Limits) (s : Subscription) :
    SubscriptionId × Instances :=
  match x.registry.addSubscription s with
  | ((id, false), registry) => (id, { x with registry })
  | ((id, true), registry) =>
    let notices := (registry.iterationsOf s.host).map (⟨id, ·.index⟩)
    (id, { x with registry := registry.enqueue notices }.drain env limits)

def notify (x : Instances) (notice : Notice) : Instances :=
  { x with registry := x.registry.enqueue [notice] }

theorem pending_drain (x : Instances) (env : TypeEnv) (limits : Limits) :
    (x.drain env limits).registry.pending = [] := by
  fun_induction drain x env limits with
  | case1 x hpending => exact hpending
  | case2 x notice rest hpending ih => exact ih

end Instances

end Linkage
