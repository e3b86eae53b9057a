import Linkage.Span
import Linkage.Table
import Linkage.Ty.Relation
import Linkage.Ty.Subst

/-!
# The registry of iterations

A generic declaration has one iteration for each list of arguments it is used with, up to sameness
of types. Iterations are numbered per declaration in the order of their creation and are never
changed, so an index names one closed copy of the declaration for good.

A generic use inside a generic host, such as a list of `T` inside a cache of `T`, is a subscription:
each iteration of the host calls for an iteration of the target, with the template of the
subscription closed over the arguments of the host. Which target iteration was found for which host
iteration is kept in a mapping. A notice says that a host iteration has yet to be passed on.

The registry also holds the cursors, the iteration of each declaration that is active at the moment.
-/

namespace Linkage

structure Iteration where
  decl : DeclId
  index : IterationId
  args : List Ty
  /-- The number of propagation steps from an iteration that source code asked for. -/
  depth : Nat
  deriving DecidableEq, Repr, Inhabited

/-- The depth of what the iteration calls for. Depths are counted in 32 bits. -/
def Iteration.nextDepth (it : Iteration) : Nat := (it.depth + 1) % 0x100000000

theorem Iteration.nextDepth_of_lt {it : Iteration} (h : it.depth + 1 < 0x100000000) :
    it.nextDepth = it.depth + 1 :=
  Nat.mod_eq_of_lt h

structure Subscription where
  host : DeclId
  hostParams : List GenericId
  target : DeclId
  /-- The arguments of the target, open over the parameters of the host. -/
  template : List Ty
  span : Span
  deriving DecidableEq, Repr, Inhabited

namespace Subscription

/-- The arguments of the target for a host iteration with the given arguments. -/
def targetArgs (s : Subscription) (hostArgs : List Ty) : List Ty :=
  Ty.substAll s.template s.hostParams hostArgs

/-- Two subscriptions that ask for the same thing, wherever they are written. -/
def agrees (s t : Subscription) : Bool :=
  s.host == t.host && s.target == t.target && s.template == t.template

end Subscription

/-- A host iteration that a subscription has not been told of yet. -/
structure Notice where
  subscription : SubscriptionId
  iteration : IterationId
  deriving DecidableEq, Repr, Inhabited

structure Registry where
  iterations : List Iteration := []
  subscriptions : List Subscription := []
  /-- The notices to be worked off, first come first served. -/
  pending : List Notice := []
  /-- The target iteration that a subscription selected for a host iteration. -/
  mapping : Table (SubscriptionId × IterationId) IterationId := {}
  active : Table DeclId IterationId := {}
  deriving Repr, Inhabited

namespace Registry

def iterationsOf (r : Registry) (decl : DeclId) : List Iteration :=
  r.iterations.filter (·.decl == decl)

def count (r : Registry) (decl : DeclId) : Nat := r.iterations.countP (·.decl == decl)

def iteration? (r : Registry) (decl : DeclId) (index : IterationId) : Option Iteration :=
  index.get? (r.iterationsOf decl)

/-- The iteration of the declaration whose arguments are the same as the given ones. -/
def find? (r : Registry) (env : TypeEnv) (decl : DeclId) (args : List Ty) : Option IterationId :=
  (r.iterations.find? fun it => it.decl == decl && env.allSame it.args args).map (·.index)

def add (r : Registry) (decl : DeclId) (args : List Ty) (depth : Nat) : Registry :=
  { r with iterations := r.iterations ++ [{ decl, index := ⟨r.count decl⟩, args, depth }] }

/-- The iteration for the arguments, made if it is not there. The flag tells whether it was made. -/
def getOrCreate (r : Registry) (env : TypeEnv) (decl : DeclId) (args : List Ty) (depth : Nat) :
    (IterationId × Bool) × Registry :=
  match r.find? env decl args with
  | some index => ((index, false), r)
  | none => ((⟨r.count decl⟩, true), r.add decl args depth)

def subscription? (r : Registry) (id : SubscriptionId) : Option Subscription := id.get? r.subscriptions

def numbered (r : Registry) : List (SubscriptionId × Subscription) :=
  r.subscriptions.mapIdx fun i s => (⟨i⟩, s)

/-- The subscriptions of a host with their identifiers, in the order of their registration. -/
def linksOf (r : Registry) (host : DeclId) : List (SubscriptionId × Subscription) :=
  r.numbered.filter (·.2.host == host)

def subscriptionsOf (r : Registry) (host : DeclId) : List SubscriptionId := (r.linksOf host).map (·.1)

/-- Register a subscription unless one that asks for the same is there. The flag tells whether it is
new. -/
def addSubscription (r : Registry) (s : Subscription) : (SubscriptionId × Bool) × Registry :=
  match r.subscriptions.findIdx? (·.agrees s) with
  | some i => ((⟨i⟩, false), r)
  | none => ((NodeId.next r.subscriptions, true), { r with subscriptions := r.subscriptions ++ [s] })

def enqueue (r : Registry) (notices : List Notice) : Registry :=
  { r with pending := r.pending ++ notices }

/-- The target iteration that the subscription selected for the host iteration. -/
def mapped? (r : Registry) (id : SubscriptionId) (host : IterationId) : Option IterationId :=
  r.mapping.get? (id, host)

def record (r : Registry) (notice : Notice) (target : IterationId) : Registry :=
  { r with mapping := r.mapping.insert (notice.subscription, notice.iteration) target }

/-- The arguments that a notice calls for, if it concerns the target and its host iteration exists. -/
def requested? (r : Registry) (target : DeclId) (notice : Notice) : Option (List Ty) := do
  let s ← r.subscription? notice.subscription
  if s.target = target then
    let host ← r.iteration? s.host notice.iteration
    some (s.targetArgs host.args)
  else none

/-- The argument lists among `requests` that are new, each once. -/
def upcoming (r : Registry) (env : TypeEnv) (decl : DeclId) (requests : List (List Ty)) : List (List Ty) :=
  requests.foldl
    (fun found args =>
      if (r.find? env decl args).isNone && !found.any (env.allSame · args) then found ++ [args] else found)
    []

/-- The iterations of the declaration, and those that the pending notices are going to add. -/
def total (r : Registry) (env : TypeEnv) (decl : DeclId) : Nat :=
  r.count decl + (r.upcoming env decl (r.pending.filterMap (r.requested? decl))).length

/-- The declarations that have an iteration or host a subscription, by identifier. -/
def entries (r : Registry) : List DeclId :=
  (r.iterations.map (·.decl) ++ r.subscriptions.map (·.host)).eraseDups.mergeSort
    fun a b => decide (a.index ≤ b.index)

theorem count_eq_length (r : Registry) (decl : DeclId) : r.count decl = (r.iterationsOf decl).length :=
  List.countP_eq_length_filter

theorem find?_eq_find?_iterationsOf (r : Registry) (env : TypeEnv) (decl : DeclId) (args : List Ty) :
    r.find? env decl args =
      ((r.iterationsOf decl).find? fun it => env.allSame it.args args).map (·.index) := by
  simp only [find?, iterationsOf, List.find?_filter, Bool.and_eq_decide]

theorem iterationsOf_add (r : Registry) (decl : DeclId) (args : List Ty) (depth : Nat) (other : DeclId) :
    (r.add decl args depth).iterationsOf other =
      if decl = other then r.iterationsOf other ++ [{ decl, index := ⟨r.count decl⟩, args, depth }]
      else r.iterationsOf other := by
  by_cases h : decl = other <;> simp [iterationsOf, add, h]

theorem count_add_self (r : Registry) (decl : DeclId) (args : List Ty) (depth : Nat) :
    (r.add decl args depth).count decl = r.count decl + 1 := by
  simp [count_eq_length, iterationsOf_add]

theorem count_add_of_ne (r : Registry) {decl other : DeclId} (args : List Ty) (depth : Nat)
    (h : decl ≠ other) : (r.add decl args depth).count other = r.count other := by
  simp [count_eq_length, iterationsOf_add, h]

theorem count_le_count_add (r : Registry) (decl : DeclId) (args : List Ty) (depth : Nat) (other : DeclId) :
    r.count other ≤ (r.add decl args depth).count other := by
  by_cases h : decl = other
  · subst h
    simp [count_add_self]
  · simp [count_add_of_ne r args depth h]

theorem mem_subscriptions_of_get? {r : Registry} {id : SubscriptionId} {s : Subscription}
    (h : r.subscription? id = some s) : s ∈ r.subscriptions :=
  List.mem_of_getElem? h

theorem length_linksOf_le (r : Registry) (host : DeclId) :
    (r.linksOf host).length ≤ r.subscriptions.length := by
  have h := List.length_filter_le (·.2.host == host) r.numbered
  rwa [numbered, List.length_mapIdx] at h

theorem mem_subscriptions_of_mem_linksOf {r : Registry} {host : DeclId} {link : SubscriptionId × Subscription}
    (h : link ∈ r.linksOf host) : link.2 ∈ r.subscriptions := by
  have hmem := (List.mem_filter.1 h).1
  obtain ⟨i, hi, rfl⟩ := List.mem_mapIdx.1 hmem
  exact List.getElem_mem hi

end Registry

end Linkage
