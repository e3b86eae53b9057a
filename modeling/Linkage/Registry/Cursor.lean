import Linkage.Registry.Basic

/-!
# Contexts and cursors

Selecting an iteration of a declaration selects iterations of the declarations that depend on it:
those that its subscriptions lead to, and theirs in turn, breadth first. The context of an iteration
lists them. A declaration that several ways lead to keeps the iteration found first.

Activating an iteration sets the cursors to its context and hands back a guard with what they were
before. Releasing the guard puts that back, the last one first.
-/

namespace Linkage

/-- A declaration with the iteration selected for it. -/
abbrev Binding := DeclId × IterationId

/-- The iterations selected together, each declaration once. -/
structure Context where
  bindings : List Binding
  deriving DecidableEq, Repr, Inhabited

namespace Context

def root? (c : Context) : Option Binding := c.bindings.head?

def iterationOf? (c : Context) (decl : DeclId) : Option IterationId :=
  (c.bindings.find? (·.1 == decl)).map (·.2)

end Context

namespace Registry

/-- The targets of the links, with the iterations that they select for the host iteration, as far as
they were not visited before. -/
def discover (r : Registry) (iteration : IterationId) :
    List (SubscriptionId × Subscription) → List DeclId → List Binding
  | [], _ => []
  | (id, s) :: links, visited =>
    match r.mapped? id iteration with
    | none => r.discover iteration links visited
    | some target =>
      if s.target ∈ visited then r.discover iteration links visited
      else (s.target, target) :: r.discover iteration links (s.target :: visited)

theorem mem_discover {r : Registry} {iteration : IterationId}
    {links : List (SubscriptionId × Subscription)} {visited : List DeclId} {b : Binding}
    (h : b ∈ r.discover iteration links visited) :
    b.1 ∉ visited ∧ ∃ link ∈ links, link.2.target = b.1 := by
  induction links generalizing visited with
  | nil => simp [discover] at h
  | cons link links ih =>
    obtain ⟨id, s⟩ := link
    have later : ∀ {seen : List DeclId}, b ∈ r.discover iteration links seen →
        b.1 ∉ seen ∧ ∃ link ∈ (id, s) :: links, link.2.target = b.1 := fun hb =>
      let ⟨hfresh, link, hlink, htarget⟩ := ih hb
      ⟨hfresh, link, List.mem_cons_of_mem _ hlink, htarget⟩
    simp only [discover] at h
    split at h
    · exact later h
    · split at h
      · exact later h
      · rename_i hfresh
        rcases List.mem_cons.1 h with rfl | h
        · exact ⟨hfresh, (id, s), List.mem_cons_self, rfl⟩
        · obtain ⟨hseen, hlink⟩ := later h
          exact ⟨fun hb => hseen (List.mem_cons_of_mem _ hb), hlink⟩

theorem length_discover_le (r : Registry) (iteration : IterationId)
    (links : List (SubscriptionId × Subscription)) (visited : List DeclId) :
    (r.discover iteration links visited).length ≤ links.length := by
  induction links generalizing visited with
  | nil => exact Nat.le_refl 0
  | cons link links ih =>
    have hrest := ih visited
    have hseen := ih (link.2.target :: visited)
    rw [discover]
    split
    · exact Nat.le_succ_of_le hrest
    · split
      · exact Nat.le_succ_of_le hrest
      · exact Nat.succ_le_succ hseen

/-- The number of subscriptions whose target has not been visited. -/
def unvisited (r : Registry) (visited : List DeclId) : Nat :=
  r.subscriptions.countP fun s => decide (s.target ∉ visited)

theorem countP_lt_countP {α : Type} {p q : α → Bool} {l : List α} (hle : ∀ a, p a = true → q a = true)
    {a : α} (ha : a ∈ l) (hp : p a = false) (hq : q a = true) : l.countP p < l.countP q := by
  induction l with
  | nil => simp at ha
  | cons b l ih =>
    have hmono : l.countP p ≤ l.countP q := List.countP_mono_left fun c _ => hle c
    rcases List.mem_cons.1 ha with rfl | ha
    · simp [hp, hq]
      omega
    · have hlt := ih ha
      by_cases hb : p b = true
      · simp [hb, hle b hb, hlt]
      · by_cases hqb : q b = true
        · simp [hb, hqb]
          omega
        · simpa [hb, hqb] using hlt

theorem unvisited_lt {r : Registry} {visited more : List DeclId} {s : Subscription}
    (hs : s ∈ r.subscriptions) (hfresh : s.target ∉ visited) (hseen : s.target ∈ more) :
    r.unvisited (visited ++ more) < r.unvisited visited := by
  refine countP_lt_countP (fun t ht => ?_) hs (by simp [hseen]) (by simp [hfresh])
  simp only [decide_eq_true_eq, List.mem_append, not_or] at ht ⊢
  exact ht.1

/-- What a binding leads to is made up for by the targets that become visited. -/
theorem length_discover_add_le (r : Registry) (host : DeclId) (iteration : IterationId) (visited : List DeclId) :
    let found := r.discover iteration (r.linksOf host) visited
    found.length + r.unvisited (visited ++ found.map (·.1)) * (r.subscriptions.length + 1) ≤
      r.unvisited visited * (r.subscriptions.length + 1) := by
  intro found
  have hlength : found.length ≤ r.subscriptions.length :=
    Nat.le_trans (r.length_discover_le iteration _ visited) (r.length_linksOf_le host)
  cases hfound : found with
  | nil => simp
  | cons b more =>
    have hb : b ∈ r.discover iteration (r.linksOf host) visited := by
      show b ∈ found
      exact hfound ▸ List.mem_cons_self
    obtain ⟨hfresh, link, hlink, htarget⟩ := mem_discover hb
    have hlt : r.unvisited (visited ++ (b :: more).map (·.1)) + 1 ≤ r.unvisited visited :=
      unvisited_lt (mem_subscriptions_of_mem_linksOf hlink) (htarget ▸ hfresh) (by simp [htarget])
    have hmul := Nat.mul_le_mul_right (r.subscriptions.length + 1) hlt
    rw [Nat.succ_mul] at hmul
    rw [hfound] at hlength
    omega

/-- Work through a queue of bindings, adding what each of them leads to. -/
def explore (r : Registry) (visited : List DeclId) (queue : List Binding) : List Binding :=
  match queue with
  | [] => []
  | (host, iteration) :: rest =>
    let found := r.discover iteration (r.linksOf host) visited
    (host, iteration) :: r.explore (visited ++ found.map (·.1)) (rest ++ found)
termination_by queue.length + r.unvisited visited * (r.subscriptions.length + 1)
decreasing_by
  have h := r.length_discover_add_le host iteration visited
  simp only [List.length_append, List.length_cons] at h ⊢
  omega

/-- The iterations selected by an iteration of a declaration, itself first. -/
def context (r : Registry) (decl : DeclId) (index : IterationId) : Context :=
  ⟨r.explore [decl] [(decl, index)]⟩

def activeOf? (r : Registry) (decl : DeclId) : Option IterationId := r.active.get? decl

/-- What the cursors were before an activation, in the order in which they were set. -/
structure Guard where
  saved : List (DeclId × Option IterationId)
  deriving DecidableEq, Repr, Inhabited

def setCursor (r : Registry) (decl : DeclId) (index : Option IterationId) : Registry :=
  { r with active := match index with
      | some i => r.active.insert decl i
      | none => r.active.erase decl }

/-- Set the cursors to the bindings from left to right, remembering each before it is set. -/
def setCursors (r : Registry) : List Binding → Guard × Registry
  | [] => (⟨[]⟩, r)
  | (decl, index) :: bindings =>
    let (guard, r') := (r.setCursor decl (some index)).setCursors bindings
    (⟨(decl, r.activeOf? decl) :: guard.saved⟩, r')

def activate (r : Registry) (decl : DeclId) (index : IterationId) : Guard × Registry :=
  r.setCursors (r.context decl index).bindings

/-- Put the cursors back to what they were, the one that was set last first. -/
def release (r : Registry) (guard : Guard) : Registry :=
  guard.saved.foldr (fun (decl, index) r => r.setCursor decl index) r

end Registry

end Linkage
