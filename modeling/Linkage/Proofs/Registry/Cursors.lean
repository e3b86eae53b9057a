import Linkage.Registry.Cursor

/-!
# Cursors under nested activations

What a cursor shows is decided by the innermost activation whose context binds the declaration. Releasing a guard
uncovers what the activation had covered, so in the end all cursors are as they were. Registries are compared up to
the way their cursors were written down: putting a cursor back leaves the table longer than it was, with the same
values in it.
-/

namespace Linkage

namespace Registry

variable {q r : Registry}

/-! ### Contexts bind each declaration once -/

theorem mem_explore {visited : List DeclId} {queue : List Binding} {b : Binding}
    (h : b ∈ r.explore visited queue) : b ∈ queue ∨ b.1 ∉ visited := by
  fun_induction explore r visited queue with
  | case1 => simp at h
  | case2 visited host iteration rest found ih =>
    rcases List.mem_cons.1 h with rfl | h
    · exact .inl List.mem_cons_self
    · rcases ih h with h | h
      · rcases List.mem_append.1 h with h | h
        · exact .inl (List.mem_cons_of_mem _ h)
        · exact .inr (mem_discover h).1
      · exact .inr fun hb => h (List.mem_append_left _ hb)

theorem nodup_discover (r : Registry) (iteration : IterationId) (links : List (SubscriptionId × Subscription))
    (visited : List DeclId) : ((r.discover iteration links visited).map (·.1)).Nodup := by
  induction links generalizing visited with
  | nil => exact List.nodup_nil
  | cons link links ih =>
    rw [discover]
    split
    · exact ih visited
    · split
      · exact ih visited
      · refine List.nodup_cons.2 ⟨fun h => ?_, ih _⟩
        obtain ⟨b, hb, heq⟩ := List.mem_map.1 h
        exact (mem_discover hb).1 (heq ▸ List.mem_cons_self)

theorem nodup_explore {visited : List DeclId} {queue : List Binding} (hnodup : (queue.map (·.1)).Nodup)
    (hvisited : ∀ b ∈ queue, b.1 ∈ visited) : ((r.explore visited queue).map (·.1)).Nodup := by
  fun_induction explore r visited queue with
  | case1 => exact List.nodup_nil
  | case2 visited host iteration rest found ih =>
    obtain ⟨hhost, hrest⟩ := List.nodup_cons.1 hnodup
    have hin : host ∈ visited := hvisited _ List.mem_cons_self
    -- The queue stays free of repetitions, for what is found was not visited, and all of the queue was.
    have hqueue : ((rest ++ found).map (·.1)).Nodup := by
      rw [List.map_append, List.nodup_append]
      refine ⟨hrest, nodup_discover r _ _ _, fun x hx y hy heq => ?_⟩
      obtain ⟨b, hb, rfl⟩ := List.mem_map.1 hx
      obtain ⟨c, hc, rfl⟩ := List.mem_map.1 hy
      exact (mem_discover hc).1 (heq ▸ hvisited b (List.mem_cons_of_mem _ hb))
    have hseen : ∀ b ∈ rest ++ found, b.1 ∈ visited ++ found.map (·.1) := by
      intro b hb
      rcases List.mem_append.1 hb with hb | hb
      · exact List.mem_append_left _ (hvisited b (List.mem_cons_of_mem _ hb))
      · exact List.mem_append_right _ (List.mem_map_of_mem hb)
    refine List.nodup_cons.2 ⟨fun h => ?_, ih hqueue hseen⟩
    obtain ⟨b, hb, heq⟩ := List.mem_map.1 h
    rcases mem_explore hb with hb | hb
    · rcases List.mem_append.1 hb with hb | hb
      · exact hhost (List.mem_map.2 ⟨b, hb, heq⟩)
      · exact (mem_discover hb).1 (heq ▸ hin)
    · exact hb (List.mem_append_left _ (heq ▸ hin))

theorem nodup_context (r : Registry) (decl : DeclId) (index : IterationId) :
    ((r.context decl index).bindings.map (·.1)).Nodup :=
  nodup_explore (by simp) fun _ hb => List.mem_map_of_mem hb

/-! ### Setting cursors and putting them back -/

theorem setCursors_eq (r : Registry) (bindings : List Binding) :
    ∃ active, (r.setCursors bindings).2 = { r with active := active } := by
  induction bindings generalizing r with
  | nil => exact ⟨r.active, rfl⟩
  | cons b bindings ih =>
    obtain ⟨active, h⟩ := ih (r.setCursor b.1 (some b.2))
    exact ⟨active, h⟩

theorem release_eq (r : Registry) (guard : Guard) : ∃ active, r.release guard = { r with active := active } := by
  obtain ⟨saved⟩ := guard
  induction saved with
  | nil => exact ⟨r.active, rfl⟩
  | cons b saved ih =>
    obtain ⟨active, h⟩ := ih
    refine ⟨(setCursor { r with active := active } b.1 b.2).active, ?_⟩
    show setCursor (r.release ⟨saved⟩) b.1 b.2 = _
    rw [h]
    rfl

theorem activeOf?_setCursor (r : Registry) (decl : DeclId) (index : Option IterationId) (x : DeclId) :
    (r.setCursor decl index).activeOf? x = if decl = x then index else r.activeOf? x := by
  cases index with
  | none => exact r.active.get?_erase decl x
  | some i => exact r.active.get?_insert decl i x

theorem activeOf?_setCursors (r : Registry) {bindings : List Binding} (hnodup : (bindings.map (·.1)).Nodup)
    (x : DeclId) :
    (r.setCursors bindings).2.activeOf? x =
      ((Context.mk bindings).iterationOf? x).or (r.activeOf? x) := by
  induction bindings generalizing r with
  | nil => rfl
  | cons b bindings ih =>
    obtain ⟨hfresh, hrest⟩ := List.nodup_cons.1 hnodup
    have hset : (r.setCursors (b :: bindings)).2 = ((r.setCursor b.1 (some b.2)).setCursors bindings).2 := rfl
    rw [hset, ih _ hrest, activeOf?_setCursor]
    by_cases hx : b.1 = x
    · have hnone : (Context.mk bindings).iterationOf? x = none := by
        rw [Context.iterationOf?, Option.map_eq_none_iff, List.find?_eq_none]
        intro c hc heq
        exact hfresh (List.mem_map.2 ⟨c, hc, (beq_iff_eq.1 heq).trans hx.symm⟩)
      rw [hnone, if_pos hx]
      simp [hx, Context.iterationOf?]
    · simp [hx, Context.iterationOf?]

/-- The registries are the same but for the way in which the same cursors were written down. -/
structure Agrees (q r : Registry) : Prop where
  same : ∃ active, q = { r with active := active }
  cursors : ∀ x, q.activeOf? x = r.activeOf? x

namespace Agrees

theorem refl (r : Registry) : Agrees r r := ⟨⟨r.active, rfl⟩, fun _ => rfl⟩

theorem trans {p : Registry} (hpq : Agrees p q) (hqr : Agrees q r) : Agrees p r := by
  obtain ⟨active, hp⟩ := hpq.same
  obtain ⟨active', hq⟩ := hqr.same
  exact ⟨⟨active, by rw [hp, hq]⟩, fun x => (hpq.cursors x).trans (hqr.cursors x)⟩

theorem setCursor (h : Agrees q r) (decl : DeclId) (index : Option IterationId) :
    Agrees (q.setCursor decl index) (r.setCursor decl index) := by
  obtain ⟨active, hq⟩ := h.same
  refine ⟨⟨(q.setCursor decl index).active, by rw [hq]; rfl⟩, fun x => ?_⟩
  rw [activeOf?_setCursor, activeOf?_setCursor, h.cursors]

theorem release (h : Agrees q r) (guard : Guard) : Agrees (q.release guard) (r.release guard) := by
  obtain ⟨saved⟩ := guard
  induction saved with
  | nil => exact h
  | cons b saved ih => exact ih.setCursor b.1 b.2

end Agrees

theorem agrees_setCursor_setCursor (r : Registry) (decl : DeclId) (index : Option IterationId) :
    Agrees ((r.setCursor decl index).setCursor decl (r.activeOf? decl)) r := by
  refine ⟨⟨_, rfl⟩, fun x => ?_⟩
  rw [activeOf?_setCursor, activeOf?_setCursor]
  split
  · rename_i hx
    rw [hx]
  · rfl

theorem agrees_release_setCursors (r : Registry) (bindings : List Binding) :
    Agrees ((r.setCursors bindings).2.release (r.setCursors bindings).1) r := by
  induction bindings generalizing r with
  | nil => exact .refl r
  | cons b bindings ih =>
    exact ((ih (r.setCursor b.1 (some b.2))).setCursor b.1 (r.activeOf? b.1)).trans
      (agrees_setCursor_setCursor r b.1 (some b.2))

theorem agrees_release_activate (r : Registry) (decl : DeclId) (index : IterationId) :
    Agrees ((r.activate decl index).2.release (r.activate decl index).1) r :=
  agrees_release_setCursors r _

/-! ### Contexts do not depend on cursors -/

variable (active : Table DeclId IterationId)

theorem discover_withActive (r : Registry) (iteration : IterationId)
    (links : List (SubscriptionId × Subscription)) (visited : List DeclId) :
    discover { r with active := active } iteration links visited = r.discover iteration links visited := by
  induction links generalizing visited with
  | nil => rfl
  | cons link links ih =>
    have hmapped : mapped? { r with active := active } link.1 iteration = r.mapped? link.1 iteration := rfl
    simp only [discover, hmapped, ih]

theorem explore_withActive (r : Registry) (visited : List DeclId) (queue : List Binding) :
    explore { r with active := active } visited queue = r.explore visited queue := by
  fun_induction explore r visited queue with
  | case1 => rw [explore]
  | case2 visited host iteration rest found ih =>
    have hlinks : linksOf { r with active := active } host = r.linksOf host := rfl
    rw [explore, hlinks, discover_withActive]
    exact congrArg _ ih

theorem context_withActive (r : Registry) (decl : DeclId) (index : IterationId) :
    context { r with active := active } decl index = r.context decl index :=
  congrArg Context.mk (explore_withActive active r _ _)

theorem activeOf?_activate (r : Registry) (decl : DeclId) (index : IterationId) (x : DeclId) :
    (r.activate decl index).2.activeOf? x = ((r.context decl index).iterationOf? x).or (r.activeOf? x) :=
  activeOf?_setCursors r (nodup_context r decl index) x

end Registry

/-! ### Activations within activations -/

/-- A step with cursors: an iteration is activated, or the last activation that is still open ends. -/
inductive CursorStep where
  | enter (decl : DeclId) (index : IterationId)
  | leave
  deriving DecidableEq, Repr

/-- A registry under open activations, each with its guard, the innermost first. -/
structure Activations where
  registry : Registry
  guards : List (Binding × Registry.Guard) := []
  deriving Repr

namespace Activations

def opened (a : Activations) : List Binding := a.guards.map (·.1)

def step? (a : Activations) : CursorStep → Option Activations
  | .enter decl index =>
    let (guard, registry) := a.registry.activate decl index
    some ⟨registry, ((decl, index), guard) :: a.guards⟩
  | .leave =>
    match a.guards with
    | [] => none
    | (_, guard) :: guards => some ⟨a.registry.release guard, guards⟩

/-- Take the steps one after the other. There is no outcome if one of them ends an activation and none
is open. -/
def run? (a : Activations) (steps : List CursorStep) : Option Activations := steps.foldlM step? a

/-- The registry of each layer is the one below it with one more iteration activated. -/
inductive Layered (r : Registry) : Registry → List (Binding × Registry.Guard) → Prop
  | ground {q : Registry} (h : q.Agrees r) : Layered r q []
  | layer {below q : Registry} {guards : List (Binding × Registry.Guard)} {decl : DeclId} {index : IterationId}
      (hbelow : Layered r below guards) (h : q.Agrees (below.activate decl index).2) :
      Layered r q (((decl, index), (below.activate decl index).1) :: guards)

variable {p q r : Registry} {guards : List (Binding × Registry.Guard)} {a b : Activations}

theorem Layered.of_agrees (h : Layered r q guards) (hpq : p.Agrees q) : Layered r p guards := by
  cases h with
  | ground h => exact .ground (hpq.trans h)
  | layer hbelow h => exact .layer hbelow (hpq.trans h)

theorem Layered.step? {step : CursorStep} (h : Layered r a.registry a.guards) (hstep : a.step? step = some b) :
    Layered r b.registry b.guards := by
  obtain ⟨q, guards⟩ := a
  cases step with
  | enter decl index =>
    obtain rfl := Option.some.inj hstep
    exact .layer h (.refl _)
  | leave =>
    cases h with
    | ground _ => cases hstep
    | layer hbelow h =>
      obtain rfl := Option.some.inj hstep
      exact hbelow.of_agrees ((h.release _).trans (Registry.agrees_release_activate _ _ _))

theorem Layered.run? {steps : List CursorStep} (h : Layered r a.registry a.guards)
    (hrun : a.run? steps = some b) : Layered r b.registry b.guards := by
  induction steps generalizing a with
  | nil => exact Option.some.inj hrun ▸ h
  | cons step steps ih =>
    obtain ⟨c, hstep, hrest⟩ := Option.bind_eq_some_iff.1 hrun
    exact ih (h.step? hstep) hrest

theorem Layered.same (h : Layered r q guards) : ∃ active, q = { r with active := active } := by
  induction h with
  | ground h => exact h.same
  | @layer below _ _ decl index _ h ih =>
    obtain ⟨_, rfl⟩ := ih
    obtain ⟨active, hq⟩ := h.same
    obtain ⟨_, hset⟩ := Registry.setCursors_eq _ (Registry.context _ decl index).bindings
    exact ⟨active, hq.trans (by rw [Registry.activate, hset])⟩

theorem Layered.activeOf? (h : Layered r q guards) (x : DeclId) :
    q.activeOf? x =
      ((guards.map (·.1)).findSome? fun b => (r.context b.1 b.2).iterationOf? x).or (r.activeOf? x) := by
  induction h with
  | ground h => exact h.cursors x
  | @layer below _ guards decl index hbelow h ih =>
    have hcontext : below.context decl index = r.context decl index := by
      obtain ⟨active, rfl⟩ := hbelow.same
      exact Registry.context_withActive active r decl index
    rw [h.cursors, Registry.activeOf?_activate, hcontext, ih, List.map_cons, List.findSome?_cons]
    cases (r.context decl index).iterationOf? x <;> rfl

end Activations

end Linkage
