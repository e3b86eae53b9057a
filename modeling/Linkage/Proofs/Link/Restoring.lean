import Linkage.Proofs.Link.Walks

/-!
# What is put back

While something is linked, frames are opened for its surroundings, an iteration may be active, and reports may be
switched off. All of this is put back. Linking an expression leaves the locals of the open blocks alone as well, and
what was settled stays settled. Inside a block, names come to the innermost frame, which goes with the block.
-/

namespace Linkage

/-! ### Cursors -/

namespace Instances

theorem follows_active : Follows fun x y => y.registry.active = x.registry.active where
  refl _ := rfl
  trans h h' := h'.trans h
  refuse x decl span why := by rw [registry_refuse]
  make _ _ _ _ := rfl
  record _ _ _ := rfl
  pending _ _ := rfl
  subscription x s := by
    unfold Registry.addSubscription
    split <;> rfl

end Instances

theorem Registry.activeOf?_release_congr {q r : Registry} (h : ∀ d, q.activeOf? d = r.activeOf? d) (guard : Guard)
    (d : DeclId) : (q.release guard).activeOf? d = (r.release guard).activeOf? d := by
  obtain ⟨saved⟩ := guard
  induction saved generalizing d with
  | nil => exact h d
  | cons b saved ih =>
    show ((q.release ⟨saved⟩).setCursor b.1 b.2).activeOf? d = ((r.release ⟨saved⟩).setCursor b.1 b.2).activeOf? d
    rw [activeOf?_setCursor, activeOf?_setCursor, ih]

namespace Link

variable {α β : Type} {env : LinkEnv} {s s' : LinkState}

/-! ### Everything is put back -/

/-- What is visible and what is active are as they were, and so is the flag that silences reports. -/
structure Reset (s s' : LinkState) : Prop where
  scopes : s'.scopes = s.scopes
  spaces : s'.spaces = s.spaces
  quiet : s'.quiet = s.quiet
  cursors : ∀ d, s'.program.registry.activeOf? d = s.program.registry.activeOf? d

instance : Sequential Reset where
  refl _ := ⟨rfl, rfl, rfl, fun _ => rfl⟩
  trans h h' := ⟨h'.scopes.trans h.scopes, h'.spaces.trans h.spaces, h'.quiet.trans h.quiet,
    fun d => (h'.cursors d).trans (h.cursors d)⟩

/-- The locals of the open blocks are as they were, too. -/
structure Restored (s s' : LinkState) : Prop extends Reset s s' where
  locals : s'.locals = s.locals

instance : Sequential Restored where
  refl s := ⟨Sequential.refl s, rfl⟩
  trans h h' := ⟨Sequential.trans h.toReset h'.toReset, h'.locals.trans h.locals⟩

instance : Enclosed Restored where
  close frame h := ⟨⟨by rw [h.scopes, ScopeStack.pop_push], h.spaces, h.quiet, h.cursors⟩, h.locals⟩

theorem restored_of_eq (hscopes : s'.scopes = s.scopes) (hspaces : s'.spaces = s.spaces) (hquiet : s'.quiet = s.quiet)
    (hactive : s'.program.registry.active = s.program.registry.active) (hlocals : s'.locals = s.locals) :
    Restored s s' :=
  ⟨⟨hscopes, hspaces, hquiet, fun d => congrArg (·.get? d) hactive⟩, hlocals⟩

theorem Idle.restored (h : Idle s s') : Restored s s' :=
  restored_of_eq h.scopes h.spaces h.quiet (by rw [h.registry]) h.locals

theorem restored_of_steps {usage : TypeUse} (h : TypeSteps usage s s') : Restored s s' := by
  induction h with
  | refl => exact Sequential.refl s
  | tail _ hstep ih =>
    refine Sequential.trans ih ?_
    cases hstep with
    | report | check | usage => exact restored_of_eq rfl rfl rfl rfl rfl
    | instantiate => exact restored_of_eq rfl rfl rfl (Instances.follows_active.instantiate _ _ _ _ _ _) rfl
    | subscribe => exact restored_of_eq rfl rfl rfl (Instances.follows_active.subscribe _ _ _ _) rfl

theorem restored_report (span : Span) (p : Problem) : FramedIn env Restored (report span p) :=
  .report fun _ _ => restored_of_eq rfl rfl rfl rfl rfl

theorem restored_withActive (decl : DeclId) (index : IterationId) {act : LinkM α} (h : FramedIn env Restored act) :
    FramedIn env Restored (withActive decl index act) := by
  intro s
  have hact := h { s with program := (s.program.activate decl index).2 }
  refine ⟨⟨hact.scopes, hact.spaces, hact.quiet, fun d => ?_⟩, hact.locals⟩
  refine (Registry.activeOf?_release_congr hact.cursors (s.program.activate decl index).1 d).trans ?_
  exact (s.program.registry.agrees_release_activate decl index).cursors d

/-! ### Expressions -/

/-- What linking an expression does to the surroundings and to what is settled. -/
structure Walked (s s' : LinkState) : Prop extends Restored s s' where
  retains : Retains s s'

instance : Sequential Walked where
  refl s := ⟨Sequential.refl s, fun _ he => he⟩
  trans h h' := ⟨Sequential.trans h.toRestored h'.toRestored, fun e he => h'.retains e (h.retains e he)⟩

theorem walked_report (span : Span) (p : Problem) : FramedIn env Walked (report span p) :=
  .report fun _ _ => ⟨restored_of_eq rfl rfl rfl rfl rfl, retains_of_eq rfl rfl⟩

theorem checkable_walked : Checkable Walked :=
  .of_idle (fun h => ⟨restored_of_steps h, retains_of_eq (recorded_of_steps h).1 (recorded_of_steps h).2⟩) walked_report
    fun h => ⟨h.restored, retains_of_eq h.linked h.resolved⟩

theorem walked_recordResolved (e : ExprId) (decl : DeclId) : FramedIn env Walked (recordResolved e decl) :=
  fun s => ⟨restored_of_eq rfl rfl rfl rfl rfl, retains_recordResolved e decl env s⟩

theorem walked_recordLinked (e : ExprId) (ty : Ty) : FramedIn env Walked (recordLinked e ty) :=
  fun s => ⟨restored_of_eq rfl rfl rfl rfl rfl, retains_recordLinked e ty env s⟩

theorem walkable_walked (env : LinkEnv) : Walkable env (fun _ => True) Walked := by
  refine walkable_of_records checkable_walked (fun decl index _ h s => ?_) walked_recordResolved walked_recordLinked
    fun h => h.retains
  refine ⟨restored_withActive decl index (fun s => (h s).toRestored) s, fun e he => ?_⟩
  exact (h { s with program := (s.program.activate decl index).2 }).retains e he

/-! ### Blocks -/

/-- Inside a block, names of the innermost frame and locals of the block come to it. -/
structure Nested (s s' : LinkState) : Prop where
  outer : s'.scopes.frames.tail = s.scopes.frames.tail
  spaces : s'.spaces = s.spaces
  quiet : s'.quiet = s.quiet
  cursors : ∀ d, s'.program.registry.activeOf? d = s.program.registry.activeOf? d

instance : Sequential Nested where
  refl _ := ⟨rfl, rfl, rfl, fun _ => rfl⟩
  trans h h' := ⟨h'.outer.trans h.outer, h'.spaces.trans h.spaces, h'.quiet.trans h.quiet,
    fun d => (h'.cursors d).trans (h.cursors d)⟩

theorem Reset.nested (h : Reset s s') : Nested s s' := ⟨by rw [h.scopes], h.spaces, h.quiet, h.cursors⟩

theorem nested_declareLocal (name : String) (decl : DeclId) : FramedIn env Nested (declareLocal name decl) := by
  refine .modify fun s => ⟨?_, rfl, rfl, fun _ => rfl⟩
  obtain ⟨frame, outer, hframes, hdeclared⟩ : ∃ frame outer, s.scopes.frames = frame :: outer ∧
      (s.scopes.declare name decl).frames = frame.insert name decl :: outer := frames_declare
  rw [hframes, hdeclared]
  rfl

theorem reset_withFrame {frame : Frame} {act : LinkM α} (h : FramedIn env Nested act) :
    FramedIn env Reset (withFrame frame act) := by
  intro s
  have hact := h { s with scopes := s.scopes.push frame }
  exact ⟨frames_pop hact.outer, hact.spaces, hact.quiet, hact.cursors⟩

theorem Restored.bindOptional (h : Restored s s') (b : Option (String × DeclId)) :
    Restored (s.bindOptional b) (s'.bindOptional b) := by
  rcases b with _ | ⟨name, decl⟩
  · exact h
  · refine ⟨⟨?_, h.spaces, h.quiet, h.cursors⟩, ?_⟩
    · show s'.scopes.declare name decl = s.scopes.declare name decl
      rw [h.scopes]
    · simp only [LinkState.bindOptional, LinkState.bindLocal, h.locals]

theorem tail_locals_bindOptional (s : LinkState) (b : Option (String × DeclId)) :
    (s.bindOptional b).locals.tail = s.locals.tail := by
  rcases b with _ | ⟨name, decl⟩
  · rfl
  · cases hlocals : s.locals <;> simp [LinkState.bindOptional, LinkState.bindLocal, hlocals]

end Link

end Linkage
