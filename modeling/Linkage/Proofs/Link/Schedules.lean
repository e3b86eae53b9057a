import Linkage.Proofs.Link.Exits
import Linkage.Proofs.Moves.Traces
import Mathlib.Data.List.Nodup

/-!
# What is destroyed in a body without branches

If no statement and no block is reached twice, every block ends once, and what is due at its end is due nowhere else.
So the schedule that a block of a straight body has in the linked program is the one that was made where the block
ended (`Exit.Settled`): the locals in the order in which they are due, without those that have no destructor and those
of which something is gone.

The end of the block is where this is decided. A variable that is listed in a namespace has a path to it that does not
end with its block. It can be moved out later, and is on the schedule all the same.
-/

namespace Linkage

/-! ### All functions -/

def LinkEnv.exits (env : LinkEnv) (s : LinkState) : List DeclId → List Exit
  | [] => []
  | func :: funcs => env.exitsOf s func ++ env.exits (Link.linkBody func env s).2 funcs

namespace Link

variable {env : LinkEnv} {s s' : LinkState} {e : Exit} {func : DeclId} {funcs : List DeclId} {params : List DeclId}
  {block : BlockId}

theorem touches_linkBodies (htrees : env.trees = env.source.trees) (h : Runs env (funcs.forM linkBody) s () s') :
    Touches (fun x => x ∈ (funcs.flatMap env.closingsOf).flatMap (·.due)) (funcs.flatMap env.closingsOf) s s' ∧
      ∀ func ∈ funcs, env.blocksOf func ≠ [] := by
  induction funcs generalizing s with
  | nil =>
    obtain rfl := runs_forM_nil.1 h
    exact ⟨Sequential.refl s, by simp⟩
  | cons func funcs ih =>
    obtain ⟨s₁, hfunc, hrest⟩ := runs_forM_cons.1 h
    obtain ⟨hfirst, hblocks⟩ := touches_linkBody htrees hfunc
    obtain ⟨hlater, hblocks'⟩ := ih hrest
    simp only [List.flatMap_cons, List.flatMap_append]
    refine ⟨Sequential.trans (hfirst.mono ?_ (List.subset_append_left _ _))
      (hlater.mono ?_ (List.subset_append_right _ _)), List.forall_mem_cons.2 ⟨hblocks, hblocks'⟩⟩
    · exact fun x hx => List.mem_append_left _ hx
    · exact fun x hx => List.mem_append_right _ hx

theorem history_linkBodies (htrees : env.trees = env.source.trees) (h : Runs env (funcs.forM linkBody) s () s') :
    s.history <+: s'.history := by
  induction funcs generalizing s with
  | nil =>
    obtain rfl := runs_forM_nil.1 h
    exact List.prefix_refl _
  | cons func funcs ih =>
    obtain ⟨s₁, hfunc, hrest⟩ := runs_forM_cons.1 h
    exact (history_linkBody htrees hfunc).trans (ih hrest)

theorem ends_linkBodies (htrees : env.trees = env.source.trees) (hbody : env.body? func = some (params, block))
    (hstraight : (env.trees.block block).isStraight = true) (h : Runs env (funcs.forM linkBody) s () s')
    (he : e ∈ env.exits s funcs) (hfunc : e.func = func) :
    ∃ t, Ends [] (funcs.flatMap env.closingsOf) s e.toClosing t s' ∧
      t.moves = MoveTracker.afterAll { policy := env.options.branchMoves } e.events ∧
      e.events.map .event <:+: s'.history := by
  induction funcs generalizing s with
  | nil => simp [LinkEnv.exits] at he
  | cons first funcs ih =>
    obtain ⟨s₁, hfirst, hrest⟩ := runs_forM_cons.1 h
    have hnext : (linkBody first env s).2 = s₁ := congrArg Prod.snd hfirst
    rw [LinkEnv.exits, hnext, List.mem_append] at he
    rw [List.flatMap_cons]
    rcases he with he | he
    · obtain rfl : first = func := (func_of_mem_exitsOf he).symm.trans hfunc
      obtain ⟨t, hends, hmoves, later, hhistory⟩ := (ends_linkBody htrees hbody hstraight hfirst).2 e he
      have hlater := (touches_linkBodies htrees hrest).1
      refine ⟨t, hends.after (hlater.mono (fun x hx => .inr hx) (List.Subset.refl _)) fun x hx => .inl hx, hmoves, ?_⟩
      exact List.IsInfix.trans ⟨s.history, later, hhistory.symm⟩ (history_linkBodies htrees hrest).isInfix
    · obtain ⟨t, hends, hmoves, hevents⟩ := ih hrest he
      have hfirst := (touches_linkBody htrees hfirst).1
      exact ⟨t, hends.before (hfirst.mono (fun _ _ => trivial) (List.Subset.refl _)), hmoves, hevents⟩

theorem func_mem_of_mem_exits (he : e ∈ env.exits s funcs) : e.func ∈ funcs := by
  induction funcs generalizing s with
  | nil => simp [LinkEnv.exits] at he
  | cons first funcs ih =>
    rw [LinkEnv.exits, List.mem_append] at he
    rcases he with he | he
    · rw [func_of_mem_exitsOf he]
      exact List.mem_cons_self
    · exact List.mem_cons_of_mem _ (ih he)

theorem map_exits_of_func (htrees : env.trees = env.source.trees) (hbody : env.body? func = some (params, block))
    (hstraight : (env.trees.block block).isStraight = true) (h : Runs env (funcs.forM linkBody) s () s')
    (hnodup : funcs.Nodup) (hfunc : func ∈ funcs) :
    ((env.exits s funcs).filter (·.func == func)).map (·.toClosing) = env.closingsOf func := by
  induction funcs generalizing s with
  | nil => simp at hfunc
  | cons first funcs ih =>
    obtain ⟨s₁, hfirst, hrest⟩ := runs_forM_cons.1 h
    have hnext : (linkBody first env s).2 = s₁ := congrArg Prod.snd hfirst
    obtain ⟨hnotin, hnodup⟩ := List.nodup_cons.1 hnodup
    rw [LinkEnv.exits, hnext, List.filter_append]
    by_cases heq : first = func
    · subst heq
      have hall : (env.exitsOf s first).filter (·.func == first) = env.exitsOf s first :=
        List.filter_eq_self.2 fun e he => beq_iff_eq.2 (func_of_mem_exitsOf he)
      have hnone : (env.exits s₁ funcs).filter (·.func == first) = [] := by
        refine List.filter_eq_nil_iff.2 fun e he hfunc => hnotin ?_
        rw [← beq_iff_eq.1 hfunc]
        exact func_mem_of_mem_exits he
      rw [hall, hnone, List.append_nil]
      exact (ends_linkBody htrees hbody hstraight hfirst).1
    · have hnone : (env.exitsOf s first).filter (·.func == func) = [] := by
        refine List.filter_eq_nil_iff.2 fun e he hfunc => heq ?_
        rw [← func_of_mem_exitsOf he, beq_iff_eq.1 hfunc]
      rw [hnone, List.nil_append]
      exact ih hrest hnodup ((List.mem_cons.1 hfunc).resolve_left (Ne.symm heq))

/-! ### What an end leaves -/

section

variable {t : LinkState} {c : Closing} {cs : List Closing} {x : DeclId} {b : BlockId}

theorem Ends.dropsAt (h : Ends [] cs s c t s') (hblocks : (cs.map (·.block)).Nodup)
    (hnone : ∀ b, s.program.dropsAt b = []) : s'.program.dropsAt c.block = c.due.filterMap t.drop? := by
  obtain ⟨before, after, closed, rfl, hbefore, hplans, hafter⟩ := h
  rw [List.map_append, List.map_cons, List.nodup_append] at hblocks
  obtain ⟨-, hlater, hapart⟩ := hblocks
  have hnotBefore : c.block ∉ before.map (·.block) := fun hmem => hapart _ hmem _ List.mem_cons_self rfl
  rw [hafter.dropsAt (List.nodup_cons.1 hlater).1, hplans.here, hbefore.dropsAt hnotBefore, hnone, List.nil_append]

theorem Ends.destructor? (h : Ends [] cs s c t s') (hdue : (cs.flatMap (·.due)).Nodup) (hx : x ∈ c.due) :
    t.signatures.destructor? x = s'.signatures.destructor? x := by
  obtain ⟨before, after, closed, rfl, -, hplans, hafter⟩ := h
  rw [List.flatMap_append, List.flatMap_cons] at hdue
  have hlater := (List.nodup_append.1 (List.nodup_append.1 hdue).2.1).2.2
  rw [hafter.destructor?, LinkState.signatures, LinkState.signatures, hplans.signatures]
  rintro (hloose | hmem)
  · simp at hloose
  · exact hlater x hx x hmem rfl

theorem Ends.mem (h : Ends [] cs s c t s') : c ∈ cs := by
  obtain ⟨before, after, closed, rfl, -⟩ := h
  exact List.mem_append_right _ List.mem_cons_self

theorem Ends.block_eq (h : Ends [] cs s c t s') (hdue : (cs.flatMap (·.due)).Nodup)
    (hnone : ∀ b, s.program.dropsAt b = []) (hx : x ∈ c.due) (hdropped : x ∈ s'.program.droppedAt b) :
    c.block = b := by
  obtain ⟨before, after, closed, rfl, hbefore, hplans, hafter⟩ := h
  rw [List.flatMap_append, List.flatMap_cons] at hdue
  obtain ⟨-, hlater, hapart⟩ := List.nodup_append.1 hdue
  refine Decidable.byContradiction fun hne => ?_
  -- it came to the other schedule after the end, where it is not due, or before the end, where it is not due either
  rcases hafter.mem_droppedAt hdropped with hdropped | hmem
  · rw [Program.droppedAt, hplans.elsewhere b hne] at hdropped
    rcases hbefore.mem_droppedAt hdropped with hdropped | hmem
    · simp [Program.droppedAt, hnone] at hdropped
    · exact hapart x hmem x (List.mem_append_left _ hx) rfl
  · exact (List.nodup_append.1 hlater).2.2 x hx x hmem rfl

end

def SameDrops (s s' : LinkState) : Prop := s'.program.drops = s.program.drops

instance : Sequential SameDrops where
  refl _ := rfl
  trans h h' := Eq.trans h' h

instance : Enclosed SameDrops where
  close _ h := h

theorem sameDrops_declareAll : Framed SameDrops declareAll := by
  have hreport : ∀ span p, Framed SameDrops (report span p) := by
    intro span p
    refine .modify fun s => ?_
    split <;> rfl
  have hpassable : Passable False SameDrops := {
    linkTypeAt := fun host usage id env s => (silent_of_steps (steps_linkTypeAt host usage id env s)).drops
    report := fun span p _ _ => hreport span p
    write := fun f _ => .modify fun _ => rfl
    note := fun _ => .modify fun _ => rfl }
  refine hpassable.declareAll not_false (fun space name decl => ?_) (fun span name => hreport span _) ?_
  · cases space with
    | none => exact .modify fun _ => rfl
    | some space => exact .modify fun _ => rfl
  · exact fun decl => .modify fun _ => rfl

end Link

/-! ### Programs -/

namespace Setup

/-- Where the blocks of the functions of a unit end, but for those in branches. -/
def exits (setup : Setup) : List Exit := setup.linkEnv.exits setup.declared setup.declared.bodies

open Link

theorem dropsAt_declared (setup : Setup) (b : BlockId) : setup.declared.program.dropsAt b = [] := by
  have hdrops : setup.declared.program.drops = {} := sameDrops_declareAll setup.linkEnv {}
  rw [Program.dropsAt, hdrops]
  rfl

end Setup

/-! ### Schedules -/

/-- The schedule of the block holds what is due at its end, as far as it is destroyed there. -/
structure Exit.Settled (e : Exit) (policy : BranchPolicy) (p : Program) : Prop where
  once : e.due.Nodup
  drops : p.dropsAt e.block = e.due.filterMap (p.signatures.drop? (.afterAll { policy } e.events))
  /-- What is due is on no other schedule. -/
  alone : ∀ x ∈ e.due, ∀ b, x ∈ p.droppedAt b → e.block = b

namespace Exit.Settled

variable {e : Exit} {policy : BranchPolicy} {p : Program} {x : DeclId}

theorem sublist (h : e.Settled policy p) : (p.droppedAt e.block).Sublist e.due := by
  have hsame : p.droppedAt e.block =
      e.due.filter fun x => (p.signatures.drop? (.afterAll { policy } e.events) x).isSome := by
    rw [Program.droppedAt, h.drops, List.map_filterMap, ← List.filterMap_eq_filter]
    refine List.filterMap_congr fun x _ => ?_
    cases hdrop : p.signatures.drop? (.afterAll { policy } e.events) x with
    | none => simp [Option.guard, hdrop]
    | some drop => simp [Option.guard, hdrop, Signatures.decl_of_drop? hdrop]
  rw [hsame]
  exact List.filter_sublist

theorem filter_dropsAt (h : e.Settled policy p) (hx : x ∈ e.due) : (p.dropsAt e.block).filter (·.decl == x) =
    (p.signatures.drop? (.afterAll { policy } e.events) x).toList := by
  rw [h.drops]
  generalize hentry : p.signatures.drop? (.afterAll { policy } e.events) = entry
  have hsame : ∀ y, (entry y).filter (·.decl == x) = if y == x then entry y else none := by
    intro y
    cases hdrop : entry y with
    | none => simp
    | some drop =>
      rw [← hentry] at hdrop
      simp [Option.filter, Signatures.decl_of_drop? hdrop]
  rw [List.filter_filterMap, List.filterMap_congr fun y _ => hsame y, ← List.filterMap_filter, List.filter_beq,
    List.count_eq_one_of_mem h.once hx, List.replicate_one]
  cases hdrop : entry x with
  | none => simp [hdrop]
  | some drop => simp [hdrop]

theorem of_whole (h : e.Settled policy p) (hx : x ∈ e.due) {destructor : DeclId}
    (hfound : p.signatures.destructor? x = some destructor) (hwhole : ∀ q, q.root = x → ¬Dangling q e.events) :
    (p.dropsAt e.block).filter (·.decl == x) = [⟨x, destructor⟩] := by
  have hkept : ¬(MoveTracker.afterAll { policy } e.events).movedFrom x = true := by
    rw [MoveTracker.movedFrom_afterAll_iff]
    rintro ⟨q, hdangling, hroot⟩
    exact hwhole q hroot hdangling
  rw [h.filter_dropsAt hx, Signatures.drop?, if_neg hkept, hfound]
  rfl

theorem of_gone (h : e.Settled policy p) (hx : x ∈ e.due)
    (hgone : p.signatures.destructor? x = none ∨ ∃ q, q.root = x ∧ Dangling q e.events) (b : BlockId) :
    x ∉ p.droppedAt b := by
  intro hdropped
  obtain rfl := h.alone x hx b hdropped
  have hentry : p.signatures.drop? (.afterAll { policy } e.events) x = none := by
    unfold Signatures.drop?
    rcases hgone with hnone | ⟨q, hroot, hdangling⟩
    · rw [hnone, Option.map_none, ite_self]
    · exact if_pos (MoveTracker.movedFrom_afterAll_iff.2 ⟨q, hdangling, hroot⟩)
  have hempty := h.filter_dropsAt hx
  rw [hentry, Option.toList_none] at hempty
  obtain ⟨drop, hdrop, rfl⟩ := List.mem_map.1 hdropped
  exact List.filter_eq_nil_iff.1 hempty drop hdrop (beq_self_eq_true _)

end Exit.Settled

namespace Setup

open Link

/-- The ends of the blocks of a body without branches are those that can be read off the body, where each local and each
parameter is due at one of them, and the events up to an end are a part of the record. A schedule keeps the order in
which things are due. If the type of what is due is a struct that has a destructor, and no place of it is moved out
before the end of the block without being written to up to there, it has one entry in the schedule of the block, with
this destructor, and none in others. Otherwise it has none at all. -/
theorem drops_of_straight {setup : Setup} {p : Program} (hbuilt : setup.source.Built)
    (honce : setup.linkEnv.Once setup.declared.bodies) (hlink : setup.link.result = .ok p) {func : DeclId}
    (hfunc : func ∈ setup.declared.bodies) {params : List DeclId} {block : BlockId}
    (hbody : setup.linkEnv.body? func = some (params, block))
    (hstraight : (setup.linkEnv.trees.block block).isStraight = true) :
    (setup.exits.filter (·.func == func)).map (·.toClosing) =
        (setup.linkEnv.trees.block block).closings setup.source params ∧
      ∀ e ∈ setup.exits, e.func = func → e.events.map .event <:+: setup.link.history ∧
        (p.droppedAt e.block).Sublist e.due ∧ ∀ x ∈ e.due,
          (∀ destructor, p.signatures.destructor? x = some destructor → (∀ q, q.root = x → ¬Dangling q e.events) →
            (p.dropsAt e.block).filter (·.decl == x) = [⟨x, destructor⟩] ∧ ∀ b, b ≠ e.block → x ∉ p.droppedAt b) ∧
          ((p.signatures.destructor? x = none ∨ ∃ q, q.root = x ∧ Dangling q e.events) → ∀ b, x ∉ p.droppedAt b) := by
  obtain ⟨s₁, s, -, hdeclare, hbodies, rfl, -, -, hrecord⟩ := Setup.runs_of_link hlink
  obtain rfl : setup.declared = s₁ := congrArg Prod.snd hdeclare
  rw [linkBodies] at hbodies
  obtain ⟨_, _, hget, hbodies⟩ := runs_bind.1 hbodies
  obtain ⟨rfl, rfl⟩ := runs_get.1 hget
  obtain ⟨-, hblocks⟩ := touches_linkBodies rfl hbodies
  have hblocksOnce := LinkEnv.nodup_blocks_closings honce
  have hdueOnce := LinkEnv.nodup_due_closings hbuilt rfl honce hblocks
  refine ⟨?_, fun e he hfunc => ?_⟩
  · refine (map_exits_of_func rfl hbody hstraight hbodies (honce.nodup_funcs hblocks) hfunc).trans ?_
    rw [LinkEnv.closingsOf, hbody]
    rfl
  · obtain ⟨t, hends, hmoves, hevents⟩ := ends_linkBodies rfl hbody hstraight hbodies he hfunc
    have hsettled : e.Settled setup.linkEnv.options.branchMoves s.program := by
      refine ⟨(List.nodup_flatMap.1 hdueOnce).1 e.toClosing hends.mem, ?_, fun x hx b hdropped => ?_⟩
      · rw [hends.dropsAt hblocksOnce setup.dropsAt_declared]
        refine List.filterMap_congr fun x hx => ?_
        rw [LinkState.drop?, Signatures.drop?, Signatures.drop?, hmoves, hends.destructor? hdueOnce hx]
        rfl
      · exact hends.block_eq hdueOnce setup.dropsAt_declared hx hdropped
    refine ⟨hrecord ▸ hevents, hsettled.sublist, fun x hx => ⟨fun destructor hfound hwhole => ⟨?_, ?_⟩, ?_⟩⟩
    · exact hsettled.of_whole hx hfound hwhole
    · intro b hb hdropped
      exact hb (hsettled.alone x hx b hdropped).symm
    · exact hsettled.of_gone hx

end Setup

/-- The body `let b = Res {}; take(a); a = Res {}; { let c = b; let d = Res {}; take(d); }`. -/
def takenAndReplaced : Setup where
  source := .ofSteps (takingSteps ++ [
    .typeExpr (.named ["Res"] []),
    .expr (.construct ⟨6⟩ []),
    .binding "b" none (some ⟨0⟩) true false,
    .expr (.name "a"),
    .callName "take" [] [⟨1⟩],
    .exprStmt ⟨3⟩,
    .expr (.name "a"),
    .expr (.construct ⟨6⟩ []),
    .assign ⟨4⟩ ⟨5⟩,
    .expr (.name "b"),
    .binding "c" none (some ⟨6⟩) false false,
    .expr (.construct ⟨6⟩ []),
    .binding "d" none (some ⟨7⟩) false false,
    .expr (.name "d"),
    .callName "take" [] [⟨8⟩],
    .exprStmt ⟨10⟩,
    .block [⟨3⟩, ⟨4⟩, ⟨5⟩],
    .blockStmt ⟨0⟩,
    .block [⟨0⟩, ⟨1⟩, ⟨2⟩, ⟨6⟩],
    .body ⟨8⟩ ⟨1⟩])

/-- The parameter `a` is destroyed where the body ends. The local `b` has gone to `c`, which is destroyed where the
inner block ends. -/
theorem drops_takenAndReplaced : ∃ p, takenAndReplaced.link.result = .ok p ∧
    (p.dropsAt ⟨1⟩).filter (·.decl == ⟨9⟩) = [⟨⟨9⟩, ⟨1⟩⟩] ∧ (∀ b, ⟨10⟩ ∉ p.droppedAt b) ∧
    (p.dropsAt ⟨0⟩).filter (·.decl == ⟨11⟩) = [⟨⟨11⟩, ⟨1⟩⟩] := by
  obtain ⟨p, hlink, hparam, hlocal⟩ : ∃ p, takenAndReplaced.link.result = .ok p ∧
      p.signatures.destructor? ⟨9⟩ = some ⟨1⟩ ∧ p.signatures.destructor? ⟨11⟩ = some ⟨1⟩ :=
    exists_of_result (by decide +kernel)
  have hbuilt : takenAndReplaced.source.Built := by
    dsimp only [takenAndReplaced]
    exact Source.built_ofSteps _
  have hbody : takenAndReplaced.linkEnv.body? ⟨8⟩ = some ([⟨9⟩], ⟨1⟩) := by decide +kernel
  obtain ⟨-, hexits⟩ :=
    Setup.drops_of_straight hbuilt (by decide +kernel) hlink (by decide +kernel) hbody (by decide +kernel)
  have hmoved : ∀ {x : DeclId} {es : List Event}, (MoveTracker.afterAll {} es).movedFrom x = true ↔
      ∃ q, Dangling q es ∧ q.root = x := MoveTracker.movedFrom_afterAll_iff
  obtain ⟨outer, houter, hfunc, hblock, ha, hb, hkept, hgone⟩ : ∃ e ∈ takenAndReplaced.exits, e.func = ⟨8⟩ ∧
      e.block = ⟨1⟩ ∧ ⟨9⟩ ∈ e.due ∧ ⟨10⟩ ∈ e.due ∧ ¬(MoveTracker.afterAll {} e.events).movedFrom ⟨9⟩ = true ∧
        (MoveTracker.afterAll {} e.events).movedFrom ⟨10⟩ = true := by decide +kernel
  obtain ⟨inner, hinner, hfunc', hblock', hc, hkept'⟩ : ∃ e ∈ takenAndReplaced.exits, e.func = ⟨8⟩ ∧
      e.block = ⟨0⟩ ∧ ⟨11⟩ ∈ e.due ∧ ¬(MoveTracker.afterAll {} e.events).movedFrom ⟨11⟩ = true := by decide +kernel
  obtain ⟨-, -, houter⟩ := hexits outer houter hfunc
  obtain ⟨-, -, hinner⟩ := hexits inner hinner hfunc'
  rw [hmoved] at hkept hkept' hgone
  obtain ⟨q, hdangling, hroot⟩ := hgone
  refine ⟨p, hlink, ?_, (houter _ hb).2 (.inr ⟨q, hroot, hdangling⟩), ?_⟩
  · rw [← hblock]
    exact ((houter _ ha).1 _ hparam fun q hroot hdangling => hkept ⟨q, hdangling, hroot⟩).1
  · rw [← hblock']
    exact ((hinner _ hc).1 _ hlocal fun q hroot hdangling => hkept' ⟨q, hdangling, hroot⟩).1

/-- The body `{ let x = Res {}; } take(ns::x);`, where the variable is listed in the namespace `ns`. -/
def takenByPath : Setup where
  source := .ofSteps [
    .struct "Res" (.owned (some "drop")),
    .function "drop",
    .typeExpr (.named ["Res"] []),
    .param ⟨1⟩ "r" ⟨0⟩ false,
    .function "take",
    .typeExpr (.named ["Res"] []),
    .param ⟨3⟩ "r" ⟨1⟩ false,
    .space "ns",
    .function "main",
    .typeExpr (.named ["Res"] []),
    .expr (.construct ⟨2⟩ []),
    .binding "x" none (some ⟨0⟩) false false,
    .nest ⟨5⟩ ⟨7⟩,
    .block [⟨0⟩],
    .blockStmt ⟨0⟩,
    .expr (.path ["ns", "x"]),
    .callName "take" [] [⟨1⟩],
    .exprStmt ⟨3⟩,
    .block [⟨1⟩, ⟨2⟩],
    .body ⟨6⟩ ⟨1⟩]

/-- The variable is moved out and not written to afterwards, and it is on the schedule of its block. Nothing is
reported. -/
theorem dropped_takenByPath : takenByPath.linkEnv.Once takenByPath.declared.bodies ∧
    takenByPath.linkEnv.body? ⟨6⟩ = some ([], ⟨1⟩) ∧ (takenByPath.linkEnv.trees.block ⟨1⟩).isStraight = true ∧
    takenByPath.link.reports = [] ∧
    (∃ es, takenByPath.link.history = es.map .event ∧ Dangling { root := ⟨7⟩ } es) ∧
    ∃ p, takenByPath.link.result = .ok p ∧ p.signatures.destructor? ⟨7⟩ = some ⟨1⟩ ∧ ⟨7⟩ ∈ p.droppedAt ⟨0⟩ := by
  refine ⟨by decide +kernel, by decide +kernel, by decide +kernel, by decide +kernel,
    ⟨[.passing [], .written { root := ⟨7⟩ }, .read ⟨1⟩ {} { root := ⟨7⟩ } false,
      .passing [⟨⟨1⟩, { root := ⟨7⟩ }, false⟩]] ++ [.moved { root := ⟨7⟩ } {}], by decide +kernel, ?_⟩,
    exists_of_result (by decide +kernel)⟩
  exact ⟨_, _, [], rfl, by simp⟩

end Linkage
