import Linkage.Proofs.Link.Closings
import Linkage.Proofs.Link.Simple
import Linkage.Proofs.Link.Surroundings

/-!
# What linking a body leaves in the program

Two things outlast a block: the types of its locals, and what is to be destroyed at its end. A local is given its type
by the statement that binds it. At the end of a block each of its locals is looked at, the last one first, and put on
the schedule of the block unless something was moved out of it or there is nothing to call.
-/

namespace Linkage

variable {x : DeclId} {stmts : List Stmt} {span : Span} {u : Unit}

/-- What is called when the local is destroyed: its type, with aliases expanded, is a struct that is owned and whose
destructor was found. -/
def Signatures.destructor? (sigs : Signatures) (x : DeclId) : Option DeclId :=
  match (sigs.declTypes.get? x).map sigs.env.expand with
  | some (.linked struct _) =>
    match sigs.disposalOf struct with
    | .owned destructor => destructor
    | .copy => none
  | _ => none

section

variable {sigs : Signatures} {x struct : DeclId} {args : List Ty}

theorem Signatures.destructor?_of_owned (hty : (sigs.declTypes.get? x).map sigs.env.expand = some (.linked struct args))
    {destructor : Option DeclId} (h : sigs.disposalOf struct = .owned destructor) :
    sigs.destructor? x = destructor := by
  rw [destructor?, hty]
  dsimp only
  rw [h]

theorem Signatures.destructor?_of_copy (hty : (sigs.declTypes.get? x).map sigs.env.expand = some (.linked struct args))
    (h : sigs.disposalOf struct = .copy) : sigs.destructor? x = none := by
  rw [destructor?, hty]
  dsimp only
  rw [h]

theorem Signatures.destructor?_of_ne
    (h : ∀ struct args, (sigs.declTypes.get? x).map sigs.env.expand ≠ some (.linked struct args)) :
    sigs.destructor? x = none := by
  unfold destructor?
  split
  · rename_i struct args hty
    exact absurd hty (h struct args)
  · rfl

end

def Signatures.drop? (sigs : Signatures) (moves : MoveTracker) (x : DeclId) : Option ScheduledDrop :=
  if moves.movedFrom x then none else (sigs.destructor? x).map ({ decl := x, destructor := · })

theorem Signatures.decl_of_drop? {sigs : Signatures} {moves : MoveTracker} {drop : ScheduledDrop}
    (h : sigs.drop? moves x = some drop) : drop.decl = x := by
  unfold drop? at h
  split at h
  · simp at h
  · obtain ⟨destructor, -, rfl⟩ := Option.map_eq_some_iff.1 h
    rfl

def LinkState.drop? (s : LinkState) : DeclId → Option ScheduledDrop := s.signatures.drop? s.moves

def LinkState.inBlock (s : LinkState) : LinkState := { s with scopes := s.scopes.push {}, locals := [] :: s.locals }

namespace Link

variable {α β : Type} {env : LinkEnv} {s s₁ s' : LinkState} {body : Body}

/-! ### The end of a block -/

/-- The schedule of the block has grown, and nothing else has happened that concerns places or what was linked. -/
structure Plans (s : LinkState) (block : BlockId) (drops : List ScheduledDrop) (s' : LinkState) : Prop where
  here : s'.program.dropsAt block = s.program.dropsAt block ++ drops
  elsewhere : ∀ b, block ≠ b → s'.program.dropsAt b = s.program.dropsAt b
  signatures : s'.program.signatures = s.program.signatures
  moves : s'.moves = s.moves
  history : s'.history = s.history
  retains : Retains s s'

variable {block : BlockId}

theorem plans_of_eq (hdrops : s'.program.drops = s.program.drops)
    (hsignatures : s'.program.signatures = s.program.signatures) (hmoves : s'.moves = s.moves)
    (hhistory : s'.history = s.history) (hlinked : s'.linked = s.linked)
    (hresolved : s'.program.resolved = s.program.resolved) : Plans s block [] s' where
  here := by rw [Program.dropsAt, hdrops, List.append_nil]; rfl
  elsewhere b _ := by rw [Program.dropsAt, hdrops]; rfl
  signatures := hsignatures
  moves := hmoves
  history := hhistory
  retains := retains_of_eq hlinked hresolved

theorem Plans.refl (s : LinkState) : Plans s block [] s := plans_of_eq rfl rfl rfl rfl rfl rfl

theorem Plans.trans {drops drops' : List ScheduledDrop} (h : Plans s block drops s₁) (h' : Plans s₁ block drops' s') :
    Plans s block (drops ++ drops') s' where
  here := by rw [h'.here, h.here, List.append_assoc]
  elsewhere b hb := (h'.elsewhere b hb).trans (h.elsewhere b hb)
  signatures := h'.signatures.trans h.signatures
  moves := h'.moves.trans h.moves
  history := h'.history.trans h.history
  retains e he := h'.retains e (h.retains e he)

theorem Plans.drop? {drops : List ScheduledDrop} (h : Plans s block drops s') (x : DeclId) :
    s'.drop? x = s.drop? x := by
  simp only [LinkState.drop?, LinkState.signatures, h.moves, h.signatures]

theorem plans_report (span : Span) (p : Problem) : FramedIn env (Plans · block [] ·) (report span p) := by
  refine .modify fun s => ?_
  split
  · exact .refl s
  · exact plans_of_eq rfl rfl rfl rfl rfl rfl

theorem scheduleDrop_plans {held : DeclId} (h : Runs env (scheduleDrop block held) s u s') :
    Plans s block (s.drop? held).toList s' := by
  simp only [scheduleDrop, runs_bind, runs_get, LinkState.env] at h
  obtain ⟨_, _, ⟨rfl, rfl⟩, h⟩ := h
  rw [LinkState.drop?, Signatures.drop?]
  split at h
  · obtain ⟨-, rfl⟩ := runs_pure.1 h
    rw [if_pos (by assumption)]
    exact .refl s
  · rw [if_neg (by assumption)]
    split at h
    · rename_i struct args hty
      split at h
      · rename_i hdisposal
        obtain ⟨-, rfl⟩ := runs_pure.1 h
        rw [Signatures.destructor?_of_copy hty hdisposal]
        exact .refl s
      · rename_i destructor hdisposal
        obtain rfl := runs_set.1 h
        rw [Signatures.destructor?_of_owned hty hdisposal]
        refine ⟨?_, fun b hb => ?_, rfl, rfl, rfl, retains_of_eq rfl rfl⟩
        · simp [Program.dropsAt]
        · simp [Program.dropsAt, Table.get?_insert, hb]
      · rename_i hdisposal
        rw [Signatures.destructor?_of_owned hty hdisposal]
        obtain ⟨owner, _, hlook, h⟩ := runs_bind.1 h
        obtain ⟨-, rfl⟩ := runs_declOf.1 hlook
        split at h
        · obtain ⟨-, rfl⟩ := runs_pure.1 h
          exact .refl s
        · obtain ⟨d, _, hlook, h⟩ := runs_bind.1 h
          obtain ⟨-, rfl⟩ := runs_declOf.1 hlook
          exact (plans_report _ _).of_runs h
    · rename_i hother
      obtain ⟨-, rfl⟩ := runs_pure.1 h
      rw [Signatures.destructor?_of_ne hother]
      exact .refl s

/-- At the end of a block its locals are put on the schedule in the order given, as far as they are destroyed. -/
theorem forM_scheduleDrop_plans {held : List DeclId} (h : Runs env (held.forM (scheduleDrop block)) s u s') :
    Plans s block (held.filterMap s.drop?) s' := by
  induction held generalizing s with
  | nil =>
    obtain rfl := runs_forM_nil.1 h
    exact .refl s
  | cons first rest ih =>
    obtain ⟨s₁, hfirst, hrest⟩ := runs_forM_cons.1 h
    have hfirst := scheduleDrop_plans hfirst
    have hrest := ih hrest
    rw [List.filterMap_congr fun x _ => hfirst.drop? x] at hrest
    have hplans := hfirst.trans hrest
    rw [List.filterMap_cons]
    cases hdrop : s.drop? first with
    | none => simpa [hdrop] using hplans
    | some drop => simpa [hdrop] using hplans

/-! ### What a body may touch -/

/-- Only the types of some locals have changed, and schedules have only grown by what is due at the end of some
blocks. -/
structure Touches (typed : DeclId → Prop) (cs : List Closing) (s s' : LinkState) : Prop where
  types : ∀ x, ¬typed x → s'.signatures.declTypes.get? x = s.signatures.declTypes.get? x
  others : { s'.signatures with declTypes := {} } = { s.signatures with declTypes := {} }
  drops : ∀ b, ∃ more, s'.program.dropsAt b = s.program.dropsAt b ++ more ∧
    ∀ drop ∈ more, ∃ c ∈ cs, c.block = b ∧ drop.decl ∈ c.due
  retains : Retains s s'

variable {typed typed' : DeclId → Prop} {cs cs' : List Closing}

theorem touches_of_eq (hsignatures : s'.program.signatures = s.program.signatures)
    (hdrops : s'.program.drops = s.program.drops) (hretains : Retains s s') : Touches typed cs s s' where
  types x _ := by rw [LinkState.signatures, hsignatures]; rfl
  others := by rw [LinkState.signatures, hsignatures]; rfl
  drops b := ⟨[], by rw [Program.dropsAt, hdrops, List.append_nil]; rfl, by simp⟩
  retains := hretains

instance : Sequential (Touches typed cs) where
  refl s := touches_of_eq rfl rfl fun _ he => he
  trans h h' := by
    refine ⟨fun x hx => (h'.types x hx).trans (h.types x hx), h'.others.trans h.others, fun b => ?_,
      fun e he => h'.retains e (h.retains e he)⟩
    obtain ⟨more, hmore, hdue⟩ := h.drops b
    obtain ⟨more', hmore', hdue'⟩ := h'.drops b
    exact ⟨more ++ more', by rw [hmore', hmore, List.append_assoc], List.forall_mem_append.2 ⟨hdue, hdue'⟩⟩

namespace Touches

theorem mono (h : Touches typed cs s s') (htyped : ∀ x, typed x → typed' x) (hcs : cs ⊆ cs') :
    Touches typed' cs' s s' where
  types x hx := h.types x fun hx' => hx (htyped x hx')
  others := h.others
  drops b := by
    obtain ⟨more, hmore, hdue⟩ := h.drops b
    refine ⟨more, hmore, fun drop hdrop => ?_⟩
    obtain ⟨c, hc, hblock, hheld⟩ := hdue drop hdrop
    exact ⟨c, hcs hc, hblock, hheld⟩
  retains := h.retains

theorem destructor? (h : Touches typed cs s s') (hx : ¬typed x) :
    s'.signatures.destructor? x = s.signatures.destructor? x := by
  have henv : s'.signatures.env = s.signatures.env := by
    have heq := congrArg Signatures.env h.others
    exact heq
  have hdisposal : s'.signatures.disposalOf = s.signatures.disposalOf := by
    have heq := congrArg Signatures.disposalOf h.others
    exact heq
  rw [Signatures.destructor?, Signatures.destructor?, h.types x hx, henv, hdisposal]

theorem dropsAt (h : Touches typed cs s s') {b : BlockId} (hb : b ∉ cs.map (·.block)) :
    s'.program.dropsAt b = s.program.dropsAt b := by
  obtain ⟨more, hmore, hdue⟩ := h.drops b
  cases more with
  | nil => rw [hmore, List.append_nil]
  | cons drop more =>
    obtain ⟨c, hc, hblock, -⟩ := hdue drop List.mem_cons_self
    exact absurd (hblock ▸ List.mem_map_of_mem hc) hb

theorem mem_droppedAt (h : Touches typed cs s s') {b : BlockId} (hx : x ∈ s'.program.droppedAt b) :
    x ∈ s.program.droppedAt b ∨ x ∈ cs.flatMap (·.due) := by
  obtain ⟨more, hmore, hdue⟩ := h.drops b
  rw [Program.droppedAt, hmore, List.map_append, List.mem_append] at hx
  refine hx.imp_right fun hx => ?_
  obtain ⟨drop, hdrop, rfl⟩ := List.mem_map.1 hx
  obtain ⟨c, hc, -, hheld⟩ := hdue drop hdrop
  exact List.mem_flatMap.2 ⟨c, hc, hheld⟩

end Touches

theorem Plans.touches {held : List DeclId} (h : Plans s block (held.filterMap s₁.drop?) s') {c : Closing} (hc : c ∈ cs)
    (hblock : c.block = block) (hheld : held ⊆ c.due) : Touches typed cs s s' where
  types x _ := by rw [LinkState.signatures, h.signatures]; rfl
  others := by rw [LinkState.signatures, h.signatures]; rfl
  drops b := by
    by_cases hb : block = b
    · subst hb
      refine ⟨_, h.here, fun drop hdrop => ⟨c, hc, hblock, hheld ?_⟩⟩
      obtain ⟨x, hx, hdrop⟩ := List.mem_filterMap.1 hdrop
      rwa [Signatures.decl_of_drop? hdrop]
    · exact ⟨[], by rw [h.elsewhere b hb, List.append_nil], by simp⟩
  retains := h.retains

/-! ### Expressions -/

theorem touches_report (span : Span) (p : Problem) : FramedIn env (Touches typed cs) (report span p) :=
  .report fun _ _ => touches_of_eq rfl rfl (retains_of_eq rfl rfl)

theorem checkable_touches : Checkable (Touches typed cs) :=
  .of_idle (fun h => touches_of_eq (signatures_of_steps h).1 (silent_of_steps h).drops (checkable_walked.steps h).retains)
    touches_report fun h => touches_of_eq h.signatures h.drops (retains_of_eq h.linked h.resolved)

theorem walkable_touches (env : LinkEnv) : Walkable env (fun _ => True) (Touches typed cs) := by
  refine walkable_of_records checkable_touches (fun decl index _ h s => ?_) (fun e decl s => ?_) (fun e ty s => ?_)
    fun h => h.retains
  · have hact := h { s with program := (s.program.activate decl index).2 }
    exact ⟨hact.types, hact.others, hact.drops, hact.retains⟩
  · exact touches_of_eq rfl rfl (retains_recordResolved e decl env s)
  · exact touches_of_eq rfl rfl (retains_recordLinked e ty env s)

/-! ### Statements and blocks -/

/-- If the action ends with a result, the states are related. -/
def Ensures (env : LinkEnv) (ρ : LinkState → LinkState → Prop) (act : LinkM α) : Prop :=
  ∀ s a s', Runs env act s a s' → ρ s s'

namespace Ensures

variable {ρ : LinkState → LinkState → Prop}

theorem of_framed {act : LinkM α} (h : FramedIn env ρ act) : Ensures env ρ act := fun _ _ _ hrun => h.of_runs hrun

theorem of_looks [Sequential ρ] {act : LinkM α} (h : Looks act) : Ensures env ρ act := .of_framed h.framedIn

theorem bind [Sequential ρ] {x : LinkM α} {f : α → LinkM β} (hx : Ensures env ρ x) (hf : ∀ a, Ensures env ρ (f a)) :
    Ensures env ρ (x >>= f) := by
  intro s b s' hrun
  obtain ⟨a, s₁, hfirst, hrest⟩ := runs_bind.1 hrun
  exact Sequential.trans (hx s a s₁ hfirst) (hf a s₁ b s' hrest)

end Ensures

theorem locals_linkStmts (h : Runs env (linkStmts body stmts) s u s')
    {innermost : List DeclId} {outer : List (List DeclId)} (hs : s.locals = innermost :: outer) :
    s'.locals = (innermost ++ Stmt.locals env.source stmts) :: outer := by
  induction stmts generalizing s innermost with
  | nil =>
    rw [linkStmts] at h
    obtain ⟨-, rfl⟩ := runs_pure.1 h
    rw [hs, Stmt.locals, List.filterMap_nil, List.append_nil]
  | cons stmt stmts ih =>
    rw [linkStmts] at h
    obtain ⟨_, s₁, hfirst, hrest⟩ := runs_bind.1 h
    have hlocals := ((introduces_stmt env body stmt).bound s _ s₁ hfirst).locals
    cases hbound : stmt.bound? env.source with
    | none =>
      rw [hbound] at hlocals
      rw [ih hrest (hlocals.trans hs), Stmt.locals, Stmt.locals, List.filterMap_cons_none (by simp [hbound])]
    | some b =>
      have hadded : s₁.locals = (innermost ++ [b.2]) :: outer := by
        rw [hlocals, hbound]
        simp [LinkState.bindOptional, LinkState.bindLocal, hs]
      rw [ih hrest hadded, Stmt.locals, Stmt.locals, List.filterMap_cons_some (b := b.2) (by simp [hbound]),
        List.append_assoc]
      rfl

def Admits (src : Source) (typed : DeclId → Prop) (cs : List Closing) (b : Block) : Prop :=
  (∃ c ∈ cs, c.block = b.id ∧ b.locals src ⊆ c.due) ∧ ∀ x ∈ b.locals src, typed x

theorem touches_linkBinding {id : StmtId} {decl : DeclId} {init : Option Expr}
    (hlocals : ∀ x ∈ Stmt.locals env.source [.node id span (.binding decl init)], typed x) :
    Ensures env (Touches typed cs) (linkBinding body span decl init) := by
  intro s u s' hrun
  have hrecord : ∀ name, env.source.varName? decl = some name → ∀ ty,
      FramedIn env (Touches typed cs) (recordDeclType decl ty) := by
    intro name hname ty
    have hdecl : typed decl := hlocals decl (by simp [Stmt.locals, Stmt.bound?, hname])
    refine .modify fun s => ⟨fun x hx => ?_, rfl, fun b => ?_, retains_of_eq rfl rfl⟩
    · exact Table.get?_insert_of_ne _ _ fun heq => hx (heq ▸ hdecl)
    · exact ⟨[], (List.append_nil _).symm, by simp⟩
  obtain ⟨s₁, hs₁, hidle⟩ := (walkable_touches env).of_linkBinding (fun _ _ _ _ => trivial) hrecord hrun
  refine Sequential.trans hs₁ (Sequential.trans ?_ (checkable_touches.idle hidle))
  cases (env.source.varName? decl).map (·, decl) with
  | none => exact Sequential.refl s₁
  | some b => exact touches_of_eq rfl rfl (retains_of_eq rfl rfl)

theorem linkBlock_plans {id : BlockId} (h : Runs env (linkBlock body (.node id span stmts)) s u s') :
    ∃ s₁, Runs env (linkStmts body stmts) s.inBlock () s₁ ∧
      Plans s₁ id ((Stmt.locals env.source stmts).reverse.filterMap s₁.drop?) s' := by
  rw [linkBlock, runs_withFrame] at h
  obtain ⟨s₃, h, rfl⟩ := h
  simp only [runs_bind] at h
  obtain ⟨_, _, hopen, _, s₁, hrun, locals, s₂, hclose, hdrops⟩ := h
  obtain rfl := runs_modify.1 hopen
  obtain ⟨rfl, rfl⟩ := runs_modifyGet.1 hclose
  have hclosed : Plans s₁ id [] { s₁ with locals := s₁.locals.tail } := plans_of_eq rfl rfl rfl rfl rfl rfl
  have hleft : Plans s₃ id [] { s₃ with scopes := s₃.scopes.pop } := plans_of_eq rfl rfl rfl rfl rfl rfl
  have hplans := (hclosed.trans (forM_scheduleDrop_plans hdrops)).trans hleft
  rw [List.filterMap_congr fun x _ => hclosed.drop? x, List.nil_append, List.append_nil,
    locals_linkStmts hrun rfl] at hplans
  exact ⟨s₁, hrun, hplans⟩

theorem touches_block (hstmts : Ensures env (Touches typed cs) (linkStmts body stmts))
    {id : BlockId} (hadmits : Admits env.source typed cs (.node id span stmts)) :
    Ensures env (Touches typed cs) (linkBlock body (.node id span stmts)) := by
  intro s u s' h
  obtain ⟨s₁, hrun, hplans⟩ := linkBlock_plans h
  have hopened : Touches typed cs s s.inBlock := touches_of_eq rfl rfl (retains_of_eq rfl rfl)
  obtain ⟨⟨c, hc, hblock, hdue⟩, -⟩ := hadmits
  refine Sequential.trans (Sequential.trans hopened (hstmts _ _ _ hrun)) (hplans.touches hc hblock fun x hx => hdue ?_)
  exact List.mem_reverse.1 hx

def AdmitsStmt (src : Source) (typed : DeclId → Prop) (cs : List Closing) (stmt : Stmt) : Prop :=
  (∀ x ∈ Stmt.locals src [stmt], typed x) ∧ ∀ b ∈ stmt.within, Admits src typed cs b

theorem touches_linkStmts (h : ∀ stmt ∈ stmts, AdmitsStmt env.source typed cs stmt →
      Ensures env (Touches typed cs) (linkStmt body stmt)) (hlocals : ∀ x ∈ Stmt.locals env.source stmts, typed x)
    (hblocks : ∀ b ∈ Stmt.withinAll stmts, Admits env.source typed cs b) :
    Ensures env (Touches typed cs) (linkStmts body stmts) := by
  have hbranching : Branching fun _ act => Ensures env (Touches typed cs) act := checkable_touches.branching .of_framed .bind
  refine hbranching.linkStmts fun stmt hstmt => h stmt hstmt ⟨fun x hx => ?_, fun b hb => ?_⟩
  · obtain ⟨_, hmem, hbound⟩ := List.mem_filterMap.1 hx
    obtain rfl := List.mem_singleton.1 hmem
    exact hlocals x (List.mem_filterMap.2 ⟨_, hstmt, hbound⟩)
  · rw [Stmt.withinAll_eq_flatMap] at hblocks
    exact hblocks b (List.mem_flatMap_of_mem hstmt hb)

theorem touches_linkStmt (body : Body) (stmt : Stmt) : AdmitsStmt env.source typed cs stmt →
    Ensures env (Touches typed cs) (linkStmt body stmt) := by
  have htouches : (∀ stmt, AdmitsStmt env.source typed cs stmt → Ensures env (Touches typed cs) (linkStmt body stmt)) ∧
      ∀ b, (∀ c ∈ Block.within b, Admits env.source typed cs c) → Ensures env (Touches typed cs) (linkBlock body b) := by
    refine Stmt.induction ⟨fun id _ => ?_, fun id span shape ih hadmits => ?_, fun id _ => ?_,
      fun id span stmts ih hblocks => ?_⟩
    · rw [linkStmt]
      exact .of_looks (.throw _)
    · obtain ⟨hlocals, hblocks⟩ := hadmits
      rw [Stmt.within, Stmt.withinShape_eq_flatMap] at hblocks
      rw [linkStmt]
      refine (walkable_touches env).linkStmtShape (T := fun _ act => Ensures env (Touches typed cs) act) .of_framed .bind
        (fun _ _ _ _ => trivial) (fun decl init hshape => ?_) fun b hb => ih b hb fun c hc => ?_
      · subst hshape
        exact touches_linkBinding hlocals
      · exact hblocks c (List.mem_flatMap_of_mem hb hc)
    · rw [linkBlock]
      exact .of_looks (.throw _)
    · rw [Block.within, List.forall_mem_append, List.forall_mem_singleton] at hblocks
      exact touches_block (touches_linkStmts ih hblocks.2.2 hblocks.1) hblocks.2
  exact htouches.1 stmt

end Link

end Linkage
