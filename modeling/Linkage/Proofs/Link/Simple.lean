import Linkage.Proofs.Link.Evaluation

/-!
# What linking notes about simple statements

A statement that passes a value on links the value first. If the value names a place, reading it is the last thing
that is noted before it moves. Statements without statements inside them note their events in one stretch.
-/

namespace Linkage

def Program.droppedAt (p : Program) (block : BlockId) : List DeclId := (p.dropsAt block).map (·.decl)

namespace Link

variable {α β : Type} {env : LinkEnv} {s s₁ s₂ s' : LinkState} {body : Body}

theorem Noting.stays (h : Noting Event.inExpr s s') : Noting Event.stays s s' :=
  h.mono fun _ => Event.stays_of_inExpr

theorem tells_linkExpr (e : Expr) (hint : Option Ty) (access : Access) :
    Tells Event.stays env (linkExpr body hint access e) :=
  fun _ _ _ h => (linkExpr_evaluated body e h).noting.stays

theorem consumed_noting {hint : Option Ty} {e : Expr} {ty : Ty} {out : Option Place}
    (hlink : Runs env (linkExpr body hint .read e) s ty s₁) (hsilent : Silent s₁ s₂)
    (hconsume : Runs env (consume e ty) s₂ out s') : Noting Event.stays s s' := by
  have hevaluated := (linkExpr_evaluated body e hlink).silent hsilent
  have hlinked : ∃ es, Notes s es s₂ ∧ (∀ x ∈ es, x.inExpr = true) ∧ (s₂.signatures.isOwned ty = true →
      ∀ p, e.place? env.source s₂.program.resolved = some p → Announced es p) := by
    by_cases hread : e.isPlace = true ∧ ty.isData = true
    · obtain ⟨p, hp, hreads⟩ := hevaluated.place hread.1 hread.2
      obtain ⟨es, span, gone, hnotes, hkind⟩ := hreads rfl
      have hkinds : ∀ x ∈ es ++ [.read e.id span p gone], x.inExpr = true :=
        List.forall_mem_append.2 ⟨hkind, List.forall_mem_singleton.2 rfl⟩
      refine ⟨_, hnotes, hkinds, fun _ q hq => ?_⟩
      rw [hp] at hq
      obtain rfl := Option.some.inj hq
      exact .inl ⟨es, e.id, span, gone, rfl⟩
    · obtain ⟨es, hnotes, hkind⟩ := hevaluated.noting
      refine ⟨es, hnotes, hkind, fun howned p hp => absurd ⟨?_, ?_⟩ hread⟩
      · exact Expr.isPlace_of_place? hp
      · exact Signatures.isData_of_isOwned howned
  obtain ⟨es, hnotes, hkind, hannounced⟩ := hlinked
  obtain ⟨-, more, hmore, hpasses⟩ := consume_notes hnotes hannounced hconsume
  exact Noting.stays ⟨_, hmore, List.forall_mem_append.2 ⟨hkind, fun x hx => (hpasses x hx).inExpr⟩⟩

/-! ### Destruction and scopes -/

/-- The locals were scheduled to be destroyed at the end of the block, and nothing else has happened that concerns
places. -/
structure Schedules (s : LinkState) (block : BlockId) (dropped : List DeclId) (s' : LinkState) : Prop where
  history : s'.history = s.history
  moves : s'.moves = s.moves
  quiet : s'.quiet = s.quiet
  reports : ∃ added, s'.reports = s.reports ++ added ∧ ∀ d ∈ added, d.kind ≠ .useAfterMove
  schedule : ∀ b, s'.program.droppedAt b = s.program.droppedAt b ++ if block = b then dropped else []
  /-- Nothing was moved out of them. -/
  whole : ∀ x ∈ dropped, s.moves.movedFrom x = false

variable {block : BlockId} {dropped dropped' : List DeclId}

theorem Silent.schedules (h : Silent s s') (block : BlockId) : Schedules s block [] s' where
  history := h.history
  moves := h.moves
  quiet := h.quiet
  reports := h.reports
  schedule b := by simp [Program.droppedAt, Program.dropsAt, h.drops]
  whole := nofun

theorem Schedules.trans (h : Schedules s block dropped s₁) (h' : Schedules s₁ block dropped' s') :
    Schedules s block (dropped ++ dropped') s' where
  history := h'.history.trans h.history
  moves := h'.moves.trans h.moves
  quiet := h'.quiet.trans h.quiet
  reports := by
    obtain ⟨added, hadded, hkind⟩ := h.reports
    obtain ⟨added', hadded', hkind'⟩ := h'.reports
    refine ⟨added ++ added', ?_, List.forall_mem_append.2 ⟨hkind, hkind'⟩⟩
    rw [hadded', hadded, List.append_assoc]
  schedule b := by
    rw [h'.schedule, h.schedule, List.append_assoc]
    split
    · rfl
    · rfl
  whole := List.forall_mem_append.2 ⟨h.whole, h.moves ▸ h'.whole⟩

theorem scheduleDrop_schedules {held : DeclId} {u : Unit} (h : Runs env (scheduleDrop block held) s u s') :
    ∃ dropped, Schedules s block dropped s' := by
  have hnothing : ∀ {act : LinkM Unit}, FramedIn env Silent act → Runs env act s u s' → ∃ dropped, Schedules s block dropped s' :=
    fun hsilent hrun => ⟨[], (hsilent.of_runs hrun).schedules block⟩
  simp only [scheduleDrop, runs_bind, runs_get] at h
  obtain ⟨_, _, ⟨rfl, rfl⟩, h⟩ := h
  split at h
  · exact hnothing (.pure _) h
  · rename_i hmoved
    split at h
    · split at h
      · exact hnothing (.pure _) h
      · obtain rfl := runs_set.1 h
        refine ⟨[held], rfl, rfl, rfl, ⟨[], (List.append_nil _).symm, by simp⟩, ?_, by simpa using hmoved⟩
        intro b
        simp only [Program.droppedAt, Program.dropsAt, Table.get?_insert]
        split
        · rename_i hb
          subst hb
          simp
        · simp
      · rename_i struct _ _ _ _
        refine hnothing (.bind (looks_declOf struct).framedIn fun owner => ?_) h
        split
        · exact .pure _
        · exact .bind (looks_declOf held).framedIn fun d => silent_report _ (by rintro ⟨⟩)
    · exact hnothing (.pure _) h

theorem scheduleDrops_schedules {locals : List DeclId} {u : Unit} (h : Runs env (scheduleDrops block locals) s u s') :
    ∃ dropped, Schedules s block dropped s' := by
  rw [scheduleDrops] at h
  generalize locals.reverse = held at h
  induction held generalizing s with
  | nil =>
    obtain rfl := runs_forM_nil.1 h
    exact ⟨[], (Sequential.refl s : Silent s s).schedules block⟩
  | cons first rest ih =>
    obtain ⟨s₁, hfirst, hrest⟩ := runs_forM_cons.1 h
    obtain ⟨dropped, hfirst⟩ := scheduleDrop_schedules hfirst
    obtain ⟨dropped', hrest⟩ := ih hrest
    exact ⟨_, hfirst.trans hrest⟩

theorem silent_openLocals : FramedIn env Silent openLocals := .modify fun _ => silent_of_eq rfl rfl rfl rfl rfl rfl

theorem silent_closeLocals : FramedIn env Silent closeLocals := .modifyGet fun _ => silent_of_eq rfl rfl rfl rfl rfl rfl

theorem silent_addLocal (decl : DeclId) : FramedIn env Silent (addLocal decl) :=
  .modify fun _ => silent_of_eq rfl rfl rfl rfl rfl rfl

theorem silent_declareLocal (name : String) (decl : DeclId) : FramedIn env Silent (declareLocal name decl) :=
  .modify fun _ => silent_of_eq rfl rfl rfl rfl rfl rfl

theorem silent_recordDeclType (decl : DeclId) (ty : Ty) : FramedIn env Silent (recordDeclType decl ty) :=
  .modify fun _ => silent_of_eq rfl rfl rfl rfl rfl rfl

/-! ### Simple statements -/

theorem tells_reinit (p : Place) : Tells Event.stays env (reinit p) := by
  intro s u s' h
  simp only [reinit, note, runs_bind, runs_modify] at h
  obtain ⟨_, _, rfl, rfl⟩ := h
  exact ⟨[.written p], (Notes.refl s).snoc rfl trivial (by simp) rfl rfl rfl rfl rfl, by simp [Event.stays]⟩

theorem tells_linkInit (name : String) (span : Span) (declared : Option Ty) (init : Option Expr) :
    Tells Event.stays env (linkInit body name span declared init) := by
  intro s ty s' h
  cases declared with
  | none =>
    cases init with
    | none =>
      have hreport : Tells Event.stays env (linkInit body name span none none) :=
        .bind (.of_silent (silent_report _ nofun)) fun _ => .pure _
      exact hreport s ty s' h
    | some init =>
      simp only [linkInit, runs_bind, runs_pure] at h
      obtain ⟨actual, s₁, hlink, _, s₂, hrecord, out, s₃, hconsume, rfl, rfl⟩ := h
      exact consumed_noting hlink ((typable_silent.recordType _ _).of_runs hrecord) hconsume
  | some declared =>
    cases init with
    | none => exact Tells.pure _ s ty s' h
    | some init =>
      simp only [linkInit, runs_bind, runs_pure] at h
      obtain ⟨actual, s₁, hlink, _, s₂, hexpect, _, s₃, hsettle, out, s₄, hconsume, rfl, rfl⟩ := h
      have hsilent : Silent s₁ s₃ := Sequential.trans ((typable_silent.expectType _ _ _).of_runs hexpect)
        ((typable_silent.settleLiteral _ _ _).of_runs hsettle)
      exact consumed_noting hlink hsilent hconsume

theorem tells_linkBinding (span : Span) (decl : DeclId) (init : Option Expr) :
    Tells Event.stays env (linkBinding body span decl init) := by
  refine .bind (.of_looks (looks_declOf decl)) fun d => ?_
  split
  · have hend : Tells Event.stays env (do
        declareLocal d.name decl
        addLocal decl
        reinit { root := decl }) := by
      refine .bind (.of_silent (silent_declareLocal _ _)) fun _ => ?_
      exact .bind (.of_silent (silent_addLocal _)) fun _ => tells_reinit _
    refine .bind (.of_silent (typable_silent.linkVarType _ _)) fun declared => ?_
    refine .bind (tells_linkInit _ _ _ _) fun ty => ?_
    refine .bind (.of_silent (silent_recordDeclType _ _)) fun _ => ?_
    dsimp only
    split
    · refine .bind (.of_silent (framed_linkConstant (fun _ _ => ?_) _ _)) fun _ => hend
      exact silent_of_eq rfl rfl rfl rfl rfl rfl
    · exact hend
  · exact .pure _

theorem tells_linkAssign (target value : Expr) : Tells Event.stays env (linkAssign body target value) := by
  intro s u s' h
  simp only [linkAssign, runs_bind] at h
  obtain ⟨targetTy, s₁, htarget, ty, s₂, hvalue, _, s₃, hexpect, _, s₄, hsettle, out, s₅, hconsume, place, s₆,
    hplace, h⟩ := h
  have hsilent : Silent s₂ s₄ := Sequential.trans ((typable_silent.expectType _ _ _).of_runs hexpect)
    ((typable_silent.settleLiteral _ _ _).of_runs hsettle)
  have hmoved : Noting Event.stays s s₅ := Sequential.trans (tells_linkExpr target none .place s targetTy s₁ htarget)
    (consumed_noting hvalue hsilent hconsume)
  obtain rfl := (looks_placeOf target).of_runs hplace
  refine Sequential.trans hmoved ?_
  cases place with
  | none => exact Tells.pure _ _ u s' h
  | some p => exact tells_reinit p _ u s' h

theorem linkExprStmt_noting {e : Expr} {ty : Ty} {out : Option Place}
    (hlink : Runs env (linkExpr body none .read e) s ty s₁) (hconsume : Runs env (consume e ty) s₁ out s') :
    Noting Event.stays s s' :=
  consumed_noting hlink (Sequential.refl _) hconsume

theorem tells_linkCond (cond : Expr) : Tells Event.inExpr env (linkCond body cond) := by
  refine .bind (fun _ _ _ h => (linkExpr_evaluated body cond h).noting) fun ty => .bind (.of_looks (looks_satisfies _ _)) fun fits => ?_
  split
  · exact .pure _
  · exact .bind (.of_looks (looks_showTy _)) fun _ => .of_silent (silent_report _ nofun)

theorem tells_linkCaseValue (scrutinee : Ty) (value : Expr) : Tells Event.stays env (linkCaseValue body scrutinee value) := by
  refine .bind (tells_linkExpr value _ _) fun ty => .bind (.of_looks (looks_satisfies _ _)) fun fits => ?_
  dsimp only
  split
  · exact .of_silent (typable_silent.settleLiteral _ _ _)
  · refine .bind (.of_looks (looks_showTy _)) fun _ => .bind (.of_looks (looks_showTy _)) fun _ => ?_
    exact .bind (.of_silent (silent_report _ nofun)) fun _ => .of_silent (typable_silent.settleLiteral _ _ _)

theorem tells_linkCaseValues (scrutinee : Ty) (hasDefault : Bool) (cases : List (SwitchCase Expr Block)) :
    Tells Event.stays env (linkCaseValues body scrutinee hasDefault cases) := by
  induction cases generalizing hasDefault with
  | nil => exact .pure _
  | cons c cases ih =>
    rw [linkCaseValues]
    split
    · exact .bind (.of_silent (silent_report _ (by rintro ⟨⟩))) fun _ => ih _
    · exact .bind (.forM fun value _ => tells_linkCaseValue _ value) fun _ => ih _

/-- Some events were noted, and then the body was left. -/
def Leaving (s s' : LinkState) : Prop := ∃ s₁, Noting Event.stays s s₁ ∧ Notes s₁ [.returned] s'

theorem returned_notes {u : Unit} (h : Runs env (note .returned) s u s') : Notes s [.returned] s' := by
  obtain rfl := runs_modify.1 h
  exact (Notes.refl s).snoc rfl trivial nofun rfl rfl rfl rfl rfl

theorem linkReturn_leaving {span : Span} {value : Option Expr} {u : Unit}
    (h : Runs env (linkReturn body span value) s u s') : Leaving s s' := by
  cases value with
  | none =>
    simp only [linkReturn, runs_bind] at h
    obtain ⟨fits, s₁, hfits, h⟩ := h
    obtain rfl := (looks_satisfies _ _).of_runs hfits
    split at h
    · exact ⟨s, Sequential.refl s, returned_notes h⟩
    · simp only [runs_bind] at h
      obtain ⟨shown, s₁, hshow, _, s₂, hreport, hnote⟩ := h
      obtain rfl := (looks_showTy _).of_runs hshow
      exact ⟨s₂, Silent.noting ((silent_report _ (by rintro ⟨⟩)).of_runs hreport), returned_notes hnote⟩
  | some value =>
    simp only [linkReturn, runs_bind] at h
    obtain ⟨ty, s₁, hlink, fits, s₂, hfits, h⟩ := h
    obtain rfl := (looks_satisfies _ _).of_runs hfits
    have hend : ∀ {s₂}, Silent s₁ s₂ → Runs env (do
        settleLiteral value ty body.ret
        let _ ← consume value ty
        note .returned) s₂ u s' → Leaving s s' := by
      intro s₂ hsilent h
      simp only [runs_bind] at h
      obtain ⟨_, s₃, hsettle, out, s₄, hconsume, hnote⟩ := h
      have hsettled : Silent s₁ s₃ := Sequential.trans hsilent ((typable_silent.settleLiteral _ _ _).of_runs hsettle)
      exact ⟨s₄, consumed_noting hlink hsettled hconsume, returned_notes hnote⟩
    split at h
    · exact hend (Sequential.refl _) h
    · simp only [runs_bind] at h
      obtain ⟨shown, s₂, hshow, shown', s₃, hshow', _, s₄, hreport, h⟩ := h
      obtain rfl := (looks_showTy _).of_runs hshow
      obtain rfl := (looks_showTy _).of_runs hshow'
      exact hend ((silent_report _ (by rintro ⟨⟩)).of_runs hreport) (by simpa only [runs_bind] using h)

/-! ### Blocks and bodies -/

/-- Around the statements of a block nothing is noted. When they are linked, what the block still holds is scheduled
to be destroyed. -/
theorem runs_linkBlock_node {id : BlockId} {span : Span} {stmts : List Stmt} {u : Unit}
    (h : Runs env (linkBlock body (.node id span stmts)) s u s') :
    ∃ s₁ s₂ dropped, Silent s s₁ ∧ Runs env (linkStmts body stmts) s₁ () s₂ ∧ Schedules s₂ id dropped s' := by
  rw [linkBlock, runs_withFrame] at h
  obtain ⟨s₄, h, rfl⟩ := h
  simp only [runs_bind] at h
  obtain ⟨_, s₁, hopen, _, s₂, hstmts, locals, s₃, hclose, hdrops⟩ := h
  have hframe : Silent s { s with scopes := s.scopes.push {} } := silent_of_eq rfl rfl rfl rfl rfl rfl
  have hend : Silent s₄ { s₄ with scopes := s₄.scopes.pop } := silent_of_eq rfl rfl rfl rfl rfl rfl
  have hopened : Silent s s₁ := Sequential.trans hframe (silent_openLocals.of_runs hopen)
  have hclosed : Silent s₂ s₃ := silent_closeLocals.of_runs hclose
  obtain ⟨dropped, hdrops⟩ := scheduleDrops_schedules hdrops
  exact ⟨s₁, s₂, _, hopened, hstmts, ((hclosed.schedules id).trans hdrops).trans (hend.schedules id)⟩

/-- The body of a function is linked with nothing moved out. What is noted, reported and scheduled is what the body
notes, reports and schedules, and in the end what the parameters still hold is scheduled to be destroyed. -/
theorem runs_linkFunction {func : DeclId} {params : List DeclId} {block : BlockId} {u : Unit}
    (h : Runs env (linkFunction func params block) s u s') :
    ∃ body s₁ s₂ s₃ dropped, Runs env (linkBlock body (env.trees.block block)) s₁ () s₂ ∧
      Schedules s₂ block dropped s₃ ∧ s₁.moves = { policy := env.options.branchMoves } ∧
      s₁.quiet = s.quiet ∧ s₁.history = s.history ∧ s₁.reports = s.reports ∧ s₁.program = s.program ∧
      s'.quiet = s₃.quiet ∧ s'.history = s₃.history ∧ s'.reports = s₃.reports ∧ s'.program = s₃.program := by
  simp only [linkFunction, runs_bind, runs_read, runs_inFunction] at h
  obtain ⟨_, _, _, s₃, -, -, -, ⟨_, _, ⟨rfl, rfl⟩, _, s₂, hblock, hdrops⟩, rfl⟩ := h
  obtain ⟨dropped, hdrops⟩ := scheduleDrops_schedules hdrops
  exact ⟨_, _, s₂, s₃, dropped, hblock, hdrops, rfl, rfl, rfl, rfl, rfl, rfl, rfl, rfl, rfl⟩

end Link

end Linkage
