import Linkage.Proofs.Link.Stmts
import Linkage.Proofs.Moves.Record

/-!
# What linking notes

Most of what linking does has nothing to do with places: it leaves the tracker and the record alone, and what it
reports is no use of a moved value (`Silent`). The rest adds events to the record, in step with the tracker and with
the reports: each event is noted at the time it happens, and a use of a moved value is reported for each read that
finds its place gone, and for no other reason (`Notes`).
-/

namespace Linkage

def misuses (reports : List Diagnostic) : List Span :=
  (reports.filter (·.kind == .useAfterMove)).map (·.span)

def Event.misuse? : Event → Option Span
  | .read _ span _ true => some span
  | _ => none

theorem misuses_append (reports reports' : List Diagnostic) :
    misuses (reports ++ reports') = misuses reports ++ misuses reports' := by
  simp [misuses]

theorem misuses_eq_nil {reports : List Diagnostic} (h : ∀ d ∈ reports, d.kind ≠ .useAfterMove) :
    misuses reports = [] := by
  rw [misuses, List.map_eq_nil_iff, List.filter_eq_nil_iff]
  simpa using h

namespace Link

variable {α β : Type} {env : LinkEnv} {s s₁ s₂ s' : LinkState} {es es' : List Event}

/-! ### Silent actions -/

/-- Nothing has happened that concerns places. -/
structure Silent (s s' : LinkState) : Prop where
  history : s'.history = s.history
  moves : s'.moves = s.moves
  resolved : s'.program.resolved = s.program.resolved
  drops : s'.program.drops = s.program.drops
  quiet : s'.quiet = s.quiet
  reports : ∃ added, s'.reports = s.reports ++ added ∧ ∀ d ∈ added, d.kind ≠ .useAfterMove

theorem silent_of_eq (hhistory : s'.history = s.history) (hmoves : s'.moves = s.moves)
    (hresolved : s'.program.resolved = s.program.resolved) (hdrops : s'.program.drops = s.program.drops)
    (hquiet : s'.quiet = s.quiet) (hreports : s'.reports = s.reports) : Silent s s' :=
  ⟨hhistory, hmoves, hresolved, hdrops, hquiet, [], by rw [hreports, List.append_nil], nofun⟩

instance : Sequential Silent where
  refl _ := silent_of_eq rfl rfl rfl rfl rfl rfl
  trans h h' := by
    obtain ⟨added, hadded, hkind⟩ := h.reports
    obtain ⟨added', hadded', hkind'⟩ := h'.reports
    refine ⟨h'.history.trans h.history, h'.moves.trans h.moves, h'.resolved.trans h.resolved,
      h'.drops.trans h.drops, h'.quiet.trans h.quiet, added ++ added', ?_, List.forall_mem_append.2 ⟨hkind, hkind'⟩⟩
    rw [hadded', hadded, List.append_assoc]

theorem silent_report (span : Span) {p : Problem} (hkind : p.kind ≠ .useAfterMove) :
    FramedIn env Silent (report span p) := by
  refine .report fun _ _ => ⟨rfl, rfl, rfl, rfl, rfl, _, rfl, fun d hd => ?_⟩
  rw [List.mem_singleton.1 hd]
  exact hkind

theorem silent_withInstances {x : Instances} (h : Instances.AddsRefusals s.reports x.reports) :
    Silent s (s.withInstances x) := by
  obtain ⟨added, hadded, hkind⟩ := h
  refine ⟨rfl, rfl, rfl, rfl, rfl, added, hadded, fun d hd => ?_⟩
  rw [hkind d hd]
  nofun

theorem silent_of_steps {usage : TypeUse} (h : TypeSteps usage s s') : Silent s s' := by
  induction h with
  | refl => exact Sequential.refl s
  | tail _ hstep ih =>
    refine Sequential.trans ih ?_
    cases hstep with
    | report _ d _ hkind =>
      refine ⟨rfl, rfl, rfl, rfl, rfl, [d], rfl, fun d' hd => ?_⟩
      rwa [List.mem_singleton.1 hd]
    | check _ c _ _ hfaithful =>
      refine ⟨rfl, rfl, rfl, rfl, rfl, c.reported.toList, rfl, fun d hd => ?_⟩
      rw [(hfaithful.wording d (Option.mem_toList.1 hd)).1]
      nofun
    | instantiate => exact silent_withInstances (Instances.follows_reports.instantiate _ _ _ _ _ _)
    | subscribe => exact silent_withInstances (Instances.follows_reports.subscribe _ _ _ _)
    | usage => exact silent_of_eq rfl rfl rfl rfl rfl rfl

theorem typable_silent : Typable Silent where
  problem span _ := silent_report span
  steps := silent_of_steps
  types _ _ _ := silent_of_eq rfl rfl rfl rfl rfl rfl

theorem silent_recordLinked (e : ExprId) (ty : Ty) : FramedIn env Silent (recordLinked e ty) :=
  .bind (typable_silent.recordType e ty) fun _ => .modify fun _ => silent_of_eq rfl rfl rfl rfl rfl rfl

/-! ### Events -/

/-- The events are what was noted from `s` to `s'`. -/
structure Notes (s : LinkState) (es : List Event) (s' : LinkState) : Prop where
  history : s'.history = s.history ++ es.map .event
  moves : s'.moves = s.moves.afterAll es
  noted : Noted s.moves es
  drops : s'.program.drops = s.program.drops
  quiet : s'.quiet = s.quiet
  reports : s.quiet = false → ∃ added, s'.reports = s.reports ++ added ∧
    misuses added = es.filterMap Event.misuse?

theorem Silent.notes (h : Silent s s') : Notes s [] s' where
  history := by rw [h.history, List.map_nil, List.append_nil]
  moves := h.moves
  noted := .nil
  drops := h.drops
  quiet := h.quiet
  reports _ := by
    obtain ⟨added, hadded, hkind⟩ := h.reports
    exact ⟨added, hadded, misuses_eq_nil hkind⟩

theorem Notes.trans (h : Notes s es s₁) (h' : Notes s₁ es' s') : Notes s (es ++ es') s' where
  history := by rw [h'.history, h.history, List.map_append, List.append_assoc]
  moves := by rw [h'.moves, h.moves, MoveTracker.afterAll_append]
  noted := h.noted.append (h.moves ▸ h'.noted)
  drops := h'.drops.trans h.drops
  quiet := h'.quiet.trans h.quiet
  reports hquiet := by
    obtain ⟨added, hadded, heq⟩ := h.reports hquiet
    obtain ⟨added', hadded', heq'⟩ := h'.reports (h.quiet.trans hquiet)
    refine ⟨added ++ added', ?_, ?_⟩
    · rw [hadded', hadded, List.append_assoc]
    · rw [misuses_append, heq, heq', List.filterMap_append]

theorem Notes.silent (h : Notes s es s₁) (h' : Silent s₁ s') : Notes s es s' := by
  have hnotes := h.trans h'.notes
  rwa [List.append_nil] at hnotes

theorem Notes.snoc (h : Notes s es s₁) {e : Event} (hmisuse : e.misuse? = none)
    (htruthful : e.Truthful s₁.moves) (hannounced : ∀ p span, e = .moved p span → Announced es p)
    (hhistory : s'.history = s₁.history ++ [.event e]) (hmoves : s'.moves = s₁.moves.after e)
    (hdrops : s'.program.drops = s₁.program.drops) (hquiet : s'.quiet = s₁.quiet)
    (hreports : s'.reports = s₁.reports) : Notes s (es ++ [e]) s' where
  history := by rw [hhistory, h.history, List.map_append, List.append_assoc]; rfl
  moves := by rw [hmoves, h.moves, MoveTracker.afterAll_append]; rfl
  noted := h.noted.snoc (h.moves ▸ htruthful) hannounced
  drops := hdrops.trans h.drops
  quiet := hquiet.trans h.quiet
  reports hloud := by
    obtain ⟨added, hadded, heq⟩ := h.reports hloud
    exact ⟨added, hreports.trans hadded, by simp [heq, hmisuse]⟩

theorem Notes.refl (s : LinkState) : Notes s [] s := (Sequential.refl s : Silent s s).notes

theorem checkMoved_notes {e : ExprId} {p : Place} {span : Span} {u : Unit}
    (h : Runs env (checkMoved e p span) s u s') :
    Notes s [.read e span p (s.moves.gone p)] s' ∧ s'.program.resolved = s.program.resolved := by
  simp only [checkMoved, runs_bind, runs_get] at h
  obtain ⟨_, _, ⟨rfl, rfl⟩, _, s₁, hnote, h⟩ := h
  obtain rfl := runs_modify.1 hnote
  have hnoted : Noted s.moves [.read e span p (s.moves.gone p)] := Noted.nil.snoc rfl (by simp)
  cases hmoved : s.moves.movedAt? p with
  | none =>
    have hgone : s.moves.gone p = false := by rw [MoveTracker.gone, hmoved]; rfl
    rw [hmoved] at h
    obtain ⟨-, rfl⟩ := runs_pure.1 h
    refine ⟨⟨rfl, rfl, hnoted, rfl, rfl, fun _ => ⟨[], (List.append_nil _).symm, ?_⟩⟩, rfl⟩
    rw [hgone]
    rfl
  | some moved =>
    have hgone : s.moves.gone p = true := by rw [MoveTracker.gone, hmoved]; rfl
    rw [hmoved] at h
    simp only [runs_bind] at h
    obtain ⟨shown, s₂, hshow, h⟩ := h
    obtain rfl := (looks_showPlace p).of_runs hshow
    obtain rfl := runs_modify.1 h
    by_cases hquiet : s.quiet = true
    · rw [if_pos hquiet]
      exact ⟨⟨rfl, rfl, hnoted, rfl, rfl, fun hloud => absurd hquiet (by simp [hloud])⟩, rfl⟩
    · rw [if_neg hquiet]
      refine ⟨⟨rfl, rfl, hnoted, rfl, rfl, fun _ => ⟨_, rfl, ?_⟩⟩, rfl⟩
      rw [hgone]
      rfl

/-- Passing a value on moves the place it names, if it is of an owned type. -/
theorem consume_notes {e : Expr} {ty : Ty} {out : Option Place} (hnotes : Notes s es s₁)
    (hannounced : s₁.signatures.isOwned ty = true →
      ∀ p, e.place? env.source s₁.program.resolved = some p → Announced es p)
    (h : Runs env (consume e ty) s₁ out s') :
    s'.program.resolved = s₁.program.resolved ∧
      ∃ more, Notes s (es ++ more) s' ∧ ∀ x ∈ more, x.Passes out.toList := by
  have hnothing : s₁ = s' → s'.program.resolved = s₁.program.resolved ∧
      ∃ more, Notes s (es ++ more) s' ∧ ∀ x ∈ more, x.Passes out.toList := by
    rintro rfl
    exact ⟨rfl, [], by rwa [List.append_nil], nofun⟩
  simp only [consume, runs_bind, runs_signatures] at h
  obtain ⟨_, _, ⟨rfl, rfl⟩, h⟩ := h
  split at h
  · rename_i howned
    simp only [placeOf, runs_bind, runs_source, runs_get, runs_pure] at h
    obtain ⟨place, _, ⟨_, _, ⟨rfl, rfl⟩, _, _, ⟨rfl, rfl⟩, hplace, rfl⟩, h⟩ := h
    cases place with
    | none => exact hnothing (runs_pure.1 h).2
    | some p =>
      simp only [note, runs_bind, runs_modify, runs_pure] at h
      obtain ⟨_, _, rfl, _, _, rfl, rfl, rfl⟩ := h
      refine ⟨rfl, [.moved p e.span], hnotes.snoc rfl trivial ?_ rfl rfl rfl rfl rfl, ?_⟩
      · rintro _ _ ⟨⟩
        exact hannounced howned p hplace
      · simp [Event.Passes]
  · exact hnothing (runs_pure.1 h).2

/-! ### Actions that note events -/

/-- Some events were noted from `s` to `s'`, all of them of a kind. -/
def Noting (kind : Event → Bool) (s s' : LinkState) : Prop := ∃ es, Notes s es s' ∧ ∀ x ∈ es, kind x = true

variable {kind : Event → Bool}

instance : Sequential (Noting kind) where
  refl s := ⟨[], Notes.refl s, nofun⟩
  trans h h' := by
    obtain ⟨es, hnotes, hkind⟩ := h
    obtain ⟨es', hnotes', hkind'⟩ := h'
    exact ⟨es ++ es', hnotes.trans hnotes', List.forall_mem_append.2 ⟨hkind, hkind'⟩⟩

theorem Silent.noting (h : Silent s s') : Noting kind s s' := ⟨[], h.notes, nofun⟩

/-- The action notes events of a kind if it ends with a result. -/
def Tells (kind : Event → Bool) (env : LinkEnv) (act : LinkM α) : Prop :=
  ∀ s a s', Runs env act s a s' → Noting kind s s'

theorem Noting.mono {kind' : Event → Bool} (h : Noting kind s s') (hkind : ∀ x, kind x = true → kind' x = true) :
    Noting kind' s s' := by
  obtain ⟨es, hnotes, hes⟩ := h
  exact ⟨es, hnotes, fun x hx => hkind x (hes x hx)⟩

namespace Tells

theorem bind {x : LinkM α} {f : α → LinkM β} (hx : Tells kind env x) (hf : ∀ a, Tells kind env (f a)) :
    Tells kind env (x >>= f) := by
  intro s b s' h
  obtain ⟨a, s₁, hrun, hrest⟩ := runs_bind.1 h
  exact Sequential.trans (hx s a s₁ hrun) (hf a s₁ b s' hrest)

theorem pure (a : α) : Tells kind env (pure a) := by
  intro s b s' h
  obtain ⟨-, rfl⟩ := runs_pure.1 h
  exact Sequential.refl s

theorem throw (fault : Fault) : Tells kind env (throw fault : LinkM α) :=
  fun _ _ _ h => absurd h not_runs_throw

theorem of_silent {act : LinkM α} (h : FramedIn env Silent act) : Tells kind env act :=
  fun _ _ _ hrun => (h.of_runs hrun).noting

theorem of_looks {act : LinkM α} (h : Looks act) : Tells kind env act := of_silent h.framedIn

theorem forM {l : List α} {f : α → LinkM PUnit} (h : ∀ a ∈ l, Tells kind env (f a)) :
    Tells kind env (l.forM f) := by
  induction l with
  | nil => exact pure _
  | cons a l ih =>
    exact bind (h a List.mem_cons_self) fun _ => ih fun b hb => h b (List.mem_cons_of_mem _ hb)

end Tells

theorem tells_recordResolved (e : ExprId) (decl : DeclId) : Tells kind env (recordResolved e decl) := by
  intro s u s' h
  obtain rfl := runs_modify.1 h
  exact ⟨[], ⟨(List.append_nil _).symm, rfl, .nil, rfl, rfl, fun _ => ⟨[], (List.append_nil _).symm, rfl⟩⟩, nofun⟩

end Link

end Linkage
