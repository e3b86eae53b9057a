import Linkage.Proofs.Link.Noting

/-!
# Places that are read and passed on

If a value names a place, then the last thing linking it does is to read the place. The arguments of a call are all
linked, and so read, before they are passed on. A place is moved out only after it has been announced in one of these
two ways. A name that is not resolved may still have the place on record that it named when it was linked before,
since expressions can be shared. Its type is unknown then, and a value of unknown type is never moved.
-/

namespace Linkage

variable {e : Expr} {args : List Argument} {u : Unit}

namespace Link

variable {α β : Type} {env : LinkEnv} {s s₁ s₂ s' : LinkState} {es es' : List Event}

/-! ### Reading places -/

/-- The last event noted from `s` to `s'` is that the expression reads the place. -/
def Reads (s : LinkState) (e : ExprId) (p : Place) (s' : LinkState) : Prop :=
  ∃ es span gone, Notes s (es ++ [.read e span p gone]) s' ∧ ∀ x ∈ es, x.inExpr = true

variable {e : ExprId} {p : Place}

theorem Reads.after (h : Reads s₁ e p s') (hbefore : Noting Event.inExpr s s₁) : Reads s e p s' := by
  obtain ⟨es, span, gone, hnotes, hkind⟩ := h
  obtain ⟨before, hnotes', hkind'⟩ := hbefore
  refine ⟨before ++ es, span, gone, ?_, List.forall_mem_append.2 ⟨hkind', hkind⟩⟩
  rw [List.append_assoc]
  exact hnotes'.trans hnotes

theorem Reads.silent (h : Reads s e p s₁) (hafter : Silent s₁ s') : Reads s e p s' := by
  obtain ⟨es, span, gone, hnotes, hkind⟩ := h
  exact ⟨es, span, gone, hnotes.silent hafter, hkind⟩

theorem checkMoved_reads {span : Span} (h : Runs env (checkMoved e p span) s u s') : Reads s e p s' :=
  ⟨[], span, _, (checkMoved_notes h).1, by simp⟩

theorem Reads.noting (h : Reads s e p s') : Noting Event.inExpr s s' := by
  obtain ⟨es, span, gone, hnotes, hkind⟩ := h
  exact ⟨_, hnotes, List.forall_mem_append.2 ⟨hkind, List.forall_mem_singleton.2 rfl⟩⟩

theorem checkRead_noting {access : Access} {place : Option Place} {span : Span}
    (h : Runs env (checkRead e access place span) s u s') :
    s'.program.resolved = s.program.resolved ∧ Noting Event.inExpr s s' := by
  unfold checkRead at h
  split at h
  · exact ⟨(checkMoved_notes h).2, (checkMoved_reads h).noting⟩
  · obtain ⟨-, rfl⟩ := runs_pure.1 h
    exact ⟨rfl, Sequential.refl s⟩

end Link

/-- The expression has the form of a place: a name, or fields below one. -/
def Expr.isPlace : Expr → Bool
  | .node _ _ (.name _) | .node _ _ (.path _) => true
  | .node _ _ (.member base _) => base.isPlace
  | _ => false

theorem Expr.isPlace_of_place? {src : Source} {resolved : Table ExprId DeclId} {p : Place}
    (h : e.place? src resolved = some p) : e.isPlace = true := by
  fun_induction Expr.place? src resolved e generalizing p with
  | case1 id span name => rfl
  | case2 id span path => rfl
  | case3 id span base field ih =>
    obtain ⟨q, hq, -⟩ := Option.map_eq_some_iff.1 h
    exact ih hq
  | case4 => simp at h

/-- A type that values may have which are neither functions nor out of order. -/
def Ty.isData : Ty → Bool
  | .unknown | .function _ _ => false
  | _ => true

theorem Signatures.isData_of_isOwned {sigs : Signatures} {ty : Ty} (h : sigs.isOwned ty = true) :
    ty.isData = true := by
  cases ty with
  | unknown => exact nomatch h
  | function => exact nomatch h
  | _ => rfl

namespace Link

variable {α β : Type} {env : LinkEnv} {s s₁ s₂ s' : LinkState} {es es' : List Event} {body : Body}
  {hint : Option Ty} {access : Access} {id : ExprId} {span : Span} {ty : Ty}

/-- The expression was linked to the type. If it is the name of some data, then it names a place now, and if
it was read then the place was read last of all. -/
structure Evaluated (env : LinkEnv) (access : Access) (e : Expr) (ty : Ty) (s s' : LinkState) : Prop where
  noting : Noting Event.inExpr s s'
  place : e.isPlace = true → ty.isData = true →
    ∃ p, e.place? env.source s'.program.resolved = some p ∧ (access = .read → Reads s e.id p s')

theorem Evaluated.silent (h : Evaluated env access e ty s s₁) (hafter : Silent s₁ s') :
    Evaluated env access e ty s s' where
  noting := Sequential.trans h.noting hafter.noting
  place hplace hdata := by
    obtain ⟨p, hp, hread⟩ := h.place hplace hdata
    exact ⟨p, hafter.resolved ▸ hp, fun haccess => (hread haccess).silent hafter⟩

theorem evaluated_of_tells {act : LinkM Ty} (h : Tells Event.inExpr env act) (hplace : e.isPlace = false)
    (hrun : Runs env act s ty s') : Evaluated env access e ty s s' :=
  ⟨h s ty s' hrun, fun hplace' => absurd hplace' (by simp [hplace])⟩

theorem evaluated_unknown {problem : Problem} (hkind : problem.kind ≠ .useAfterMove)
    (hbefore : Noting Event.inExpr s s₁) (h : Runs env (do
      report span problem
      return Ty.unknown) s₁ ty s') : Evaluated env access e ty s s' := by
  simp only [runs_bind, runs_pure] at h
  obtain ⟨_, _, hreport, rfl, rfl⟩ := h
  exact ⟨Sequential.trans hbefore ((silent_report _ hkind).of_runs hreport).noting, fun _ hdata => by cases hdata⟩

theorem linkName_evaluated {path : List String} (hid : e.id = id)
    (he : ∀ resolved, e.place? env.source resolved = Expr.place?.binding env.source resolved id)
    (h : Runs env (linkName id span access path) s ty s') : Evaluated env access e ty s s' := by
  simp only [linkName, runs_bind, runs_resolve?] at h
  obtain ⟨target, _, ⟨-, rfl⟩, h⟩ := h
  cases target with
  | none => exact evaluated_unknown (by rintro ⟨⟩) (Sequential.refl s) h
  | some decl =>
    simp only [runs_bind, runs_declOf] at h
    obtain ⟨_, s₁, hrecord, d, _, ⟨hd, rfl⟩, h⟩ := h
    have hget : s₁.program.resolved.get? id = some decl := by
      obtain rfl := runs_modify.1 hrecord
      exact Table.get?_insert_self _ _ _
    have hbefore : Noting Event.inExpr s s₁ := tells_recordResolved id decl s () s₁ hrecord
    have hvalue : d.kind.isValueBinding = true → Runs env (do
        checkRead id access (some { root := decl }) span
        return ((← signatures).declTypes.get? decl).getD .unknown) s₁ ty s' →
        Evaluated env access e ty s s' := by
      intro hkind h
      simp only [runs_bind, runs_signatures, runs_pure] at h
      obtain ⟨_, s₂, hread, _, _, ⟨rfl, rfl⟩, rfl, rfl⟩ := h
      obtain ⟨hresolved, hnoting⟩ := checkRead_noting hread
      refine ⟨Sequential.trans hbefore hnoting, fun _ _ => ⟨{ root := decl }, ?_, ?_⟩⟩
      · rw [he]
        simp [Expr.place?.binding, hresolved, hget, hd, hkind]
      · rintro rfl
        rw [hid]
        exact (checkMoved_reads hread).after hbefore
    split at h
    · rename_i hkind
      exact hvalue (by rw [hkind]; rfl) h
    · rename_i hkind
      exact hvalue (by rw [hkind]; rfl) h
    · simp only [runs_bind, runs_signatures] at h
      obtain ⟨_, _, ⟨rfl, rfl⟩, h⟩ := h
      split at h
      · obtain ⟨rfl, rfl⟩ := runs_pure.1 h
        exact ⟨hbefore, fun _ hdata => by cases hdata⟩
      · exact evaluated_unknown (by rintro ⟨⟩) hbefore h
    all_goals exact evaluated_unknown (by rintro ⟨⟩) hbefore h

theorem isData_of_linkField {base : Ty} {field : String} (h : Runs env (linkField span base field) s ty s')
    (hdata : ty.isData = true) : base.isData = true := by
  have hreport : ∀ {shown : Ty} {problem : String → Problem} {t : Ty}, Runs env (do
      let text ← showTy shown
      report span (problem text)
      return Ty.unknown) s t s' → t.isData = false := by
    intro shown problem t h
    simp only [runs_bind, runs_pure] at h
    obtain ⟨_, _, _, _, _, _, rfl, rfl⟩ := h
    rfl
  cases base with
  | unknown =>
    obtain ⟨rfl, -⟩ := runs_pure.1 h
    exact hdata
  | function formals ret =>
    exact absurd hdata (by simp [hreport h])
  | _ => rfl

theorem linkMember_evaluated {base : Expr} {field : String}
    (hbase : ∀ {s t s'}, Runs env (linkExpr body none .place base) s t s' → Evaluated env .place base t s s')
    (h : Runs env (linkShape body hint access id span (.member base field)) s ty s') :
    Evaluated env access (.node id span (.member base field)) ty s s' := by
  simp only [linkShape, placeOf, runs_bind, runs_source, runs_get, runs_pure] at h
  obtain ⟨t, s₁, hlink, _, _, ⟨_, _, ⟨rfl, rfl⟩, _, _, ⟨rfl, rfl⟩, rfl, rfl⟩, _, s₂, hread, hfield⟩ := h
  have hevaluated := hbase hlink
  have hsilent := (typable_silent.linkField _ _ _).of_runs hfield
  obtain ⟨hresolved, hnoting⟩ := checkRead_noting hread
  refine Evaluated.silent ⟨Sequential.trans hevaluated.noting hnoting, fun hplace hdata => ?_⟩ hsilent
  obtain ⟨p, hp, -⟩ := hevaluated.place hplace (isData_of_linkField hfield hdata)
  refine ⟨p.field field, ?_, ?_⟩
  · rw [Expr.place?, hresolved, hp]
    rfl
  · rintro rfl
    rw [hp] at hread
    exact (checkMoved_reads hread).after hevaluated.noting

/-! ### Arguments -/

/-- All arguments that may be moved have been read since `s`. -/
def Ready (s : LinkState) (args : List Argument) (s' : LinkState) : Prop :=
  ∃ es, Notes s es s' ∧ (∀ x ∈ es, x.inExpr = true) ∧
    ∀ a ∈ args, a.value.isPlace = true → a.ty.isData = true → ∃ at' p gone, .read a.value.id at' p gone ∈ es

theorem Ready.noting (h : Ready s args s') : Noting Event.inExpr s s' := by
  obtain ⟨es, hnotes, hkind, -⟩ := h
  exact ⟨es, hnotes, hkind⟩

theorem Ready.silent (h : Ready s args s₁) (hafter : Silent s₁ s') : Ready s args s' := by
  obtain ⟨es, hnotes, hrest⟩ := h
  exact ⟨es, hnotes.silent hafter, hrest⟩

section Arguments

-- the tracker when the arguments are passed on, and what names mean then
variable {t : MoveTracker} {resolved : Table ExprId DeclId} {a : Argument} {p : Place} {left out : List Place}

/-- An argument whose place could still be read is looked at again if one of those before it has been moved
out of storage that it needs. If it has been read before, its place is announced afterwards in any case. -/
theorem checkLeft_notes (hnotes : Notes s es s₁)
    (h : Runs env (checkLeft a ((some p).filter (!t.gone ·)) left) s₁ u s') :
    s'.program.resolved = s₁.program.resolved ∧
      ∃ more, Notes s (es ++ more) s' ∧ (∀ x ∈ more, x.Passes left) ∧
        ∀ e readGone, PassedOn es left e p readGone (t.gone p) → Announced (es ++ more) p := by
  have hunread : s₁ = s' → (t.gone p = false → ∀ q ∈ left, q.overlaps p = false) →
      s'.program.resolved = s₁.program.resolved ∧
        ∃ more, Notes s (es ++ more) s' ∧ (∀ x ∈ more, x.Passes left) ∧
          ∀ e readGone, PassedOn es left e p readGone (t.gone p) → Announced (es ++ more) p := by
    rintro rfl hleft
    refine ⟨rfl, [], by rwa [List.append_nil], by simp, fun e readGone hpassed => ?_⟩
    rw [List.append_nil]
    exact .inr ⟨left, e, readGone, t.gone p, hpassed, hleft⟩
  cases hgone : t.gone p with
  | true =>
    simp only [checkLeft, Option.filter, hgone] at h
    rw [← hgone]
    exact hunread (runs_pure.1 h).2 (by simp [hgone])
  | false =>
    simp only [checkLeft, Option.filter, hgone, Bool.not_false, if_true] at h
    split at h
    · obtain ⟨hread, hresolved⟩ := checkMoved_notes h
      exact ⟨hresolved, _, hnotes.trans hread, by simp [Event.Passes], fun _ _ _ => .inl ⟨es, _, _, _, rfl⟩⟩
    · rename_i hany
      rw [← hgone]
      refine hunread (runs_pure.1 h).2 fun _ q hq => ?_
      simpa using List.any_eq_false.1 (Bool.eq_false_iff.2 hany) q hq

theorem moveArg_notes (hnotes : Notes s es s₁) (hannounced : a.ty.isData = true →
      ∀ p, a.value.place? env.source s₁.program.resolved = some p → Announced es p)
    (h : Runs env (moveArg a left) s₁ out s') :
    s'.program.resolved = s₁.program.resolved ∧ left ⊆ out ∧
      ∃ more, Notes s (es ++ more) s' ∧ ∀ x ∈ more, x.Passes out := by
  unfold moveArg at h
  split at h
  · obtain ⟨rfl, rfl⟩ := runs_pure.1 h
    exact ⟨rfl, List.Subset.refl _, [], by rwa [List.append_nil], by simp⟩
  · simp only [runs_bind] at h
    obtain ⟨found, s₂, hconsume, h⟩ := h
    obtain ⟨hresolved, more, hmore, hpasses⟩ :=
      consume_notes hnotes (fun howned => hannounced (Signatures.isData_of_isOwned howned)) hconsume
    have hout : left ++ found.toList = out ∧ s₂ = s' := by
      cases found with
      | none =>
        rw [Option.toList_none, List.append_nil]
        exact runs_pure.1 h
      | some q => exact runs_pure.1 h
    obtain ⟨rfl, rfl⟩ := hout
    refine ⟨hresolved, List.subset_append_left _ _, more, hmore, fun x hx => ?_⟩
    exact (hpasses x hx).mono (List.subset_append_right _ _)

/-- The argument has been read, and it is its turn to be passed on. -/
def InTurn (env : LinkEnv) (t : MoveTracker) (resolved : Table ExprId DeclId) (es : List Event)
    (left : List Place) (a : Argument) : Prop :=
  a.ty.isData = true → ∀ p, a.value.place? env.source resolved = some p →
    ∃ readGone, PassedOn es left a.value.id p readGone (t.gone p)

theorem bindArg_notes (hnotes : Notes s es s₁) (hresolved : s₁.program.resolved = resolved)
    (hturn : InTurn env t resolved es left a)
    (h : Runs env (bindArg a ((a.value.place? env.source resolved).filter (!t.gone ·)) left) s₁ out s') :
    s'.program.resolved = resolved ∧ left ⊆ out ∧
      ∃ more, Notes s (es ++ more) s' ∧ ∀ x ∈ more, x.Passes out := by
  simp only [bindArg, runs_bind] at h
  obtain ⟨_, s₂, hexpect, _, s₃, hsettle, _, s₄, hcheck, hmove⟩ := h
  have hsilent : Silent s₁ s₃ := Sequential.trans ((typable_silent.expectType _ _ _).of_runs hexpect)
    ((typable_silent.settleLiteral _ _ _).of_runs hsettle)
  have hchecked : s₄.program.resolved = s₃.program.resolved ∧
      ∃ more, Notes s (es ++ more) s₄ ∧ (∀ x ∈ more, x.Passes left) ∧
        (a.ty.isData = true → ∀ p, a.value.place? env.source resolved = some p → Announced (es ++ more) p) := by
    cases hplace : a.value.place? env.source resolved with
    | none =>
      rw [hplace] at hcheck
      obtain ⟨-, rfl⟩ := runs_pure.1 hcheck
      exact ⟨rfl, [], by rw [List.append_nil]; exact hnotes.silent hsilent, by simp, by simp⟩
    | some p =>
      rw [hplace] at hcheck
      obtain ⟨hresolved, more, hmore, hpasses, hannounced⟩ := checkLeft_notes (hnotes.silent hsilent) hcheck
      refine ⟨hresolved, more, hmore, hpasses, fun hdata q hq => ?_⟩
      obtain rfl := Option.some.inj hq
      obtain ⟨readGone, hpassed⟩ := hturn hdata p hplace
      exact hannounced _ readGone hpassed
  obtain ⟨hresolved', more, hmore, hpasses, hannounced⟩ := hchecked
  have hresolved₄ : s₄.program.resolved = resolved := by rw [hresolved', hsilent.resolved, hresolved]
  obtain ⟨hresolved'', hout, more', hmore', hpasses'⟩ := moveArg_notes hmore (by rwa [hresolved₄]) hmove
  refine ⟨hresolved''.trans hresolved₄, hout, more ++ more', by rwa [← List.append_assoc], ?_⟩
  exact List.forall_mem_append.2 ⟨fun x hx => (hpasses x hx).mono hout, hpasses'⟩

theorem foldlM_bindArg_notes (hnotes : Notes s es s₁)
    (hresolved : s₁.program.resolved = resolved) (hturn : ∀ a ∈ args, InTurn env t resolved es left a)
    (h : Runs env (args.foldlM
      (fun left a => bindArg a ((a.value.place? env.source resolved).filter (!t.gone ·)) left) left) s₁ out s') :
    left ⊆ out ∧ ∃ more, Notes s (es ++ more) s' ∧ ∀ x ∈ more, x.Passes out := by
  induction args generalizing es s₁ left with
  | nil =>
    obtain ⟨rfl, rfl⟩ := runs_foldlM_nil.1 h
    exact ⟨List.Subset.refl _, [], by rwa [List.append_nil], by simp⟩
  | cons a args ih =>
    obtain ⟨left', s₂, hfirst, hrest⟩ := runs_foldlM_cons.1 h
    obtain ⟨hresolved', hleft, more, hmore, hpasses⟩ :=
      bindArg_notes hnotes hresolved (hturn a List.mem_cons_self) hfirst
    have hturn' : ∀ b ∈ args, InTurn env t resolved (es ++ more) left' b := by
      intro b hb hdata p hp
      obtain ⟨readGone, hpassed⟩ := hturn b (List.mem_cons_of_mem _ hb) hdata p hp
      exact ⟨readGone, hpassed.append hleft hpasses⟩
    obtain ⟨hout, more', hmore', hpasses'⟩ := ih hmore hresolved' hturn' hrest
    refine ⟨List.Subset.trans hleft hout, more ++ more', by rwa [← List.append_assoc], ?_⟩
    exact List.forall_mem_append.2 ⟨fun x hx => (hpasses x hx).mono hout, hpasses'⟩

end Arguments

theorem passing_notes {args : List PassedPlace} (hargs : ∀ a ∈ args, a.gone = s.moves.gone a.place)
    (h : Runs env (note (.passing args)) s u s') : Notes s [.passing args] s' := by
  obtain rfl := runs_modify.1 h
  exact (Notes.refl s).snoc rfl hargs nofun rfl rfl rfl rfl rfl

theorem bindArgs_noting (hready : Ready s args s₁)
    (h : Runs env (bindArgs args) s₁ u s') : Noting Event.inExpr s s' := by
  obtain ⟨es, hnotes, hkind, hread⟩ := hready
  simp only [bindArgs, runs_bind, runs_source, runs_get, runs_pure] at h
  obtain ⟨_, _, ⟨rfl, rfl⟩, _, _, ⟨rfl, rfl⟩, _, s₂, hnote, out, s₃, hfold, -, rfl⟩ := h
  have hpassing := passing_notes (fun x hx => by
    obtain ⟨a, -, ha⟩ := List.mem_filterMap.1 hx
    obtain ⟨p, -, rfl⟩ := Option.map_eq_some_iff.1 ha
    rfl) hnote
  have hresolved : s₂.program.resolved = s₁.program.resolved := by
    obtain rfl := runs_modify.1 hnote
    rfl
  obtain ⟨-, more, hmore, hpasses⟩ := foldlM_bindArg_notes (hnotes.trans hpassing) hresolved
    (fun a ha hdata p hp => by
      obtain ⟨readAt, q, gone, hmem⟩ := hread a ha (Expr.isPlace_of_place? hp) hdata
      obtain ⟨before, since, rfl⟩ := List.append_of_mem hmem
      refine ⟨gone, before, readAt, q, since, _, [], rfl, fun x hx => hkind x (by simp [hx]), ?_, by simp⟩
      exact List.mem_filterMap.2 ⟨a, ha, by rw [hp]; rfl⟩) hfold
  refine ⟨_, hmore, List.forall_mem_append.2 ⟨?_, fun x hx => (hpasses x hx).inExpr⟩⟩
  exact List.forall_mem_append.2 ⟨hkind, List.forall_mem_singleton.2 rfl⟩

/-- Something that is done once the arguments have been read. -/
def Passing (env : LinkEnv) (args : List Argument) (act : LinkM α) : Prop :=
  ∀ s s₁ a s', Ready s args s₁ → Runs env act s₁ a s' → Noting Event.inExpr s s'

namespace Passing

variable {args : List Argument}

theorem of_tells {act : LinkM α} (h : Tells Event.inExpr env act) : Passing env args act :=
  fun _ s₁ a s' hready hrun => Sequential.trans hready.noting (h s₁ a s' hrun)

theorem bind {x : LinkM α} {f : α → LinkM β} (hx : Passing env args x) (hf : ∀ a, Tells Event.inExpr env (f a)) :
    Passing env args (x >>= f) := by
  intro s s₁ b s' hready h
  obtain ⟨a, s₂, hrun, hrest⟩ := runs_bind.1 h
  exact Sequential.trans (hx s s₁ a s₂ hready hrun) (hf a s₂ b s' hrest)

theorem silent_bind {x : LinkM α} {f : α → LinkM β} (hx : FramedIn env Silent x) (hf : ∀ a, Passing env args (f a)) :
    Passing env args (x >>= f) := by
  intro s s₁ b s' hready h
  obtain ⟨a, s₂, hrun, hrest⟩ := runs_bind.1 h
  exact hf a s s₂ b s' (hready.silent (hx.of_runs hrun)) hrest

theorem looks_bind {x : LinkM α} {f : α → LinkM β} (hx : Looks x) (hf : ∀ a, Passing env args (f a)) :
    Passing env args (x >>= f) :=
  silent_bind hx.framedIn hf

end Passing

theorem tells_of_passing {x : LinkM α} {f : α → LinkM β} {args : α → List Argument}
    (hx : ∀ s a s', Runs env x s a s' → Ready s (args a) s') (hf : ∀ a, Passing env (args a) (f a)) :
    Tells Event.inExpr env (x >>= f) := by
  intro s b s' h
  obtain ⟨a, s₁, hrun, hrest⟩ := runs_bind.1 h
  exact hf a s s₁ b s' (hx s a s₁ hrun) hrest

theorem passing_bindArgs (args : List Argument) : Passing env args (bindArgs args) :=
  fun _ _ _ _ hready hrun => bindArgs_noting hready hrun

theorem passing_bindToInstance (decl : DeclId) (copy : Instance) (args : List Argument) :
    Passing env args (bindToInstance decl copy args) := by
  cases copy with
  | iteration index =>
    intro s s₁ u s' hready hrun
    obtain ⟨hu, rfl⟩ := Prod.mk.inj hrun
    have hstart : Silent s₁ { s₁ with program := (s₁.program.activate decl index).2 } :=
      silent_of_eq rfl rfl rfl rfl rfl rfl
    refine Sequential.trans (passing_bindArgs args s _ u _ (hready.silent hstart) (Prod.ext hu rfl)) ?_
    exact Silent.noting (silent_of_eq rfl rfl rfl rfl rfl rfl)
  | plain => exact passing_bindArgs args
  | dependent _ => exact passing_bindArgs args
  | unresolved => exact passing_bindArgs args

theorem Ready.map (h : Ready s args s') {f : Argument → Argument}
    (hf : ∀ a, (f a).value = a.value ∧ (f a).ty = a.ty) : Ready s (args.map f) s' := by
  obtain ⟨es, hnotes, hkind, hread⟩ := h
  refine ⟨es, hnotes, hkind, fun b hb => ?_⟩
  obtain ⟨a, ha, rfl⟩ := List.mem_map.1 hb
  rw [(hf a).1, (hf a).2]
  exact hread a ha

theorem passing_useInExpr (decl : DeclId) (sig : GenericSignature) (written : List Ty) (expected : Option Ty)
    (args : List Argument) : Passing env args (useInExpr body id span decl sig written expected args) := by
  refine .looks_bind looks_typeEnv fun tenv => .silent_bind (typable_silent.finishInference _ _ _) fun _ => ?_
  refine .silent_bind (typable_silent.of_steps (steps_useGeneric _ _ _ _)) fun copy => ?_
  refine .silent_bind (typable_silent.recordUsage _ _ _) fun _ => .bind ?_ fun _ => .pure _
  intro s s₁ u s' hready hrun
  refine passing_bindToInstance _ _ _ s s₁ u s' ?_ hrun
  exact hready.map fun a => ⟨rfl, rfl⟩

theorem passing_plain (decl : DeclId) (args : List Argument) :
    Passing env args (do
      recordUsage (.expr id) decl .plain
      bindArgs args
      return ty) :=
  .silent_bind (typable_silent.recordUsage _ _ _) fun _ => .bind (passing_bindArgs args) fun _ => .pure _

end Link

end Linkage
