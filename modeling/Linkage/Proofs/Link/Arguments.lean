import Linkage.Proofs.Link.CallLookups
import Linkage.Proofs.Link.Outcome
import Linkage.Proofs.Ty.Spellings

/-!
# Arguments and spellings of formals

The check of an argument looks through aliases, so its verdict does not depend on the spelling of the formal. What
becomes of the argument is less sure: a value is borrowed if the formal is written as a reference, and a literal
passed by reference takes the type below the reference if that is written as a scalar. Two runs whose formals are
spellings of the same types go the same way, up to the texts of reports, if neither depends on an alias.
-/

namespace Linkage

/-- The reports differ at most in their texts. -/
def Diagnostic.Like (d d' : Diagnostic) : Prop :=
  d.kind = d'.kind ∧ d.phase = d'.phase ∧ d.severity = d'.severity ∧ d.span = d'.span

/-- The states have the signatures and differ at most in the texts of their reports. -/
structure LinkState.Like (sigs : Signatures) (s s' : LinkState) : Prop where
  signatures : s.signatures = sigs
  rest : s' = { s with reports := s'.reports }
  reports : List.Forall₂ Diagnostic.Like s.reports s'.reports

theorem LinkState.Like.signatures_right {sigs : Signatures} {s s' : LinkState} (h : LinkState.Like sigs s s') :
    s'.signatures = sigs := by
  rw [h.rest]
  exact h.signatures

namespace Link

variable {α β : Type} {env : LinkEnv} {sigs : Signatures} {s s' : LinkState}

/-- From states that are alike both actions run, to the same result and to states that are alike. -/
def RunAlike (env : LinkEnv) (sigs : Signatures) (act act' : LinkM α) : Prop :=
  ∀ s s', LinkState.Like sigs s s' →
    ∃ a t t', Runs env act s a t ∧ Runs env act' s' a t' ∧ LinkState.Like sigs t t'

namespace RunAlike

variable {act act' : LinkM α} {k k' : α → LinkM β}

theorem pure (a : α) : RunAlike env sigs (pure a) (pure a) :=
  fun s s' hlike => ⟨a, s, s', runs_pure.2 ⟨rfl, rfl⟩, runs_pure.2 ⟨rfl, rfl⟩, hlike⟩

theorem bind (h : RunAlike env sigs act act') (hk : ∀ a, RunAlike env sigs (k a) (k' a)) :
    RunAlike env sigs (act >>= k) (act' >>= k') := by
  intro s s' hlike
  obtain ⟨a, t, t', hrun, hrun', hlike⟩ := h s s' hlike
  obtain ⟨b, u, u', hnext, hnext', hlike⟩ := hk a t t' hlike
  exact ⟨b, u, u', runs_bind.2 ⟨a, t, hrun, hnext⟩, runs_bind.2 ⟨a, t', hrun', hnext'⟩, hlike⟩

theorem look {a a' : α} (h : ∀ s, s.signatures = sigs → Runs env act s a s)
    (h' : ∀ s, s.signatures = sigs → Runs env act' s a' s) (hk : RunAlike env sigs (k a) (k' a')) :
    RunAlike env sigs (act >>= k) (act' >>= k') := by
  intro s s' hlike
  obtain ⟨b, t, t', hrun, hrun', hlike'⟩ := hk s s' hlike
  exact ⟨b, t, t', runs_bind.2 ⟨a, s, h s hlike.signatures, hrun⟩,
    runs_bind.2 ⟨a', s', h' s' hlike.signatures_right, hrun'⟩, hlike'⟩

theorem readSource {k k' : Source → LinkM β} (hk : RunAlike env sigs (k env.source) (k' env.source)) :
    RunAlike env sigs (source >>= k) (source >>= k') :=
  .look (fun _ _ => runs_source.2 ⟨rfl, rfl⟩) (fun _ _ => runs_source.2 ⟨rfl, rfl⟩) hk

theorem readSignatures {k k' : Signatures → LinkM β} (hk : RunAlike env sigs (k sigs) (k' sigs)) :
    RunAlike env sigs (signatures >>= k) (signatures >>= k') := by
  have hread : ∀ s : LinkState, s.signatures = sigs → Runs env signatures s sigs s := by
    rintro s rfl
    exact runs_signatures.2 ⟨rfl, rfl⟩
  exact .look hread hread hk

theorem get {k k' : LinkState → LinkM β}
    (hk : ∀ s s', LinkState.Like sigs s s' → RunAlike env sigs (k s) (k' s')) :
    RunAlike env sigs (get >>= k) (get >>= k') := by
  intro s s' hlike
  obtain ⟨b, t, t', hrun, hrun', hlike'⟩ := hk s s' hlike s s' hlike
  exact ⟨b, t, t', runs_bind.2 ⟨s, s, runs_get.2 ⟨rfl, rfl⟩, hrun⟩,
    runs_bind.2 ⟨s', s', runs_get.2 ⟨rfl, rfl⟩, hrun'⟩, hlike'⟩

theorem modify {f : LinkState → LinkState} (hsignatures : ∀ s, (f s).signatures = s.signatures)
    (hreports : ∀ s, (f s).reports = s.reports)
    (hrest : ∀ s reports, f { s with reports := reports } = { f s with reports := reports }) :
    RunAlike env sigs (modify f : LinkM PUnit) (modify f) := by
  intro s s' hlike
  refine ⟨⟨⟩, f s, f s', runs_modify.2 rfl, runs_modify.2 rfl, ?_, ?_, ?_⟩
  · rw [hsignatures, hlike.signatures]
  · rw [hreports, ← hrest, ← hlike.rest]
  · rw [hreports, hreports]
    exact hlike.reports

theorem report {p p' : Problem} (span : Span) (hkind : p.kind = p'.kind) (hphase : p.phase = p'.phase) :
    RunAlike env sigs (report span p) (report span p') := by
  intro s s' hlike
  refine ⟨(), _, _, runs_modify.2 rfl, runs_modify.2 rfl, ?_⟩
  have hquiet : s'.quiet = s.quiet := by rw [hlike.rest]
  rw [hquiet]
  split
  · exact hlike
  · refine ⟨hlike.signatures, ?_, List.rel_append hlike.reports (.cons ⟨hkind, hphase, rfl, rfl⟩ .nil)⟩
    conv_lhs => rw [hlike.rest]

theorem foldlM {R : β → β → Prop} {f f' : α → β → LinkM α} (h : ∀ a b b', R b b' → RunAlike env sigs (f a b) (f' a b'))
    {l l' : List β} (hl : List.Forall₂ R l l') (a : α) : RunAlike env sigs (l.foldlM f a) (l'.foldlM f' a) := by
  induction hl generalizing a with
  | nil => exact .pure a
  | cons hb _ ih =>
    rw [List.foldlM_cons, List.foldlM_cons]
    exact (h a _ _ hb).bind ih

end RunAlike

end Link

open Link

/-! ### What is seen of a formal -/

namespace TypeEnv

variable {env : TypeEnv} {f f' : Ty}

theorem SameForm.expand_prim {p : Primitive} (h : env.SameForm (.prim p) f) : env.expand f = .prim p := by
  obtain ⟨-, heq⟩ | hheads := h.heads
  · exact heq.symm
  · cases hheads

theorem SameForm.isReference_expand (h : env.SameForm f f') (hf : isReference f = true) :
    isReference (env.expand f') = true := by
  cases f with
  | reference inner =>
    have hexpand : env.expand (.reference inner) = .reference inner := rfl
    have hheads := h.heads
    rw [hexpand] at hheads
    generalize env.expand f' = x at hheads ⊢
    obtain ⟨hleaf, -⟩ | hheads := hheads
    · simp [Ty.isCompound] at hleaf
    · cases hheads
      rfl
  | _ => exact absurd hf Bool.false_ne_true

/-- No alias of a scalar stands below the reference that the type is, if it is one. -/
def ScalarShown (env : TypeEnv) (f : Ty) : Prop :=
  ∀ inner p, env.expand f = .reference inner → env.expand inner = .prim p → inner = .prim p

theorem SameForm.scalar?_eq (h : env.SameForm f f') (hf : env.ScalarShown f) (hf' : env.ScalarShown f') :
    scalar? (env.expand f) = scalar? (env.expand f') := by
  have hheads := h.heads
  generalize hx : env.expand f = x, hx' : env.expand f' = x' at hheads
  obtain ⟨-, rfl⟩ | hheads := hheads
  · rfl
  · cases hheads with
    | linked | pointer | array | function => rfl
    | @reference a b hinner =>
      have hscalar : ∀ p, a = .prim p ↔ b = .prim p := by
        intro p
        constructor
        · rintro rfl
          exact hf' b p hx' hinner.expand_prim
        · rintro rfl
          exact hf a p hx hinner.symm.expand_prim
      cases a with
      | prim p => rw [(hscalar p).1 rfl]
      | _ =>
        cases b with
        | prim q => simp at hscalar
        | _ => rfl

end TypeEnv

namespace Argument

variable {src : Source} {sigs : Signatures} {a a' : Argument}

/-- The argument can be checked, and what is asked of the spelling of its formal is seen there. -/
structure Clear (src : Source) (sigs : Signatures) (a : Argument) : Prop where
  shown : (src.showTy a.formal).isOk = true ∧ (src.showTy a.ty).isOk = true
  -- all that the check may come to can be looked through, and the check settles the matter
  unfolds : sigs.env.Unfolds a.formal
  expandable : sigs.env.Expandable a.ty
  settled : (sigs.env.satisfiesWithin (sigs.env.reach + 1) a.formal a.ty).isSome
  /-- An owned value meets no alias of a reference. -/
  reference : sigs.isOwned a.ty = true → isReference (sigs.env.expand a.formal) = true → isReference a.formal = true
  /-- A literal meets no reference to an alias of a scalar. -/
  scalar : a.ty.isLiteral = true → sigs.env.ScalarShown a.formal

/-- A check that an argument is clear. All is looked through within `n` levels, and a literal is passed to a scalar or
past references. -/
def clearWithin (src : Source) (sigs : Signatures) (n : Nat) (a : Argument) : Bool :=
  (src.showTy a.formal).isOk && (src.showTy a.ty).isOk && sigs.env.unfoldsWithin n a.formal &&
    (sigs.env.normalForm? n a.ty).isSome && (sigs.env.satisfiesWithin (sigs.env.reach + 1) a.formal a.ty).isSome &&
    (!isReference (sigs.env.expand a.formal) || !sigs.isOwned a.ty || isReference a.formal) &&
    (!isReference (sigs.env.expand a.formal) || !a.ty.isLiteral || (scalar? (sigs.env.expand a.formal)).isSome)

theorem clear_of_within {n : Nat} {args : List Argument} (h : args.all (clearWithin src sigs n) = true) :
    ∀ a ∈ args, a.Clear src sigs := by
  intro a ha
  have hcheck := List.all_eq_true.1 h a ha
  simp only [clearWithin, Bool.and_eq_true, Bool.or_eq_true, Bool.not_eq_true'] at hcheck
  obtain ⟨⟨⟨⟨⟨⟨hformal, hty⟩, hunfolds⟩, hform⟩, hsettled⟩, hreference⟩, hscalar⟩ := hcheck
  obtain ⟨u, hu⟩ := Option.isSome_iff_exists.1 hform
  refine ⟨⟨hformal, hty⟩, TypeEnv.unfolds_of_within hunfolds, ⟨u, n, hu⟩, hsettled, fun howned href => ?_,
    fun hliteral inner p hinner hprim => ?_⟩
  · simpa [href, howned] using hreference
  · have hscalar : (scalar? (.reference inner)).isSome = true := by simpa [hinner, isReference, hliteral] using hscalar
    cases inner with
    | prim q => exact hprim
    | _ => exact absurd hscalar Bool.false_ne_true

/-- The same value is passed to types that are the same. -/
structure Respelled (env : TypeEnv) (a a' : Argument) : Prop where
  value : a'.value = a.value
  ty : a'.ty = a.ty
  formal : env.same a.formal a'.formal = true

namespace Respelled

theorem sameForm (h : a.Respelled sigs.env a') (hc : a.Clear src sigs) (hc' : a'.Clear src sigs) :
    sigs.env.SameForm a.formal a'.formal :=
  TypeEnv.sameForm_of_agree hc.unfolds.expandable hc'.unfolds.expandable (TypeEnv.formsAgree_of_same h.formal)

theorem satisfies_eq (h : a.Respelled sigs.env a') (hc : a.Clear src sigs) (hc' : a'.Clear src sigs) :
    sigs.env.satisfies a.formal a.ty = sigs.env.satisfies a'.formal a'.ty := by
  obtain ⟨r, hr⟩ := Option.isSome_iff_exists.1 hc.settled
  obtain ⟨r', hr'⟩ := Option.isSome_iff_exists.1 hc'.settled
  obtain ⟨u, hu⟩ := hc.expandable
  obtain ⟨m, hm⟩ := (h.sameForm hc hc').satisfiesWithin hc.unfolds hc'.unfolds ⟨u, hu, hu⟩ hr
  rw [h.ty] at hr' ⊢
  obtain rfl : r = r' := Option.some.inj
    ((TypeEnv.satisfiesWithin_mono (Nat.le_max_left m _) _ _ r hm).symm.trans
      (TypeEnv.satisfiesWithin_mono (Nat.le_max_right m _) _ _ r' hr'))
  rw [TypeEnv.satisfies, TypeEnv.satisfies, hr, hr']

theorem isReference_eq (h : a.Respelled sigs.env a') (hc : a.Clear src sigs) (hc' : a'.Clear src sigs)
    (howned : sigs.isOwned a.ty = true) :
    isReference a.formal = isReference a'.formal := by
  have hform := h.sameForm hc hc'
  rw [Bool.eq_iff_iff]
  constructor
  · intro href
    exact hc'.reference (h.ty ▸ howned) (hform.isReference_expand href)
  · intro href
    exact hc.reference howned (hform.symm.isReference_expand href)

theorem scalar?_eq (h : a.Respelled sigs.env a') (hc : a.Clear src sigs) (hc' : a'.Clear src sigs)
    (hliteral : a.ty.isLiteral = true) :
    scalar? (sigs.env.expand a.formal) = scalar? (sigs.env.expand a'.formal) :=
  (h.sameForm hc hc').scalar?_eq (hc.scalar hliteral) (hc'.scalar (h.ty ▸ hliteral))

theorem filterMap_eq {β : Type} {env : TypeEnv} {args args' : List Argument}
    (h : List.Forall₂ (Argument.Respelled env) args args') (f : Expr → Option β) :
    args'.filterMap (fun a => f a.value) = args.filterMap fun a => f a.value := by
  induction h with
  | nil => rfl
  | cons ha _ ih => rw [List.filterMap_cons, List.filterMap_cons, ha.value, ih]

end Respelled

end Argument

/-! ### Binding -/

namespace Link

variable {α : Type} {env : LinkEnv} {sigs : Signatures} {a a' : Argument}

theorem runAlike_note (e : Event) : RunAlike env sigs (note e) (note e) :=
  .modify (fun _ => rfl) (fun _ => rfl) fun _ _ => rfl

theorem exists_of_isOk {ε : Type} {r : Except ε α} (h : r.isOk = true) : ∃ x, r = .ok x := by
  cases r with
  | ok x => exact ⟨x, rfl⟩
  | error e => exact absurd h Bool.false_ne_true

theorem runAlike_expectType (h : a.Respelled sigs.env a') (hc : a.Clear env.source sigs)
    (hc' : a'.Clear env.source sigs) :
    RunAlike env sigs (expectType a.formal a.ty a.value.span) (expectType a'.formal a'.ty a'.value.span) := by
  have hverdict : ∀ a : Argument, ∀ s : LinkState, s.signatures = sigs →
      Runs env (satisfies a.formal a.ty) s (sigs.env.satisfies a.formal a.ty) s := by
    rintro a s rfl
    exact runs_satisfies.2 ⟨rfl, rfl⟩
  have hshow : ∀ {t : Ty} {text : String}, env.source.showTy t = .ok text →
      ∀ s : LinkState, s.signatures = sigs → Runs env (showTy t) s text s := by
    intro t text htext s _
    exact runs_bind.2 ⟨_, s, runs_source.2 ⟨rfl, rfl⟩, runs_ofLookup.2 ⟨htext, rfl⟩⟩
  refine .look (hverdict a) (hverdict a') ?_
  rw [← h.satisfies_eq hc hc']
  split
  · exact .pure _
  · obtain ⟨_, hformal⟩ := exists_of_isOk hc.shown.1
    obtain ⟨_, hformal'⟩ := exists_of_isOk hc'.shown.1
    obtain ⟨_, hty⟩ := exists_of_isOk hc.shown.2
    obtain ⟨_, hty'⟩ := exists_of_isOk hc'.shown.2
    rw [h.value]
    exact .look (hshow hformal) (hshow hformal') (.look (hshow hty) (hshow hty') (.report _ rfl rfl))

theorem runAlike_settleLiteral (h : a.Respelled sigs.env a') (hc : a.Clear env.source sigs)
    (hc' : a'.Clear env.source sigs) :
    RunAlike env sigs (settleLiteral a.value a.ty a.formal) (settleLiteral a'.value a'.ty a'.formal) := by
  unfold settleLiteral
  rw [h.ty, h.value]
  split
  · rename_i hliteral
    have hlook : ∀ s : LinkState, s.signatures = sigs → Runs env typeEnv s sigs.env s := by
      rintro s rfl
      exact runs_typeEnv.2 ⟨rfl, rfl⟩
    refine .look hlook hlook ?_
    rw [h.scalar?_eq hc hc' hliteral]
    split
    · exact .modify (fun _ => rfl) (fun _ => rfl) fun _ _ => rfl
    · exact .pure _
  · exact .pure _

theorem runAlike_checkMoved (e : ExprId) {p : Place} (hp : env.source.HasDecl p.root) (span : Span) :
    RunAlike env sigs (checkMoved e p span) (checkMoved e p span) := by
  obtain ⟨d, hd⟩ := Option.isSome_iff_exists.1 hp
  refine .get fun s s' hlike => ?_
  have hmoves : s'.moves = s.moves := by rw [hlike.rest]
  rw [hmoves]
  refine .bind (runAlike_note _) fun _ => ?_
  split
  · exact .pure _
  · have hshow : ∀ s : LinkState, s.signatures = sigs → Runs env (showPlace p) s
        (p.path.foldl (fun out field => out ++ "." ++ field) d.name) s := by
      intro s _
      have hname : Runs env (nameOf p.root) s d.name s :=
        runs_bind.2 ⟨d, s, runs_declOf.2 ⟨hd, rfl⟩, runs_pure.2 ⟨rfl, rfl⟩⟩
      exact runs_bind.2 ⟨d.name, s, hname, runs_pure.2 ⟨rfl, rfl⟩⟩
    exact .look hshow hshow (.report _ rfl rfl)

theorem runAlike_checkLeft (h : a.Respelled sigs.env a') {place : Option Place}
    (hplace : ∀ p ∈ place, env.source.HasDecl p.root) (left : List Place) :
    RunAlike env sigs (checkLeft a place left) (checkLeft a' place left) := by
  unfold checkLeft
  rw [h.value]
  split
  · split
    · exact runAlike_checkMoved _ (hplace _ rfl) _
    · exact .pure _
  · exact .pure _

theorem runAlike_consume (e : Expr) (ty : Ty) : RunAlike env sigs (consume e ty) (consume e ty) := by
  have hplace : RunAlike env sigs (placeOf e) (placeOf e) := by
    refine .readSource (.get fun s s' hlike => ?_)
    have hresolved : s'.program.resolved = s.program.resolved := by rw [hlike.rest]
    rw [hresolved]
    exact .pure _
  refine .readSignatures ?_
  split
  · refine hplace.bind fun place => ?_
    split
    · exact .pure _
    · refine .bind (.modify (fun _ => rfl) (fun _ => rfl) fun _ _ => rfl) fun _ => ?_
      exact .bind (runAlike_note _) fun _ => .pure _
  · exact .pure _

theorem runs_consume_of_not_owned {e : Expr} {ty : Ty} (howned : sigs.isOwned ty = false) (s : LinkState)
    (hs : s.signatures = sigs) : Runs env (consume e ty) s none s := by
  refine runs_bind.2 ⟨_, s, runs_signatures.2 ⟨rfl, rfl⟩, ?_⟩
  rw [hs, howned, if_neg Bool.false_ne_true]
  exact runs_pure.2 ⟨rfl, rfl⟩

theorem runs_moveArg_of_not_owned (howned : sigs.isOwned a.ty = false) (left : List Place) (s : LinkState)
    (hs : s.signatures = sigs) : Runs env (moveArg a left) s left s := by
  unfold moveArg
  split
  · exact runs_pure.2 ⟨rfl, rfl⟩
  · exact runs_bind.2 ⟨none, s, runs_consume_of_not_owned howned s hs, runs_pure.2 ⟨rfl, rfl⟩⟩

theorem runAlike_moveArg (h : a.Respelled sigs.env a') (hc : a.Clear env.source sigs)
    (hc' : a'.Clear env.source sigs) (left : List Place) :
    RunAlike env sigs (moveArg a left) (moveArg a' left) := by
  cases howned : sigs.isOwned a.ty with
  | false =>
    intro s s' hlike
    exact ⟨left, s, s', runs_moveArg_of_not_owned howned left s hlike.signatures,
      runs_moveArg_of_not_owned (h.ty ▸ howned) left s' hlike.signatures_right, hlike⟩
  | true =>
    unfold moveArg
    rw [h.isReference_eq hc hc' howned, h.value, h.ty]
    split
    · exact .pure _
    · refine .bind (runAlike_consume _ _) fun place => ?_
      cases place <;> exact .pure _

theorem runAlike_bindArg (h : a.Respelled sigs.env a') (hc : a.Clear env.source sigs)
    (hc' : a'.Clear env.source sigs)
    {place : Option Place} (hplace : ∀ p ∈ place, env.source.HasDecl p.root) (left : List Place) :
    RunAlike env sigs (bindArg a place left) (bindArg a' place left) :=
  .bind (runAlike_expectType h hc hc') fun _ => .bind (runAlike_settleLiteral h hc hc') fun _ =>
    .bind (runAlike_checkLeft h hplace left) fun _ => runAlike_moveArg h hc hc' left

theorem runAlike_bindArgs {args args' : List Argument} (h : List.Forall₂ (Argument.Respelled sigs.env) args args')
    (hclear : ∀ a ∈ args, a.Clear env.source sigs) (hclear' : ∀ a ∈ args', a.Clear env.source sigs) :
    RunAlike env sigs (bindArgs args) (bindArgs args') := by
  have hpairs : List.Forall₂ (fun a a' => a.Respelled sigs.env a' ∧ a.Clear env.source sigs ∧ a'.Clear env.source sigs)
      args args' := by
    obtain ⟨hlength, hzip⟩ := List.forall₂_iff_zip.1 h
    refine List.forall₂_iff_zip.2 ⟨hlength, fun {a a'} hmem => ⟨hzip hmem, ?_, ?_⟩⟩
    · exact hclear a (List.of_mem_zip hmem).1
    · exact hclear' a' (List.of_mem_zip hmem).2
  refine .readSource (.get fun s s' hlike => ?_)
  have hmoves : s'.moves = s.moves := by rw [hlike.rest]
  have hresolved : s'.program.resolved = s.program.resolved := by rw [hlike.rest]
  dsimp only
  rw [hmoves, hresolved, Argument.Respelled.filterMap_eq h fun e =>
    (e.place? env.source s.program.resolved).map fun p => (⟨e.id, p, s.moves.gone p⟩ : PassedPlace)]
  refine .bind (runAlike_note _) fun _ => .bind (.foldlM (fun left a a' hpair => ?_) hpairs []) fun _ => .pure _
  obtain ⟨ha, hc, hc'⟩ := hpair
  rw [ha.value]
  refine runAlike_bindArg ha hc hc' (fun p hp => ?_) left
  exact Expr.hasDecl_place (Option.filter_eq_some_iff.1 hp).1

end Link

/-- Passing arguments on cannot tell the spellings of the formals apart if they are clear. Both runs go through, and the
states they end in differ at most in the texts of reports: the same places are moved, the same types are recorded, and
the same problems are reported at the same spans in the same order. -/
theorem bindArgs_respelled {env : LinkEnv} {s : LinkState} {args args' : List Argument}
    (hrespelled : List.Forall₂ (Argument.Respelled s.env) args args')
    (hclear : ∀ a ∈ args, a.Clear env.source s.signatures) (hclear' : ∀ a ∈ args', a.Clear env.source s.signatures) :
    ∃ t t', Runs env (bindArgs args) s () t ∧ Runs env (bindArgs args') s () t' ∧
      t' = { t with reports := t'.reports } ∧ List.Forall₂ Diagnostic.Like t.reports t'.reports := by
  have hlike : LinkState.Like s.signatures s s :=
    ⟨rfl, rfl, List.forall₂_same.2 fun d _ => ⟨rfl, rfl, rfl, rfl⟩⟩
  obtain ⟨_, t, t', hrun, hrun', hlike⟩ := runAlike_bindArgs hrespelled hclear hclear' s s hlike
  exact ⟨t, t', hrun, hrun', hlike.rest, hlike.reports⟩

/-- The declarations `owned struct Res {}` with a destructor, `alias R = &Res`, `alias A = Res`, `alias Num = int`,
`alias Flag = bool`, `alias Ref = &int` and `fn take(x: ..)`, with the type of `x` as given, and
`fn main(a: Res) { take(a); take(a); }`. -/
def lending (formal : TypeShape TypeExprId) : Setup where
  source := .ofSteps [
    .struct "Res" (.owned (some "free")),
    .typeExpr (.named ["Res"] []),
    .typeExpr (.reference ⟨0⟩),
    .typeAlias "R" ⟨1⟩,
    .typeAlias "A" ⟨0⟩,
    .typeExpr (.named ["int"] []),
    .typeAlias "Num" ⟨2⟩,
    .typeExpr (.named ["bool"] []),
    .typeAlias "Flag" ⟨3⟩,
    .typeExpr (.reference ⟨2⟩),
    .typeAlias "Ref" ⟨4⟩,
    .function "take",
    .typeExpr formal,
    .param ⟨6⟩ "x" ⟨5⟩ false,
    .function "main",
    .param ⟨8⟩ "a" ⟨0⟩ false,
    .expr (.name "a"),
    .callName "take" [] [⟨0⟩],
    .expr (.name "a"),
    .callName "take" [] [⟨3⟩],
    .exprStmt ⟨2⟩,
    .exprStmt ⟨5⟩,
    .block [⟨0⟩, ⟨1⟩],
    .body ⟨8⟩ ⟨0⟩,
    .function "free",
    .param ⟨10⟩ "x" ⟨0⟩ false]

def lendingState : LinkState :=
  let s := (lending (.reference ⟨0⟩)).declared
  { s with program.resolved := s.program.resolved.insert ⟨0⟩ ⟨9⟩ }

def lent (formal : Ty) : Argument := { value := .node ⟨0⟩ {} (.name "a"), ty := .linked ⟨0⟩ [], formal }

def literalOne (e : ExprId) (formal : Ty) : Argument := { value := .node e {} (.intLit 1), ty := .literal .int, formal }

/-- The formals `&Res`, `int`, `&int` and `bool` are written as `&A`, `Num`, `Ref` and `Flag`. -/
theorem respelled_lending :
    let env := (lending (.reference ⟨0⟩)).linkEnv
    let args := [lent (.reference (.linked ⟨0⟩ [])), literalOne ⟨1⟩ .int, literalOne ⟨2⟩ (.reference .int),
      literalOne ⟨3⟩ .bool]
    let args' := [lent (.reference (.linked ⟨2⟩ [])), literalOne ⟨1⟩ (.linked ⟨3⟩ []), literalOne ⟨2⟩ (.linked ⟨5⟩ []),
      literalOne ⟨3⟩ (.linked ⟨4⟩ [])]
    List.Forall₂ (Argument.Respelled lendingState.env) args args' ∧
      (∀ a ∈ args, a.Clear env.source lendingState.signatures) ∧
      (∀ a ∈ args', a.Clear env.source lendingState.signatures) ∧
      ∃ t t', Runs env (bindArgs args) lendingState () t ∧ Runs env (bindArgs args') lendingState () t' ∧
        t' = { t with reports := t'.reports } ∧ List.Forall₂ Diagnostic.Like t.reports t'.reports := by
  intro env args args'
  have hrespelled : List.Forall₂ (Argument.Respelled lendingState.env) args args' :=
    .cons ⟨rfl, rfl, by decide +kernel⟩ <| .cons ⟨rfl, rfl, by decide +kernel⟩ <|
      .cons ⟨rfl, rfl, by decide +kernel⟩ <| .cons ⟨rfl, rfl, by decide +kernel⟩ .nil
  have hclear : ∀ a ∈ args, a.Clear env.source lendingState.signatures :=
    Argument.clear_of_within (n := 3) (by decide +kernel)
  have hclear' : ∀ a ∈ args', a.Clear env.source lendingState.signatures :=
    Argument.clear_of_within (n := 3) (by decide +kernel)
  exact ⟨hrespelled, hclear, hclear', bindArgs_respelled hrespelled hclear hclear'⟩

/-- A value that is passed to `&Res` stays where it is, and one that is passed to `R` is moved. A literal that is passed
to `&int` becomes an `int`, and one that is passed to `&Num` stays a literal. -/
theorem lending_moved :
    let env := (lending (.reference ⟨0⟩)).linkEnv
    let res := Ty.reference (.linked ⟨0⟩ [])
    let num := Ty.reference (.linked ⟨3⟩ [])
    (lendingState.env.same res (.linked ⟨1⟩ []) = true ∧ lendingState.env.same (.reference .int) num = true) ∧
      (∃ t, Runs env (bindArgs [lent res]) lendingState () t ∧ t.moves.gone { root := ⟨9⟩ } = false) ∧
      (∃ t, Runs env (bindArgs [lent (.linked ⟨1⟩ [])]) lendingState () t ∧ t.moves.gone { root := ⟨9⟩ } = true) ∧
      (∃ t, Runs env (bindArgs [literalOne ⟨1⟩ (.reference .int)]) lendingState () t ∧
        t.program.exprTypes.get? ⟨1⟩ = some .int) ∧
      (∃ t, Runs env (bindArgs [literalOne ⟨1⟩ num]) lendingState () t ∧ t.program.exprTypes.get? ⟨1⟩ = none) ∧
      (lending (.reference ⟨0⟩)).link.reports = [] ∧
      (lending (.named ["R"] [])).link.reports.map (·.kind) = [.useAfterMove] := by
  intro env res num
  refine ⟨by decide +kernel, ?_, ?_, ?_, ?_, by decide +kernel, by decide +kernel⟩
  all_goals exact exists_of_run (by decide +kernel)

end Linkage
