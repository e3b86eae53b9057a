import Linkage.Proofs.Link.Outcome
import Linkage.Proofs.Link.Passes
import Linkage.Proofs.Ty.Agreement

/-!
# Verdicts on bounds

Generic arguments are held against the bounds of their parameters in the signatures as they are at that moment. While
declarations are linked the signatures are still growing, so a verdict can differ from the one the finished signatures
would give. A check is settled if what it looks up is what the finished signatures say. The verdicts of settled checks
are final. In the last pass, over the signatures of functions, structs and variants, every check is settled.
-/

namespace Linkage

/-- All that the verdict rests on is as the finished signatures have it. -/
structure BoundCheck.Settled (c : BoundCheck) (final : Signatures) : Prop where
  bound : c.seen.bounds.get? c.param = final.bounds.get? c.param
  facts : ∃ S, c.seen.AgreeOn S final ∧ c.arg.Within S ∧ (∀ a ∈ c.args, a.Within S) ∧
    ∀ t, final.bounds.get? c.param = some t → t.Within S

namespace Signatures

variable {sigs final : Signatures} {generics : List GenericId} {args : List Ty} {g : GenericId} {arg : Ty}

theorem isSome_violatedBound?_iff : (sigs.violatedBound? generics args g arg).isSome = true ↔
    ∃ bound, sigs.bounds.get? g = some bound ∧ arg.isOpen = false ∧ arg.hasUnknown = false ∧
      sigs.env.satisfiesBound (bound.subst generics args) arg = false := by
  unfold violatedBound?
  cases hbound : sigs.bounds.get? g with
  | none => simp
  | some bound =>
    by_cases hclosed : (arg.isOpen || arg.hasUnknown) = true
    · simp only [Option.bind_eq_bind, Option.bind_some, hclosed, if_true]
      simp only [Option.isSome_none, Bool.false_eq_true, Option.some.injEq, exists_eq_left', false_iff, not_and]
      intro hopen hknown
      simp [hopen, hknown] at hclosed
    · obtain ⟨hopen, hknown⟩ := Bool.or_eq_false_iff.1 (Bool.eq_false_iff.2 hclosed)
      simp [hopen, hknown]

end Signatures

theorem BoundCheck.Settled.violatedBound?_eq {c : BoundCheck} {final : Signatures} (h : c.Settled final) :
    c.seen.violatedBound? c.generics c.args c.param c.arg =
      final.violatedBound? c.generics c.args c.param c.arg := by
  obtain ⟨hbound, S, hagree, harg, hargs, hbounds⟩ := h
  unfold Signatures.violatedBound?
  rw [hbound]
  cases hget : final.bounds.get? c.param with
  | none => rfl
  | some bound =>
    simp only [Option.bind_eq_bind, Option.bind_some]
    rw [hagree.env.satisfiesBound_eq ((hbounds bound hget).subst hargs c.generics) harg]

def Signatures.facts (sigs : Signatures) :=
  (sigs.generics, sigs.bounds, sigs.aliasTargets, sigs.unionMembers, sigs.implements)

theorem Signatures.facts_of_tables {sigs sigs' : Signatures} (h : sigs.tables = sigs'.tables) :
    sigs.facts = sigs'.facts := by
  simp only [tables, facts, Prod.mk.injEq] at h ⊢
  obtain ⟨hgenerics, hbounds, -, haliases, hunions, himplements⟩ := h
  exact ⟨hgenerics, hbounds, haliases, hunions, himplements⟩

theorem BoundCheck.settled_of_facts {c : BoundCheck} {final : Signatures} (h : c.seen.facts = final.facts) :
    c.Settled final := by
  simp only [Signatures.facts, Prod.mk.injEq] at h
  obtain ⟨hgenerics, hbounds, haliases, hunions, himplements⟩ := h
  refine ⟨by rw [hbounds], fun _ => True, ⟨?_, ?_, ?_, ?_, ?_, ?_⟩, ?_, ?_, ?_⟩
  · exact fun d _ => by rw [hgenerics]
  · exact fun d _ => by rw [haliases]
  · exact fun d _ => by rw [hunions]
  · exact fun d _ => by rw [himplements]
  · exact fun d t _ _ => t.within_true
  · exact fun d ts _ _ t _ => t.within_true
  · exact c.arg.within_true
  · exact fun a _ => a.within_true
  · exact fun t _ => t.within_true

namespace Link

variable {α : Type} {env : LinkEnv} {s s' : LinkState} {fixed : Prop}

/-! ### Every check on the record -/

theorem checks_of_checkBound {generics : List GenericId} {args : List Ty} {span : Span} {g : GenericId} {arg : Ty}
    {u : Unit} (hloud : s.quiet = false) (h : Runs env (checkBound generics args span g arg) s u s') :
    ∃ reported, s'.checks = s.checks ++ [{ generics, args, param := g, arg, seen := s.signatures, reported }] := by
  simp only [checkBound, runs_bind, runs_signatures] at h
  obtain ⟨_, _, ⟨rfl, rfl⟩, reported, s₁, hreported, hnote⟩ := h
  obtain rfl := (compound_looks.option fun bound _ => (consults_boundViolation span g arg bound).looks).of_runs hreported
  obtain rfl := runs_modify.1 hnote
  exact ⟨reported, by rw [if_neg (by simp [hloud])]⟩

theorem checks_of_checkBounds {decl : DeclId} {args : List Ty} {span : Span} {u : Unit} (hloud : s.quiet = false)
    (h : Runs env (checkBounds decl args span) s u s') :
    ∃ cs, s'.checks = s.checks ++ cs ∧
      cs.map (fun c => (c.generics, c.args, c.param, c.arg, c.seen)) =
        ((s.signatures.genericsOf decl).zip args).map fun (g, arg) =>
          (s.signatures.genericsOf decl, args, g, arg, s.signatures) := by
  simp only [checkBounds, runs_bind, runs_signatures] at h
  obtain ⟨_, _, ⟨rfl, rfl⟩, h⟩ := h
  generalize s.signatures.genericsOf decl = generics at h ⊢
  generalize generics.zip args = pairs at h ⊢
  generalize hsigs : s.signatures = sigs
  induction pairs generalizing s with
  | nil =>
    obtain rfl := runs_forM_nil.1 h
    exact ⟨[], (List.append_nil _).symm, rfl⟩
  | cons pair pairs ih =>
    obtain ⟨s₁, hfirst, hrest⟩ := runs_forM_cons.1 h
    have hsteps : TypeSteps .mention s s₁ := (steps_checkBound _ _ _ _ _).of_runs hfirst
    have hlater : s.Later True s₁ := later_of_steps hsteps
    have hloud₁ : s₁.quiet = false := hlater.quiet.trans hloud
    obtain ⟨reported, hcheck⟩ := checks_of_checkBound hloud hfirst
    obtain ⟨cs, hcs, hmap⟩ := ih hloud₁ hrest ((signatures_of_steps hsteps).1.trans hsigs)
    refine ⟨_ :: cs, by rw [hcs, hcheck, List.append_assoc]; rfl, ?_⟩
    rw [List.map_cons, hmap, hsigs]
    rfl

/-- The reports on bounds. While declarations are linked, nothing else is found by checking types. -/
def violations (reports : List Diagnostic) : List Diagnostic :=
  reports.filter fun d => d.kind = .typeMismatch ∧ d.phase = .typeChecking

theorem violations_append (as bs : List Diagnostic) : violations (as ++ bs) = violations as ++ violations bs :=
  List.filter_append ..

/-- The run has reported what its checks found, each in its own signatures. Where `fixed` holds, nothing has
changed that a check looks up. -/
structure Checking (fixed : Prop) (s s' : LinkState) : Prop where
  facts : fixed → s'.signatures.facts = s.signatures.facts
  added : ∃ cs ds, s'.checks = s.checks ++ cs ∧ s'.reports = s.reports ++ ds ∧
    violations ds = cs.filterMap (·.reported) ∧
      ∀ c ∈ cs, Faithful c ∧ (fixed → c.seen.facts = s.signatures.facts)

theorem checking_of_reports {ds : List Diagnostic} (hfacts : fixed → s'.signatures.facts = s.signatures.facts)
    (hchecks : s'.checks = s.checks) (hreports : s'.reports = s.reports ++ ds) (hds : violations ds = []) :
    Checking fixed s s' :=
  ⟨hfacts, [], ds, by rw [hchecks, List.append_nil], hreports, hds, nofun⟩

theorem checking_of_eq (hfacts : fixed → s'.signatures.facts = s.signatures.facts)
    (hchecks : s'.checks = s.checks) (hreports : s'.reports = s.reports) : Checking fixed s s' :=
  checking_of_reports hfacts hchecks (hreports.trans (List.append_nil _).symm) rfl

instance (fixed : Prop) : Sequential (Checking fixed) where
  refl _ := checking_of_eq (fun _ => rfl) rfl rfl
  trans := by
    rintro s s₁ s₂ ⟨hfacts, cs, ds, hchecks, hreports, hviolations, hcs⟩
      ⟨hfacts', cs', ds', hchecks', hreports', hviolations', hcs'⟩
    refine ⟨fun hfixed => (hfacts' hfixed).trans (hfacts hfixed), cs ++ cs', ds ++ ds', ?_, ?_, ?_, ?_⟩
    · rw [hchecks', hchecks, List.append_assoc]
    · rw [hreports', hreports, List.append_assoc]
    · rw [violations_append, hviolations, hviolations', List.filterMap_append]
    · intro c hc
      rcases List.mem_append.1 hc with hc | hc
      · exact hcs c hc
      · exact ⟨(hcs' c hc).1, fun hfixed => ((hcs' c hc).2 hfixed).trans (hfacts hfixed)⟩

instance (fixed : Prop) : Enclosed (Checking fixed) where
  close _ h := ⟨h.facts, h.added⟩

theorem violations_eq_nil {ds : List Diagnostic}
    (h : ∀ d ∈ ds, d.kind ≠ .typeMismatch ∨ d.phase ≠ .typeChecking) : violations ds = [] := by
  refine List.filter_eq_nil_iff.2 fun d hd hviolation => ?_
  obtain ⟨hkind, hphase⟩ := of_decide_eq_true hviolation
  exact (h d hd).elim (absurd hkind) (absurd hphase)

theorem checking_withInstances {x : Instances} (h : Instances.AddsRefusals s.reports x.reports) :
    Checking fixed s (s.withInstances x) := by
  obtain ⟨added, hadded, hkind⟩ := h
  refine checking_of_reports (fun _ => rfl) rfl hadded (violations_eq_nil fun d hd => .inl ?_)
  rw [hkind d hd]
  nofun

theorem checking_of_steps {usage : TypeUse} (h : TypeSteps usage s s') : Checking fixed s s' := by
  induction h with
  | refl => exact Sequential.refl s
  | tail _ hstep ih =>
    refine Sequential.trans ih ?_
    cases hstep with
    | report _ d _ _ hphase =>
      refine checking_of_reports (fun _ => rfl) rfl rfl (violations_eq_nil fun d' hd' => .inr ?_)
      rwa [List.mem_singleton.1 hd']
    | check _ c _ hseen hfaithful =>
      refine ⟨fun _ => rfl, [c], c.reported.toList, rfl, rfl, ?_, fun c' hc' => ?_⟩
      · cases hreported : c.reported with
        | none => simp [hreported, violations]
        | some d => simp [hreported, violations, hfaithful.wording d hreported]
      · obtain rfl := List.mem_singleton.1 hc'
        exact ⟨hfaithful, fun _ => by rw [hseen]⟩
    | instantiate => exact checking_withInstances (Instances.follows_reports.instantiate _ _ _ _ _ _)
    | subscribe => exact checking_withInstances (Instances.follows_reports.subscribe _ _ _ _)
    | usage => exact checking_of_eq (fun _ => rfl) rfl rfl

theorem checking_linkTypeAt (host : Option DeclId) (usage : TypeUse) (id : TypeExprId) :
    Framed (Checking fixed) (linkTypeAt host usage id) :=
  fun env s => checking_of_steps (steps_linkTypeAt host usage id env s)

theorem checking_report (span : Span) {p : Problem} (hphase : p.phase ≠ .typeChecking) :
    Framed (Checking fixed) (report span p) := by
  refine fun _ => .report fun _ _ => checking_of_reports (fun _ => rfl) rfl rfl (violations_eq_nil fun d hd => .inr ?_)
  rwa [List.mem_singleton.1 hd]

theorem checking_onSignatures {f : Signatures → Signatures} (hfacts : fixed → ∀ sigs, (f sigs).facts = sigs.facts) :
    Framed (Checking fixed) (onSignatures f) :=
  .modify fun s => checking_of_eq (fun hfixed => hfacts hfixed s.signatures) rfl rfl

/-! ### The passes over declarations -/

theorem checking_declareIn (space : Option DeclId) (name : String) (decl : DeclId) :
    Framed (Checking fixed) (declareIn space name decl) := by
  cases space with
  | none => exact .modify fun _ => checking_of_eq (fun _ => rfl) rfl rfl
  | some space => exact .modify fun _ => checking_of_eq (fun _ => rfl) rfl rfl

theorem checking_settleRedeclaration (kept : Table DeclId DeclId) (r : Redeclaration) :
    Framed (Checking fixed) (settleRedeclaration kept r) :=
  framed_settleRedeclaration checking_declareIn (fun span _ => checking_report span nofun)
    (fun _ => .modify fun _ => checking_of_eq (fun _ => rfl) rfl rfl) kept r

theorem passable_checking : Passable fixed (Checking fixed) where
  linkTypeAt := checking_linkTypeAt
  report span _ hphase _ := checking_report span hphase
  write _ h := checking_onSignatures fun hfixed sigs => Signatures.facts_of_tables (h hfixed sigs)
  note _ := .modify fun _ => checking_of_eq (fun _ => rfl) rfl rfl

theorem checking_declareTypes : Framed (Checking False) declareTypes := by
  rw [declareTypes_eq]
  refine .bind looks_source.framed fun src => .bind (framed_declareItems checking_declareIn none _) fun redeclared => ?_
  refine .bind (passable_checking.linkTypePasses not_false _) fun _ => ?_
  exact .bind (.foldlM (fun kept r _ => checking_settleRedeclaration kept r) _) fun _ => .pure _

/-! ### Final verdicts -/

theorem Checking.loosen (h : Checking fixed s s') : Checking False s s' := by
  obtain ⟨-, cs, ds, hchecks, hreports, hviolations, hcs⟩ := h
  exact ⟨False.elim, cs, ds, hchecks, hreports, hviolations, fun c hc => ⟨(hcs c hc).1, False.elim⟩⟩

end Link

open Link

/-- Declaring reports exactly the violations that its checks find, one after the other. Of a check that is
settled a violation is reported if and only if the finished signatures show one: the parameter has a bound, and
the argument is closed, known and does not satisfy it. The checks in the signatures of functions, structs and
variants are settled. And there is a check for every argument that a bound can be looked up for. -/
theorem declareAll_verdicts {env : LinkEnv} {final : LinkState} (h : Runs env declareAll {} () final) :
    violations final.reports = final.checks.filterMap (·.reported) ∧
    (∀ c ∈ final.checks, c.Settled final.signatures → (c.reported.isSome = true ↔
      ∃ bound, final.signatures.bounds.get? c.param = some bound ∧ c.arg.isOpen = false ∧
        c.arg.hasUnknown = false ∧
          final.signatures.env.satisfiesBound (bound.subst c.generics c.args) c.arg = false)) ∧
    (∃ s late, Runs env declareTypes {} () s ∧ Runs env linkSignatures s () final ∧
      final.checks = s.checks ++ late ∧ ∀ c ∈ late, c.Settled final.signatures) ∧
    ∀ decl args span s s', s.quiet = false → Runs env (checkBounds decl args span) s () s' →
      ∃ cs, s'.checks = s.checks ++ cs ∧
        cs.map (fun c => (c.generics, c.args, c.param, c.arg, c.seen)) =
          ((s.signatures.genericsOf decl).zip args).map fun (g, arg) =>
            (s.signatures.genericsOf decl, args, g, arg, s.signatures) := by
  obtain ⟨_, s, htypes, hsignatures⟩ := runs_bind.1 h
  have hlast : Checking True s final := passable_checking.linkSignatures.of_runs hsignatures
  have hall : Checking False {} final := Sequential.trans (checking_declareTypes.of_runs htypes) hlast.loosen
  obtain ⟨cs, ds, hchecks, hreports, hviolations, hcs⟩ := hall.added
  refine ⟨?_, fun c hc hsettled => ?_, ?_, fun decl args span s s' => checks_of_checkBounds⟩
  · rw [hreports, hchecks]
    exact hviolations
  · rw [hchecks] at hc
    rw [(hcs c hc).1.verdict, hsettled.violatedBound?_eq, Signatures.isSome_violatedBound?_iff]
  · obtain ⟨late, _, hlate, -, -, hsame⟩ := hlast.added
    refine ⟨s, late, htypes, hsignatures, hlate, fun c hc => BoundCheck.settled_of_facts ?_⟩
    exact ((hsame c hc).2 trivial).trans (hlast.facts trivial).symm

/-- `interface Show`, `struct Box<T: Show>` and `struct S: Show`, and what follows. -/
def showSteps : List BuildStep := [
  .interface "Show",
  .struct "Box" .copy,
  .typeExpr (.named ["Show"] []),
  .generic ⟨1⟩ "T" (some ⟨0⟩) none,
  .struct "S" .copy,
  .typeExpr (.named ["Show"] []),
  .implements ⟨3⟩ ⟨1⟩]

/-- Then `fn main(a: Box<S>, b: Box<int>)`. -/
def boxedParams : Setup where
  source := .ofSteps (showSteps ++ [
    .function "main",
    .typeExpr (.named ["S"] []),
    .typeExpr (.named ["Box"] [⟨2⟩]),
    .param ⟨4⟩ "a" ⟨3⟩ false,
    .typeExpr (.named ["int"] []),
    .typeExpr (.named ["Box"] [⟨4⟩]),
    .param ⟨4⟩ "b" ⟨5⟩ false])

/-- The second parameter is found to violate the bound, by the finished signatures as well. -/
theorem verdicts_boxedParams : ∃ final, Runs boxedParams.linkEnv declareAll {} () final ∧
    (violations final.reports).length = 1 ∧ ∃ c ∈ final.checks, c.Settled final.signatures ∧ c.arg = .int ∧
      c.reported.isSome = true ∧ ∃ bound, final.signatures.bounds.get? c.param = some bound ∧
        final.signatures.env.satisfiesBound (bound.subst c.generics c.args) c.arg = false := by
  obtain ⟨final, hrun, hone, c, hc, harg, hreported⟩ : ∃ final, Runs boxedParams.linkEnv declareAll {} () final ∧
      (violations final.reports).length = 1 ∧ ∃ c ∈ final.checks, c.arg = .int ∧ c.reported.isSome = true :=
    exists_of_run (by decide +kernel)
  obtain ⟨s₀, htypes₀, hnone⟩ : ∃ s₀, Runs boxedParams.linkEnv declareTypes {} () s₀ ∧ s₀.checks.isEmpty = true :=
    exists_of_run (by decide +kernel)
  obtain ⟨-, hverdict, ⟨s, late, htypes, -, hlate, hsettled⟩, -⟩ := declareAll_verdicts hrun
  obtain ⟨-, rfl⟩ := htypes₀.unique htypes
  rw [List.isEmpty_iff.1 hnone, List.nil_append] at hlate
  have hc' : c.Settled final.signatures := hsettled c (hlate ▸ hc)
  obtain ⟨bound, hbound, -, -, hviolated⟩ := (hverdict c hc hc').1 hreported
  exact ⟨final, hrun, hone, c, hc, hc', harg, hreported, bound, hbound, hviolated⟩

/-- Then `alias A = Box<S>`. -/
def boxedAlias : Setup where
  source := .ofSteps (showSteps ++ [
    .typeExpr (.named ["S"] []),
    .typeExpr (.named ["Box"] [⟨2⟩]),
    .typeAlias "A" ⟨3⟩])

/-- `struct Outer<T = Box<int>>`, then `interface Show` and `struct Box<U: Show>`. -/
def boxedDefault : Setup where
  source := .ofSteps [
    .struct "Outer" .copy,
    .typeExpr (.named ["int"] []),
    .typeExpr (.named ["Box"] [⟨0⟩]),
    .generic ⟨0⟩ "T" none (some ⟨1⟩),
    .interface "Show",
    .struct "Box" .copy,
    .typeExpr (.named ["Show"] []),
    .generic ⟨3⟩ "U" (some ⟨2⟩) none]

/-- Before the signatures are finished verdicts err in both directions: `S` is said not to satisfy `Show` in the
target of the alias, and `int` passes for an argument of `Box` in the default. -/
theorem verdicts_err : (∃ final, Runs boxedAlias.linkEnv declareAll {} () final ∧
      ∃ c ∈ final.checks, c.reported.isSome = true ∧ c.arg.isOpen = false ∧ c.arg.hasUnknown = false ∧
        ∃ bound ∈ final.signatures.bounds.get? c.param,
          final.signatures.env.satisfiesBound (bound.subst c.generics c.args) c.arg = true) ∧
    ∃ final, Runs boxedDefault.linkEnv declareAll {} () final ∧
      ∃ c ∈ final.checks, c.reported.isSome = false ∧ c.arg.isOpen = false ∧ c.arg.hasUnknown = false ∧
        ∃ bound ∈ final.signatures.bounds.get? c.param,
          final.signatures.env.satisfiesBound (bound.subst c.generics c.args) c.arg = false :=
  ⟨exists_of_run (by decide +kernel), exists_of_run (by decide +kernel)⟩

end Linkage
