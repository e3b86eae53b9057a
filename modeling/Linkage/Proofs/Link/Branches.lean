import Linkage.Proofs.Link.Courses
import Linkage.Proofs.Link.Straight
import Linkage.Proofs.Moves.Paths

/-!
# Bodies with branches

Under the policy that restores, a use of a moved value is reported only where the value is gone on some path that
leads to the use, provided that the flow of the body is regular. Flows that are not regular do occur: all conditions
of a chain are linked before the first of its arms, so an arm is told of a move that happens only if its own condition
fails.
-/

namespace Linkage

open Linkage.Flow Link

theorem Entry.exists_read_of_misuse? {entry : Entry} {span : Span} (h : entry.misuse? = some span) :
    ∃ e p, entry = .event (.read e span p true) := by
  cases entry with
  | mark => nomatch h
  | event x =>
    cases x with
    | read e span' p gone =>
      cases gone with
      | false => nomatch h
      | true =>
        obtain rfl := Option.some.inj h
        exact ⟨e, p, rfl⟩
    | passing => nomatch h
    | moved => nomatch h
    | written => nomatch h
    | returned => nomatch h

theorem exists_read_of_misuse {reports : List Diagnostic} {fs : List Flow}
    (h : misuses reports = (allEntries fs).filterMap Entry.misuse?) {d : Diagnostic} (hd : d ∈ reports)
    (hkind : d.kind = .useAfterMove) : ∃ e p, .event (.read e d.span p true) ∈ allEntries fs := by
  have hspan : d.span ∈ misuses reports :=
    List.mem_map_of_mem (List.mem_filter.2 ⟨hd, by rw [hkind]; rfl⟩)
  rw [h] at hspan
  obtain ⟨entry, hentry, hmisuse⟩ := List.mem_filterMap.1 hspan
  obtain ⟨e, p, rfl⟩ := Entry.exists_read_of_misuse? hmisuse
  exact ⟨e, p, hentry⟩

/-- What is noted while the body of a function is linked is its flow, as the tracker follows it, and the uses of
moved values that are reported are the reads in it that find their place gone. If the flow is regular, each of
them is reached on a path through the body on which an overlapping place is moved out and not written to
afterwards. -/
theorem linkFunction_misuses_justified {env : LinkEnv} {func : DeclId} {params : List DeclId} {block : BlockId}
    {s s' : LinkState} (hrun : Runs env (linkFunction func params block) s () s') (hloud : s.quiet = false)
    (hrestore : env.options.branchMoves = .restore) :
    ∃ fs added, BlockFlow (env.trees.block block) fs ∧ Tracked {} fs ∧ s'.history = s.history ++ allEntries fs ∧
      s'.reports = s.reports ++ added ∧ misuses added = (allEntries fs).filterMap Entry.misuse? ∧
      (Regular {} fs → ∀ d ∈ added, d.kind = .useAfterMove → ∃ e p, Justified fs e d.span p) := by
  obtain ⟨fs, hflow, henters, htracked, -⟩ := linkFunction_logs hrun
  obtain ⟨added, hadded, hmisuses⟩ := henters.reports hloud
  rw [hrestore] at htracked
  refine ⟨fs, added, hflow, htracked, henters.history, hadded, hmisuses, fun hregular d hd hkind => ?_⟩
  obtain ⟨e, p, hread⟩ := exists_read_of_misuse hmisuses hd hkind
  have hstart : Backed fs (Misreads fs) {} (fs ++ []) := by
    rw [List.append_nil]
    exact ⟨fun _ _ => ⟨[], .nil fs⟩, nofun⟩
  exact ⟨e, p, hregular.justified htracked rfl [] hstart hread⟩

/-! ### Arms and conditions -/

/-- The steps of `takingSteps`, and two more parameters of `main`: another value that is moved, and a condition. -/
def branchingSteps : List BuildStep := takingSteps ++ [
  .typeExpr (.named ["Res"] []),
  .param ⟨8⟩ "n" ⟨6⟩ false,
  .typeExpr (.named ["bool"] []),
  .param ⟨8⟩ "c" ⟨7⟩ false]

def takes (e : ExprId) (span : Span) (gone : Bool) : List Event :=
  [.read e span { root := ⟨9⟩ } gone, .passing [⟨e, { root := ⟨9⟩ }, gone⟩], .moved { root := ⟨9⟩ } span]

/-- The body `take(a); if c { } else { a = n; } take(a);`. -/
def rewrittenInOneArm : Setup where
  source := .ofSteps (branchingSteps ++ [
    .setSpan ⟨1, 2⟩,
    .expr (.name "a"),
    .callName "take" [] [⟨0⟩],
    .exprStmt ⟨2⟩,
    .setSpan ⟨3, 4⟩,
    .expr (.name "c"),
    .block [],
    .expr (.name "a"),
    .expr (.name "n"),
    .assign ⟨4⟩ ⟨5⟩,
    .block [⟨1⟩],
    .ifChain [(⟨3⟩, ⟨0⟩)] (some ⟨1⟩),
    .setSpan ⟨5, 6⟩,
    .expr (.name "a"),
    .callName "take" [] [⟨6⟩],
    .exprStmt ⟨8⟩,
    .block [⟨0⟩, ⟨2⟩, ⟨3⟩],
    .body ⟨8⟩ ⟨2⟩])

def rewrittenFlow : List Flow :=
  (takes ⟨0⟩ ⟨1, 2⟩ false).map .event ++
    .fork [[.read ⟨3⟩ ⟨3, 4⟩ { root := ⟨11⟩ } false]]
      [[], List.map .event [.read ⟨5⟩ ⟨3, 4⟩ { root := ⟨10⟩ } false, .moved { root := ⟨10⟩ } ⟨3, 4⟩,
        .written { root := ⟨9⟩ }]] true ::
    (takes ⟨6⟩ ⟨5, 6⟩ true).map .event

theorem regular_rewrittenFlow : Regular {} rewrittenFlow := by
  refine Regular.events (by decide) (.fork ?_ ?_ ?_ ?_ ?_)
  · intro arm harm
    simp only [List.mem_cons, List.not_mem_nil, or_false] at harm
    rcases harm with rfl | rfl
    · exact .nil _
    · exact Regular.of_events (by decide)
  · intro i arm _ q hq p _ _
    simpa using hq
  · exact fun _ _ _ => ⟨[], List.mem_cons_self, [], .nil []⟩
  · exact fun _ q hq _ _ _ => ⟨0, [], [], rfl, .nil [], hq⟩
  · exact Regular.of_events (by decide)

theorem misuses_justified_rewrittenInOneArm : ∃ s',
    Runs rewrittenInOneArm.linkEnv (linkFunction ⟨8⟩ [⟨9⟩, ⟨10⟩, ⟨11⟩] ⟨2⟩) rewrittenInOneArm.declared () s' ∧
      ∃ d ∈ s'.reports, d.kind = .useAfterMove ∧ ∃ e p, Justified rewrittenFlow e d.span p := by
  obtain ⟨s', hrun, hentries, hreported⟩ : ∃ s',
      Runs rewrittenInOneArm.linkEnv (linkFunction ⟨8⟩ [⟨9⟩, ⟨10⟩, ⟨11⟩] ⟨2⟩) rewrittenInOneArm.declared () s' ∧
        s'.history = rewrittenInOneArm.declared.history ++ allEntries rewrittenFlow ∧
        ∃ d ∈ s'.reports, d.kind = .useAfterMove :=
    exists_of_run (by decide +kernel)
  obtain ⟨fs, added, -, -, hhistory, hreports, -, hjustified⟩ :=
    linkFunction_misuses_justified hrun (by decide +kernel) (by decide +kernel)
  obtain rfl := allEntries_injective (List.append_cancel_left (hhistory.symm.trans hentries))
  obtain ⟨d, hd, hkind⟩ := hreported
  have hnone : rewrittenInOneArm.declared.reports = [] := by decide +kernel
  have hadded : d ∈ added := by rwa [hreports, hnone] at hd
  exact ⟨s', hrun, d, hd, hkind, hjustified regular_rewrittenFlow d hadded hkind⟩

/-- The body `if c { take(a); } else if take(a) { }`. -/
def laterCondition : Setup where
  source := .ofSteps (branchingSteps ++ [
    .setSpan ⟨1, 2⟩,
    .expr (.name "c"),
    .setSpan ⟨3, 4⟩,
    .expr (.name "a"),
    .callName "take" [] [⟨1⟩],
    .exprStmt ⟨3⟩,
    .block [⟨0⟩],
    .setSpan ⟨5, 6⟩,
    .expr (.name "a"),
    .callName "take" [] [⟨4⟩],
    .block [],
    .ifChain [(⟨0⟩, ⟨0⟩), (⟨6⟩, ⟨1⟩)] none,
    .block [⟨1⟩],
    .body ⟨8⟩ ⟨2⟩])

def laterFlow : List Flow :=
  [.fork [[.read ⟨0⟩ ⟨1, 2⟩ { root := ⟨11⟩ } false], takes ⟨4⟩ ⟨5, 6⟩ false]
    [(takes ⟨1⟩ ⟨3, 4⟩ true).map .event, []] false]

/-- A use is reported in the first arm, to which no path leads on which anything is moved. -/
theorem unjustified_laterCondition : laterCondition.link.history = allEntries laterFlow ∧
    (∃ d ∈ laterCondition.link.reports, d.kind = .useAfterMove ∧ d.span = ⟨3, 4⟩) ∧
      ∀ e p, ¬Justified laterFlow e ⟨3, 4⟩ p := by
  refine ⟨by decide +kernel, by decide +kernel, ?_⟩
  rintro e p ⟨q, es, f, hpath, -, hdangling⟩
  -- the ways past the first condition, into the first arm or on to the second condition
  have hfirst : ¬Path (List.map .event (.read ⟨0⟩ ⟨1, 2⟩ { root := ⟨11⟩ } false :: takes ⟨1⟩ ⟨3, 4⟩ true)) es
      (.event (.read e ⟨3, 4⟩ p true) :: f) := by
    intro hpath
    obtain ⟨span, hsublist⟩ := hdangling.sublist_of_path hpath
    simp [takes, List.sublist_cons_iff] at hsublist
  have hsecond : ¬Path (List.map .event (.read ⟨0⟩ ⟨1, 2⟩ { root := ⟨11⟩ } false :: takes ⟨4⟩ ⟨5, 6⟩ false)) es
      (.event (.read e ⟨3, 4⟩ p true) :: f) := by
    intro hpath
    obtain ⟨span, hsublist⟩ := hdangling.sublist_of_path hpath
    simp [takes, List.sublist_cons_iff] at hsublist
  rw [laterFlow] at hpath
  cases hpath with
  | cons hstep hrest =>
    cases hstep with
    | @arm _ _ _ i _ harm =>
      match i, harm with
      | 0, rfl => exact hfirst hrest
      | 1, rfl => exact hsecond hrest
    | skip => exact hsecond hrest

end Linkage
