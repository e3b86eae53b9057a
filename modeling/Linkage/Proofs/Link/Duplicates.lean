import Linkage.Proofs.Link.Outcome
import Linkage.Proofs.Link.Redeclarations

/-!
# Duplicate functions

A function is set aside as a duplicate if its parameters agree with those of the last survivor of its name, provided
that this is a function too. Survivors before that one do not count, so a function can agree with one of them and
survive. The types of parameters are compared as they come out in the end. They are the types that were compared when
the duplicates were looked for, as long as no name that they mention goes from something else to a function on the
way.
-/

namespace Linkage

def duplicates (reports : List Diagnostic) : List Diagnostic := reports.filter (·.kind = .structuralAmbiguity)

theorem duplicates_append (as bs : List Diagnostic) : duplicates (as ++ bs) = duplicates as ++ duplicates bs :=
  List.filter_append ..

theorem duplicates_eq_nil {ds : List Diagnostic} (h : ∀ d ∈ ds, d.kind ≠ .structuralAmbiguity) : duplicates ds = [] :=
  List.filter_eq_nil_iff.2 fun d hd hkind => h d hd (of_decide_eq_true hkind)

/-- Where the name of a duplicate is mentioned in the annotation of a parameter, the last declaration of this name
is a function. -/
def LinkEnv.EndsInFunction (env : LinkEnv) (ignored : List DeclId) : Prop :=
  ∀ x ∈ env.source.listings, x.id ∈ ignored → ∀ d ∈ env.source.decl? x.id, d.name ∈ env.paramNames →
    ∀ last ∈ (env.source.declared x.space d.name).getLast?, env.source.isFunction last = true

namespace Link

variable {kept : Table DeclId DeclId} {env : LinkEnv} {src : Source} {ref s s' : LinkState} {fixed : Prop} {before : List Listing}
  {ignored : List DeclId}

/-! ### What the other passes leave alone -/

/-- No name was bound and no duplicate found. Where `fixed` holds, nothing that annotations look at has changed. -/
structure Aside (fixed : Prop) (s s' : LinkState) : Prop where
  tables : fixed → s'.signatures.tables = s.signatures.tables
  scopes : s'.scopes = s.scopes
  spaces : s'.spaces = s.spaces
  ignored : s'.ignored = s.ignored
  quiet : s'.quiet = s.quiet
  duplicates : duplicates s'.reports = duplicates s.reports

instance (fixed : Prop) : Sequential (Aside fixed) where
  refl _ := ⟨fun _ => rfl, rfl, rfl, rfl, rfl, rfl⟩
  trans h h' := ⟨fun hfixed => (h'.tables hfixed).trans (h.tables hfixed), h'.scopes.trans h.scopes,
    h'.spaces.trans h.spaces, h'.ignored.trans h.ignored, h'.quiet.trans h.quiet, h'.duplicates.trans h.duplicates⟩

instance (fixed : Prop) : Enclosed (Aside fixed) where
  close _ h := ⟨h.tables, congrArg ScopeStack.pop h.scopes, h.spaces, h.ignored, h.quiet, h.duplicates⟩

theorem aside_of_reports {ds : List Diagnostic} (hds : ∀ d ∈ ds, d.kind ≠ .structuralAmbiguity) :
    duplicates (s.reports ++ ds) = duplicates s.reports := by
  rw [duplicates_append, duplicates_eq_nil hds, List.append_nil]

theorem aside_of_refusals {reports : List Diagnostic} (h : Instances.AddsRefusals s.reports reports) :
    duplicates reports = duplicates s.reports := by
  obtain ⟨added, rfl, hkind⟩ := h
  refine aside_of_reports fun d hd => ?_
  rw [hkind d hd]
  nofun

theorem aside_of_step {usage : TypeUse} (h : TypeStep usage s s') : Aside fixed s s' := by
  cases h with
  | report _ d _ _ _ hsingle =>
    refine ⟨fun _ => rfl, rfl, rfl, rfl, rfl, aside_of_reports fun d' hd' => ?_⟩
    rwa [List.mem_singleton.1 hd']
  | check _ c _ _ hfaithful =>
    refine ⟨fun _ => rfl, rfl, rfl, rfl, rfl, aside_of_reports fun d hd => ?_⟩
    rw [(hfaithful.wording d (Option.mem_toList.1 hd)).1]
    nofun
  | instantiate =>
    exact ⟨fun _ => rfl, rfl, rfl, rfl, rfl, aside_of_refusals (Instances.follows_reports.instantiate s.instances _ _ _ _ _)⟩
  | subscribe =>
    exact ⟨fun _ => rfl, rfl, rfl, rfl, rfl, aside_of_refusals (Instances.follows_reports.subscribe s.instances _ _ _)⟩
  | usage => exact ⟨fun _ => rfl, rfl, rfl, rfl, rfl, rfl⟩

theorem passable_aside : Passable fixed (Aside fixed) where
  linkTypeAt host usage id env s := by
    have hsteps := steps_linkTypeAt host usage id env s
    generalize (linkTypeAt host usage id env s).2 = s' at hsteps
    induction hsteps with
    | refl => exact Sequential.refl s
    | tail _ hstep ih => exact Sequential.trans ih (aside_of_step hstep)
  report span p _ hkind := by
    refine fun _ => .report fun _ _ => ⟨fun _ => rfl, rfl, rfl, rfl, rfl, aside_of_reports fun d hd => ?_⟩
    rwa [List.mem_singleton.1 hd]
  write f h := .modify fun s => ⟨fun hfixed => h hfixed s.signatures, rfl, rfl, rfl, rfl, rfl⟩
  note _ := .modify fun _ => ⟨fun _ => rfl, rfl, rfl, rfl, rfl, rfl⟩

theorem Aside.bound? (h : Aside fixed s s') (space : Option DeclId) (name : String) :
    s'.bound? space name = s.bound? space name := by
  cases space with
  | none => exact congrArg (·.find? name) h.scopes
  | some space => exact congrArg (·.find? space name) h.spaces

/-! ### Judgements -/

/-- The parameters of a function agree with those of the last survivor before it if and only if it was set aside. -/
def Judged (env : LinkEnv) (ref : LinkState) (ignored pre : List DeclId) (g : DeclId) : Prop :=
  g ∈ ignored ↔ env.source.isFunction g = true ∧ ∃ f, (survivors ignored pre).getLast? = some f ∧
    env.source.isFunction f = true ∧ ParamsAgree env ref f g

theorem Judged.congr {ignored' pre : List DeclId} {g : DeclId} (h : Judged env ref ignored pre g)
    (hsame : ∀ e ∈ pre ++ [g], e ∈ ignored' ↔ e ∈ ignored) : Judged env ref ignored' pre g := by
  have hpre : survivors ignored' pre = survivors ignored pre :=
    survivors_congr fun e he => hsame e (List.mem_append_left _ he)
  rw [Judged, hsame g (by simp), hpre]
  exact h

theorem Judged.alike {pre : List DeclId} {g : DeclId} (h : Judged env ref ignored pre g)
    (halike : Alike env.source env.paramNames ref s) : Judged env s ignored pre g := by
  have hagree : ∀ f, ParamsAgree env ref f g ↔ ParamsAgree env s f g :=
    fun f => ⟨halike.paramsAgree, halike.symm.paramsAgree⟩
  simpa only [Judged, hagree] using h

def AllJudged (env : LinkEnv) (ref : LinkState) (ignored : List DeclId) (before : List Listing) : Prop :=
  ∀ space name pre g post, env.source.declaredAmong before space name = pre ++ g :: post →
    Judged env ref ignored pre g

theorem exists_last {α : Type} {p : α → Prop} {l : List α} (h : ∃ a ∈ l, p a) :
    ∃ pre a post, l = pre ++ a :: post ∧ p a ∧ ∀ b ∈ post, ¬p b := by
  induction l with
  | nil => simp at h
  | cons b l ih =>
    by_cases hlater : ∃ a ∈ l, p a
    · obtain ⟨pre, a, post, rfl, ha, hpost⟩ := ih hlater
      exact ⟨b :: pre, a, post, rfl, ha, hpost⟩
    · have hb : p b := by
        obtain ⟨a, ha, hpa⟩ := h
        rcases List.mem_cons.1 ha with rfl | ha
        · exact hpa
        · exact absurd ⟨a, ha, hpa⟩ hlater
      exact ⟨[], b, l, rfl, hb, fun c hc hpc => hlater ⟨c, hc, hpc⟩⟩

/-- A name whose last declaration is a function stays bound to functions. -/
theorem Settling.bound_function (h : Settling env ref before kept s) {space : Option DeclId} {name : String}
    {last : DeclId} (hlast : ref.bound? space name = some last) (hfunction : env.source.isFunction last = true) :
    ∃ d, s.bound? space name = some d ∧ env.source.isFunction d = true := by
  by_cases hsome : ∃ g ∈ env.source.declaredAmong before space name, g ∈ s.ignored
  · obtain ⟨pre, g, post, heq, hg, hpost⟩ := exists_last hsome
    obtain ⟨d, hd⟩ := Option.isSome_iff_exists.1 ((h.keys g).2 hg)
    exact ⟨d, ((h.treated space name).rebound pre g post heq hg hpost).trans hd, (h.functions g d hd).2⟩
  · refine ⟨last, ?_, hfunction⟩
    rw [(h.treated space name).untouched fun g hg hmem => hsome ⟨g, hg, hmem⟩, hlast]

theorem Settling.isDuplicate_iff (h : Settling env ref before kept s) (halike : Alike env.source env.paramNames ref s) {x : Listing}
    {d : Decl} : IsDuplicate env s before kept x d ↔ env.source.isFunction x.id = true ∧
      ∃ f, (survivors s.ignored (env.source.declaredAmong before x.space d.name)).getLast? = some f ∧
        env.source.isFunction f = true ∧ ParamsAgree env ref f x.id := by
  have htreated := h.treated x.space d.name
  constructor
  · rintro ⟨last, hlast, hfirst, hsecond, hagree⟩
    exact ⟨hsecond, _, htreated.last_survivor h.keys hlast, h.isFunction_kept hfirst, halike.symm.paramsAgree hagree⟩
  · rintro ⟨hsecond, f, hf, hfunction, hagree⟩
    obtain ⟨last, hlast⟩ : ∃ last, (env.source.declaredAmong before x.space d.name).getLast? = some last := by
      have hmem : f ∈ env.source.declaredAmong before x.space d.name := (List.mem_filter.1 (List.mem_of_getLast? hf)).1
      rw [← Option.isSome_iff_exists, List.getLast?_isSome]
      exact List.ne_nil_of_mem hmem
    obtain rfl := Option.some.inj ((htreated.last_survivor h.keys hlast).symm.trans hf)
    refine ⟨last, hlast, ?_, hsecond, halike.paramsAgree hagree⟩
    -- a duplicate is a function, and anything else stands for itself
    cases hget : kept.get? last with
    | none => rwa [hget] at hfunction
    | some f => exact (h.functions last f hget).1

theorem Settling.judge (h : Settling env ref before kept s) {x : Listing} (hx : x ∈ env.source.listings)
    (hfresh : env.source.isFunction x.id = true → x.id ∉ before.map (·.id)) {d : Decl} (hd : env.source.decl? x.id = some d)
    (hbound : LastBound env.source env.source.listings ref) {kept' : Table DeclId DeclId}
    (hrun : Runs env ((env.source.redeclaration? before x).toList.foldlM settleRedeclaration kept) s kept' s')
    (hends : env.EndsInFunction s'.ignored)
    (hbefore : env.EndsInFunction s.ignored → Alike env.source env.paramNames ref s ∧ AllJudged env ref s.ignored before) :
    Alike env.source env.paramNames ref s' ∧ AllJudged env ref s'.ignored (before ++ [x]) := by
  have hbinding : env.source.bindingOf x = (x.space, some d.name) := by rw [Source.bindingOf, hd]; rfl
  -- the judgements stay whether or not the declaration is set aside
  have hall : (∀ e ∈ before.map (·.id), e ∈ s'.ignored ↔ e ∈ s.ignored) → AllJudged env ref s.ignored before →
      Judged env ref s'.ignored (env.source.declaredAmong before x.space d.name) x.id →
        AllJudged env ref s'.ignored (before ++ [x]) := by
    intro hsame hjudged hlast space name pre g post heq
    have hold : ∀ post, env.source.declaredAmong before space name = pre ++ g :: post →
        Judged env ref s'.ignored pre g := by
      intro post heq
      refine (hjudged space name pre g post heq).congr fun e he => hsame e ?_
      have hmem : e ∈ env.source.declaredAmong before space name := by
        rw [heq, List.append_cons]
        exact List.mem_append_left _ he
      exact Source.mem_ids_of_declaredAmong hmem
    by_cases hhere : env.source.bindingOf x = (space, some name)
    · rw [Source.declaredAmong_concat_of_eq hhere] at heq
      obtain ⟨rfl, hname⟩ := Prod.mk.inj (hbinding.symm.trans hhere)
      obtain rfl := Option.some.inj hname
      rcases concat_eq_append_cons heq with ⟨-, rfl, rfl⟩ | ⟨post', -, heq'⟩
      · exact hlast
      · exact hold post' heq'
    · rw [Source.declaredAmong_concat_of_ne hhere] at heq
      exact hold post heq
  rcases settle_cases h.loud hd hrun with ⟨last, hlast, hfirst, hsecond, hduplicate, -, hs'⟩ | ⟨hnot, -, rfl⟩
  · have hignored : s'.ignored = s.ignored ++ [x.id] := by
      rw [hs']
      cases x.space <;> rfl
    obtain ⟨halike, hjudged⟩ := hbefore fun y hy hmem => hends y hy (hignored ▸ List.mem_append_left _ hmem)
    have hself : x.id ∈ s'.ignored := by
      rw [hignored]
      simp
    have hsame : ∀ e ∈ before.map (·.id), e ∈ s'.ignored ↔ e ∈ s.ignored := by
      intro e he
      rw [hignored, List.mem_append, List.mem_singleton, or_iff_left]
      rintro rfl
      exact hfresh hsecond he
    refine ⟨halike.trans ?_, hall hsame hjudged ?_⟩
    · -- the name goes from one function to another
      have hdeclared : x.id ∈ env.source.declared x.space d.name :=
        List.mem_map_of_mem (List.mem_filter.2 ⟨hx, by simpa using hbinding⟩)
      obtain ⟨final, hfinal⟩ : ∃ final, (env.source.declared x.space d.name).getLast? = some final := by
        rw [← Option.isSome_iff_exists, List.getLast?_isSome]
        exact List.ne_nil_of_mem hdeclared
      have haside : Alike env.source env.paramNames s (Link.setAside s x.id d) := .of_eq rfl rfl rfl
      rw [hs']
      refine haside.trans (alike_bind (s := Link.setAside s x.id d) h.inner (fun hname => ?_) (h.isFunction_kept hfirst))
      exact h.bound_function ((hbound x.space d.name).trans hfinal) (hends x hx hself d hd hname final hfinal)
    · refine iff_of_true hself ?_
      have hiff := (h.isDuplicate_iff halike).1 hduplicate
      rwa [survivors_congr fun e he => hsame e (Source.mem_ids_of_declaredAmong he)]
  · obtain ⟨halike, hjudged⟩ := hbefore hends
    refine ⟨halike, hall (fun _ _ => Iff.rfl) hjudged (iff_of_false (h.not_mem_ignored hfresh) fun hduplicate => hnot ?_)⟩
    exact (h.isDuplicate_iff halike).2 hduplicate

/-! ### The whole of declaring -/

theorem exists_settling (hrun : Runs env declareAll {} () s) (honce : env.source.FunctionsOnce env.source.listings) :
    ∃ ref kept t, LastBound env.source env.source.listings ref ∧ duplicates ref.reports = [] ∧
      Settling env ref env.source.listings kept t ∧ Aside True t s ∧
        (env.EndsInFunction t.ignored →
          Alike env.source env.paramNames ref t ∧ AllJudged env ref t.ignored env.source.listings) := by
  simp only [declareAll, declareTypes_eq, runs_bind, runs_source, runs_pure] at hrun
  obtain ⟨_, _, ⟨_, _, ⟨rfl, rfl⟩, found, s₁, hnames, _, ref, hpasses, kept, t, hsettle, -, rfl⟩, hsignatures⟩ := hrun
  rw [declareItems_eq] at hnames
  have hdecls := declared_of_declareNames hnames
  have hempty : LastBound env.source [] {} := fun space name => by cases space <;> rfl
  obtain ⟨rfl, hinner, hbound, heq⟩ := declareNames_redeclares rfl hempty hnames
  have hpassed : Aside False s₁ ref := (passable_aside.linkTypePasses not_false _).of_runs hpasses
  have hbound' : LastBound env.source env.source.listings ref :=
    fun space name => (hpassed.bound? space name).trans (hbound space name)
  have hignored : ref.ignored = [] := by rw [hpassed.ignored, heq]
  have hstart : Settling env ref [] {} ref := by
    refine ⟨?_, ?_, ?_, ?_, ?_, ?_, fun g f hget => (by cases hget), fun space name => ⟨?_, fun _ => rfl, ?_⟩⟩
    · rw [hpassed.scopes]
      exact hinner
    · rw [hpassed.quiet, heq]
    · rw [hignored, List.filterMap_nil, List.append_nil]
    · rw [hignored]
      simp
    · rw [hignored]
      exact List.nodup_nil
    · rw [hignored]
      exact fun g => by simp [Table.get?]
    · exact fun pre g post hsplit => by simp [Source.declaredAmong] at hsplit
    · exact fun pre g post hsplit => by simp [Source.declaredAmong] at hsplit
  obtain ⟨hend, hjudged⟩ := hstart.foldlM
    (P := fun before s => env.EndsInFunction s.ignored →
      Alike env.source env.paramNames ref s ∧ AllJudged env ref s.ignored before)
    (fun _ => ⟨.refl ref, fun space name pre g post hsplit => by simp [Source.declaredAmong] at hsplit⟩) honce hdecls
    (fun before x d kept s kept' s' hx hs hfresh hd hstep hbefore hends =>
      hs.judge hx hfresh hd hbound' hstep hends hbefore) hsettle
  refine ⟨ref, kept, t, hbound', ?_, hend, passable_aside.linkSignatures.of_runs hsignatures, hjudged⟩
  rw [hpassed.duplicates, heq]
  rfl

/-! ### Which declaration a name is left with -/

/-- A name is bound to the last survivor of all if and only if none follows the last duplicate. -/
theorem Settling.bound_eq_iff (h : Settling env ref env.source.listings kept s)
    (hbound : LastBound env.source env.source.listings ref) (honce : env.source.FunctionsOnce env.source.listings)
    (space : Option DeclId) (name : String) :
    s.bound? space name = (survivors s.ignored (env.source.declared space name)).getLast? ↔
      ((∃ g ∈ env.source.declared space name, g ∈ s.ignored) →
        ∀ last ∈ (env.source.declared space name).getLast?, last ∈ s.ignored) := by
  have htreated := h.treated space name
  by_cases hsome : ∃ g ∈ env.source.declared space name, g ∈ s.ignored
  · obtain ⟨pre, g, post, heq, hg, hpost⟩ := exists_last hsome
    rw [htreated.rebound pre g post heq hg hpost]
    rcases List.eq_nil_or_concat' post with rfl | ⟨post', last, rfl⟩
    · rw [htreated.inPlace pre g [] heq hg, heq, survivors_concat_of_mem hg, List.getLast?_concat]
      refine iff_of_true rfl fun _ last hlast => ?_
      rwa [← Option.some.inj hlast]
    · have hlast : last ∉ s.ignored := hpost last (by simp)
      have hconcat : env.source.declared space name = (pre ++ g :: post') ++ [last] := by
        rw [heq, List.append_assoc]
        rfl
      rw [hconcat, survivors_concat_of_not_mem hlast, List.getLast?_concat, List.getLast?_concat]
      refine iff_of_false (fun hkept => ?_) fun hall => hlast (hall ⟨g, by simp, hg⟩ last rfl)
      -- what is kept in place of the duplicate comes before it
      have hmem : last ∈ survivors s.ignored pre :=
        List.mem_of_getLast? ((htreated.inPlace pre g _ heq hg).symm.trans hkept)
      exact honce.not_mem_later heq (h.functions g last hkept).2 (List.mem_filter.1 hmem).1 (by simp)
  · have hnone : ∀ g ∈ env.source.declared space name, g ∉ s.ignored := fun g hg hmem => hsome ⟨g, hg, hmem⟩
    refine iff_of_true ?_ fun hignored => absurd hignored hsome
    rw [htreated.untouched hnone, hbound, survivors, List.filter_eq_self.2 fun g hg => by simpa using hnone g hg]
    rfl

/-! ### Which functions are duplicates -/

/-- Between a survivor and a function whose parameters agree there are only duplicates. -/
def Unbroken (env : LinkEnv) (s : LinkState) (ds : List DeclId) : Prop :=
  ∀ f ∈ ds, ∀ e ∈ ds, ∀ g ∈ ds, [f, e, g].Sublist ds → f ∉ s.ignored → env.source.isFunction f = true →
    env.source.isFunction g = true → ParamsAgree env s f g → e ∈ s.ignored

theorem Judged.iff_of_unbroken {ds pre post : List DeclId} {g : DeclId} (h : Judged env s s.ignored pre g)
    (hunbroken : Unbroken env s ds) (heq : ds = pre ++ g :: post) :
    g ∈ s.ignored ↔ env.source.isFunction g = true ∧ ∃ f ∈ pre, f ∉ s.ignored ∧ env.source.isFunction f = true ∧
      ParamsAgree env s f g := by
  refine h.trans (and_congr_right fun hg => ⟨?_, ?_⟩)
  · rintro ⟨f, hlast, hf, hagree⟩
    obtain ⟨hmem, hnot⟩ := List.mem_filter.1 (List.mem_of_getLast? hlast)
    exact ⟨f, hmem, by simpa using hnot, hf, hagree⟩
  · rintro ⟨f, hmem, hnot, hf, hagree⟩
    have hsurvivor : f ∈ survivors s.ignored pre := List.mem_filter.2 ⟨hmem, by simpa using hnot⟩
    obtain ⟨before, e, hpre⟩ := (List.eq_nil_or_concat' _).resolve_left (List.ne_nil_of_mem hsurvivor)
    rw [hpre, List.getLast?_concat]
    rcases List.mem_append.1 (hpre ▸ hsurvivor) with hbefore | hhere
    · -- a survivor after `f` would stand between `f` and `g`
      have hpair : [f, e].Sublist pre := by
        have hsub : (survivors s.ignored pre).Sublist pre := List.filter_sublist
        refine List.Sublist.trans ?_ hsub
        rw [hpre]
        exact (List.singleton_sublist.2 hbefore).append (List.Sublist.refl [e])
      have htriple : [f, e, g].Sublist ds := by
        rw [heq]
        exact hpair.append (List.singleton_sublist.2 List.mem_cons_self)
      have he : e ∈ survivors s.ignored pre := by simp [hpre]
      refine absurd (hunbroken f ?_ e ?_ g ?_ htriple hnot hf hg hagree) (by simpa using (List.mem_filter.1 he).2)
      · exact htriple.subset (by simp)
      · exact htriple.subset (by simp)
      · exact htriple.subset (by simp)
    · obtain rfl := List.mem_singleton.1 hhere
      exact ⟨f, rfl, hf, hagree⟩

section Decidable

instance (src : Source) (listings : List Listing) : Decidable (src.FunctionsOnce listings) :=
  inferInstanceAs (Decidable (List.Nodup _))

instance (env : LinkEnv) (ignored : List DeclId) : Decidable (env.EndsInFunction ignored) :=
  inferInstanceAs (Decidable (∀ x ∈ env.source.listings, x.id ∈ ignored → ∀ d ∈ env.source.decl? x.id,
    d.name ∈ env.paramNames → ∀ last ∈ (env.source.declared x.space d.name).getLast?,
      env.source.isFunction last = true))

instance (env : LinkEnv) (s : LinkState) (ds : List DeclId) : Decidable (Unbroken env s ds) :=
  inferInstanceAs (Decidable (∀ f ∈ ds, ∀ e ∈ ds, ∀ g ∈ ds, [f, e, g].Sublist ds → f ∉ s.ignored →
    env.source.isFunction f = true → env.source.isFunction g = true → ParamsAgree env s f g → e ∈ s.ignored))

end Decidable

end Link

open Link

variable {env : LinkEnv} {s : LinkState}

/-- After declaring, every name is bound in its frame to the last survivor before the last of its duplicates, and
to its last declaration if it has none. This is the last survivor of all if and only if a name that has duplicates
ends in one. -/
theorem declareAll_bindings (hrun : Runs env declareAll {} () s)
    (honce : env.source.FunctionsOnce env.source.listings) (space : Option DeclId) (name : String) :
    s.scopes.inner = [] ∧
    (∀ pre g post, env.source.declared space name = pre ++ g :: post → g ∈ s.ignored → (∀ e ∈ post, e ∉ s.ignored) →
      s.bound? space name = (survivors s.ignored pre).getLast?) ∧
    ((∀ g ∈ env.source.declared space name, g ∉ s.ignored) →
      s.bound? space name = (env.source.declared space name).getLast?) ∧
    (s.bound? space name = (survivors s.ignored (env.source.declared space name)).getLast? ↔
      ((∃ g ∈ env.source.declared space name, g ∈ s.ignored) →
        ∀ last ∈ (env.source.declared space name).getLast?, last ∈ s.ignored)) := by
  obtain ⟨ref, kept, t, hbound, -, hsettled, haside, -⟩ := exists_settling hrun honce
  have htreated := hsettled.treated space name
  rw [haside.ignored, haside.bound?, haside.scopes]
  refine ⟨hsettled.inner, fun pre g post heq hg hpost => ?_, fun hnone => ?_, ?_⟩
  · rw [htreated.rebound pre g post heq hg hpost, htreated.inPlace pre g post heq hg]
  · rw [htreated.untouched hnone]
    exact hbound space name
  · exact hsettled.bound_eq_iff hbound honce space name

/-- `fn f(x: int)`, twice, and `fn f(x: str)`, twice. -/
def twoPairs : Source := .ofSteps [
  .function "f",
  .typeExpr (.named ["int"] []),
  .param ⟨0⟩ "x" ⟨0⟩ false,
  .function "f",
  .typeExpr (.named ["int"] []),
  .param ⟨2⟩ "x" ⟨1⟩ false,
  .function "f",
  .typeExpr (.named ["str"] []),
  .param ⟨4⟩ "x" ⟨2⟩ false,
  .function "f",
  .typeExpr (.named ["str"] []),
  .param ⟨6⟩ "x" ⟨3⟩ false]

theorem declared_twoPairs : twoPairs.declared none "f" = [⟨0⟩, ⟨2⟩, ⟨4⟩, ⟨6⟩] := by decide +kernel

theorem bindings_twoPairs : ∃ s, Runs (Setup.linkEnv { source := twoPairs }) declareAll {} () s ∧
    twoPairs.FunctionsOnce twoPairs.listings ∧ s.ignored = [⟨2⟩, ⟨6⟩] ∧ s.bound? none "f" = some ⟨4⟩ := by
  obtain ⟨s, hrun, hignored⟩ : ∃ s, Runs (Setup.linkEnv { source := twoPairs }) declareAll {} () s ∧
    s.ignored = [⟨2⟩, ⟨6⟩] := exists_of_run (by decide +kernel)
  have honce : twoPairs.FunctionsOnce twoPairs.listings := by decide +kernel
  obtain ⟨-, -, -, hiff⟩ := declareAll_bindings hrun honce none "f"
  have hdeclared : (Setup.linkEnv { source := twoPairs }).source.declared none "f" = _ := declared_twoPairs
  rw [hdeclared, hignored] at hiff
  exact ⟨s, hrun, honce, hignored, hiff.2 (by decide)⟩

/-- `fn f(x: int)`, twice, and then `fn f(x: str)`. -/
def overtaken : Source := .ofSteps [
  .function "f",
  .typeExpr (.named ["int"] []),
  .param ⟨0⟩ "x" ⟨0⟩ false,
  .function "f",
  .typeExpr (.named ["int"] []),
  .param ⟨2⟩ "x" ⟨1⟩ false,
  .function "f",
  .typeExpr (.named ["str"] []),
  .param ⟨4⟩ "x" ⟨2⟩ false]

/-- A namespace with `fn f(x: int)` and `fn f()`, of which the latter is listed twice. -/
def listedTwice : Source := .ofSteps [
  .space "N",
  .function "f",
  .typeExpr (.named ["int"] []),
  .param ⟨1⟩ "x" ⟨0⟩ false,
  .function "f",
  .nest ⟨0⟩ ⟨1⟩,
  .nest ⟨0⟩ ⟨3⟩,
  .nest ⟨0⟩ ⟨3⟩]

/-- An earlier survivor hides the last one, and so does a function that is listed twice although it does not
survive. -/
theorem bindings_displaced :
    (∃ s, Runs (Setup.linkEnv { source := overtaken }) declareAll {} () s ∧ s.bound? none "f" = some ⟨0⟩ ∧
      (survivors s.ignored (overtaken.declared none "f")).getLast? = some ⟨4⟩) ∧
    ∃ s, Runs (Setup.linkEnv { source := listedTwice }) declareAll {} () s ∧ s.bound? (some ⟨0⟩) "f" = some ⟨3⟩ ∧
      (survivors s.ignored (listedTwice.declared (some ⟨0⟩) "f")).getLast? = some ⟨1⟩ :=
  ⟨exists_of_run (by decide +kernel), exists_of_run (by decide +kernel)⟩

/-- After declaring, the duplicates are functions that were set aside, each with one report. A function is one of
them if and only if its parameters agree with those of the last survivor of its name before it. So it is one if
and only if they agree with those of any survivor before it, provided that only duplicates stand between. -/
theorem declareAll_duplicates (hrun : Runs env declareAll {} () s)
    (honce : env.source.FunctionsOnce env.source.listings) :
    s.ignored.Nodup ∧
    duplicates s.reports = s.ignored.filterMap (fun g => (env.source.decl? g).map duplicateReport) ∧
    (∀ g ∈ s.ignored, ∃ space name, g ∈ env.source.declared space name) ∧
    (env.EndsInFunction s.ignored → ∀ space name,
      (∀ pre g post, env.source.declared space name = pre ++ g :: post →
        (g ∈ s.ignored ↔ env.source.isFunction g = true ∧ ∃ f, (survivors s.ignored pre).getLast? = some f ∧
          env.source.isFunction f = true ∧ ParamsAgree env s f g)) ∧
      (Unbroken env s (env.source.declared space name) →
        ∀ pre g post, env.source.declared space name = pre ++ g :: post →
          (g ∈ s.ignored ↔ env.source.isFunction g = true ∧ ∃ f ∈ pre, f ∉ s.ignored ∧
            env.source.isFunction f = true ∧ ParamsAgree env s f g) ∧
          ∀ f ∈ pre, f ∉ s.ignored → g ∉ s.ignored → env.source.isFunction f = true →
            env.source.isFunction g = true → ¬ParamsAgree env s f g)) := by
  obtain ⟨ref, kept, t, hbound, hsilent, hsettled, haside, hjudge⟩ := exists_settling hrun honce
  have hignored := haside.ignored
  refine ⟨hignored ▸ hsettled.nodup, ?_, fun g hg => ?_, fun hends space name => ?_⟩
  · rw [haside.duplicates, hsettled.reports, duplicates_append, hsilent, List.nil_append, hignored]
    refine List.filter_eq_self.2 fun d hd => ?_
    obtain ⟨g, -, hg⟩ := List.mem_filterMap.1 hd
    obtain ⟨decl, -, rfl⟩ := Option.map_eq_some_iff.1 hg
    rfl
  · rw [hignored] at hg
    obtain ⟨x, hx, rfl⟩ := List.mem_map.1 (hsettled.listed g hg)
    obtain ⟨d, hd, -⟩ := Source.isFunction_iff.1 (hsettled.isFunction_ignored hg)
    refine ⟨x.space, d.name, List.mem_map_of_mem (List.mem_filter.2 ⟨hx, ?_⟩)⟩
    simp [Source.bindingOf, hd]
  · obtain ⟨halike, hjudged⟩ := hjudge (hignored ▸ hends)
    have halike' : Alike env.source env.paramNames ref s :=
      halike.trans (.of_eq (haside.tables trivial) haside.scopes haside.spaces)
    have hexact : ∀ pre g post, env.source.declared space name = pre ++ g :: post →
        Judged env s s.ignored pre g := by
      intro pre g post heq
      rw [hignored]
      exact (hjudged space name pre g post heq).alike halike'
    refine ⟨hexact, fun hunbroken pre g post heq => ?_⟩
    have hiff := (hexact pre g post heq).iff_of_unbroken hunbroken heq
    refine ⟨hiff, fun f hmem hf hg hfunction hfunction' hagree => ?_⟩
    exact hg (hiff.2 ⟨hfunction', f, hmem, hf, hfunction, hagree⟩)

theorem duplicates_twoPairs : ∃ s, Runs (Setup.linkEnv { source := twoPairs }) declareAll {} () s ∧
    twoPairs.FunctionsOnce twoPairs.listings ∧ (Setup.linkEnv { source := twoPairs }).EndsInFunction s.ignored ∧
    Unbroken (Setup.linkEnv { source := twoPairs }) s (twoPairs.declared none "f") ∧ s.ignored = [⟨2⟩, ⟨6⟩] ∧
    (duplicates s.reports).length = 2 ∧ ¬ParamsAgree (Setup.linkEnv { source := twoPairs }) s ⟨0⟩ ⟨4⟩ ∧
    ∃ f ∈ [⟨0⟩, ⟨2⟩, ⟨4⟩], f ∉ s.ignored ∧ ParamsAgree (Setup.linkEnv { source := twoPairs }) s f ⟨6⟩ := by
  obtain ⟨s, hrun, hignored, hends, hunbroken⟩ : ∃ s, Runs (Setup.linkEnv { source := twoPairs }) declareAll {} () s ∧
    s.ignored = [⟨2⟩, ⟨6⟩] ∧ (Setup.linkEnv { source := twoPairs }).EndsInFunction s.ignored ∧
      Unbroken (Setup.linkEnv { source := twoPairs }) s (twoPairs.declared none "f") := exists_of_run (by decide +kernel)
  have honce : twoPairs.FunctionsOnce twoPairs.listings := by decide +kernel
  obtain ⟨-, hreports, -, hall⟩ := declareAll_duplicates hrun honce
  obtain ⟨-, hclaim⟩ := hall hends none "f"
  obtain ⟨hlast, -⟩ := hclaim hunbroken [⟨0⟩, ⟨2⟩, ⟨4⟩] ⟨6⟩ [] declared_twoPairs
  obtain ⟨-, hapart⟩ := hclaim hunbroken [⟨0⟩, ⟨2⟩] ⟨4⟩ [⟨6⟩] declared_twoPairs
  rw [hignored] at hlast hapart
  obtain ⟨-, f, hf, hsurvives, -, hagree⟩ := hlast.1 (by decide)
  refine ⟨s, hrun, honce, hends, hunbroken, hignored, ?_, ?_, f, hf, ?_, hagree⟩
  · rw [hreports, hignored]
    decide +kernel
  · exact hapart ⟨0⟩ (by decide) (by decide) (by decide) (by decide +kernel) (by decide +kernel)
  · rwa [hignored]

/-- `fn f(x: int)`, `fn f(x: str)` and `fn f(x: int)`. -/
def interleaved : Source := .ofSteps [
  .function "f",
  .typeExpr (.named ["int"] []),
  .param ⟨0⟩ "x" ⟨0⟩ false,
  .function "f",
  .typeExpr (.named ["str"] []),
  .param ⟨2⟩ "x" ⟨1⟩ false,
  .function "f",
  .typeExpr (.named ["int"] []),
  .param ⟨4⟩ "x" ⟨2⟩ false]

/-- `fn f()`, `struct f` and `fn f()`. -/
def interrupted : Source := .ofSteps [
  .function "f",
  .struct "f" .copy,
  .function "f"]

/-- `fn g(x: f)` and `fn g(x: A)`, where `A` stands for the struct `f`, and two functions `f` before the struct. -/
def reinterpreted : Source := .ofSteps [
  .function "g",
  .typeExpr (.named ["f"] []),
  .param ⟨0⟩ "x" ⟨0⟩ false,
  .function "g",
  .typeExpr (.named ["A"] []),
  .param ⟨2⟩ "x" ⟨1⟩ false,
  .function "f",
  .function "f",
  .struct "f" .copy,
  .typeExpr (.named ["f"] []),
  .typeAlias "A" ⟨2⟩]

/-- Another declaration in between hides a duplicate, a function that is listed twice is a duplicate of itself, and
a function may be set aside for the sake of another although their types differ in the end. -/
theorem duplicates_misjudged :
    (∃ s, Runs (Setup.linkEnv { source := interleaved }) declareAll {} () s ∧
      interleaved.declared none "f" = [⟨0⟩, ⟨2⟩, ⟨4⟩] ∧ s.ignored = [] ∧
        ParamsAgree (Setup.linkEnv { source := interleaved }) s ⟨0⟩ ⟨4⟩) ∧
    (∃ s, Runs (Setup.linkEnv { source := interrupted }) declareAll {} () s ∧
      interrupted.declared none "f" = [⟨0⟩, ⟨1⟩, ⟨2⟩] ∧ s.ignored = [] ∧
        ParamsAgree (Setup.linkEnv { source := interrupted }) s ⟨0⟩ ⟨2⟩) ∧
    (∃ s, Runs (Setup.linkEnv { source := listedTwice }) declareAll {} () s ∧
      listedTwice.declared (some ⟨0⟩) "f" = [⟨1⟩, ⟨3⟩, ⟨3⟩] ∧ s.ignored = [⟨3⟩] ∧
        ¬ParamsAgree (Setup.linkEnv { source := listedTwice }) s ⟨1⟩ ⟨3⟩) ∧
    ∃ s, Runs (Setup.linkEnv { source := reinterpreted }) declareAll {} () s ∧
      reinterpreted.declared none "g" = [⟨0⟩, ⟨2⟩] ∧ ⟨2⟩ ∈ s.ignored ∧
        ¬ParamsAgree (Setup.linkEnv { source := reinterpreted }) s ⟨0⟩ ⟨2⟩ :=
  ⟨exists_of_run (by decide +kernel), exists_of_run (by decide +kernel), exists_of_run (by decide +kernel),
    exists_of_run (by decide +kernel)⟩

end Linkage
