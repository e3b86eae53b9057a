import Linkage.Proofs.Link.Bindings
import Linkage.Proofs.Link.Outcome
import Linkage.Proofs.Link.Stages

/-!
# Declarations in any order

Two source units that differ only in the order of their items are linked side by side. After each pass the two states
know the same and have made the same reports, in some order, if what a pass does at one declaration does not depend on
what it did at others. Reports on limits of instantiation are left out of the comparison: which instance is the one
too many depends on which came first.
-/

namespace Linkage

variable {e : DeclId → View} {items : List DeclId} {src : Source}

def Setup.withItems (setup : Setup) (items : List DeclId) : Setup :=
  { setup with source := setup.source.withItems items }

namespace Link

variable {env : LinkEnv} {σ : Lookup} {stage : Stage} {act : DeclId → LinkM Unit} {l l' : List DeclId}
  {s s' t : LinkState}

/-! ### One pass -/

def learnt (e : DeclId → View) (l : List DeclId) : View := l.foldr (fun o v => v.onTop (e o)) .nothing

/-- What was learnt at different declarations can be told apart. -/
theorem onTop_comm (hbuilt : env.source.WellBuilt) {o o' : DeclId}
    (ho : Allowed env.source stage (env.source.Concerns o) (e o))
    (ho' : Allowed env.source stage (env.source.Concerns o') (e o')) : (e o).onTop (e o') = (e o').onTop (e o) := by
  by_cases heq : o = o'
  · rw [heq]
  · funext k
    show (e o k).or (e o' k) = (e o' k).or (e o k)
    cases hc : e o k with
    | none => rw [Option.none_or, Option.or_none]
    | some c =>
      cases hc' : e o' k with
      | none => rfl
      | some c' => exact absurd (hbuilt.eq_of_concerns (ho k c hc).2.1 (ho' k c' hc').2.1) heq

theorem learnt_perm (hbuilt : env.source.WellBuilt)
    (he : ∀ o ∈ l, Allowed env.source stage (env.source.Concerns o) (e o)) (hperm : l.Perm l') :
    learnt e l = learnt e l' := by
  refine hperm.foldr_eq' (fun x hx y hy v => ?_) View.nothing
  calc (v.onTop (e x)).onTop (e y) = v.onTop ((e x).onTop (e y)) := View.onTop_assoc ..
    _ = v.onTop ((e y).onTop (e x)) := by rw [onTop_comm hbuilt (he x hx) (he y hy)]
    _ = (v.onTop (e y)).onTop (e x) := (View.onTop_assoc ..).symm

/-- If a pass comes to its end, then at every declaration it comes to the same in all states. -/
theorem acts_of_forM (hsteady : ∀ o, Steady env stage σ (env.source.Concerns o) (act o))
    (hs : During env.source stage σ s) (h : Runs (env.withItems items) (l.forM act) s () s') :
    ∀ o ∈ l, ∃ e ds, Allowed env.source stage (env.source.Concerns o) e ∧ Acts env stage σ (act o) () e ds := by
  induction l generalizing s with
  | nil => exact nofun
  | cons o l ih =>
    obtain ⟨_, s₁, hfirst, hrest⟩ := runs_bind.1 h
    obtain ⟨e, ds, hallowed, hacts⟩ := hsteady o items s () s₁ hs hfirst
    intro o' ho'
    rcases List.mem_cons.1 ho' with rfl | ho'
    · exact ⟨e, ds, hallowed, hacts⟩
    · exact ih (hs.learns hallowed (hacts.learns hs hfirst)) hrest o' ho'

theorem exists_forM {ds : DeclId → List Diagnostic}
    (hallowed : ∀ o ∈ l, Allowed env.source stage (env.source.Concerns o) (e o))
    (hacts : ∀ o ∈ l, Acts env stage σ (act o) () (e o) (ds o)) (items : List DeclId)
    (hs : During env.source stage σ s) :
    ∃ s', Runs (env.withItems items) (l.forM act) s () s' ∧ During env.source stage σ s' ∧
      Learns (learnt e l) (l.flatMap ds) s s' := by
  induction l generalizing s with
  | nil => exact ⟨s, runs_pure.2 ⟨rfl, rfl⟩, hs, .refl s⟩
  | cons o l ih =>
    obtain ⟨ho, hl⟩ := List.forall_mem_cons.1 hallowed
    obtain ⟨s₁, hrun, hlearns⟩ := hacts o List.mem_cons_self items s hs
    obtain ⟨s', hrest, hs', hlearns'⟩ := ih hl (fun o' ho' => hacts o' (List.mem_cons_of_mem _ ho'))
      (hs.learns ho hlearns)
    refine ⟨s', runs_bind.2 ⟨(), s₁, hrun, hrest⟩, hs', ?_⟩
    rw [List.flatMap_cons]
    exact hlearns.trans hlearns'

/-! ### Side by side -/

/-- Two states that know the same and have made the same reports, up to their order. -/
structure Twins (src : Source) (σ : Lookup) (s t : LinkState) : Prop where
  left : During src (.still s.signatures.view) σ s
  right : During src (.still s.signatures.view) σ t
  reports : (essential t.reports).Perm (essential s.reports)

theorem twins_of_learns {e : View} {ds ds' : List Diagnostic} {s' t' : LinkState}
    (h : Twins src σ s t) (hs' : During src stage σ s') (ht' : During src stage σ t') (hs : Learns e ds s s')
    (ht : Learns e ds' t t') (hperm : ds'.Perm ds) : Twins src σ s' t' := by
  have hview : t'.signatures.view = s'.signatures.view := by rw [ht.view, hs.view, h.right.view_eq]
  obtain ⟨added, hadded, rfl⟩ := hs.reports
  obtain ⟨added', hadded', rfl⟩ := ht.reports
  refine ⟨hs'.begin rfl, ht'.begin hview, ?_⟩
  rw [hadded, hadded', essential_append, essential_append]
  exact h.reports.append hperm

theorem Twins.forM (hbuilt : env.source.WellBuilt) {pass : Pass}
    (hsteady : ∀ known o, Steady env (pass.stage known) σ (env.source.Concerns o) (pass.act o))
    (h : Twins env.source σ s t) (hperm : l'.Perm l) {items' : List DeclId}
    (hrun : Runs (env.withItems items) (l.forM pass.act) s () s') :
    ∃ t', Runs (env.withItems items') (l'.forM pass.act) t () t' ∧ Twins env.source σ s' t' := by
  have hs : During env.source (pass.stage s.signatures.view) σ s := h.left.begin rfl
  have ht : During env.source (pass.stage s.signatures.view) σ t := h.right.begin h.right.view_eq
  -- what comes of a declaration is the same wherever its turn is, so it can be named before the two runs are compared
  have hall : ∀ o, ∃ e ds, o ∈ l → Allowed env.source (pass.stage s.signatures.view) (env.source.Concerns o) e ∧
      Acts env (pass.stage s.signatures.view) σ (pass.act o) () e ds := by
    intro o
    by_cases ho : o ∈ l
    · obtain ⟨e, ds, hboth⟩ := acts_of_forM (hsteady _) hs hrun o ho
      exact ⟨e, ds, fun _ => hboth⟩
    · exact ⟨.nothing, [], fun ho' => absurd ho' ho⟩
  choose e ds hacts using hall
  obtain ⟨s₁, hrun₁, hs₁, hlearns⟩ := exists_forM (fun o ho => (hacts o ho).1) (fun o ho => (hacts o ho).2) items hs
  obtain ⟨-, rfl⟩ := hrun₁.unique hrun
  have hmem : ∀ o ∈ l', o ∈ l := fun o => hperm.mem_iff.1
  obtain ⟨t', hrun', ht', hlearns'⟩ := exists_forM (fun o ho => (hacts o (hmem o ho)).1)
    (fun o ho => (hacts o (hmem o ho)).2) items' ht
  rw [learnt_perm hbuilt (fun o ho => (hacts o (hmem o ho)).1) hperm] at hlearns'
  exact ⟨t', hrun', twins_of_learns h hs₁ ht' hlearns hlearns' (hperm.flatMap_right ds)⟩

/-! ### All passes -/

theorem Twins.passes (hbuilt : env.source.WellBuilt)
    (hsteady : ∀ pass known o, Steady env (Pass.stage pass known) σ (env.source.Concerns o) (pass.act o))
    (hperm : l'.Perm l) {items items' : List DeclId} {passes : List Pass} (h : Twins env.source σ s t)
    (hrun : Runs (env.withItems items) (passes.forM fun pass => l.forM pass.act) s () s') :
    ∃ t', Runs (env.withItems items') (passes.forM fun pass => l'.forM pass.act) t () t' ∧
      Twins env.source σ s' t' := by
  induction passes generalizing s t with
  | nil =>
    obtain ⟨-, rfl⟩ := runs_pure.1 hrun
    exact ⟨t, runs_pure.2 ⟨rfl, rfl⟩, h⟩
  | cons pass passes ih =>
    obtain ⟨_, s₁, hfirst, hrest⟩ := runs_bind.1 hrun
    obtain ⟨t₁, hfirst', h₁⟩ := h.forM hbuilt (hsteady pass) hperm hfirst
    obtain ⟨t', hrest', h'⟩ := ih h₁ hrest
    exact ⟨t', runs_bind.2 ⟨(), t₁, hfirst', hrest'⟩, h'⟩

def allPasses : List Pass := [.generics, .params, .aliases, .relations, .signatures]

/-- Unless something is redeclared, binding names is followed by the passes and nothing else. -/
theorem runs_declareAll {s₁ : LinkState}
    (hnames : Runs env (declareItems none env.source.itemTrees) s [] s₁) :
    Runs env declareAll s () s' ↔ Runs env (allPasses.forM fun pass =>
      env.source.owners.forM pass.act) s₁ () s' := by
  have hpasses : (allPasses.forM fun pass => env.source.owners.forM pass.act) =
      (do
        env.source.owners.forM recordGenerics
        env.source.owners.forM fun decl => inNamespaces decl (linkGenericParams decl)
        env.source.owners.forM fun decl => inNamespaces decl (linkAlias decl)
        env.source.owners.forM fun decl => inNamespaces decl (linkTypeFacts decl)
        env.source.owners.forM (Pass.act .signatures)
        pure ()) := rfl
  rw [hpasses]
  simp only [declareAll, declareTypes, linkSignatures, runs_bind, runs_source, runs_pure]
  constructor
  · rintro ⟨_, _, ⟨_, _, ⟨rfl, rfl⟩, found, _, hdeclare, _, _, hgenerics, _, _, hparams, _, _, haliases, _, _, hfacts,
      _, _, hsettle, -, rfl⟩, _, _, ⟨rfl, rfl⟩, hsignatures⟩
    obtain ⟨rfl, rfl⟩ := hnames.unique hdeclare
    -- with no redeclarations there is nothing to settle
    obtain ⟨-, rfl⟩ := runs_pure.1 hsettle
    exact ⟨_, _, hgenerics, _, _, hparams, _, _, haliases, _, _, hfacts, _, _, hsignatures, trivial, rfl⟩
  · rintro ⟨_, _, hgenerics, _, _, hparams, _, _, haliases, _, _, hfacts, _, _, hsignatures, -, rfl⟩
    exact ⟨(), _, ⟨_, _, ⟨rfl, rfl⟩, [], _, hnames, _, _, hgenerics, _, _, hparams, _, _, haliases, _, _, hfacts,
      _, _, runs_pure.2 ⟨rfl, rfl⟩, trivial, rfl⟩, _, _, ⟨rfl, rfl⟩, hsignatures⟩

/-! ### The beginning -/

theorem bound?_empty (space : Option DeclId) (name : String) : ({} : LinkState).bound? space name = none := by
  cases space <;> rfl

theorem Bound.during {listings : List Listing} (h : Bound src listings {} s) (hσ : s.lookup = σ) :
    During src (.still .nothing) σ s ∧ s.reports = [] := by
  have hview : s.signatures.view = View.nothing := by
    rw [h.eq]
    funext k
    cases k <;> rfl
  refine ⟨⟨hσ, by rw [h.eq], by rw [h.eq], fun k _ => by rw [hview]; rfl, fun k c hc => ?_⟩, by rw [h.eq]⟩
  rw [hview] at hc
  exact nomatch hc

theorem owners_perm (hperm : items.Perm src.items) : (src.withItems items).owners.Perm src.owners := by
  rw [Source.owners, Source.owners, Item.ownersAll_withItems, Source.itemTrees_withItems, Item.ownersAll_eq_flatMap,
    Item.ownersAll_eq_flatMap]
  exact (hperm.map _).flatMap_right _

theorem exists_twins (hperm : items.Perm env.source.items) (hnames : env.source.NamesDistinct)
    {found : List Redeclaration} (h : Runs env (declareItems none env.source.itemTrees) {} found s) :
    Runs env (declareItems none env.source.itemTrees) {} [] s ∧ s.lookup.Proper env.source ∧
      ∃ t, Runs (env.withItems items) (declareItems none (env.withItems items).source.itemTrees) {} [] t ∧
        Twins env.source s.lookup s t := by
  simp only [declareItems_eq] at h ⊢
  have hdecls := declared_of_declareNames h
  have hlistings : (env.withItems items).source.listings.Perm env.source.listings := Source.listings_perm hperm
  have hdecls' : ∀ x ∈ (env.withItems items).source.listings, ((env.withItems items).source.decl? x.id).isSome = true :=
    fun x hx => hdecls x (hlistings.mem_iff.1 hx)
  obtain ⟨s₁, hrun, hbound⟩ := exists_declareNames rfl hdecls (fun _ _ _ _ => bound?_empty _ _) hnames
  obtain ⟨t, hrun', hrest⟩ := exists_declareNames rfl hdecls' (fun _ _ _ _ => bound?_empty _ _) (hnames.withItems hperm)
  obtain ⟨-, rfl⟩ := hrun.unique h
  have hbound' : Bound env.source (env.withItems items).source.listings {} t := ⟨hrest.eq, hrest.inner, hrest.bound⟩
  obtain ⟨hs, hsreports⟩ := hbound.during rfl
  obtain ⟨ht, htreports⟩ := hbound'.during (hbound.lookup_eq hbound' hlistings).symm
  refine ⟨hrun, hbound.proper bound?_empty, t, hrun', hs.begin rfl, ht.begin (ht.view_eq.trans hs.view_eq.symm), ?_⟩
  rw [hsreports, htreports]

end Link

open Link

/-- Unless annotations depend on what the same pass links, and where names are distinct, the order of items makes
no difference to the reports. -/
theorem declareAll_order {setup : Setup} (hbuilt : setup.source.WellBuilt) (hfree : setup.source.OrderFree)
    (hnames : setup.source.NamesDistinct) {items : List DeclId} (hperm : items.Perm setup.source.items)
    {s : LinkState} (h : Runs setup.linkEnv declareAll {} () s) :
    ∃ s', Runs (setup.withItems items).linkEnv declareAll {} () s' ∧ (essential s'.reports).Perm (essential s.reports) := by
  have hdeclare : ∃ found s₁, Runs setup.linkEnv (declareItems none setup.source.itemTrees) {} found s₁ := by
    simp only [declareAll, declareTypes, runs_bind, runs_source] at h
    obtain ⟨_, _, ⟨_, _, ⟨rfl, rfl⟩, found, s₁, hdeclare, -⟩, -⟩ := h
    exact ⟨found, s₁, hdeclare⟩
  obtain ⟨found, s₁, hdeclare⟩ := hdeclare
  obtain ⟨hrun, hproper, t₁, hrun', htwins⟩ := exists_twins hperm hnames hdeclare
  have hsteady : ∀ pass known o, Steady setup.linkEnv (Pass.stage pass known) s₁.lookup (setup.source.Concerns o)
      (pass.act o) := fun pass known o => steady_act rfl hbuilt hfree hproper pass o
  obtain ⟨t, hpasses, hend⟩ := htwins.passes hbuilt hsteady (owners_perm hperm) ((runs_declareAll hrun).1 h)
  exact ⟨t, (runs_declareAll hrun').2 hpasses, hend.reports⟩

/-- `namespace geo { interface Show; struct Box<T: Show, U = int> }`, `struct Point: geo::Show`, `alias P = Point`,
`union V { P, int }` and `fn main(a: geo::Box<P>, b: geo::Box<V>, c: Missing)`. -/
def geometry : Source := .ofSteps [
  .space "geo",
  .interface "Show",
  .nest ⟨0⟩ ⟨1⟩,
  .struct "Box" .copy,
  .typeExpr (.named ["Show"] []),
  .generic ⟨2⟩ "T" (some ⟨0⟩) none,
  .typeExpr (.named ["int"] []),
  .generic ⟨2⟩ "U" none (some ⟨1⟩),
  .nest ⟨0⟩ ⟨2⟩,
  .struct "Point" .copy,
  .typeExpr (.named ["geo", "Show"] []),
  .implements ⟨5⟩ ⟨2⟩,
  .typeExpr (.named ["Point"] []),
  .typeAlias "P" ⟨3⟩,
  .union "V",
  .typeExpr (.named ["P"] []),
  .member ⟨7⟩ ⟨4⟩,
  .member ⟨7⟩ ⟨1⟩,
  .function "main",
  .typeExpr (.named ["geo", "Box"] [⟨4⟩]),
  .param ⟨8⟩ "a" ⟨5⟩ false,
  .typeExpr (.named ["V"] []),
  .typeExpr (.named ["geo", "Box"] [⟨6⟩]),
  .param ⟨8⟩ "b" ⟨7⟩ false,
  .typeExpr (.named ["Missing"] []),
  .param ⟨8⟩ "c" ⟨8⟩ false]

/-- Two parameters of the function are reported, and so they are with the items the other way round. -/
theorem order_geometry : ∃ s s', Runs (Setup.linkEnv { source := geometry }) declareAll {} () s ∧
    (essential s.reports).length = 2 ∧
    Runs (Setup.linkEnv { source := geometry.withItems geometry.items.reverse }) declareAll {} () s' ∧
    (essential s'.reports).Perm (essential s.reports) := by
  obtain ⟨s, hrun, htwo⟩ : ∃ s, Runs (Setup.linkEnv { source := geometry }) declareAll {} () s ∧
    (essential s.reports).length = 2 := exists_of_run (by decide +kernel)
  have hbuilt : geometry.Built := Source.built_ofSteps _
  have hfree : geometry.OrderFree := by decide +kernel
  have hnames : geometry.NamesDistinct := by decide +kernel
  obtain ⟨s', hrun', hperm⟩ := declareAll_order hbuilt.wellBuilt hfree hnames geometry.items.reverse_perm hrun
  exact ⟨s, s', hrun, htwo, hrun', hperm⟩

/-- Although names are distinct, the reports change when the items are reversed. -/
def Source.OrderMatters (src : Source) : Prop :=
  src.WellBuilt ∧ src.NamesDistinct ∧ ∃ s s', Runs (Setup.linkEnv { source := src }) declareAll {} () s ∧
    Runs (Setup.linkEnv { source := src.withItems src.items.reverse }) declareAll {} () s' ∧
    ¬(essential s'.reports).Perm (essential s.reports)

/-- `struct A<T = B>` and `struct B<U = int>`. -/
def defaultInDefault : Source := .ofSteps [
  .struct "A" .copy,
  .typeExpr (.named ["B"] []),
  .generic ⟨0⟩ "T" none (some ⟨0⟩),
  .struct "B" .copy,
  .typeExpr (.named ["int"] []),
  .generic ⟨2⟩ "U" none (some ⟨1⟩)]

/-- `struct A<T = Box<str>>` and `struct Box<U: int>`. -/
def boundInDefault : Source := .ofSteps [
  .struct "A" .copy,
  .typeExpr (.named ["str"] []),
  .typeExpr (.named ["Box"] [⟨0⟩]),
  .generic ⟨0⟩ "T" none (some ⟨1⟩),
  .struct "Box" .copy,
  .typeExpr (.named ["int"] []),
  .generic ⟨2⟩ "U" (some ⟨2⟩) none]

/-- `struct Box<U: int>`, `alias P = Box<Q>` and `alias Q = int`. -/
def boundInTarget : Source := .ofSteps [
  .struct "Box" .copy,
  .typeExpr (.named ["int"] []),
  .generic ⟨0⟩ "U" (some ⟨0⟩) none,
  .typeExpr (.named ["Q"] []),
  .typeExpr (.named ["Box"] [⟨1⟩]),
  .typeAlias "P" ⟨2⟩,
  .typeAlias "Q" ⟨0⟩]

/-- `struct Box<U: N>`, `union V { Box<int> }` and `union N { int }`. -/
def boundInUnion : Source := .ofSteps [
  .struct "Box" .copy,
  .typeExpr (.named ["N"] []),
  .generic ⟨0⟩ "U" (some ⟨0⟩) none,
  .union "V",
  .typeExpr (.named ["int"] []),
  .typeExpr (.named ["Box"] [⟨1⟩]),
  .member ⟨2⟩ ⟨2⟩,
  .union "N",
  .member ⟨3⟩ ⟨1⟩]

/-- `interface Show`, `interface Gen<U: Show>`, `struct R: Gen<S>` and `struct S: Show`. -/
def boundInInterfaces : Source := .ofSteps [
  .interface "Show",
  .interface "Gen",
  .typeExpr (.named ["Show"] []),
  .generic ⟨1⟩ "U" (some ⟨0⟩) none,
  .struct "R" .copy,
  .typeExpr (.named ["S"] []),
  .typeExpr (.named ["Gen"] [⟨1⟩]),
  .implements ⟨3⟩ ⟨2⟩,
  .struct "S" .copy,
  .implements ⟨4⟩ ⟨0⟩]

theorem Source.Built.orderMatters (hbuilt : src.Built) (hnames : src.NamesDistinct) {n m : Nat} (hne : m ≠ n)
    (h : ∃ s, Runs (Setup.linkEnv { source := src }) declareAll {} () s ∧ (essential s.reports).length = n)
    (h' : ∃ s', Runs (Setup.linkEnv { source := src.withItems src.items.reverse }) declareAll {} () s' ∧
      (essential s'.reports).length = m) : src.OrderMatters := by
  obtain ⟨s, hrun, rfl⟩ := h
  obtain ⟨s', hrun', rfl⟩ := h'
  exact ⟨hbuilt.wellBuilt, hnames, s, s', hrun, hrun', fun h => hne h.length_eq⟩

/-- None of the passes may link an annotation with the help of what it links itself. -/
theorem order_matters : defaultInDefault.OrderMatters ∧ boundInDefault.OrderMatters ∧ boundInTarget.OrderMatters ∧
    boundInUnion.OrderMatters ∧ boundInInterfaces.OrderMatters := by
  refine ⟨(Source.built_ofSteps _).orderMatters (by decide +kernel) Nat.zero_ne_one ?_ ?_,
    (Source.built_ofSteps _).orderMatters (by decide +kernel) Nat.one_ne_zero ?_ ?_,
    (Source.built_ofSteps _).orderMatters (by decide +kernel) Nat.zero_ne_one ?_ ?_,
    (Source.built_ofSteps _).orderMatters (by decide +kernel) Nat.zero_ne_one ?_ ?_,
    (Source.built_ofSteps _).orderMatters (by decide +kernel) Nat.zero_ne_one ?_ ?_⟩
  all_goals exact exists_of_run (by decide +kernel)

end Linkage
