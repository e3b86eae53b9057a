import Linkage.Proofs.Link.Declarations
import Linkage.Proofs.Source.Items

/-!
# Actions that do the same in every order

While a pass goes over declarations, some of what is known grows and the rest stays as it is. An action that looks at
nothing that grows does the same whenever its turn comes: it ends with the same result, learns the same, and makes the
same reports, but for those on limits of instantiation. Such an action is called steady. What can be known is divided
into topics. The stage of a pass says which topics it writes and what is known of the others.
-/

namespace Linkage

/-! ### What is known -/

/-- What annotations may have to look up. -/
inductive Topic where
  | generics (d : DeclId)
  | bound (g : GenericId)
  | default (g : GenericId)
  | target (d : DeclId)
  | members (d : DeclId)
  | interfaces (d : DeclId)
  deriving DecidableEq

abbrev Topic.Content : Topic → Type
  | .generics _ => List GenericId
  | .bound _ | .default _ | .target _ => Ty
  | .members _ => List Ty
  | .interfaces _ => List DeclId

abbrev View := (k : Topic) → Option k.Content

namespace View

def nothing : View := fun _ => none

/-- What is known once `e` was learnt on top of `v`. -/
def onTop (e v : View) : View := fun k => (e k).or (v k)

def single (k : Topic) (c : k.Content) : View := fun k' => if h : k = k' then some (h ▸ c) else none

theorem onTop_assoc (a b c : View) : (a.onTop b).onTop c = a.onTop (b.onTop c) := funext fun _ => Option.or_assoc

theorem forall_single {P : (k : Topic) → k.Content → Prop} {k : Topic} {c : k.Content} (h : P k c) :
    ∀ k' c', single k c k' = some c' → P k' c' := by
  intro k' c' hc
  unfold single at hc
  split at hc
  · rename_i heq
    subst heq
    exact Option.some.inj hc ▸ h
  · exact nomatch hc

end View

namespace Signatures

def view (sigs : Signatures) : View
  | .generics d => sigs.generics.get? d
  | .bound g => sigs.bounds.get? g
  | .default g => sigs.defaults.get? g
  | .target d => sigs.aliasTargets.get? d
  | .members d => sigs.unionMembers.get? d
  | .interfaces d => sigs.implements.get? d

theorem view_of_tables {sigs sigs' : Signatures} (h : sigs.tables = sigs'.tables) : sigs.view = sigs'.view := by
  simp only [tables, Prod.mk.injEq] at h
  obtain ⟨hgenerics, hbounds, hdefaults, haliases, hunions, himplements⟩ := h
  funext k
  cases k with
  | generics d => exact congrArg (·.get? d) hgenerics
  | bound g => exact congrArg (·.get? g) hbounds
  | default g => exact congrArg (·.get? g) hdefaults
  | target d => exact congrArg (·.get? d) haliases
  | members d => exact congrArg (·.get? d) hunions
  | interfaces d => exact congrArg (·.get? d) himplements

theorem env_congr {sigs sigs' : Signatures} (h : sigs.view = sigs'.view) : sigs.env = sigs'.env := by
  have hgenerics : sigs.genericsOf = sigs'.genericsOf := by
    funext d
    exact congrArg (·.getD []) (congrFun h (.generics d))
  have haliases : sigs.aliasTarget? = sigs'.aliasTarget? := by
    funext d args
    have htarget : sigs.aliasTargets.get? d = sigs'.aliasTargets.get? d := congrFun h (.target d)
    rw [aliasTarget?, aliasTarget?, hgenerics, htarget]
  have hunions : sigs.unionMembers? = sigs'.unionMembers? := by
    funext d args
    have hmembers : sigs.unionMembers.get? d = sigs'.unionMembers.get? d := congrFun h (.members d)
    rw [unionMembers?, unionMembers?, hgenerics, hmembers]
  have himplements : sigs.isImplementing = sigs'.isImplementing := by
    funext d interface
    have hinterfaces : sigs.implements.get? d = sigs'.implements.get? d := congrFun h (.interfaces d)
    rw [isImplementing, isImplementing, hinterfaces]
  rw [env, env, haliases, hunions, himplements]

def learn (sigs : Signatures) : (k : Topic) → k.Content → Signatures
  | .generics d, gs => { sigs with generics := sigs.generics.insert d gs }
  | .bound g, t => { sigs with bounds := sigs.bounds.insert g t }
  | .default g, t => { sigs with defaults := sigs.defaults.insert g t }
  | .target d, t => { sigs with aliasTargets := sigs.aliasTargets.insert d t }
  | .members d, ts => { sigs with unionMembers := sigs.unionMembers.insert d ts }
  | .interfaces d, ds => { sigs with implements := sigs.implements.insert d ds }

theorem view_learn (sigs : Signatures) (k : Topic) (c : k.Content) :
    (sigs.learn k c).view = (View.single k c).onTop sigs.view := by
  funext k'
  by_cases heq : k = k'
  · subst heq
    simp only [View.onTop, View.single, dif_pos, Option.some_or]
    cases k <;> exact Table.get?_insert_self ..
  · simp only [View.onTop, View.single, dif_neg heq, Option.none_or]
    cases k <;> cases k' <;> first
      | rfl
      | exact Table.get?_insert_of_ne _ _ fun h => heq (by rw [h])

end Signatures

structure Lookup where
  name : String → Option DeclId
  member : DeclId → String → Option DeclId

def LinkState.lookup (s : LinkState) : Lookup where
  name := s.scopes.find?
  member := s.spaces.find?

/-- The names of a frame come in front of the others. -/
def Lookup.push (σ : Lookup) (frame : String → Option DeclId) : Lookup :=
  { σ with name := fun name => (frame name).or (σ.name name) }

def Lookup.enter (σ : Lookup) : List DeclId → Lookup
  | [] => σ
  | space :: spaces => (σ.push (σ.member space)).enter spaces

/-- The name is that of the declaration, unless it is a generic parameter. -/
def Source.Answers (src : Source) (name : String) (d : DeclId) : Prop :=
  ∃ decl, src.decl? d = some decl ∧ (decl.name = name ∨ ∃ g, decl.kind = .genericParam g)

/-- Every name leads to a declaration of that name. -/
structure Lookup.Proper (src : Source) (σ : Lookup) : Prop where
  name : ∀ name d, σ.name name = some d → src.Answers name d
  member : ∀ space name d, σ.member space name = some d → src.Answers name d

theorem Lookup.Proper.push {src : Source} {σ : Lookup} (h : σ.Proper src) {frame : String → Option DeclId}
    (hframe : ∀ name d, frame name = some d → src.Answers name d) : (σ.push frame).Proper src := by
  refine ⟨fun name d hd => ?_, h.member⟩
  rcases Option.or_eq_some_iff.1 hd with hd | ⟨-, hd⟩
  · exact hframe name d hd
  · exact h.name name d hd

theorem Lookup.Proper.enter {src : Source} {σ : Lookup} (h : σ.Proper src) (spaces : List DeclId) :
    (σ.enter spaces).Proper src := by
  induction spaces generalizing σ with
  | nil => exact h
  | cons space spaces ih => exact ih (h.push (h.member space))

def Source.hasBound (src : Source) (g : GenericId) : Bool := (src.generic? g).any (·.bound.isSome)

def Source.Declares (src : Source) : (k : Topic) → k.Content → Prop
  | .generics d, gs => gs = src.genericsOf d
  | .bound g, _ => src.hasBound g = true
  | .default g, _ => src.hasDefault g = true
  | _, _ => True

/-- The topics that a pass writes, and what is known of the others. -/
structure Stage where
  writes : Topic → Prop
  known : View

def Stage.still (known : View) : Stage := ⟨fun _ => False, known⟩

namespace Link

/-- The reports that do not depend on what was instantiated before. -/
def essential (ds : List Diagnostic) : List Diagnostic := ds.filter (·.kind ≠ .instantiationLimit)

theorem essential_append (as bs : List Diagnostic) : essential (as ++ bs) = essential as ++ essential bs :=
  List.filter_append ..

/-- A state in which actions of the pass are run. -/
structure During (src : Source) (stage : Stage) (σ : Lookup) (s : LinkState) : Prop where
  lookup : s.lookup = σ
  loud : s.quiet = false
  kept : s.ignored = []
  known : ∀ k, ¬stage.writes k → s.signatures.view k = stage.known k
  declared : ∀ k c, s.signatures.view k = some c → src.Declares k c

/-- From `s` to `s'` the content of `e` was learnt and `ds` was reported. -/
structure Learns (e : View) (ds : List Diagnostic) (s s' : LinkState) : Prop where
  scopes : s'.scopes = s.scopes
  spaces : s'.spaces = s.spaces
  quiet : s'.quiet = s.quiet
  ignored : s'.ignored = s.ignored
  view : s'.signatures.view = e.onTop s.signatures.view
  reports : ∃ added, s'.reports = s.reports ++ added ∧ essential added = ds

theorem Learns.refl (s : LinkState) : Learns .nothing [] s s :=
  ⟨rfl, rfl, rfl, rfl, rfl, [], (List.append_nil _).symm, rfl⟩

theorem Learns.trans {e e' : View} {ds ds' : List Diagnostic} {s s₁ s' : LinkState} (h : Learns e ds s s₁)
    (h' : Learns e' ds' s₁ s') : Learns (e'.onTop e) (ds ++ ds') s s' := by
  obtain ⟨added, hadded, hds⟩ := h.reports
  obtain ⟨added', hadded', hds'⟩ := h'.reports
  refine ⟨h'.scopes.trans h.scopes, h'.spaces.trans h.spaces, h'.quiet.trans h.quiet,
    h'.ignored.trans h.ignored, ?_, added ++ added', ?_, ?_⟩
  · rw [h'.view, h.view, View.onTop_assoc]
  · rw [hadded', hadded, List.append_assoc]
  · rw [essential_append, hds, hds']

/-- Only topics of the pass are learnt, from among those in `own`, and as the unit declares them. -/
def Allowed (src : Source) (stage : Stage) (own : Topic → Prop) (e : View) : Prop :=
  ∀ k c, e k = some c → stage.writes k ∧ own k ∧ src.Declares k c

variable {α β : Type} {env : LinkEnv} {src : Source} {stage : Stage} {σ : Lookup} {own : Topic → Prop}
  {e : View} {ds : List Diagnostic} {s s' : LinkState}

theorem allowed_nothing : Allowed src stage own .nothing := nofun

theorem Allowed.onTop {e' : View} (h : Allowed src stage own e) (h' : Allowed src stage own e') :
    Allowed src stage own (e'.onTop e) := by
  intro k c hc
  rcases Option.or_eq_some_iff.1 hc with hc | ⟨-, hc⟩
  · exact h' k c hc
  · exact h k c hc

theorem During.learns (h : During src stage σ s) (hallowed : Allowed src stage own e) (hlearns : Learns e ds s s') :
    During src stage σ s' := by
  refine ⟨?_, hlearns.quiet.trans h.loud, hlearns.ignored.trans h.kept, fun k hk => ?_, fun k c hc => ?_⟩
  · rw [← h.lookup, LinkState.lookup, LinkState.lookup, hlearns.scopes, hlearns.spaces]
  · have hnone : e k = none := by
      cases hc : e k with
      | none => rfl
      | some c => exact absurd (hallowed k c hc).1 hk
    rw [hlearns.view, View.onTop, hnone, Option.none_or]
    exact h.known k hk
  · rw [hlearns.view] at hc
    rcases Option.or_eq_some_iff.1 hc with hc | ⟨-, hc⟩
    · exact (hallowed k c hc).2.2
    · exact h.declared k c hc

theorem During.begin (h : During src stage σ s) {stage' : Stage} (hknown : s.signatures.view = stage'.known) :
    During src stage' σ s :=
  ⟨h.lookup, h.loud, h.kept, fun k _ => congrFun hknown k, h.declared⟩

theorem During.view_eq {known : View} (h : During src (.still known) σ s) : s.signatures.view = known :=
  funext fun k => h.known k nofun

/-- In every state of the pass, and in whatever order the items are, the action comes to the same. -/
def Acts (env : LinkEnv) (stage : Stage) (σ : Lookup) (act : LinkM α) (a : α) (e : View)
    (ds : List Diagnostic) : Prop :=
  ∀ items s, During env.source stage σ s → ∃ s', Runs (env.withItems items) act s a s' ∧ Learns e ds s s'

/-- If the action succeeds in one state of the pass, then it comes to the same in all of them. -/
def Steady (env : LinkEnv) (stage : Stage) (σ : Lookup) (own : Topic → Prop) (act : LinkM α) : Prop :=
  ∀ items s a s', During env.source stage σ s → Runs (env.withItems items) act s a s' →
    ∃ e ds, Allowed env.source stage own e ∧ Acts env stage σ act a e ds

theorem Acts.learns {act : LinkM α} {a : α} (h : Acts env stage σ act a e ds) {items : List DeclId}
    (hs : During env.source stage σ s) (hrun : Runs (env.withItems items) act s a s') : Learns e ds s s' := by
  obtain ⟨s₁, hrun₁, hlearns⟩ := h items s hs
  obtain ⟨-, rfl⟩ := hrun₁.unique hrun
  exact hlearns

/-! ### Actions one after the other -/

theorem Steady.bind_of {x : LinkM α} {f : α → LinkM β} (hx : Steady env stage σ own x)
    (hf : ∀ a items s s', During env.source stage σ s → Runs (env.withItems items) x s a s' →
      Steady env stage σ own (f a)) :
    Steady env stage σ own (x >>= f) := by
  intro items s b s' hs h
  obtain ⟨a, s₁, hrun, hrest⟩ := runs_bind.1 h
  obtain ⟨e, ds, hallowed, hacts⟩ := hx items s a s₁ hs hrun
  have hs₁ := hs.learns hallowed (hacts.learns hs hrun)
  obtain ⟨e', ds', hallowed', hacts'⟩ := hf a items s s₁ hs hrun items s₁ b s' hs₁ hrest
  refine ⟨e'.onTop e, ds ++ ds', hallowed.onTop hallowed', fun items' t ht => ?_⟩
  obtain ⟨t₁, hrun₁, hlearns⟩ := hacts items' t ht
  obtain ⟨t', hrun', hlearns'⟩ := hacts' items' t₁ (ht.learns hallowed hlearns)
  exact ⟨t', runs_bind.2 ⟨a, t₁, hrun₁, hrun'⟩, hlearns.trans hlearns'⟩

theorem Steady.bind {x : LinkM α} {f : α → LinkM β} (hx : Steady env stage σ own x)
    (hf : ∀ a, Steady env stage σ own (f a)) : Steady env stage σ own (x >>= f) :=
  hx.bind_of fun a _ _ _ _ _ => hf a

theorem Steady.looks {act : LinkM α} (h : ∀ items s a s', During env.source stage σ s →
    Runs (env.withItems items) act s a s' → ∀ items t, During env.source stage σ t → Runs (env.withItems items) act t a t) :
    Steady env stage σ own act := by
  intro items s a s' hs hrun
  exact ⟨.nothing, [], allowed_nothing, fun items t ht => ⟨t, h _ s a s' hs hrun items t ht, .refl t⟩⟩

theorem Steady.pure (a : α) : Steady env stage σ own (pure a) := by
  refine .looks fun items s b s' _ hrun items t _ => ?_
  obtain ⟨rfl, -⟩ := runs_pure.1 hrun
  exact runs_pure.2 ⟨rfl, rfl⟩

theorem Steady.throw (fault : Fault) : Steady env stage σ own (throw fault : LinkM α) :=
  fun _ _ _ _ _ h => absurd h not_runs_throw

theorem compound_steady : Compound fun _ act => Steady env stage σ own act := ⟨.pure, .bind⟩

theorem Steady.forM {l : List α} {f : α → LinkM PUnit} (h : ∀ a ∈ l, Steady env stage σ own (f a)) :
    Steady env stage σ own (l.forM f) :=
  compound_steady.forM h

theorem Steady.mapM {l : List α} {f : α → LinkM β} (h : ∀ a ∈ l, Steady env stage σ own (f a)) :
    Steady env stage σ own (l.mapM f) :=
  compound_steady.mapM h

theorem Consults.steady {act : LinkM α} (h : Consults act) : Steady env stage σ own act := by
  obtain ⟨r, hr⟩ := h env
  refine .looks fun items s a s' _ hrun items t _ => (hr items t).trans ?_
  rw [(Prod.mk.inj ((hr _ s).symm.trans hrun)).1]

/-! ### Small actions -/

theorem steady_report (span : Span) (p : Problem) : Steady env stage σ own (report span p) := by
  intro items s u s' _ _
  refine ⟨.nothing, essential [p.diagnostic span], allowed_nothing, fun items t ht => ?_⟩
  refine ⟨{ t with reports := t.reports ++ [p.diagnostic span] }, runs_modify.2 ?_, rfl, rfl, rfl, rfl, rfl, _, rfl, rfl⟩
  rw [if_neg (by simp [ht.loud])]

theorem Steady.modify {f : LinkState → LinkState} (h : ∀ s, Learns .nothing [] s (f s)) :
    Steady env stage σ own (modify f) :=
  fun _ _ _ _ _ _ => ⟨.nothing, [], allowed_nothing, fun _ t _ => ⟨f t, runs_modify.2 rfl, h t⟩⟩

theorem steady_onSignatures {f : Signatures → Signatures} (h : ∀ sigs, (f sigs).view = sigs.view) :
    Steady env stage σ own (onSignatures f) :=
  .modify fun s => ⟨rfl, rfl, rfl, rfl, h s.signatures, [], (List.append_nil _).symm, rfl⟩

theorem steady_learn (k : Topic) (c : k.Content) (hwrites : stage.writes k) (hown : own k)
    (hdeclares : env.source.Declares k c) : Steady env stage σ own (onSignatures fun sigs => sigs.learn k c) := by
  intro items s u s' _ _
  refine ⟨.single k c, [], View.forall_single ⟨hwrites, hown, hdeclares⟩, fun items t _ => ⟨_, runs_modify.2 rfl, ?_⟩⟩
  exact ⟨rfl, rfl, rfl, rfl, t.signatures.view_learn k c, [], (List.append_nil _).symm, rfl⟩

/-- What follows depends only on what is the same in all states of the pass. -/
theorem steady_get {f : LinkState → LinkM α} (hf : ∀ s t, During env.source stage σ s →
    During env.source stage σ t → f s = f t) (h : ∀ s, During env.source stage σ s → Steady env stage σ own (f s)) :
    Steady env stage σ own (get >>= f) := by
  intro items s a s' hs hrun
  simp only [runs_bind, runs_get] at hrun
  obtain ⟨_, _, ⟨rfl, rfl⟩, hrun⟩ := hrun
  obtain ⟨e, ds, hallowed, hacts⟩ := h s hs items s a s' hs hrun
  refine ⟨e, ds, hallowed, fun items t ht => ?_⟩
  obtain ⟨t', hrun', hlearns⟩ := hacts items t ht
  exact ⟨t', runs_bind.2 ⟨t, t, runs_get.2 ⟨rfl, rfl⟩, hf s t hs ht ▸ hrun'⟩, hlearns⟩

theorem steady_signatures {f : Signatures → LinkM α} (hf : ∀ s t, During env.source stage σ s →
    During env.source stage σ t → f s.signatures = f t.signatures)
    (h : ∀ s, During env.source stage σ s → Steady env stage σ own (f s.signatures)) :
    Steady env stage σ own (signatures >>= f) := by
  have hread : Steady env stage σ own (get >>= fun s => f s.signatures) := steady_get hf h
  simpa only [Link.signatures, bind_assoc, pure_bind] using hread

theorem Steady.unseen {act : LinkM α} (a : α) (h : ∀ items s, During env.source stage σ s →
    ∃ s', Runs (env.withItems items) act s a s' ∧ Learns .nothing [] s s') : Steady env stage σ own act := by
  intro items s b s' hs hrun
  obtain ⟨s₁, hrun₁, -⟩ := h items s hs
  obtain ⟨rfl, -⟩ := hrun₁.unique hrun
  exact ⟨.nothing, [], allowed_nothing, h⟩

/-! ### Frames -/

theorem During.push (h : During src stage σ s) (frame : Frame) :
    During src stage (σ.push frame.get?) { s with scopes := s.scopes.push frame } := by
  refine ⟨?_, h.loud, h.kept, h.known, h.declared⟩
  rw [← h.lookup]
  exact congrArg (Lookup.mk · s.spaces.find?) (funext fun name => s.scopes.find?_push frame name)

theorem steady_withFrame {frame : LinkState → Frame} {names : String → Option DeclId} {act : LinkM α}
    (hnames : ∀ s, During env.source stage σ s → (frame s).get? = names)
    (h : Steady env stage (σ.push names) own act) :
    Steady env stage σ own (do withFrame (frame (← get)) act) := by
  intro items s a s' hs hrun
  simp only [runs_bind, runs_get] at hrun
  obtain ⟨_, _, ⟨rfl, rfl⟩, hrun⟩ := hrun
  obtain ⟨s₁, hact, rfl⟩ := runs_withFrame.1 hrun
  have hin : ∀ {t}, During env.source stage σ t →
      During env.source stage (σ.push names) { t with scopes := t.scopes.push (frame t) } :=
    fun {t} ht => hnames t ht ▸ ht.push (frame t)
  obtain ⟨e, ds, hallowed, hacts⟩ := h items _ a s₁ (hin hs) hact
  refine ⟨e, ds, hallowed, fun items t ht => ?_⟩
  obtain ⟨t₁, hrun₁, hlearns⟩ := hacts items _ (hin ht)
  refine ⟨{ t₁ with scopes := t₁.scopes.pop }, runs_bind.2 ⟨t, t, runs_get.2 ⟨rfl, rfl⟩, ?_⟩, ?_⟩
  · exact runs_withFrame.2 ⟨t₁, hrun₁, rfl⟩
  · refine ⟨?_, hlearns.spaces, hlearns.quiet, hlearns.ignored, hlearns.view, hlearns.reports⟩
    show t₁.scopes.pop = t.scopes
    rw [hlearns.scopes, ScopeStack.pop_push]

/-- The namespaces around a declaration, the innermost last. -/
def outerSpaces (src : Source) (decl : DeclId) : List DeclId :=
  ((src.ancestors decl).filter fun d => (src.decl? d).any (·.kind.isSpace)).reverse

def inSpaces (spaces : List DeclId) (act : LinkM α) : LinkM α := do
  let s ← get
  withFrames (spaces.map fun space => (s.spaces.frame? space).getD {}) act

theorem steady_inSpaces {spaces : List DeclId} {act : LinkM α} (h : Steady env stage (σ.enter spaces) own act) :
    Steady env stage σ own (inSpaces spaces act) := by
  induction spaces generalizing σ with
  | nil => exact steady_get (fun _ _ _ _ => rfl) fun _ _ => h
  | cons space spaces ih =>
    -- opening the first frame changes nothing about the members of the others
    have heq : inSpaces (space :: spaces) act =
        (do withFrame (((← get).spaces.frame? space).getD {}) (inSpaces spaces act)) := rfl
    rw [heq]
    refine steady_withFrame (fun s hs => ?_) (ih h)
    rw [← hs.lookup]
    funext name
    show _ = s.spaces.find? space name
    rw [Namespaces.find?]
    cases s.spaces.frame? space with
    | none => rfl
    | some frame => rfl

theorem steady_inNamespaces {decl : DeclId} {act : LinkM α}
    (h : Steady env stage (σ.enter (outerSpaces env.source decl)) own act) :
    Steady env stage σ own (inNamespaces decl act) := by
  refine .bind_of (consults_spacesAround decl).steady fun around items s s' _ hrun => ?_
  obtain ⟨-, rfl, -⟩ := runs_spacesAround.1 hrun
  have hancestors : (env.withItems items).source.ancestors decl = env.source.ancestors decl :=
    env.source.ancestors_withItems items decl
  rw [hancestors]
  exact steady_inSpaces h

theorem exists_of_genericHost {decl : DeclId} {host : Option DeclId} (h : Runs env (genericHost decl) s host s') :
    ∀ d ∈ host, (env.source.decl? d).isSome = true := by
  simp only [genericHost, runs_bind, runs_declOf] at h
  obtain ⟨d, _, ⟨hd, rfl⟩, h⟩ := h
  split at h
  · obtain ⟨rfl, -⟩ := runs_pure.1 h
    intro d' hd'
    obtain rfl := Option.some.inj hd'
    rw [hd]
    rfl
  · simp only [runs_bind] at h
    obtain ⟨interface, s₁, -, h⟩ := h
    cases interface with
    | none =>
      obtain ⟨rfl, -⟩ := runs_pure.1 h
      simp
    | some p =>
      simp only [runs_bind, runs_declOf, runs_pure] at h
      obtain ⟨pd, _, ⟨hpd, rfl⟩, rfl, -⟩ := h
      intro d' hd'
      obtain ⟨-, rfl⟩ : pd.isGeneric = true ∧ p = d' := by simpa using hd'
      rw [hpd]
      rfl

theorem steady_inGenerics (hbuilt : env.source.WellBuilt) (hσ : σ.Proper env.source) {decl : DeclId}
    {act : Option DeclId → LinkM α}
    (h : ∀ host σ', (∀ d ∈ host, (env.source.decl? d).isSome = true) → σ'.Proper env.source →
      Steady env stage σ' own (act host)) : Steady env stage σ own (inGenerics decl act) := by
  refine .bind_of (consults_genericHost decl).steady fun host _ _ _ _ hhost => ?_
  refine .bind_of (consults_genericFrame decl).steady fun frame _ _ _ _ hframe => ?_
  have hhosts := exists_of_genericHost hhost
  obtain ⟨-, hgenerics⟩ := generics_of_genericFrame hframe
  have heq : withFrame frame (act host) = (do withFrame ((fun _ => frame) (← get)) (act host)) := rfl
  rw [heq]
  refine steady_withFrame (fun _ _ => rfl) (h host _ hhosts (hσ.push fun name d hd => ?_))
  obtain ⟨g, hg, p, hp, rfl⟩ := hgenerics name d hd
  obtain ⟨q, pd, hq, hpd, hkind⟩ := hbuilt.generic_of_visible hg
  obtain rfl := Option.some.inj (hp.symm.trans hq)
  exact ⟨pd, hpd, .inr ⟨g, hkind⟩⟩

end Link

end Linkage
