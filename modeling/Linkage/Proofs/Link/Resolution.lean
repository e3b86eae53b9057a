import Linkage.Proofs.Link.Outcome
import Linkage.Proofs.Link.Surroundings
import Mathlib.Data.List.Nodup

/-!
# What a name means is told from where it stands

A name in a body can be looked up without linking anything. It means the local of that name bound last in the
innermost block where one is bound by then, and otherwise a parameter, a generic parameter, a member of a namespace
around the function or a name at the top level, whichever is closest. Linking keeps frames instead, which come and go.
What it records for a name is what the look-up gives, as long as each expression is reached once: the record has room
for one meaning only.
-/

namespace Linkage

variable {path : List String}

/-! ### Looking a name up -/

namespace Rib

def latest? (rib : Rib) (name : String) : Option DeclId := (rib.reverse.find? (·.1 == name)).map (·.2)

theorem latest?_append (a b : Rib) (name : String) :
    latest? (a ++ b) name = (latest? b name).or (latest? a name) := by
  simp only [latest?, List.reverse_append, List.find?_append, Option.map_or]

theorem latest?_singleton (p : String × DeclId) (name : String) :
    latest? [p] name = if p.1 = name then some p.2 else none := by
  by_cases h : p.1 = name
  · simp [latest?, h]
  · simp [latest?, h]

theorem get?_foldl_insert_or (rib : Rib) (frame : Frame) (name : String) :
    (rib.foldl (fun frame p => frame.insert p.1 p.2) frame).get? name = (latest? rib name).or (frame.get? name) := by
  induction rib generalizing frame with
  | nil => rfl
  | cons p rib ih =>
    rw [List.foldl_cons, ih, Table.get?_insert, ← List.singleton_append, latest?_append, latest?_singleton,
      Option.or_assoc]
    split
    · rfl
    · rfl

theorem get?_foldl_insert (rib : Rib) (name : String) :
    (rib.foldl (fun frame p => frame.insert p.1 p.2) ({} : Frame)).get? name = latest? rib name := by
  rw [get?_foldl_insert_or]
  exact Option.or_none

end Rib

namespace Source

def paramRib (src : Source) (func : DeclId) : Rib :=
  (((src.decl? func).map (·.kind.params)).getD []).filterMap fun p => (src.decl? p).map (·.name, p)

def genericRib (src : Source) (generics : List GenericId) : Rib :=
  (generics.filterMap src.generic?).map fun g => (g.name, g.decl)

/-- What a function brings with it: its parameters, its generic parameters, and those of the interface that it
belongs to. -/
def ribsOf (src : Source) (func : DeclId) : List Rib :=
  [src.paramRib func, src.genericRib (src.genericsOf func),
    src.genericRib (((src.decl? func).map src.interfaceGenerics).getD [])]

end Source

/-- An expression and where it stands: inside which function, and inside which blocks of it. -/
structure Site where
  expr : Expr
  func : DeclId
  blocks : List Rib

namespace LinkState

variable (s : LinkState) (src : Source)

/-- What a name means where it stands, given the names of the top level and of namespaces. -/
def nameAt? (func : DeclId) (blocks : List Rib) (name : String) : Option DeclId :=
  ((blocks ++ src.ribsOf func).findSome? (·.latest? name)).or
    (((src.spacesAround func).findSome? (s.spaces.find? · name)).or (s.scopes.root.get? name))

/-- From a namespace on to its member. -/
def member? (d : DeclId) (segment : String) : Option DeclId :=
  if (src.decl? d).any (·.kind.isSpace) then s.spaces.find? d segment else none

def pathAt? (func : DeclId) (blocks : List Rib) : List String → Option DeclId
  | [] => none
  | first :: rest => (s.nameAt? src func blocks first).bind fun d => rest.foldlM (s.member? src) d

end LinkState

namespace LinkEnv

def sitesOf (env : LinkEnv) (func : DeclId) : List Site :=
  match (env.source.decl? func).map Decl.kind with
  | some (.function { body := some block, .. }) =>
    ((env.trees.block block).spots env.source []).map fun p => ⟨p.1, func, p.2⟩
  | _ => []

def sites (env : LinkEnv) (funcs : List DeclId) : List Site := funcs.flatMap env.sitesOf

end LinkEnv

namespace Link

variable {env : LinkEnv} {src : Source} {outer s s' : LinkState} {func : DeclId} {blocks : List Rib}

theorem findSome?_cons_or {α β : Type} (f : α → Option β) (a : α) (l : List α) :
    (a :: l).findSome? f = (f a).or (l.findSome? f) := by
  rw [List.findSome?_cons]
  cases f a with
  | none => rfl
  | some b => rfl

/-! ### What the frames show -/

/-- The frames show what a name means inside the blocks of a function. -/
structure Shows (src : Source) (outer : LinkState) (func : DeclId) (blocks : List Rib) (s : LinkState) : Prop where
  names : ∀ name, s.scopes.find? name = outer.nameAt? src func blocks name
  spaces : s.spaces = outer.spaces
  loud : s.quiet = false

instance : Stable (Shows src outer func blocks) where
  of_eq h hscopes hspaces hquiet := ⟨hscopes ▸ h.names, hspaces ▸ h.spaces, hquiet ▸ h.loud⟩

theorem Shows.opened (h : Shows src outer func blocks s) :
    Shows src outer func ([] :: blocks) { s with scopes := s.scopes.push {} } := by
  refine ⟨fun name => ?_, h.spaces, h.loud⟩
  rw [ScopeStack.find?_push]
  exact h.names name

theorem Shows.bound {rib : Rib} (h : Shows src outer func (rib :: blocks) s) (b : Option (String × DeclId)) :
    Shows src outer func ((rib ++ b.toList) :: blocks) (s.bindOptional b) := by
  rcases b with _ | ⟨name, decl⟩
  · rw [Option.toList_none, List.append_nil]
    exact h
  · refine ⟨fun key => ?_, h.spaces, h.loud⟩
    have hkey := h.names key
    show (s.scopes.declare name decl).find? key = _
    simp only [LinkState.nameAt?, List.cons_append, findSome?_cons_or, Option.toList_some, Rib.latest?_append,
      Rib.latest?_singleton] at hkey ⊢
    by_cases hname : name = key
    · subst hname
      simp [ScopeStack.find?_declare_self]
    · rw [ScopeStack.find?_declare_of_ne _ _ hname, hkey]
      simp [hname]

theorem descend_eq {spaces : Namespaces} (hspaces : spaces = outer.spaces) {d : DeclId}
    {found : Option DeclId} (h : spaces.descend src d path = .ok found) :
    found = path.foldlM (outer.member? src) d := by
  induction path generalizing d with
  | nil => exact (Except.ok.inj h).symm
  | cons segment rest ih =>
    rw [List.foldlM_cons, LinkState.member?]
    unfold Namespaces.descend at h
    split at h
    · exact nomatch h
    · rename_i decl hdecl
      rw [hdecl, Option.any_some]
      split at h
      · rename_i hspace
        rw [if_pos hspace, ← hspaces]
        split at h
        · rename_i member hmember
          rw [hmember]
          exact ih h
        · rename_i hmember
          rw [hmember]
          exact (Except.ok.inj h).symm
      · rename_i hspace
        rw [if_neg hspace]
        exact (Except.ok.inj h).symm

theorem Shows.resolve? (h : Shows src outer func blocks s) {found : Option DeclId}
    (hfound : s.resolve? src path = .ok found) : found = outer.pathAt? src func blocks path := by
  cases path with
  | nil => exact (Except.ok.inj hfound).symm
  | cons first rest =>
    rw [LinkState.pathAt?, ← h.names first]
    rw [LinkState.resolve?] at hfound
    split at hfound
    · rename_i hnone
      rw [hnone]
      exact (Except.ok.inj hfound).symm
    · rename_i d hd
      rw [hd]
      exact descend_eq h.spaces hfound

/-! ### What is recorded -/

variable {sites : List Site}

/-- Names that are recorded are recorded with what they mean, and names that were linked all the same mean nothing
and are reported. -/
structure Accurate (src : Source) (outer : LinkState) (sites : List Site) (s : LinkState) : Prop where
  covered : ∀ id ∈ s.linked, ∃ site ∈ sites, site.expr.id = id
  resolved : ∀ site ∈ sites, ∀ path ∈ site.expr.path?, ∀ d, s.program.resolved.get? site.expr.id = some d →
    outer.pathAt? src site.func site.blocks path = some d
  missed : ∀ site ∈ sites, ∀ path ∈ site.expr.path?, site.expr.id ∈ s.linked →
    s.program.resolved.get? site.expr.id = none → outer.pathAt? src site.func site.blocks path = none ∧
      (Problem.unresolvedName (pathText path)).diagnostic site.expr.span ∈ s.reports
  called : ∀ site ∈ sites, ∀ callee ∈ site.expr.callee?, site.expr.id ∈ s.linked → s.Settled callee.id

theorem lasting_accurate : Lasting (Accurate src outer sites) := by
  intro s s' h hs
  refine ⟨?_, ?_, ?_, ?_⟩
  · rw [hs.linked]
    exact h.covered
  · rw [hs.resolved]
    exact h.resolved
  · intro site hsite path hpath
    rw [hs.linked, hs.resolved]
    exact fun hid hnone => (h.missed site hsite path hpath hid hnone).imp_right fun hmem => hs.reports.mem hmem
  · intro site hsite callee hcallee
    rw [hs.linked]
    exact fun hid => retains_of_eq hs.linked hs.resolved _ (h.called site hsite callee hcallee hid)

/-- An expression is reached at one place only. -/
def Once (sites : List Site) : Prop := (sites.map (·.expr.id)).Nodup

instance (sites : List Site) : Decidable (Once sites) := inferInstanceAs (Decidable (List.Nodup _))

theorem Once.eq (h : Once sites) {a b : Site} (ha : a ∈ sites) (hb : b ∈ sites) (hid : a.expr.id = b.expr.id) :
    a = b :=
  List.inj_on_of_nodup_map h ha hb hid

theorem Accurate.recordResolved (h : Accurate src outer sites s) (honce : Once sites) {site : Site}
    (hsite : site ∈ sites) {d : DeclId}
    (hmeans : ∀ path ∈ site.expr.path?, outer.pathAt? src site.func site.blocks path = some d) :
    Accurate src outer sites (recordResolved site.expr.id d env s).2 := by
  have hget : ∀ id, (Link.recordResolved site.expr.id d env s).2.program.resolved.get? id =
      if site.expr.id = id then some d else s.program.resolved.get? id := fun id => Table.get?_insert _ _ _ _
  refine ⟨h.covered, ?_, ?_, ?_⟩
  · intro other hother path hpath found hfound
    rw [hget] at hfound
    split at hfound
    · rename_i hid
      obtain rfl := honce.eq hsite hother hid
      obtain rfl := Option.some.inj hfound
      exact hmeans path hpath
    · exact h.resolved other hother path hpath found hfound
  · intro other hother path hpath hid hnone
    rw [hget] at hnone
    split at hnone
    · cases hnone
    · exact h.missed other hother path hpath hid hnone
  · intro other hother callee hcallee hid
    exact retains_recordResolved _ _ env s _ (h.called other hother callee hcallee hid)

theorem Accurate.recordLinked (h : Accurate src outer sites s) (honce : Once sites) {site : Site}
    (hsite : site ∈ sites)
    (hmissed : ∀ path ∈ site.expr.path?, s.program.resolved.get? site.expr.id = none →
      outer.pathAt? src site.func site.blocks path = none ∧
        (Problem.unresolvedName (pathText path)).diagnostic site.expr.span ∈ s.reports)
    (hcalled : ∀ callee ∈ site.expr.callee?, s.Settled callee.id) (ty : Ty) (env : LinkEnv) :
    Accurate src outer sites (recordLinked site.expr.id ty env s).2 := by
  refine ⟨?_, h.resolved, ?_, ?_⟩
  · intro id hid
    rcases List.mem_cons.1 hid with rfl | hid
    · exact ⟨site, hsite, rfl⟩
    · exact h.covered id hid
  · intro other hother path hpath hid hnone
    rcases List.mem_cons.1 hid with hid | hid
    · obtain rfl := honce.eq hother hsite hid
      exact hmissed path hpath hnone
    · exact h.missed other hother path hpath hid hnone
  · intro other hother callee hcallee hid
    refine retains_recordLinked _ _ env s _ ?_
    rcases List.mem_cons.1 hid with hid | hid
    · obtain rfl := honce.eq hother hsite hid
      exact hcalled callee hcallee
    · exact h.called other hother callee hcallee hid

theorem mem_reports_report (hloud : s.quiet = false) (span : Span) (p : Problem) :
    p.diagnostic span ∈ (report span p env s).2.reports := by
  show _ ∈ (if s.quiet then s else { s with reports := s.reports ++ [p.diagnostic span] }).reports
  simp [hloud]

theorem callee?_of_path {e : Expr} (h : e.path? = some path) : e.callee? = none := by
  cases e with
  | missing id => rfl
  | node id span shape =>
    cases shape with
    | call callee typeArgs args => exact nomatch h
    | _ => rfl

theorem Accurate.linkName (honce : Once sites) {e : Expr} (hpath : e.path? = some path)
    (hsite : ⟨e, func, blocks⟩ ∈ sites) (hshows : Shows env.source outer func blocks s)
    (h : Accurate env.source outer sites s) (body : Body) (hint : Option Ty) (access : Access) :
    Accurate env.source outer sites (linkExpr body hint access e env s).2 := by
  have hcalled : ∀ t : LinkState, ∀ callee ∈ e.callee?, t.Settled callee.id := by
    intro t callee hcallee
    rw [callee?_of_path hpath] at hcallee
    exact nomatch hcallee
  rw [linkExpr_of_path hpath, bind_apply]
  rcases checkable_unmarked.linkName_cases env s e.id e.span access path with
    ⟨hs, hnone⟩ | ⟨hfound, hs⟩ | ⟨decl, hfound, hs⟩
  · split
    · rename_i ty s₁ hrun
      exact absurd hrun (hnone ty s₁)
    · rename_i fault s₁ hrun
      rw [hrun] at hs
      exact hs ▸ h
  · have hmeans := hshows.resolve? hfound
    have hreport : Accurate env.source outer sites (report e.span (.unresolvedName (pathText path)) env s).2 :=
      lasting_accurate h (checkable_unmarked.report _ _ s)
    rw [← hs] at hreport
    split
    · rename_i ty s₁ hrun
      rw [hrun] at hs hreport
      refine Accurate.recordLinked hreport honce hsite (fun path' hpath' _ => ?_) (hcalled s₁) ty env
      obtain rfl := Option.some.inj (hpath.symm.trans hpath')
      refine ⟨hmeans.symm, ?_⟩
      exact hs ▸ mem_reports_report hshows.loud _ _
    · rename_i fault s₁ hrun
      rw [hrun] at hreport
      exact hreport
  · have hmeans := hshows.resolve? hfound
    have hrecord : Accurate env.source outer sites (Link.recordResolved e.id decl env s).2 := by
      refine h.recordResolved honce hsite fun path' hpath' => ?_
      obtain rfl := Option.some.inj (hpath.symm.trans hpath')
      exact hmeans.symm
    have hnamed := lasting_accurate hrecord hs
    have hget : (Link.linkName e.id e.span access path env s).2.program.resolved.get? e.id = some decl := by
      rw [hs.resolved]
      exact Table.get?_insert_self _ _ _
    split
    · rename_i ty s₁ hrun
      rw [hrun] at hnamed hget
      exact hnamed.recordLinked honce hsite (fun _ _ hnone => nomatch hget.symm.trans hnone) (hcalled s₁) ty env
    · rename_i fault s₁ hrun
      rw [hrun] at hnamed
      exact hnamed

theorem upholds_accurate (honce : Once sites) (outer : LinkState) (func : DeclId) :
    Upholds env (fun blocks e => ⟨e, func, blocks⟩ ∈ sites) (Shows env.source outer func)
      (Accurate env.source outer sites) where
  lasting := lasting_accurate
  opened := Shows.opened
  bound b h := h.bound b
  walkable blocks := by
    refine walkable_guarded lasting_accurate ?construct ?callee ?name ?linked
    case construct =>
      intro s id span ty fields struct hsite h
      exact h.recordResolved honce hsite fun path hpath => nomatch hpath
    case callee =>
      intro s callee func' hsite hrun hshows h
      obtain ⟨-, htarget⟩ := target_of_calledFunction? hrun
      obtain ⟨-, path, hpath, hfound⟩ := htarget func' rfl
      refine h.recordResolved honce hsite fun path' hpath' => ?_
      obtain rfl := Option.some.inj (hpath.symm.trans hpath')
      exact (hshows.resolve? hfound).symm
    case name =>
      intro s body hint access e hsite hpath hshows h
      obtain ⟨path, hpath⟩ := Option.isSome_iff_exists.1 hpath
      exact h.linkName honce hpath hsite hshows body hint access
    case linked =>
      intro s e ty hsite hpath hcalled h
      refine h.recordLinked honce hsite (fun path hpath' => ?_) hcalled ty env
      exact nomatch hpath.symm.trans hpath'

/-! ### Functions -/

theorem find?_foldl_push (frames : List Frame) (scopes : ScopeStack) (name : String) :
    (frames.foldl .push scopes).find? name = (frames.reverse.findSome? (·.get? name)).or (scopes.find? name) := by
  induction frames generalizing scopes with
  | nil => rfl
  | cons frame frames ih =>
    rw [List.foldl_cons, ih, ScopeStack.find?_push, List.reverse_cons, List.findSome?_append, Option.or_assoc,
      List.findSome?_singleton]

theorem findSome?_spaces (spaces : Namespaces) (around : List DeclId) (name : String) :
    (around.map fun d => (spaces.frame? d).getD {}).findSome? (·.get? name) =
      around.findSome? (spaces.find? · name) := by
  rw [List.findSome?_map]
  congr 1
  funext d
  show ((spaces.frame? d).getD {}).get? name = (spaces.frame? d).bind (·.get? name)
  cases spaces.frame? d with
  | none => rfl
  | some frame => rfl

/-- Nothing is open but the root frame, and names are bound as before. -/
structure Outermost (outer s : LinkState) : Prop where
  inner : s.scopes.inner = []
  root : s.scopes.root = outer.scopes.root
  spaces : s.spaces = outer.spaces
  loud : s.quiet = false

theorem Outermost.shows (h : Outermost outer s) {d : Decl} (hd : src.decl? func = some d) {generics params : Frame}
    (hgenerics : generics = ((src.visible func).filterMap src.generic?).foldl
      (fun frame g => frame.insert g.name g.decl) {})
    (hparams : params = (src.paramRib func).foldl (fun frame p => frame.insert p.1 p.2) {})
    (hscopes : s'.scopes = ((s.opened ((src.spacesAround func).reverse.map fun d =>
      (s.spaces.frame? d).getD {})).scopes.push generics).push params)
    (hspaces : s'.spaces = s.spaces) (hquiet : s'.quiet = s.quiet) : Shows src outer func [] s' := by
  refine ⟨fun name => ?_, hspaces.trans h.spaces, hquiet.trans h.loud⟩
  have hroot : s.scopes.find? name = outer.scopes.root.get? name := by
    simp [ScopeStack.find?, ScopeStack.frames, h.inner, h.root]
  have hgeneric : generics.get? name = ((src.genericRib (src.genericsOf func)).latest? name).or
      ((src.genericRib (src.interfaceGenerics d)).latest? name) := by
    rw [← Rib.latest?_append, ← Rib.get?_foldl_insert, hgenerics, Source.visible_eq hd, Source.genericsOf_eq hd,
      Source.genericRib, Source.genericRib, ← List.map_append, ← List.filterMap_append, List.foldl_map]
  have hribs : (src.ribsOf func).findSome? (·.latest? name) =
      ((src.paramRib func).latest? name).or (generics.get? name) := by
    rw [Source.ribsOf, hd, hgeneric, Option.map_some, Option.getD_some]
    simp only [findSome?_cons_or, List.findSome?_nil, Option.or_none]
  rw [hscopes, ScopeStack.find?_push, ScopeStack.find?_push, LinkState.opened, find?_foldl_push, ← List.map_reverse,
    List.reverse_reverse, findSome?_spaces, hroot, hparams, Rib.get?_foldl_insert, h.spaces, LinkState.nameAt?,
    List.nil_append, hribs, Option.or_assoc]

theorem Accurate.linkFunction (h : Accurate env.source outer sites s) (honce : Once sites) (hs : Outermost outer s)
    {d : Decl} (hd : env.source.decl? func = some d) {f : FunctionDecl} (hkind : d.kind = .function f)
    {block : BlockId} (hsites : ∀ p ∈ (env.trees.block block).spots env.source [], ⟨p.1, func, p.2⟩ ∈ sites)
    (hrun : Runs env (inNamespaces func (linkFunction func f.params block)) s () s') :
    Accurate env.source outer sites s' := by
  obtain ⟨s₁, hclosed, hrun⟩ := runs_inNamespaces hrun
  simp only [Link.linkFunction, runs_bind, runs_read, runs_inFunction] at hrun
  obtain ⟨host, generics, names, s₃, -, hgenerics, hnames, hrun, rfl⟩ := hrun
  obtain ⟨_, _, ⟨rfl, rfl⟩, _, s₂, hblock, hdrops⟩ := hrun
  obtain ⟨-, hframe⟩ := runs_genericFrame hgenerics
  obtain ⟨-, hrib⟩ := runs_mapM_nameOf hnames
  have hparams : names = env.source.paramRib func := by
    rw [hrib, Source.paramRib, hd, Option.map_some, Option.getD_some, hkind]
    rfl
  have hbody := (restores_linkBlock (upholds_accurate honce outer func) _ _ [] hsites).framed.of_runs hblock
  have hlinked := hbody.keeps (hs.shows hd hframe (congrArg (List.foldl _ _) hparams) rfl rfl rfl)
    (lasting_accurate h ⟨rfl, rfl, List.prefix_refl _⟩)
  have hunmarked : ∀ s drops, Unmarked s { s with program.drops := s.program.drops.insert block drops } :=
    fun s drops => ⟨rfl, rfl, List.prefix_refl _⟩
  have hdropped := lasting_accurate hlinked ((checkable_unmarked.scheduleDrops hunmarked _).of_runs hdrops)
  rw [hclosed]
  exact lasting_accurate hdropped ⟨rfl, rfl, List.prefix_refl _⟩

theorem Outermost.restored (h : Outermost outer s) (hs : Restored s s') : Outermost outer s' :=
  ⟨hs.scopes ▸ h.inner, hs.scopes ▸ h.root, hs.spaces.trans h.spaces, hs.quiet.trans h.loud⟩

theorem Accurate.linkBodies (honce : Once (env.sites s.bodies)) (hs : Outermost s s)
    (h : Accurate env.source s (env.sites s.bodies) s) (hrun : Runs env linkBodies s () s') :
    Accurate env.source s (env.sites s.bodies) s' := by
  simp only [Link.linkBodies, runs_bind, runs_get] at hrun
  obtain ⟨_, _, ⟨rfl, rfl⟩, hrun⟩ := hrun
  -- the functions are linked one after the other, and each finds the frames as the first one does
  suffices hall : ∀ (funcs : List DeclId) (t : LinkState), funcs ⊆ s.bodies → Outermost s t →
      Accurate env.source s (env.sites s.bodies) t → Runs env (funcs.forM _) t () s' →
      Accurate env.source s (env.sites s.bodies) s' from hall s.bodies s (List.Subset.refl _) hs h hrun
  intro funcs
  induction funcs with
  | nil =>
    intro t _ _ ht hrun
    obtain rfl := runs_forM_nil.1 hrun
    exact ht
  | cons func funcs ih =>
    intro t hsub houter ht hrun
    obtain ⟨t₁, hfunc, hrest⟩ := runs_forM_cons.1 hrun
    obtain ⟨d, ⟨generics, params, ret, _⟩, block, hd, hkind, rfl, hfunc⟩ := runs_linkBody hfunc
    have hsites : ∀ p ∈ (env.trees.block block).spots env.source [], ⟨p.1, func, p.2⟩ ∈ env.sites s.bodies := by
      intro p hp
      refine List.mem_flatMap.2 ⟨func, hsub List.mem_cons_self, ?_⟩
      rw [LinkEnv.sitesOf, hd, Option.map_some, hkind]
      exact List.mem_map_of_mem hp
    have hrestored := (framed_inNamespaces (restored_linkFunction func _ block) env).of_runs hfunc
    refine ih t₁ (fun x hx => hsub (List.mem_cons_of_mem _ hx)) (houter.restored hrestored) ?_ hrest
    exact ht.linkFunction honce houter hd hkind hsites hfunc

/-! ### Programs -/

instance : Enclosed Unmarked where
  close _ h := ⟨h.resolved, h.linked, h.reports⟩

theorem unmarked_declareAll : Framed Unmarked declareAll := by
  have hpassable : Passable False Unmarked := {
    linkTypeAt := fun host usage id env s => unmarked_of_steps (steps_linkTypeAt host usage id env s)
    report := fun span p _ _ env => unmarked_report span p
    write := fun f _ => .modify fun _ => ⟨rfl, rfl, List.prefix_refl _⟩
    note := fun _ => .modify fun _ => ⟨rfl, rfl, List.prefix_refl _⟩ }
  refine hpassable.declareAll not_false (fun space name decl => ?_) (fun span name env => unmarked_report span _) ?_
  · cases space with
    | none => exact .modify fun _ => ⟨rfl, rfl, List.prefix_refl _⟩
    | some space => exact .modify fun _ => ⟨rfl, rfl, List.prefix_refl _⟩
  · exact fun decl => .modify fun _ => ⟨rfl, rfl, List.prefix_refl _⟩

end Link

namespace Setup

def sites (setup : Setup) : List Site := setup.linkEnv.sites setup.declared.bodies

theorem accurate_of_link {setup : Setup} {p : Program} (h : setup.link.result = .ok p)
    (honce : Link.Once setup.sites) :
    ∃ s : LinkState, s.program = p ∧ s.reports = setup.link.reports ∧ s.linked = setup.link.linked ∧
      Link.Accurate setup.source setup.declared setup.sites s := by
  obtain ⟨s₁, s, -, hdeclare, hbodies, hp, hreports, hlinked, -⟩ := Setup.runs_of_link h
  have hdeclared : setup.declared = s₁ := congrArg Prod.snd hdeclare
  rw [sites, hdeclared] at honce ⊢
  refine ⟨s, hp, hreports, hlinked, ?_⟩
  have hrest : Link.AtRest s₁ := hdeclared ▸ Link.atRest_declareAll setup.linkEnv
  have hmarks : Link.Unmarked {} s₁ := (Link.unmarked_declareAll setup.linkEnv).of_runs hdeclare
  refine Link.Accurate.linkBodies honce ⟨hrest.inner, rfl, rfl, hrest.loud⟩ ⟨?_, ?_, ?_, ?_⟩ hbodies
  · intro id hid
    rw [hmarks.linked] at hid
    exact nomatch hid
  · intro site _ path _ d hd
    rw [hmarks.resolved] at hd
    exact nomatch hd
  · intro site _ path _ hid
    rw [hmarks.linked] at hid
    exact nomatch hid
  · intro site _ callee _ hid
    rw [hmarks.linked] at hid
    exact nomatch hid

/-- If every expression is reached once, the names that are linked in bodies are recorded with what they mean where
they stand, those of called functions among them. A name that means nothing there is not recorded but reported. -/
theorem names_resolve_lexically {setup : Setup} {p : Program} (h : setup.link.result = .ok p)
    (honce : Link.Once setup.sites) :
    (∀ id ∈ setup.link.linked, ∃ site ∈ setup.sites, site.expr.id = id) ∧
    ∀ site ∈ setup.sites, ∀ path, site.expr.path? = some path →
      (∀ d, p.resolved.get? site.expr.id = some d →
        setup.declared.pathAt? setup.source site.func site.blocks path = some d) ∧
      ((site.expr.id ∈ setup.link.linked ∨ ∃ call ∈ setup.sites, call.expr.callee? = some site.expr ∧
          call.expr.id ∈ setup.link.linked) →
        p.resolved.get? site.expr.id = setup.declared.pathAt? setup.source site.func site.blocks path ∧
        (setup.declared.pathAt? setup.source site.func site.blocks path = none →
          (Problem.unresolvedName (Link.pathText path)).diagnostic site.expr.span ∈ setup.link.reports)) := by
  obtain ⟨s, rfl, hreports, hlinked, hs⟩ := accurate_of_link h honce
  rw [← hreports, ← hlinked]
  refine ⟨hs.covered, fun site hsite path hpath => ⟨hs.resolved site hsite path hpath, fun hreached => ?_⟩⟩
  have hsettled : s.Settled site.expr.id := by
    rcases hreached with hid | ⟨call, hcall, hcallee, hid⟩
    · exact .inl hid
    · exact hs.called call hcall _ hcallee hid
  cases hfound : s.program.resolved.get? site.expr.id with
  | some d =>
    have hmeans := hs.resolved site hsite path hpath d hfound
    exact ⟨hmeans.symm, fun hnone => nomatch hmeans.symm.trans hnone⟩
  | none =>
    have hid : site.expr.id ∈ s.linked := hsettled.resolve_right (by simp [hfound])
    obtain ⟨hmeans, hreport⟩ := hs.missed site hsite path hpath hid hfound
    exact ⟨hmeans.symm, fun _ => hreport⟩

end Setup

/-- `fn f(x: int) { let x = x; { let x = x; x } x; f(x); ns::f; y }` in a namespace `ns`. -/
def shadowing : Setup where
  options := {}
  source := .ofSteps [
    .space "ns",
    .function "f",
    .nest ⟨0⟩ ⟨1⟩,
    .typeExpr (.named ["int"] []),
    .param ⟨1⟩ "x" ⟨0⟩ false,
    .expr (.name "x"),
    .binding "x" none (some ⟨0⟩) false false,
    .expr (.name "x"),
    .binding "x" none (some ⟨1⟩) false false,
    .expr (.name "x"),
    .exprStmt ⟨2⟩,
    .block [⟨1⟩, ⟨2⟩],
    .blockStmt ⟨0⟩,
    .expr (.name "x"),
    .exprStmt ⟨3⟩,
    .expr (.name "x"),
    .callName "f" [] [⟨4⟩],
    .exprStmt ⟨6⟩,
    .expr (.path ["ns", "f"]),
    .exprStmt ⟨7⟩,
    .expr (.name "y"),
    .exprStmt ⟨8⟩,
    .block [⟨0⟩, ⟨3⟩, ⟨4⟩, ⟨5⟩, ⟨6⟩, ⟨7⟩],
    .body ⟨1⟩ ⟨1⟩]

/-- The four meanings that `x` and `f` have, a path, and a name that means nothing. -/
theorem shadowing_resolves : ∃ p, shadowing.link.result = .ok p ∧
    [0, 1, 2, 3, 5, 7, 8].map (fun i => p.resolved.get? ⟨i⟩) =
      [some ⟨2⟩, some ⟨3⟩, some ⟨4⟩, some ⟨3⟩, some ⟨1⟩, some ⟨1⟩, none] ∧
    (∀ i ∈ [0, 1, 2, 3, 7, 8], (⟨i⟩ : ExprId) ∈ shadowing.link.linked) ∧
    ∀ site ∈ shadowing.sites, ∀ path, site.expr.path? = some path → site.expr.id ∈ shadowing.link.linked →
      p.resolved.get? site.expr.id = shadowing.declared.pathAt? shadowing.source site.func site.blocks path := by
  obtain ⟨p, hlink, hresolved⟩ : ∃ p, shadowing.link.result = .ok p ∧
      [0, 1, 2, 3, 5, 7, 8].map (fun i => p.resolved.get? ⟨i⟩) =
        [some ⟨2⟩, some ⟨3⟩, some ⟨4⟩, some ⟨3⟩, some ⟨1⟩, some ⟨1⟩, none] := exists_of_result (by decide +kernel)
  refine ⟨p, hlink, hresolved, by decide +kernel, fun site hsite path hpath hid => ?_⟩
  exact (((Setup.names_resolve_lexically hlink (by decide +kernel)).2 site hsite path hpath).2 (.inl hid)).1

end Linkage
