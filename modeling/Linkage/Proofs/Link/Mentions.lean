import Linkage.Proofs.Link.Annotations
import Linkage.Proofs.Link.Bindings
import Linkage.Proofs.Link.Passes

/-!
# What a mentioned type depends on

An annotation that is only mentioned becomes the same type in any two states that are alike to it: the tables that it
looks at are the same, and every name in it leads to the same declaration, or to a function in both. For a function is
no type, whichever it is, and leads nowhere in a path. So the types by which duplicate functions are found do not
depend on how many were found before, unless they mention a name that was no function's before.
-/

namespace Linkage

variable {decl : DeclId} {path : List String} {name : String}

def Source.isFunction (src : Source) (d : DeclId) : Bool := (src.decl? d).any (·.kind.isFunction)

theorem Source.isFunction_iff {src : Source} {d : DeclId} :
    src.isFunction d = true ↔ ∃ decl, src.decl? d = some decl ∧ decl.kind.isFunction = true := by
  rw [isFunction]
  cases src.decl? d <;> simp

/-- What two look-ups found is the same, or both found a function. -/
inductive Source.SameOrFunctions (src : Source) : Option DeclId → Option DeclId → Prop
  | same (o : Option DeclId) : SameOrFunctions src o o
  | functions {d d' : DeclId} (h : src.isFunction d = true) (h' : src.isFunction d' = true) :
      SameOrFunctions src (some d) (some d')

/-- Two paths end at the same, or at functions, or at the same node that is missing. -/
inductive Source.SameEnds (src : Source) : Except NodeRef (Option DeclId) → Except NodeRef (Option DeclId) → Prop
  | found {o o' : Option DeclId} (h : src.SameOrFunctions o o') : SameEnds src (.ok o) (.ok o')
  | missing (node : NodeRef) : SameEnds src (.error node) (.error node)

namespace Source.SameOrFunctions

variable {src : Source} {o o' o'' p p' : Option DeclId}

theorem symm (h : src.SameOrFunctions o o') : src.SameOrFunctions o' o := by
  cases h with
  | same => exact .same _
  | functions hd hd' => exact .functions hd' hd

theorem trans (h : src.SameOrFunctions o o') (h' : src.SameOrFunctions o' o'') : src.SameOrFunctions o o'' := by
  cases h with
  | same => exact h'
  | functions hd hd' =>
    cases h' with
    | same => exact .functions hd hd'
    | functions _ hd'' => exact .functions hd hd''

theorem or (h : src.SameOrFunctions o o') (h' : src.SameOrFunctions p p') :
    src.SameOrFunctions (o.or p) (o'.or p') := by
  cases h with
  | same =>
    cases o with
    | none => exact h'
    | some d => exact .same _
  | functions hd hd' => exact .functions hd hd'

end Source.SameOrFunctions

def FramesAlike (src : Source) (names : List String) (frame frame' : Frame) : Prop :=
  ∀ name ∈ names, src.SameOrFunctions (frame.get? name) (frame'.get? name)

/-- The names in the annotations of parameters that a caller passes arguments for. -/
def LinkEnv.paramNames (env : LinkEnv) : List String :=
  env.source.decls.flatMap fun d => match d.kind with
    | .parameter p => if p.implicit then [] else (env.trees.typeExpr p.ty).names.flatMap (·.1)
    | _ => []

theorem LinkEnv.mem_paramNames {env : LinkEnv} {param : DeclId} {d : Decl} {p : ParameterDecl}
    (hd : env.source.decl? param = some d) (hkind : d.kind = .parameter p) (hexplicit : p.implicit = false)
    {x : List String × Nat} (hx : x ∈ (env.trees.typeExpr p.ty).names) (hname : name ∈ x.1) :
    name ∈ env.paramNames := by
  refine List.mem_flatMap.2 ⟨d, List.mem_of_getElem? hd, ?_⟩
  rw [hkind]
  simp only [hexplicit]
  exact List.mem_flatMap.2 ⟨x, hx, hname⟩

namespace Link

/-- The states are alike to an annotation that is only mentioned and has no names but those given. -/
structure Alike (src : Source) (names : List String) (s t : LinkState) : Prop where
  tables : s.signatures.tables = t.signatures.tables
  root : FramesAlike src names s.scopes.root t.scopes.root
  inner : List.Forall₂ (FramesAlike src names) s.scopes.inner t.scopes.inner
  members : ∀ space, FramesAlike src names ((s.spaces.frame? space).getD {}) ((t.spaces.frame? space).getD {})

variable {α β : Type} {env : LinkEnv} {src : Source} {names : List String} {s t u : LinkState}

theorem framesAlike_refl (frame : Frame) : FramesAlike src names frame frame := fun _ _ => .same _

namespace Alike

theorem refl (s : LinkState) : Alike src names s s :=
  ⟨rfl, framesAlike_refl _, List.forall₂_same.2 fun frame _ => framesAlike_refl frame, fun _ => framesAlike_refl _⟩

theorem of_eq (htables : t.signatures.tables = s.signatures.tables) (hscopes : t.scopes = s.scopes)
    (hspaces : t.spaces = s.spaces) : Alike src names s t := by
  have hself : Alike src names s s := .refl s
  refine ⟨htables.symm, ?_, ?_, ?_⟩
  · rw [hscopes]
    exact hself.root
  · rw [hscopes]
    exact hself.inner
  · rw [hspaces]
    exact hself.members

theorem symm (h : Alike src names s t) : Alike src names t s := by
  refine ⟨h.tables.symm, fun name hname => (h.root name hname).symm, ?_,
    fun space name hname => (h.members space name hname).symm⟩
  exact h.inner.flip.imp fun _ _ halike name hname => (halike name hname).symm

theorem trans (h : Alike src names s t) (h' : Alike src names t u) : Alike src names s u := by
  refine ⟨h.tables.trans h'.tables, fun name hname => (h.root name hname).trans (h'.root name hname), ?_,
    fun space name hname => (h.members space name hname).trans (h'.members space name hname)⟩
  have hinner := h.inner
  have hinner' := h'.inner
  generalize s.scopes.inner = a, t.scopes.inner = b, u.scopes.inner = c at hinner hinner'
  induction hinner generalizing c with
  | nil =>
    cases hinner'
    exact .nil
  | cons hhead _ ih =>
    cases hinner' with
    | cons hhead' htail' => exact .cons (fun name hname => (hhead name hname).trans (hhead' name hname)) (ih _ htail')

theorem find? (h : Alike src names s t) (hname : name ∈ names) :
    src.SameOrFunctions (s.scopes.find? name) (t.scopes.find? name) := by
  rw [ScopeStack.find?, ScopeStack.find?, ScopeStack.frames, ScopeStack.frames]
  have hinner := h.inner
  generalize s.scopes.inner = a, t.scopes.inner = b at hinner
  induction hinner with
  | nil =>
    rw [List.nil_append, List.nil_append, List.findSome?_singleton, List.findSome?_singleton]
    exact h.root name hname
  | cons hhead _ ih =>
    have hcons : ∀ (frame : Frame) (frames : List Frame), List.findSome? (·.get? name) (frame :: frames) =
        (frame.get? name).or (List.findSome? (·.get? name) frames) := by
      intro frame frames
      rw [List.findSome?_cons]
      cases frame.get? name <;> rfl
    rw [List.cons_append, List.cons_append, hcons, hcons]
    exact (hhead name hname).or ih

theorem member (h : Alike src names s t) (space : DeclId) (hname : name ∈ names) :
    src.SameOrFunctions (s.spaces.find? space name) (t.spaces.find? space name) := by
  have hfind : ∀ spaces : Namespaces, spaces.find? space name = ((spaces.frame? space).getD {}).get? name := by
    intro spaces
    rw [Namespaces.find?]
    cases spaces.frame? space <;> rfl
  rw [hfind, hfind]
  exact h.members space name hname

theorem descend (h : Alike src names s t) (hpath : ∀ name ∈ path, name ∈ names) (d : DeclId) :
    src.SameEnds (s.spaces.descend src d path) (t.spaces.descend src d path) := by
  induction path generalizing d with
  | nil => exact .found (.same _)
  | cons segment rest ih =>
    rw [Namespaces.descend, Namespaces.descend]
    split
    · exact .missing _
    · split
      · have hmember := h.member d (hpath segment List.mem_cons_self)
        generalize s.spaces.find? d segment = o, t.spaces.find? d segment = o' at hmember
        cases hmember with
        | same =>
          cases o with
          | none => exact .found (.same _)
          | some member => exact ih (fun name hname => hpath name (List.mem_cons_of_mem _ hname)) member
        | functions hd hd' => exact descend_functions hd hd' rest
      · exact .found (.same _)
where
  descend_functions {d d' : DeclId} (hd : src.isFunction d = true) (hd' : src.isFunction d' = true)
      (path : List String) : src.SameEnds (s.spaces.descend src d path) (t.spaces.descend src d' path) := by
    cases path with
    | nil => exact .found (.functions hd hd')
    | cons segment rest =>
      have hnone : ∀ {e : DeclId} (spaces : Namespaces), src.isFunction e = true →
          spaces.descend src e (segment :: rest) = .ok none := by
        intro e spaces he
        obtain ⟨decl, hdecl, hfunction⟩ := Source.isFunction_iff.1 he
        rw [Namespaces.descend, hdecl]
        cases hkind : decl.kind <;> simp_all [DeclKind.isFunction, DeclKind.function?, DeclKind.isSpace]
      rw [hnone _ hd, hnone _ hd']
      exact .found (.same _)

theorem resolve? (h : Alike src names s t) (hpath : ∀ name ∈ path, name ∈ names) :
    src.SameEnds (s.resolve? src path) (t.resolve? src path) := by
  cases path with
  | nil => exact .found (.same _)
  | cons first rest =>
    have hfirst := h.find? (hpath first List.mem_cons_self)
    rw [LinkState.resolve?, LinkState.resolve?]
    generalize s.scopes.find? first = o, t.scopes.find? first = o' at hfirst
    cases hfirst with
    | same =>
      cases o with
      | none => exact .found (.same _)
      | some d => exact h.descend (fun name hname => hpath name (List.mem_cons_of_mem _ hname)) d
    | functions hd hd' => exact descend.descend_functions hd hd' rest

end Alike

/-! ### Actions that come to the same -/

/-- In states that are alike the actions end in the same way, and the states they end in are alike. -/
def Echoes (env : LinkEnv) (names : List String) (act act' : LinkM α) : Prop :=
  ∀ s t, Alike env.source names s t → (act env s).1 = (act' env t).1 ∧ Alike env.source names (act env s).2 (act' env t).2

namespace Echoes

theorem bind {x x' : LinkM α} {f f' : α → LinkM β} (hx : Echoes env names x x') (hf : ∀ a, Echoes env names (f a) (f' a)) :
    Echoes env names (x >>= f) (x' >>= f') := by
  intro s t h
  obtain ⟨hresult, hstate⟩ := hx s t h
  rw [bind_apply, bind_apply]
  generalize x env s = r, x' env t = r' at hresult hstate
  obtain ⟨a, s₁⟩ := r
  obtain ⟨a', t₁⟩ := r'
  obtain rfl : a = a' := hresult
  cases a with
  | error e => exact ⟨rfl, hstate⟩
  | ok a => exact hf a s₁ t₁ hstate

theorem bind_of_runs {x x' : LinkM α} {a a' : α} {f f' : α → LinkM β} (hx : ∀ s, Runs env x s a s)
    (hx' : ∀ s, Runs env x' s a' s) (h : Echoes env names (f a) (f' a')) : Echoes env names (x >>= f) (x' >>= f') := by
  intro s t hst
  rw [bind_apply, bind_apply, hx s, hx' t]
  exact h s t hst

theorem pure (a : α) : Echoes env names (pure a) (pure a) := fun _ _ h => ⟨rfl, h⟩

theorem throw (fault : Fault) : Echoes env names (throw fault : LinkM α) (throw fault) := fun _ _ h => ⟨rfl, h⟩

theorem signatures {f f' : Signatures → LinkM α}
    (h : ∀ sigs sigs' : Signatures, sigs.tables = sigs'.tables → Echoes env names (f sigs) (f' sigs')) :
    Echoes env names (signatures >>= f) (signatures >>= f') :=
  fun s t hst => h s.signatures t.signatures hst.tables s t hst

theorem resolve? (hpath : ∀ name ∈ path, name ∈ names) {f f' : Option DeclId → LinkM α}
    (h : ∀ o o', env.source.SameOrFunctions o o' → Echoes env names (f o) (f' o')) :
    Echoes env names (resolve? path >>= f) (resolve? path >>= f') := by
  intro s t hst
  have hends := hst.resolve? hpath
  have hresolve : ∀ s, Link.resolve? path env s = ofLookup (s.resolve? env.source path) env s := fun _ => rfl
  rw [bind_apply, bind_apply, hresolve, hresolve]
  generalize s.resolve? env.source path = r, t.resolve? env.source path = r' at hends
  cases hends with
  | found ho => exact h _ _ ho s t hst
  | missing node => exact ⟨rfl, hst⟩

theorem modify {f f' : LinkState → LinkState} (hf : ∀ s, Alike env.source names s (f s))
    (hf' : ∀ s, Alike env.source names s (f' s)) : Echoes env names (modify f : LinkM PUnit) (modify f') :=
  fun s t h => ⟨rfl, ((hf s).symm.trans h).trans (hf' t)⟩

theorem withFrame {frame frame' : Frame} {act act' : LinkM α} (hframe : FramesAlike env.source names frame frame')
    (h : Echoes env names act act') : Echoes env names (withFrame frame act) (withFrame frame' act') := by
  intro s t hst
  obtain ⟨hresult, hstate⟩ := h { s with scopes := s.scopes.push frame } { t with scopes := t.scopes.push frame' }
    ⟨hst.tables, hst.root, .cons hframe hst.inner, hst.members⟩
  refine ⟨hresult, hstate.tables, hstate.root, ?_, hstate.members⟩
  have hinner := hstate.inner
  show List.Forall₂ _ (List.tail _) (List.tail _)
  generalize (act env { s with scopes := s.scopes.push frame }).2.scopes.inner = a,
    (act' env { t with scopes := t.scopes.push frame' }).2.scopes.inner = b at hinner
  cases hinner with
  | nil => exact .nil
  | cons _ htail => exact htail

theorem withFrames {frames frames' : List Frame} {act act' : LinkM α}
    (hframes : List.Forall₂ (FramesAlike env.source names) frames frames') (h : Echoes env names act act') :
    Echoes env names (withFrames frames act) (withFrames frames' act') := by
  induction hframes with
  | nil => exact h
  | cons hframe _ ih => exact .withFrame hframe ih

end Echoes

theorem compound_echoes : Compound fun _ act => Echoes env names act act := ⟨.pure, .bind⟩

theorem Consults.echoes {act : LinkM α} (h : Consults act) : Echoes env names act act := by
  intro s t hst
  obtain ⟨r, hr⟩ := h env
  have heq : ∀ s, act env s = (r, s) := hr env.source.items
  rw [heq s, heq t]
  exact ⟨rfl, hst⟩

theorem Echoes.inNamespaces {act act' : LinkM α} (h : Echoes env names act act') :
    Echoes env names (inNamespaces decl act) (inNamespaces decl act') := by
  refine .bind (consults_spacesAround decl).echoes fun around s t hst => ?_
  refine Echoes.withFrames (?_ : List.Forall₂ _ (List.map _ _) (List.map _ _)) h s t hst
  rw [List.forall₂_map_left_iff, List.forall₂_map_right_iff, List.forall₂_same]
  exact fun space _ => hst.members space

theorem echoes_report (span : Span) (p : Problem) : Echoes env names (report span p) (report span p) := by
  have hreport : ∀ s : LinkState, Alike env.source names s
      (if s.quiet then s else { s with reports := s.reports ++ [p.diagnostic span] }) := by
    intro s
    split
    · exact .refl s
    · exact .of_eq rfl rfl rfl
  exact .modify hreport hreport

theorem echoes_noteCheck (c c' : BoundCheck) : Echoes env names (noteCheck c) (noteCheck c') := by
  have hcheck : ∀ (c : BoundCheck) (s : LinkState), Alike env.source names s (if s.quiet then s else
      { s with checks := s.checks ++ [c], reports := s.reports ++ c.reported.toList }) := by
    intro c s
    split
    · exact .refl s
    · exact .of_eq rfl rfl rfl
  exact .modify (hcheck c) (hcheck c')

/-! ### Annotations -/

theorem genericsOf_of_tables {sigs sigs' : Signatures} (h : sigs.tables = sigs'.tables) :
    sigs.genericsOf = sigs'.genericsOf := by
  funext d
  rw [Signatures.genericsOf, Signatures.genericsOf, (Prod.mk.inj h).1]

theorem env_of_tables {sigs sigs' : Signatures} (h : sigs.tables = sigs'.tables) : sigs.env = sigs'.env :=
  Signatures.env_congr (Signatures.view_of_tables h)

theorem echoes_fillTypeArgs (name : String) (span : Span) (generics rest : List GenericId) (args : List Ty) :
    Echoes env names (fillTypeArgs name span generics rest args) (fillTypeArgs name span generics rest args) := by
  induction rest generalizing args with
  | nil => exact .pure _
  | cons g rest ih =>
    unfold fillTypeArgs
    refine .signatures fun sigs sigs' htables => ?_
    have hdefaults : sigs.defaults = sigs'.defaults := congrArg (·.2.2.1) htables
    rw [hdefaults]
    split
    · exact .bind (consults_sliceTo _ _).echoes fun _ => ih _
    · exact .bind (consults_genericOf g).echoes fun _ => .bind (echoes_report _ _) fun _ => ih _

theorem echoes_completeTypeArgs (decl : DeclId) (args : List Ty) (span : Span) :
    Echoes env names (completeTypeArgs decl args span) (completeTypeArgs decl args span) := by
  rw [completeTypeArgs_eq]
  refine .signatures fun sigs sigs' htables => ?_
  rw [genericsOf_of_tables htables]
  refine .bind (consults_nameOf decl).echoes fun name => .bind (compound_echoes.reportIf (echoes_report _ _)) fun _ => ?_
  exact .bind (consults_sliceFrom _ _).echoes fun _ => echoes_fillTypeArgs _ _ _ _ _

theorem echoes_checkBounds (decl : DeclId) (args : List Ty) (span : Span) :
    Echoes env names (checkBounds decl args span) (checkBounds decl args span) := by
  unfold checkBounds
  refine .signatures fun sigs sigs' htables => ?_
  rw [genericsOf_of_tables htables]
  refine compound_echoes.forM fun (g, arg) _ => .signatures fun seen seen' hseen => ?_
  have hviolated : ∀ generics, seen.violatedBound? generics args g arg = seen'.violatedBound? generics args g arg := by
    intro generics
    have hbounds : seen.bounds = seen'.bounds := congrArg (·.2.1) hseen
    rw [Signatures.violatedBound?, Signatures.violatedBound?, hbounds, env_of_tables hseen]
  rw [hviolated]
  refine .bind (compound_echoes.option fun bound _ => ?_) fun _ => echoes_noteCheck _ _
  exact (consults_boundViolation span g arg bound).echoes

theorem echoes_linkDeclared (host : Option DeclId) (id : TypeExprId) (span : Span) (decl : DeclId)
    {linkArgs : LinkM (List Ty)} (hargs : Echoes env names linkArgs linkArgs) :
    Echoes env names (linkDeclared host .mention id span decl linkArgs) (linkDeclared host .mention id span decl linkArgs) := by
  refine .bind hargs fun written => .bind (echoes_completeTypeArgs decl written span) fun args => ?_
  exact .bind (echoes_checkBounds decl args span) fun _ => .pure _

theorem echoes_linkNamed (host : Option DeclId) (id : TypeExprId) (span : Span)
    (hpath : ∀ name ∈ path, name ∈ names) (isBare : Bool) {linkArgs : LinkM (List Ty)} (hargs : Echoes env names linkArgs linkArgs) :
    Echoes env names (linkNamed host .mention id span path isBare linkArgs)
      (linkNamed host .mention id span path isBare linkArgs) := by
  unfold linkNamed
  split
  · split
    · exact .pure _
    · exact .bind (echoes_report _ _) fun _ => .pure _
  · refine .resolve? hpath fun o o' ho => ?_
    cases ho with
    | same =>
      cases o with
      | none => exact .bind (echoes_report _ _) fun _ => .pure _
      | some decl =>
        refine .bind (consults_declOf decl).echoes fun d => ?_
        cases d.kind with
        | genericParam g =>
          dsimp only
          split
          · exact .pure _
          · exact .bind (echoes_report _ _) fun _ => .pure _
        | struct | variant | interface | union | typeAlias => exact echoes_linkDeclared host id span decl hargs
        | var | parameter | function | space => exact .bind (echoes_report _ _) fun _ => .pure _
    | @functions d d' hd hd' =>
      -- whichever function it is, it is no type
      have hfunction : ∀ e : DeclId, env.source.isFunction e = true → ∃ decl f, env.source.decl? e = some decl ∧
          decl.kind = .function f := by
        intro e he
        obtain ⟨decl, hdecl, hkind⟩ := Source.isFunction_iff.1 he
        cases hk : decl.kind with
        | function f => exact ⟨decl, f, hdecl, hk⟩
        | _ => simp [DeclKind.isFunction, DeclKind.function?, hk] at hkind
      obtain ⟨decl, f, hdecl, hkind⟩ := hfunction d hd
      obtain ⟨decl', f', hdecl', hkind'⟩ := hfunction d' hd'
      refine .bind_of_runs (fun _ => runs_declOf.2 ⟨hdecl, rfl⟩) (fun _ => runs_declOf.2 ⟨hdecl', rfl⟩) ?_
      rw [hkind, hkind']
      exact .bind (echoes_report _ _) fun _ => .pure _

theorem echoes_linkType (host : Option DeclId) {t : TypeExpr} (h : ∀ x ∈ t.names, ∀ name ∈ x.1, name ∈ names) :
    Echoes env names (linkType host .mention t) (linkType host .mention t) :=
  Annotating.linkType ⟨compound_echoes, .throw, fun id span _ _ hpath hargs =>
    echoes_linkNamed host id span hpath _ hargs⟩ t h

/-! ### Parameters -/

theorem echoes_inGenerics {act : Option DeclId → LinkM α}
    (h : ∀ host, Echoes env names (act host) (act host)) : Echoes env names (inGenerics decl act) (inGenerics decl act) := by
  refine .bind (consults_genericHost decl).echoes fun host => ?_
  exact .bind (consults_genericFrame decl).echoes fun frame => .withFrame (framesAlike_refl frame) (h host)

theorem echoes_quietly {act : LinkM α} (h : Echoes env names act act) : Echoes env names (quietly act) (quietly act) := by
  intro s t hst
  obtain ⟨hresult, hstate⟩ := h { s with quiet := true } { t with quiet := true }
    ⟨hst.tables, hst.root, hst.inner, hst.members⟩
  exact ⟨hresult, hstate.tables, hstate.root, hstate.inner, hstate.members⟩

theorem Echoes.declOf {id : DeclId} {f f' : Decl → LinkM α}
    (h : ∀ d, env.source.decl? id = some d → Echoes env names (f d) (f' d)) :
    Echoes env names (declOf id >>= f) (declOf id >>= f') := by
  cases hd : env.source.decl? id with
  | some d => exact .bind_of_runs (fun _ => runs_declOf.2 ⟨hd, rfl⟩) (fun _ => runs_declOf.2 ⟨hd, rfl⟩) (h d hd)
  | none =>
    intro s t hst
    have hmissing : ∀ s, Link.declOf id env s = (.error (.missing id.ref), s) := by
      intro s
      show ofOption id (env.source.decl? id) env s = _
      rw [hd]
      rfl
    rw [bind_apply, bind_apply, hmissing s, hmissing t]
    exact ⟨rfl, hst⟩

theorem echoes_mentionedParams (decl : DeclId) :
    Echoes env env.paramNames (mentionedParams decl) (mentionedParams decl) := by
  refine .bind (consults_declOf decl).echoes fun d => ?_
  split
  · refine .inNamespaces (echoes_inGenerics fun host => echoes_quietly ?_)
    refine .bind (compound_echoes.mapM fun param _ => .declOf fun pd hpd => ?_) fun _ => .pure _
    split
    · rename_i p hkind
      split
      · exact .pure _
      · rename_i hexplicit
        have hlink : Echoes env env.paramNames (linkTypeAt host .mention p.ty) (linkTypeAt host .mention p.ty) :=
          echoes_linkType host fun x hx name hname =>
            env.mem_paramNames hpd hkind (Bool.eq_false_iff.2 hexplicit) hx hname
        exact .bind hlink fun _ => .pure _
    · exact .pure _
  · exact .pure _

theorem Alike.mentionedParams (h : Alike env.source env.paramNames s t) {types : List Ty}
    (hrun : Runs env (mentionedParams decl) s types s) : Runs env (mentionedParams decl) t types t := by
  have hresult := (echoes_mentionedParams decl s t h).1
  rw [hrun] at hresult
  exact Prod.ext hresult.symm (looks_mentionedParams decl env t)

/-! ### A name that goes from one function to another -/

/-- Binding a name to a function makes no difference if it was bound to a function before. -/
theorem alike_bind (hinner : s.scopes.inner = []) {space : Option DeclId} {first : DeclId}
    (hbound : name ∈ names → ∃ d, s.bound? space name = some d ∧ src.isFunction d = true)
    (hfirst : src.isFunction first = true) : Alike src names s (s.bind space name first) := by
  have hinsert : ∀ frame : Frame, (name ∈ names → ∃ d, frame.get? name = some d ∧ src.isFunction d = true) →
      FramesAlike src names frame (frame.insert name first) := by
    intro frame hget other hother
    rw [Table.get?_insert]
    split
    · rename_i heq
      subst heq
      obtain ⟨d, hd, hfunction⟩ := hget hother
      rw [hd]
      exact .functions hfunction hfirst
    · exact .same _
  have hself : Alike src names s s := .refl s
  cases space with
  | none =>
    have hdeclare : (s.bind none name first).scopes = { s.scopes with root := s.scopes.root.insert name first } := by
      simp [LinkState.bind, ScopeStack.declare, hinner]
    have hroot : s.bound? none name = s.scopes.root.get? name := by
      simp [LinkState.bound?, ScopeStack.find?, ScopeStack.frames, hinner]
    refine ⟨rfl, ?_, ?_, hself.members⟩
    · rw [hdeclare]
      exact hinsert _ (hroot ▸ hbound)
    · rw [hdeclare]
      exact hself.inner
  | some space =>
    refine ⟨rfl, hself.root, hself.inner, fun other => ?_⟩
    show FramesAlike src names _ (((s.spaces.declare space name first).members.get? other).getD {})
    rw [Namespaces.declare, Table.get?_insert]
    split
    · rename_i heq
      subst heq
      refine hinsert _ fun hname => ?_
      obtain ⟨d, hd, hfunction⟩ := hbound hname
      obtain ⟨frame, hframe, hget⟩ := Option.bind_eq_some_iff.1 hd
      refine ⟨d, ?_, hfunction⟩
      rw [hframe]
      exact hget
    · exact hself.members other

end Link

end Linkage
