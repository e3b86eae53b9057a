import Linkage.Proofs.Inference.Scoping
import Linkage.Proofs.Link.Run
import Linkage.Proofs.Source.Owners
import Linkage.Proofs.Source.Wholeness

/-!
# Looking things up

Linking keeps identifiers: in frames, among the members of namespaces, in the types of signatures, with the names that
were resolved. All of them lead to nodes, for what linking writes down it has found in the unit or among what it wrote
down before. `Finds` says this of an action.
-/

namespace Linkage

variable {decl : DeclId} {name : String}

/-! ### Types that can be shown -/

/-- Declared types exist. How many arguments they are given does not matter. -/
def Source.presence (src : Source) : TyRules where
  unknown := True
  arity decl _ := src.HasDecl decl

abbrev Ty.Present (src : Source) (t : Ty) : Prop := t.Fits src.presence src.HasGeneric

namespace Source

variable {src : Source}

theorem exists_declName {id : DeclId} (h : src.HasDecl id) : ∃ name, src.declName id = .ok name := by
  obtain ⟨d, hd⟩ := Option.isSome_iff_exists.1 h
  exact ⟨d.name, by rw [declName, hd]⟩

theorem exists_showTys {ts : List Ty} (h : ∀ t ∈ ts, ∃ text, src.showTy t = .ok text) :
    ∃ texts, src.showTys ts = .ok texts := by
  induction ts with
  | nil => exact ⟨[], by rw [showTys]⟩
  | cons t ts ih =>
    rw [showTys]
    refine exists_ok_bind (h t List.mem_cons_self) fun text => ?_
    exact exists_ok_bind (ih fun u hu => h u (List.mem_cons_of_mem _ hu)) fun texts => ⟨_, rfl⟩

theorem exists_showTy {t : Ty} (h : t.Present src) : ∃ text, src.showTy t = .ok text := by
  induction t using Ty.inductionOn with
  | prim p => exact ⟨_, by rw [showTy]⟩
  | literal kind => cases kind <;> exact ⟨_, by rw [showTy]⟩
  | unknown => exact ⟨_, by rw [showTy]⟩
  | param g =>
    obtain ⟨p, hp, -⟩ := h.inScope g (by simp [Ty.occurrences])
    exact ⟨p.name, by rw [showTy, genericName, hp]⟩
  | linked decl args ih =>
    have hargs : ∀ a ∈ args, ∃ text, src.showTy a = .ok text := fun a ha => ih a ha (h.of_mem_args ha)
    cases args with
    | nil =>
      rw [showTy]
      exact exists_declName h.arity
    | cons arg args =>
      obtain ⟨harg, hargs⟩ := List.forall_mem_cons.1 hargs
      rw [showTy]
      refine exists_ok_bind (exists_declName h.arity) fun _ => exists_ok_bind harg fun _ => ?_
      exact exists_ok_bind (exists_showTys hargs) fun _ => ⟨_, rfl⟩
  | pointer inner ih =>
    rw [showTy]
    exact exists_ok_bind (ih h.of_pointer) fun _ => ⟨_, rfl⟩
  | reference inner ih =>
    rw [showTy]
    exact exists_ok_bind (ih h.of_reference) fun _ => ⟨_, rfl⟩
  | array elem len ih =>
    cases len <;> rw [showTy] <;> exact exists_ok_bind (ih h.of_array) fun _ => ⟨_, rfl⟩
  | function params ret ihs ih =>
    obtain ⟨hparams, hret⟩ := h.of_function
    rw [showTy]
    refine exists_ok_bind (exists_showTys fun p hp => ihs p hp (hparams p hp)) fun _ => ?_
    exact exists_ok_bind (ih hret) fun _ => ⟨_, rfl⟩

end Source

/-! ### What is written down -/

/-- Every value that was ever written into the table has `P`. -/
def Table.Within {κ α : Type} (P : α → Prop) (t : Table κ α) : Prop := ∀ entry ∈ t.entries, P entry.2

namespace Table

variable {κ α : Type} {P : α → Prop} {t : Table κ α}

theorem within_empty : ({} : Table κ α).Within P := nofun

theorem Within.insert (h : t.Within P) (k : κ) {a : α} (ha : P a) : (t.insert k a).Within P :=
  List.forall_mem_cons.2 ⟨ha, h⟩

theorem Within.foldl_insert {γ : Type} {key : γ → κ} {value : γ → α} {l : List γ} (hl : ∀ x ∈ l, P (value x))
    (h : t.Within P) : (l.foldl (fun t x => t.insert (key x) (value x)) t).Within P := by
  induction l generalizing t with
  | nil => exact h
  | cons x l ih =>
    obtain ⟨hx, hl⟩ := List.forall_mem_cons.1 hl
    exact ih hl (h.insert (key x) hx)

theorem Within.of_get? [DecidableEq κ] (h : t.Within P) {k : κ} {a : α} (hget : t.get? k = some a) : P a := by
  obtain ⟨entry, hentry, rfl⟩ := Option.map_eq_some_iff.1 hget
  exact h entry (List.mem_of_find?_eq_some hentry)

end Table

structure Signatures.Present (src : Source) (sigs : Signatures) : Prop where
  generics : sigs.generics.Within fun gs => ∀ g ∈ gs, src.HasGeneric g
  bounds : sigs.bounds.Within (Ty.Present src)
  defaults : sigs.defaults.Within (Ty.Present src)
  declTypes : sigs.declTypes.Within (Ty.Present src)
  functions : sigs.functions.Within fun sig => (∀ p ∈ sig.params, p.ty.Present src) ∧ sig.ret.Present src
  fields : sigs.fields.Within fun fields => ∀ f ∈ fields, f.2.Present src
  aliasTargets : sigs.aliasTargets.Within (Ty.Present src)

namespace Signatures

variable {src : Source} {sigs : Signatures}

theorem Present.genericsOf (h : sigs.Present src) (decl : DeclId) : ∀ g ∈ sigs.genericsOf decl, src.HasGeneric g := by
  unfold Signatures.genericsOf
  cases hget : sigs.generics.get? decl with
  | none => exact nofun
  | some gs => exact h.generics.of_get? hget

theorem Present.aliasesFit (h : sigs.Present src) : sigs.env.AliasesFit src.presence src.HasGeneric := by
  intro decl args t ht htarget
  obtain ⟨target, hget, rfl⟩ := Option.map_eq_some_iff.1 htarget
  exact (h.aliasTargets.of_get? hget).subst_of_fits (fun a ha => ht.of_mem_args ha) _

theorem Present.violatedBound (h : sigs.Present src) {generics : List GenericId} {args : List Ty}
    (hargs : ∀ a ∈ args, a.Present src) {g : GenericId} {arg bound : Ty}
    (hbound : sigs.violatedBound? generics args g arg = some bound) : bound.Present src := by
  obtain ⟨declared, hget, hbound⟩ := Option.bind_eq_some_iff.1 hbound
  split at hbound
  · exact nomatch hbound
  · dsimp only at hbound
    split at hbound
    · exact nomatch hbound
    · obtain rfl := Option.some.inj hbound
      exact (h.bounds.of_get? hget).subst_of_fits hargs _

theorem Present.fieldType (h : sigs.Present src) {args : List Ty}
    (hargs : ∀ a ∈ args, a.Present src) {t : Ty} (ht : sigs.fieldType? decl args name = some t) : t.Present src := by
  obtain ⟨fields, hget, ht⟩ := Option.bind_eq_some_iff.1 ht
  obtain ⟨declared, hlookup, ht⟩ := Option.bind_eq_some_iff.1 ht
  obtain rfl := Option.some.inj ht
  obtain ⟨before, after, hmem, -⟩ := List.lookup_eq_some_iff.1 hlookup
  have hdeclared : declared.Present src := h.fields.of_get? hget (name, declared) (by simp [hmem])
  exact hdeclared.subst_of_fits hargs _

end Signatures

def Source.HasBody (src : Source) (id : DeclId) : Prop :=
  ∃ d f block, src.decl? id = some d ∧ d.kind = .function f ∧ f.body = some block

/-- All that was written down so far leads to nodes of the unit. -/
structure LinkState.Intact (src : Source) (s : LinkState) : Prop where
  signatures : s.signatures.Present src
  frames : ∀ frame ∈ s.scopes.frames, frame.Within src.HasDecl
  spaces : s.spaces.members.Within fun frame => frame.Within src.HasDecl
  bodies : ∀ d ∈ s.bodies, src.HasBody d
  locals : ∀ l ∈ s.locals, ∀ d ∈ l, src.HasDecl d
  resolved : s.program.resolved.Within src.HasDecl

namespace LinkState

variable {src : Source} {s s' : LinkState}

/-- Where linking keeps identifiers. -/
def leads (s : LinkState) :=
  (s.signatures, s.scopes, s.spaces, s.bodies, s.locals, s.program.resolved)

theorem Intact.of_eq (h : s.Intact src) (heq : s'.leads = s.leads) : s'.Intact src := by
  simp only [leads, Prod.mk.injEq] at heq
  obtain ⟨hsignatures, hscopes, hspaces, hbodies, hlocals, hresolved⟩ := heq
  exact ⟨hsignatures ▸ h.signatures, hscopes ▸ h.frames, hspaces ▸ h.spaces, hbodies ▸ h.bodies,
    hlocals ▸ h.locals, hresolved ▸ h.resolved⟩

theorem intact_empty : ({} : LinkState).Intact src where
  signatures := ⟨nofun, nofun, nofun, nofun, nofun, nofun, nofun⟩
  frames _ hframe := List.mem_singleton.1 hframe ▸ Table.within_empty
  spaces := Table.within_empty
  bodies := nofun
  locals := nofun
  resolved := Table.within_empty

theorem Intact.push (h : s.Intact src) {frame : Frame} (hframe : frame.Within src.HasDecl) :
    { s with scopes := s.scopes.push frame }.Intact src :=
  { h with frames := List.forall_mem_cons.2 ⟨hframe, h.frames⟩ }

theorem Intact.pop (h : s.Intact src) : { s with scopes := s.scopes.pop }.Intact src := by
  refine { h with frames := fun frame hframe => ?_ }
  rcases List.mem_append.1 hframe with hframe | hframe
  · exact h.frames frame (List.mem_append_left _ (List.mem_of_mem_tail hframe))
  · exact h.frames frame (List.mem_append_right _ hframe)

theorem Intact.declare (h : s.Intact src) (name : String) (hdecl : src.HasDecl decl) :
    { s with scopes := s.scopes.declare name decl }.Intact src := by
  have hframes : ∀ frame ∈ (s.scopes.declare name decl).frames, frame.Within src.HasDecl := by
    have hold := h.frames
    cases hinner : s.scopes.inner with
    | nil =>
      simp only [ScopeStack.frames, ScopeStack.declare, hinner, List.nil_append, List.forall_mem_singleton] at hold ⊢
      exact hold.insert name hdecl
    | cons frame outer =>
      simp only [ScopeStack.frames, ScopeStack.declare, hinner, List.cons_append, List.forall_mem_cons] at hold ⊢
      exact ⟨hold.1.insert name hdecl, hold.2⟩
  exact { h with frames := hframes }

theorem Intact.declareMember (h : s.Intact src) (space : DeclId) (name : String)
    (hdecl : src.HasDecl decl) : { s with spaces := s.spaces.declare space name decl }.Intact src := by
  have hframe : ((s.spaces.frame? space).getD {}).Within src.HasDecl := by
    cases hget : s.spaces.frame? space with
    | none => exact Table.within_empty
    | some frame => exact h.spaces.of_get? hget
  exact { h with spaces := h.spaces.insert space (hframe.insert name hdecl) }

theorem Intact.find (h : s.Intact src) (hfind : s.scopes.find? name = some decl) : src.HasDecl decl := by
  obtain ⟨frame, hframe, hget⟩ := List.exists_of_findSome?_eq_some hfind
  exact (h.frames frame hframe).of_get? hget

theorem Intact.findInnermost (h : s.Intact src)
    (hfind : s.scopes.findInnermost? name = some decl) : src.HasDecl decl := by
  have hmem : s.scopes.innermost ∈ s.scopes.frames := by
    unfold ScopeStack.innermost ScopeStack.frames
    cases s.scopes.inner <;> simp
  exact (h.frames _ hmem).of_get? hfind

theorem Intact.findMember (h : s.Intact src) {space : DeclId}
    (hfind : s.spaces.find? space name = some decl) : src.HasDecl decl := by
  obtain ⟨frame, hframe, hget⟩ := Option.bind_eq_some_iff.1 hfind
  exact (h.spaces.of_get? hframe).of_get? hget

theorem Intact.descend (h : s.Intact src) (hdecl : src.HasDecl decl) (path : List String) :
    ∃ found, s.spaces.descend src decl path = .ok found ∧ ∀ d ∈ found, src.HasDecl d := by
  induction path generalizing decl with
  | nil => exact ⟨some decl, rfl, by simpa using hdecl⟩
  | cons segment rest ih =>
    obtain ⟨d, hd⟩ := Option.isSome_iff_exists.1 hdecl
    simp only [Namespaces.descend, hd]
    split
    · split
      · rename_i member hmember
        exact ih (h.findMember hmember)
      · exact ⟨none, rfl, nofun⟩
    · exact ⟨none, rfl, nofun⟩

/-- A path leads to a declaration, or nowhere, but never past one that does not exist. -/
theorem Intact.resolve (h : s.Intact src) (path : List String) :
    ∃ found, s.resolve? src path = .ok found ∧ ∀ d ∈ found, src.HasDecl d := by
  unfold resolve?
  split
  · exact ⟨none, rfl, nofun⟩
  · split
    · exact ⟨none, rfl, nofun⟩
    · rename_i decl hfind
      exact h.descend (h.find hfind) _

end LinkState

namespace Link

variable {α β : Type} {env : LinkEnv} {P : α → Prop} {Q : β → Prop}

/-! ### Actions -/

/-- A parameter that stands where items stand. -/
def Misplaced (src : Source) (decl : DeclId) : Prop :=
  decl ∈ src.owners ∧ ∃ d, src.decl? decl = some d ∧ d.kind.isParameter = true

/-- Run on an intact state, the action leaves one. What it results in has `P`, and the only way for it to fail
is a parameter among the items. -/
def Finds (env : LinkEnv) (act : LinkM α) (P : α → Prop) : Prop :=
  ∀ s : LinkState, s.Intact env.source → (act env s).2.Intact env.source ∧
    match (act env s).1 with
    | .ok a => P a
    | .error fault => ∃ decl, fault = .notItem decl ∧ Misplaced env.source decl

abbrev Safe (env : LinkEnv) (act : LinkM α) : Prop := Finds env act fun _ => True

theorem Finds.pure {a : α} (h : P a) : Finds env (pure a : LinkM α) P := fun _ hs => ⟨hs, h⟩

theorem Finds.imp {act : LinkM α} {P' : α → Prop} (h : Finds env act P) (himp : ∀ a, P a → P' a) :
    Finds env act P' := by
  intro s hs
  obtain ⟨hintact, hresult⟩ := h s hs
  refine ⟨hintact, ?_⟩
  split at hresult
  · exact himp _ hresult
  · exact hresult

theorem Finds.bind {x : LinkM α} {f : α → LinkM β} (hx : Finds env x P) (hf : ∀ a, P a → Finds env (f a) Q) :
    Finds env (x >>= f) Q := by
  intro s hs
  obtain ⟨hintact, hresult⟩ := hx s hs
  rw [bind_apply]
  cases hrun : x env s with
  | mk result s₁ =>
    rw [hrun] at hintact hresult
    cases result with
    | ok a => exact hf a hresult s₁ hintact
    | error fault => exact ⟨hintact, hresult⟩

theorem Finds.seq {x : LinkM α} {f : α → LinkM β} (hx : Safe env x) (hf : ∀ a, Finds env (f a) Q) :
    Finds env (x >>= f) Q := hx.bind fun a _ => hf a

theorem compound_safe : Compound fun _ act => Safe env act := ⟨fun _ => .pure trivial, .seq⟩

theorem Finds.notItem (h : Misplaced env.source decl) : Finds env (throw (.notItem decl) : LinkM α) P := fun _ hs => ⟨hs, decl, rfl, h⟩

theorem finds_get : Finds env (get : LinkM LinkState) (LinkState.Intact env.source) := fun _ hs => ⟨hs, hs⟩

theorem finds_read : Finds env (read : LinkM LinkEnv) (· = env) := fun _ hs => ⟨hs, rfl⟩

theorem finds_set {s : LinkState} (h : s.Intact env.source) : Safe env (set s : LinkM PUnit) :=
  fun _ _ => ⟨h, trivial⟩

theorem finds_modify {f : LinkState → LinkState} (h : ∀ s, s.Intact env.source → (f s).Intact env.source) :
    Safe env (modify f : LinkM PUnit) := fun s hs => ⟨h s hs, trivial⟩

theorem finds_modify_other {f : LinkState → LinkState} (h : ∀ s, (f s).leads = s.leads) :
    Safe env (modify f : LinkM PUnit) := finds_modify fun s hs => hs.of_eq (h s)

theorem finds_modifyGet {f : LinkState → α × LinkState}
    (h : ∀ s, s.Intact env.source → P (f s).1 ∧ (f s).2.Intact env.source) : Finds env (modifyGet f : LinkM α) P :=
  fun s hs => ⟨(h s hs).2, (h s hs).1⟩

theorem Finds.forM {l : List α} {f : α → LinkM PUnit} (h : ∀ a ∈ l, Safe env (f a)) : Safe env (l.forM f) := by
  induction l with
  | nil => exact .pure trivial
  | cons a l ih =>
    obtain ⟨hfirst, hrest⟩ := List.forall_mem_cons.1 h
    exact hfirst.bind fun _ _ => ih hrest

theorem Finds.mapM {l : List α} {f : α → LinkM β} (h : ∀ a ∈ l, Finds env (f a) Q) :
    Finds env (l.mapM f) fun bs => ∀ b ∈ bs, Q b := by
  induction l with
  | nil =>
    rw [List.mapM_nil]
    exact .pure nofun
  | cons a l ih =>
    obtain ⟨hfirst, hrest⟩ := List.forall_mem_cons.1 h
    rw [List.mapM_cons]
    exact hfirst.bind fun b hb => (ih hrest).bind fun bs hbs => .pure (List.forall_mem_cons.2 ⟨hb, hbs⟩)

theorem Finds.foldlM {l : List α} {f : β → α → LinkM β} (h : ∀ b a, a ∈ l → Q b → Finds env (f b a) Q) {b : β}
    (hb : Q b) : Finds env (l.foldlM f b) Q := by
  induction l generalizing b with
  | nil =>
    rw [List.foldlM_nil]
    exact .pure hb
  | cons a l ih =>
    rw [List.foldlM_cons]
    refine (h b a List.mem_cons_self hb).bind fun c hc => ?_
    exact ih (fun b' a' ha' => h b' a' (List.mem_cons_of_mem _ ha')) hc

theorem Finds.option {o : Option α} {f : α → LinkM β} (h : ∀ a ∈ o, Finds env (f a) Q) :
    Finds env (o.mapM f) fun r => ∀ b ∈ r, Q b := by
  cases o with
  | none => exact .pure nofun
  | some a =>
    rw [Option.mapM_some, map_eq_pure_bind]
    exact (h a rfl).bind fun b hb => .pure (by simpa using hb)

theorem finds_quietly {act : LinkM α} (h : Finds env act P) : Finds env (quietly act) P := by
  intro s hs
  obtain ⟨hintact, hresult⟩ := h { s with quiet := true } (hs.of_eq rfl)
  exact ⟨hintact.of_eq rfl, hresult⟩

theorem finds_withFrame {frame : Frame} (hframe : frame.Within env.source.HasDecl) {act : LinkM α}
    (h : Finds env act P) : Finds env (withFrame frame act) P := by
  intro s hs
  obtain ⟨hintact, hresult⟩ := h _ (hs.push hframe)
  exact ⟨hintact.pop, hresult⟩

theorem finds_withFrames {frames : List Frame} (hframes : ∀ frame ∈ frames, frame.Within env.source.HasDecl)
    {act : LinkM α} (h : Finds env act P) : Finds env (withFrames frames act) P := by
  induction frames with
  | nil => exact h
  | cons frame frames ih =>
    obtain ⟨hframe, hframes⟩ := List.forall_mem_cons.1 hframes
    exact finds_withFrame hframe (ih hframes)

end Link

end Linkage
