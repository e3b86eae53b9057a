import Linkage.Link.Basic
import Linkage.Proofs.Registry.Growth

/-!
# Runs of linking actions

A linking action reads its environment, changes the state and ends with a result or a fault. `Runs` says that it ends
with a result. A run of a sequence of actions is taken apart into runs of its members. What an action may do to the
state, however it ends, is said by `Framed`: the states before and after are related. A sequence of framed actions is
framed.
-/

namespace Linkage

variable {ρ : LinkState → LinkState → Prop} {u : PUnit}

def ExprShape.path? {ε τ : Type} : ExprShape ε τ → Option (List String)
  | .name text => some [text]
  | .path segments => some segments
  | _ => none

def Expr.path? : Expr → Option (List String)
  | .node _ _ shape => shape.path?
  | .missing _ => none

namespace Link

variable {α β : Type} {env : LinkEnv} {s s' : LinkState}

/-- The action ends with the result `a` in the state `s'`. -/
def Runs (env : LinkEnv) (act : LinkM α) (s : LinkState) (a : α) (s' : LinkState) : Prop :=
  act env s = (.ok a, s')

theorem Runs.unique {act : LinkM α} {a b : α} {s₁ : LinkState} (h : Runs env act s a s') (h' : Runs env act s b s₁) :
    a = b ∧ s' = s₁ := by
  obtain ⟨hresult, hstate⟩ := Prod.mk.inj (h.symm.trans h')
  exact ⟨Except.ok.inj hresult, hstate⟩

/-! ### Sequences -/

@[simp] theorem runs_pure {a b : α} : Runs env (pure a : LinkM α) s b s' ↔ a = b ∧ s = s' := by
  constructor
  · intro h
    obtain ⟨hb, hs⟩ := Prod.mk.inj h
    exact ⟨Except.ok.inj hb, hs⟩
  · rintro ⟨rfl, rfl⟩
    rfl

theorem bind_apply (x : LinkM α) (f : α → LinkM β) (env : LinkEnv) (s : LinkState) :
    (x >>= f) env s =
      match x env s with
      | (.ok a, s₁) => f a env s₁
      | (.error e, s₁) => (.error e, s₁) := by
  have hcont : (x >>= f) env s = ExceptT.bindCont (fun a => f a env) (x env s).1 (x env s).2 := rfl
  rw [hcont]
  rcases x env s with ⟨a | a, s₁⟩
  · rfl
  · rfl

theorem Runs.bind_apply {x : LinkM α} {a : α} (h : Runs env x s a s') (f : α → LinkM β) :
    (x >>= f) env s = f a env s' := by
  rw [Link.bind_apply, h]

theorem runs_bind {x : LinkM α} {f : α → LinkM β} {b : β} :
    Runs env (x >>= f) s b s' ↔ ∃ a s₁, Runs env x s a s₁ ∧ Runs env (f a) s₁ b s' := by
  rw [Runs, bind_apply]
  constructor
  · intro h
    split at h
    · rename_i a s₁ hx
      exact ⟨a, s₁, hx, h⟩
    · exact nomatch (Prod.mk.inj h).1
  · rintro ⟨a, s₁, hx, hf⟩
    rw [hx]
    exact hf

@[simp] theorem not_runs_throw {fault : Fault} {a : α} : ¬Runs env (throw fault : LinkM α) s a s' := by
  intro h
  exact nomatch (Prod.mk.inj h).1

@[simp] theorem runs_get {a : LinkState} : Runs env (get : LinkM LinkState) s a s' ↔ s = a ∧ s = s' := by
  constructor
  · intro h
    obtain ⟨ha, hs⟩ := Prod.mk.inj h
    exact ⟨Except.ok.inj ha, hs⟩
  · rintro ⟨rfl, rfl⟩
    rfl

@[simp] theorem runs_set {t : LinkState} : Runs env (set t : LinkM PUnit) s u s' ↔ t = s' :=
  ⟨fun h => (Prod.mk.inj h).2, fun h => h ▸ rfl⟩

@[simp] theorem runs_modify {f : LinkState → LinkState} : Runs env (modify f : LinkM PUnit) s u s' ↔ f s = s' :=
  ⟨fun h => (Prod.mk.inj h).2, fun h => h ▸ rfl⟩

theorem runs_modifyGet {f : LinkState → α × LinkState} {a : α} :
    Runs env (modifyGet f : LinkM α) s a s' ↔ f s = (a, s') := by
  constructor
  · intro h
    obtain ⟨ha, hs⟩ := Prod.mk.inj h
    exact Prod.ext (Except.ok.inj ha) hs
  · intro h
    show (Except.ok (f s).1, (f s).2) = _
    rw [h]

@[simp] theorem runs_read {r : LinkEnv} : Runs env (read : LinkM LinkEnv) s r s' ↔ env = r ∧ s = s' := by
  constructor
  · intro h
    obtain ⟨hr, hs⟩ := Prod.mk.inj h
    exact ⟨Except.ok.inj hr, hs⟩
  · rintro ⟨rfl, rfl⟩
    rfl

/-! ### Actions that look at something -/

theorem Runs.bind_iff {x : LinkM α} {a : α} {s₁ : LinkState} (h : Runs env x s a s₁) {f : α → LinkM β} {b : β} :
    Runs env (x >>= f) s b s' ↔ Runs env (f a) s₁ b s' := by
  rw [Runs, h.bind_apply]
  rfl

@[simp] theorem runs_source {src : Source} : Runs env source s src s' ↔ env.source = src ∧ s = s' :=
  (runs_read.2 ⟨rfl, rfl⟩).bind_iff.trans runs_pure

@[simp] theorem runs_ofOption {kind : NodeKind} {id : NodeId kind} {o : Option α} {a : α} :
    Runs env (ofOption id o) s a s' ↔ o = some a ∧ s = s' := by
  cases o with
  | none => simp [ofOption]
  | some b => simp only [ofOption, runs_pure, Option.some.injEq]

@[simp] theorem runs_ofLookup {r : Except NodeRef α} {a : α} :
    Runs env (ofLookup r) s a s' ↔ r = .ok a ∧ s = s' := by
  cases r with
  | error e => simp [ofLookup]
  | ok b => simp only [ofLookup, runs_pure, Except.ok.injEq]

@[simp] theorem runs_declOf {id : DeclId} {d : Decl} :
    Runs env (declOf id) s d s' ↔ env.source.decl? id = some d ∧ s = s' :=
  (runs_source.2 ⟨rfl, rfl⟩).bind_iff.trans runs_ofOption

@[simp] theorem runs_genericOf {id : GenericId} {p : GenericParam} :
    Runs env (genericOf id) s p s' ↔ env.source.generic? id = some p ∧ s = s' :=
  (runs_source.2 ⟨rfl, rfl⟩).bind_iff.trans runs_ofOption

@[simp] theorem runs_signatures {sigs : Signatures} :
    Runs env signatures s sigs s' ↔ s.signatures = sigs ∧ s = s' :=
  (runs_get.2 ⟨rfl, rfl⟩).bind_iff.trans runs_pure

@[simp] theorem runs_typeEnv {e : TypeEnv} : Runs env typeEnv s e s' ↔ s.env = e ∧ s = s' :=
  (runs_get.2 ⟨rfl, rfl⟩).bind_iff.trans runs_pure

theorem runs_satisfies {expected actual : Ty} {fits : Bool} :
    Runs env (satisfies expected actual) s fits s' ↔ s.env.satisfies expected actual = fits ∧ s = s' :=
  (runs_typeEnv.2 ⟨rfl, rfl⟩).bind_iff.trans runs_pure

@[simp] theorem runs_resolve? {path : List String} {o : Option DeclId} :
    Runs env (resolve? path) s o s' ↔ s.resolve? env.source path = .ok o ∧ s = s' :=
  (runs_get.2 ⟨rfl, rfl⟩).bind_iff.trans ((runs_source.2 ⟨rfl, rfl⟩).bind_iff.trans runs_ofLookup)

@[simp] theorem runs_sliceTo {l out : List α} {n : Nat} :
    Runs env (sliceTo l n) s out s' ↔ n ≤ l.length ∧ l.take n = out ∧ s = s' := by
  unfold sliceTo
  split
  · rename_i h
    simp [h]
  · rename_i h
    simp [h]

@[simp] theorem runs_sliceFrom {l out : List α} {n : Nat} :
    Runs env (sliceFrom l n) s out s' ↔ n ≤ l.length ∧ l.drop n = out ∧ s = s' := by
  unfold sliceFrom
  split
  · rename_i h
    simp [h]
  · rename_i h
    simp [h]

/-! ### Lists -/

theorem runs_forM_cons {a : α} {l : List α} {f : α → LinkM PUnit} :
    Runs env ((a :: l).forM f) s u s' ↔ ∃ s₁, Runs env (f a) s () s₁ ∧ Runs env (l.forM f) s₁ () s' := by
  show Runs env (f a >>= fun _ => l.forM f) s u s' ↔ _
  rw [runs_bind]
  constructor
  · rintro ⟨_, s₁, h, h'⟩
    exact ⟨s₁, h, h'⟩
  · rintro ⟨s₁, h, h'⟩
    exact ⟨(), s₁, h, h'⟩

@[simp] theorem runs_forM_nil {f : α → LinkM PUnit} : Runs env (([] : List α).forM f) s u s' ↔ s = s' := by
  show Runs env (pure ⟨⟩) s u s' ↔ _
  simp

theorem runs_mapM_cons {a : α} {l : List α} {f : α → LinkM β} {bs : List β} :
    Runs env ((a :: l).mapM f) s bs s' ↔ ∃ b rest s₁, Runs env (f a) s b s₁ ∧
      Runs env (l.mapM f) s₁ rest s' ∧ b :: rest = bs := by
  rw [List.mapM_cons, runs_bind]
  constructor
  · rintro ⟨b, s₁, hb, h⟩
    obtain ⟨rest, s₂, hrest, h⟩ := runs_bind.1 h
    obtain ⟨rfl, rfl⟩ := runs_pure.1 h
    exact ⟨b, rest, s₁, hb, hrest, rfl⟩
  · rintro ⟨b, rest, s₁, hb, hrest, rfl⟩
    exact ⟨b, s₁, hb, runs_bind.2 ⟨rest, s', hrest, runs_pure.2 ⟨rfl, rfl⟩⟩⟩

@[simp] theorem runs_mapM_nil {f : α → LinkM β} {bs : List β} :
    Runs env (([] : List α).mapM f) s bs s' ↔ [] = bs ∧ s = s' := by
  rw [List.mapM_nil, runs_pure]

theorem runs_mapM_filterMap {l : List α} {f : α → LinkM β} {g : α → Option β} {bs : List β}
    (hf : ∀ a b s s', Runs env (f a) s b s' → s = s' ∧ g a = some b) (h : Runs env (l.mapM f) s bs s') :
    s = s' ∧ bs = l.filterMap g := by
  induction l generalizing bs s with
  | nil =>
    obtain ⟨rfl, rfl⟩ := runs_mapM_nil.1 h
    exact ⟨rfl, rfl⟩
  | cons a l ih =>
    obtain ⟨b, rest, s₁, ha, hrest, rfl⟩ := runs_mapM_cons.1 h
    obtain ⟨rfl, hb⟩ := hf a b s s₁ ha
    obtain ⟨rfl, rfl⟩ := ih hrest
    exact ⟨rfl, by rw [List.filterMap_cons, hb]⟩

theorem runs_option {o : Option α} {f : α → LinkM β} {r : Option β} (h : Runs env (o.mapM f) s r s') :
    o = none ∧ r = none ∧ s = s' ∨ ∃ a b, o = some a ∧ r = some b ∧ Runs env (f a) s b s' := by
  cases o with
  | none =>
    obtain ⟨rfl, rfl⟩ := runs_pure.1 h
    exact .inl ⟨rfl, rfl, rfl⟩
  | some a =>
    rw [Option.mapM_some, map_eq_pure_bind, runs_bind] at h
    obtain ⟨b, s₁, hrun, h⟩ := h
    obtain ⟨rfl, rfl⟩ := runs_pure.1 h
    exact .inr ⟨a, b, rfl, rfl, hrun⟩

theorem runs_foldlM_cons {a : α} {l : List α} {f : β → α → LinkM β} {b c : β} :
    Runs env ((a :: l).foldlM f b) s c s' ↔ ∃ b' s₁, Runs env (f b a) s b' s₁ ∧
      Runs env (l.foldlM f b') s₁ c s' := by
  rw [List.foldlM_cons, runs_bind]

@[simp] theorem runs_foldlM_nil {f : β → α → LinkM β} {b c : β} :
    Runs env (([] : List α).foldlM f b) s c s' ↔ b = c ∧ s = s' := by
  rw [List.foldlM_nil, runs_pure]

theorem runs_spacesAround {decl : DeclId} {around : List DeclId} :
    Runs env (spacesAround decl) s around s' ↔
      (∀ d ∈ decl :: env.source.ancestors decl, (env.source.decl? d).isSome = true) ∧
        around = (env.source.ancestors decl).filter (fun d => (env.source.decl? d).any (·.kind.isSpace)) ∧ s = s' := by
  have hmapM : ∀ (l : List DeclId) (parts : List (List DeclId)),
      Runs env (l.mapM fun d => do return if (← declOf d).kind.isSpace then [d] else []) s parts s' ↔
        (∀ d ∈ l, (env.source.decl? d).isSome = true) ∧
          parts = l.map (fun d => if (env.source.decl? d).any (·.kind.isSpace) then [d] else []) ∧ s = s' := by
    intro l
    induction l with
    | nil =>
      intro parts
      rw [runs_mapM_nil]
      exact ⟨fun ⟨hparts, hs⟩ => ⟨nofun, hparts.symm, hs⟩, fun ⟨_, hparts, hs⟩ => ⟨hparts.symm, hs⟩⟩
    | cons d l ih =>
      intro parts
      simp only [runs_mapM_cons, runs_bind, runs_declOf, runs_pure]
      constructor
      · rintro ⟨_, rest, _, ⟨_, _, ⟨hdecl, rfl⟩, rfl, rfl⟩, hrest, rfl⟩
        obtain ⟨hall, rfl, rfl⟩ := (ih rest).1 hrest
        refine ⟨List.forall_mem_cons.2 ⟨by rw [hdecl]; rfl, hall⟩, ?_, rfl⟩
        rw [List.map_cons, hdecl, Option.any_some]
      · rintro ⟨hall, rfl, rfl⟩
        obtain ⟨hd, hall⟩ := List.forall_mem_cons.1 hall
        obtain ⟨decl, hdecl⟩ := Option.isSome_iff_exists.1 hd
        refine ⟨_, _, _, ⟨decl, _, ⟨hdecl, rfl⟩, rfl, rfl⟩, (ih _).2 ⟨hall, rfl, rfl⟩, ?_⟩
        rw [List.map_cons, hdecl, Option.any_some]
  have hflatten : ∀ l : List DeclId, (l.map fun d => if (env.source.decl? d).any (·.kind.isSpace) then [d] else
      []).flatten = l.filter fun d => (env.source.decl? d).any (·.kind.isSpace) := by
    intro l
    induction l with
    | nil => rfl
    | cons d l ih =>
      rw [List.map_cons, List.flatten_cons, ih, List.filter_cons]
      split <;> rfl
  simp only [spacesAround, runs_bind, runs_declOf, runs_source, runs_pure, List.forall_mem_cons]
  constructor
  · rintro ⟨d, _, ⟨hd, rfl⟩, _, _, ⟨rfl, rfl⟩, parts, _, hparts, rfl, rfl⟩
    obtain ⟨hall, rfl, rfl⟩ := (hmapM _ _).1 hparts
    exact ⟨⟨by rw [hd]; rfl, hall⟩, hflatten _, rfl⟩
  · rintro ⟨⟨hd, hall⟩, rfl, rfl⟩
    obtain ⟨d, hd⟩ := Option.isSome_iff_exists.1 hd
    exact ⟨d, _, ⟨hd, rfl⟩, _, _, ⟨rfl, rfl⟩, _, _, (hmapM _ _).2 ⟨hall, rfl, rfl⟩, hflatten _, rfl⟩

/-! ### Around an action -/

theorem runs_withFrame {frame : Frame} {act : LinkM α} {a : α} :
    Runs env (withFrame frame act) s a s' ↔
      ∃ s₁, Runs env act { s with scopes := s.scopes.push frame } a s₁ ∧
        { s₁ with scopes := s₁.scopes.pop } = s' := by
  show (_, _) = _ ↔ _
  constructor
  · intro h
    obtain ⟨ha, hs⟩ := Prod.mk.inj h
    exact ⟨_, Prod.ext ha rfl, hs⟩
  · rintro ⟨s₁, h, rfl⟩
    rw [h]

/-! ### Actions one after the other -/

/-- The property carries over to actions one after the other. -/
structure Compound (T : (α : Type) → LinkM α → Prop) : Prop where
  pure : ∀ {α : Type} (a : α), T α (pure a)
  bind : ∀ {α β : Type} {x : LinkM α} {f : α → LinkM β}, T α x → (∀ a, T β (f a)) → T β (x >>= f)

namespace Compound

variable {T : (α : Type) → LinkM α → Prop} (h : Compound T)

include h

theorem forM {l : List α} {f : α → LinkM PUnit} (hf : ∀ a ∈ l, T PUnit (f a)) : T PUnit (l.forM f) := by
  induction l with
  | nil => exact h.pure _
  | cons a l ih =>
    obtain ⟨hfirst, hrest⟩ := List.forall_mem_cons.1 hf
    exact h.bind hfirst fun _ => ih hrest

theorem mapM {l : List α} {f : α → LinkM β} (hf : ∀ a ∈ l, T β (f a)) : T (List β) (l.mapM f) := by
  induction l with
  | nil =>
    rw [List.mapM_nil]
    exact h.pure _
  | cons a l ih =>
    obtain ⟨hfirst, hrest⟩ := List.forall_mem_cons.1 hf
    rw [List.mapM_cons]
    exact h.bind hfirst fun _ => h.bind (ih hrest) fun _ => h.pure _

theorem foldlM {l : List α} {f : β → α → LinkM β} (hf : ∀ b a, a ∈ l → T β (f b a)) (b : β) : T β (l.foldlM f b) := by
  induction l generalizing b with
  | nil =>
    rw [List.foldlM_nil]
    exact h.pure _
  | cons a l ih =>
    rw [List.foldlM_cons]
    exact h.bind (hf b a List.mem_cons_self) fun c => ih (fun b' a' ha => hf b' a' (List.mem_cons_of_mem _ ha)) c

theorem option {o : Option α} {f : α → LinkM β} (hf : ∀ a ∈ o, T β (f a)) : T (Option β) (o.mapM f) := by
  cases o with
  | none => exact h.pure none
  | some a =>
    rw [Option.mapM_some, map_eq_pure_bind]
    exact h.bind (hf a rfl) fun _ => h.pure _

end Compound

/-! ### Frames -/

/-- A relation between states that every sequence of steps keeps if each step does. -/
class Sequential (ρ : LinkState → LinkState → Prop) : Prop where
  refl : ∀ s, ρ s s
  trans : ∀ {s t u}, ρ s t → ρ t u → ρ s u

/-- The states before and after the action are related, however it ends. -/
def FramedIn (env : LinkEnv) (ρ : LinkState → LinkState → Prop) (act : LinkM α) : Prop :=
  ∀ s, ρ s (act env s).2

/-- The same, whatever is linked. -/
def Framed (ρ : LinkState → LinkState → Prop) (act : LinkM α) : Prop := ∀ env, FramedIn env ρ act

theorem FramedIn.of_runs {act : LinkM α} (h : FramedIn env ρ act) {a : α} (hrun : Runs env act s a s') : ρ s s' := by
  have hρ := h s
  rwa [hrun] at hρ

theorem FramedIn.modify {f : LinkState → LinkState} (h : ∀ s, ρ s (f s)) : FramedIn env ρ (modify f : LinkM PUnit) :=
  fun s => h s

theorem FramedIn.modifyGet {f : LinkState → α × LinkState}
    (h : ∀ s, ρ s (f s).2) : FramedIn env ρ (modifyGet f : LinkM α) :=
  fun s => h s

theorem Framed.of_runs {act : LinkM α} (h : Framed ρ act) {a : α} (hrun : Runs env act s a s') : ρ s s' :=
  (h env).of_runs hrun

theorem Framed.modify {f : LinkState → LinkState} (h : ∀ s, ρ s (f s)) : Framed ρ (modify f : LinkM PUnit) :=
  fun _ => .modify h

theorem Framed.modifyGet {f : LinkState → α × LinkState} (h : ∀ s, ρ s (f s).2) : Framed ρ (modifyGet f : LinkM α) :=
  fun _ => .modifyGet h

/-- The action leaves the state alone. -/
def Looks (act : LinkM α) : Prop := ∀ env s, (act env s).2 = s

variable {ρ : LinkState → LinkState → Prop} [Sequential ρ]

theorem Looks.framedIn {act : LinkM α} (h : Looks act) : FramedIn env ρ act := by
  intro s
  rw [h env s]
  exact Sequential.refl s

theorem Looks.framed {act : LinkM α} (h : Looks act) : Framed ρ act := fun _ => h.framedIn

theorem FramedIn.report {span : Span} {p : Problem}
    (h : ∀ s, s.quiet = false → ρ s { s with reports := s.reports ++ [p.diagnostic span] }) :
    FramedIn env ρ (Link.report span p) := by
  refine .modify fun s => ?_
  split
  · exact Sequential.refl s
  · rename_i hloud
    exact h s (Bool.eq_false_iff.2 hloud)

theorem Looks.of_runs {act : LinkM α} (h : Looks act) {a : α} (hrun : Runs env act s a s') : s = s' := by
  have hs := h env s
  rw [hrun] at hs
  exact hs.symm

theorem Looks.bind {x : LinkM α} {f : α → LinkM β} (hx : Looks x) (hf : ∀ a, Looks (f a)) :
    Looks (x >>= f) := by
  intro env s
  have hs := hx env s
  rw [bind_apply]
  split
  · rename_i a s₁ hrun
    rw [hrun] at hs
    rw [hf a env s₁]
    exact hs
  · rename_i e s₁ hrun
    rwa [hrun] at hs

theorem Looks.pure (a : α) : Looks (pure a : LinkM α) := fun _ _ => rfl

theorem Looks.throw (fault : Fault) : Looks (throw fault : LinkM α) := fun _ _ => rfl

theorem Looks.get : Looks (get : LinkM LinkState) := fun _ _ => rfl

theorem Looks.read : Looks (read : LinkM LinkEnv) := fun _ _ => rfl

theorem compound_looks : Compound fun _ act => Looks act := ⟨.pure, .bind⟩

omit [Sequential ρ] in
theorem FramedIn.bind_comp {σ : LinkState → LinkState → Prop} {x : LinkM α} {f : α → LinkM β} (hx : FramedIn env ρ x)
    (hstop : ∀ s s', ρ s s' → σ s s') (hf : ∀ s a s', Runs env x s a s' → ρ s s' → σ s (f a env s').2) :
    FramedIn env σ (x >>= f) := by
  intro s
  have hs := hx s
  rw [bind_apply]
  split
  · rename_i a s₁ hrun
    rw [hrun] at hs
    exact hf s a s₁ hrun hs
  · rename_i e s₁ hrun
    rw [hrun] at hs
    exact hstop s s₁ hs

theorem FramedIn.bind_runs {x : LinkM α} {f : α → LinkM β} (hx : FramedIn env ρ x)
    (hf : ∀ s a s', Runs env x s a s' → ρ s' (f a env s').2) : FramedIn env ρ (x >>= f) :=
  hx.bind_comp (fun _ _ h => h) fun s a s' hrun hs => Sequential.trans hs (hf s a s' hrun)

theorem FramedIn.bind {x : LinkM α} {f : α → LinkM β} (hx : FramedIn env ρ x) (hf : ∀ a, FramedIn env ρ (f a)) :
    FramedIn env ρ (x >>= f) :=
  .bind_runs hx fun _ a s' _ => hf a s'

theorem Framed.bind {x : LinkM α} {f : α → LinkM β} (hx : Framed ρ x) (hf : ∀ a, Framed ρ (f a)) :
    Framed ρ (x >>= f) :=
  fun env => .bind (hx env) fun a => hf a env

omit [Sequential ρ] in
theorem Looks.bind_ends {P : LinkState → Prop} {x : LinkM α} {f : α → LinkM β} (hx : Looks x) (hs : P s)
    (hf : ∀ a, Runs env x s a s → P (f a env s).2) : P ((x >>= f) env s).2 := by
  have hlooks := hx env s
  rw [bind_apply]
  split
  · rename_i a s₁ hrun
    obtain rfl : s₁ = s := by rwa [hrun] at hlooks
    exact hf a hrun
  · rename_i e s₁ hrun
    obtain rfl : s₁ = s := by rwa [hrun] at hlooks
    exact hs

theorem Looks.bind_framed {x : LinkM α} {f : α → LinkM β} (hx : Looks x)
    (hf : ∀ a, Runs env x s a s → ρ s (f a env s).2) : ρ s ((x >>= f) env s).2 :=
  hx.bind_ends (Sequential.refl s) hf

theorem FramedIn.pure (a : α) : FramedIn env ρ (pure a : LinkM α) := (Looks.pure a).framedIn

theorem FramedIn.throw (fault : Fault) : FramedIn env ρ (throw fault : LinkM α) := (Looks.throw fault).framedIn

theorem compound_framedIn : Compound fun _ act => FramedIn env ρ act := ⟨.pure, .bind⟩

theorem FramedIn.forM {l : List α} {f : α → LinkM PUnit} (h : ∀ a ∈ l, FramedIn env ρ (f a)) :
    FramedIn env ρ (l.forM f) :=
  compound_framedIn.forM h

theorem FramedIn.mapM {l : List α} {f : α → LinkM β} (h : ∀ a ∈ l, FramedIn env ρ (f a)) :
    FramedIn env ρ (l.mapM f) :=
  compound_framedIn.mapM h

theorem FramedIn.foldlM {l : List α} {f : β → α → LinkM β} (h : ∀ b a, a ∈ l → FramedIn env ρ (f b a)) (b : β) :
    FramedIn env ρ (l.foldlM f b) :=
  compound_framedIn.foldlM h b

theorem Framed.pure (a : α) : Framed ρ (pure a : LinkM α) := fun _ => .pure a

theorem Framed.throw (fault : Fault) : Framed ρ (throw fault : LinkM α) := fun _ => .throw fault

theorem compound_framed : Compound fun _ act => Framed ρ act := ⟨.pure, .bind⟩

theorem Framed.forM {l : List α} {f : α → LinkM PUnit} (h : ∀ a ∈ l, Framed ρ (f a)) : Framed ρ (l.forM f) :=
  compound_framed.forM h

theorem Framed.mapM {l : List α} {f : α → LinkM β} (h : ∀ a ∈ l, Framed ρ (f a)) : Framed ρ (l.mapM f) :=
  compound_framed.mapM h

theorem Framed.foldlM {l : List α} {f : β → α → LinkM β} (h : ∀ b a, a ∈ l → Framed ρ (f b a)) (b : β) :
    Framed ρ (l.foldlM f b) :=
  compound_framed.foldlM h b

/-! ### Actions in parts -/

/-- The function that a name leads to, if it leads to one. -/
def functionAt? : Option DeclId → LinkM (Option DeclId)
  | none => return none
  | some decl => do
    let callable := (← declOf decl).kind.isFunction && !(← get).ignored.contains decl
    return if callable then some decl else none

theorem calledFunction?_eq (callee : Expr) :
    calledFunction? callee = callee.path?.elim (pure none) resolve? >>= functionAt? := by
  unfold calledFunction?
  split
  · rfl
  · rfl
  · rename_i hname hpath
    have hnone : callee.path? = none := by
      rcases callee with ⟨id, span, shape⟩ | _
      · cases shape with
        | name name => exact absurd rfl (hname id span name)
        | path path => exact absurd rfl (hpath id span path)
        | _ => rfl
      · rfl
    rw [hnone]
    rfl

/-- An annotation that may be missing is linked, and `record` notes its type. -/
def linkMention (host : Option DeclId) (record : Ty → LinkM Unit) : Option TypeExprId → LinkM Unit
  | none => pure ()
  | some id => linkTypeAt host .mention id >>= record

def recordBound (g : GenericId) (ty : Ty) : LinkM Unit :=
  onSignatures fun sigs => { sigs with bounds := sigs.bounds.insert g ty }

def recordDefault (g : GenericId) (ty : Ty) : LinkM Unit :=
  onSignatures fun sigs => { sigs with defaults := sigs.defaults.insert g ty }

theorem linkGenericParam_eq (host : Option DeclId) (g : GenericId) : linkGenericParam host g = (do
    let param ← genericOf g
    linkMention host (recordBound g) param.bound
    linkMention host (recordDefault g) param.default) := by
  refine congrArg (genericOf g >>= ·) (funext fun param => ?_)
  cases param.bound with
  | none => rfl
  | some id => exact (bind_assoc _ _ _).symm

def reportIf (c : Prop) [Decidable c] (span : Span) (p : Problem) : LinkM Unit :=
  if c then report span p else pure ()

theorem Compound.reportIf {T : (α : Type) → LinkM α → Prop} (h : Compound T) {c : Prop} [Decidable c] {span : Span}
    {p : Problem} (hreport : T Unit (report span p)) : T Unit (reportIf c span p) := by
  unfold Link.reportIf
  split
  · exact hreport
  · exact h.pure ()

theorem completeTypeArgs_eq (decl : DeclId) (args : List Ty) (span : Span) : completeTypeArgs decl args span = (do
    let generics := (← signatures).genericsOf decl
    let name ← nameOf decl
    reportIf (generics.length < args.length) span (.annotationTypeArgs name generics.length args.length)
    let rest ← sliceFrom generics (args.take generics.length).length
    fillTypeArgs name span generics rest (args.take generics.length)) := by
  refine congrArg (signatures >>= ·) (funext fun sigs => congrArg (nameOf decl >>= ·) (funext fun name => ?_))
  unfold reportIf
  split
  · rfl
  · rfl

/-- The function in scope of that name. -/
def functionNamed? (name : String) : LinkM (Option DeclId) := do
  match (← get).scopes.find? name with
  | some found => return if (← declOf found).kind.isFunction then some found else none
  | none => return none

/-- That there is no destructor is reported. -/
def checkDestructor (struct : DeclId) (name : String) : Option DeclId → LinkM (Option DeclId)
  | some found => return some found
  | none => do
    let d ← declOf struct
    report d.span (.noDestructor name d.name)
    return none

theorem resolveDestructor_eq (struct : DeclId) (name : String) :
    resolveDestructor struct name = functionNamed? name >>= checkDestructor struct name := by
  rw [functionNamed?, bind_assoc]
  refine congrArg (get >>= ·) (funext fun s => ?_)
  cases s.scopes.find? name with
  | none => rfl
  | some found =>
    dsimp only
    rw [bind_assoc]
    refine congrArg (declOf found >>= ·) (funext fun d => ?_)
    cases d.kind.isFunction <;> rfl

def isInterface? : Ty → LinkM Bool
  | .linked target _ => return (← declOf target).kind.isInterface
  | _ => return false

/-- The interface that a type is. Any other type that is known is reported. -/
def interfaceAt (id : TypeExprId) (ty : Ty) (isInterface : Bool) : LinkM (List DeclId) := do
  match ty, isInterface with
  | .linked target _, true => return [target]
  | .unknown, _ => return []
  | _, _ =>
    let node ← ofOption id ((← source).typeExpr? id)
    report node.span (.notInterface (← showTy ty))
    return []

theorem linkInterface_eq (host : Option DeclId) (id : TypeExprId) : linkInterface host id = (do
    let ty ← linkTypeAt host .mention id
    let isInterface ← isInterface? ty
    interfaceAt id ty isInterface) := by
  refine congrArg (linkTypeAt host .mention id >>= ·) (funext fun ty => ?_)
  cases ty with
  | linked target args =>
    rw [isInterface?, bind_assoc]
    rfl
  | _ => rfl

end Link

end Linkage
