import Linkage.Proofs.Link.Steady

/-!
# Where names are bound

Names are bound in frames: one for the top level and one for each namespace. If no two declarations are bound to
one name in one frame, then what a name leads to does not depend on the order in which names are bound, and no
function is redeclared.
-/

namespace Linkage

namespace Source

/-- The name of the declaration, and the frame that it is bound in. -/
def bindingOf (src : Source) (x : Listing) : Option DeclId × Option String := (x.space, (src.decl? x.id).map (·.name))

def listings (src : Source) : List Listing := Item.listingsAll none src.itemTrees

theorem listings_perm {src : Source} {items : List DeclId} (hperm : items.Perm src.items) :
    (src.withItems items).listings.Perm src.listings := by
  rw [listings, listings, itemTrees_withItems, Item.listingsAll_eq_flatMap, Item.listingsAll_eq_flatMap]
  exact (hperm.map _).flatMap_right _

def NamesDistinct (src : Source) : Prop := (src.listings.map src.bindingOf).Nodup

instance (src : Source) : Decidable src.NamesDistinct :=
  inferInstanceAs (Decidable (src.listings.map src.bindingOf).Nodup)

theorem NamesDistinct.withItems {src : Source} (h : src.NamesDistinct) {items : List DeclId}
    (hperm : items.Perm src.items) : (src.withItems items).NamesDistinct :=
  ((listings_perm hperm).map _).nodup_iff.2 h

end Source

namespace LinkState

def bound? (s : LinkState) : Option DeclId → String → Option DeclId
  | none => s.scopes.find?
  | some space => s.spaces.find? space

def bind (s : LinkState) (space : Option DeclId) (name : String) (id : DeclId) : LinkState :=
  match space with
  | none => { s with scopes := s.scopes.declare name id }
  | some space => { s with spaces := s.spaces.declare space name id }

theorem bound?_bind_self (s : LinkState) (space : Option DeclId) (name : String) (id : DeclId) :
    (s.bind space name id).bound? space name = some id := by
  cases space with
  | none => exact s.scopes.find?_declare_self name id
  | some space => exact s.spaces.find?_declare_self space name id

theorem bound?_bind_of_ne (s : LinkState) {space space' : Option DeclId} {name name' : String} (id : DeclId)
    (h : (space, name) ≠ (space', name')) : (s.bind space name id).bound? space' name' = s.bound? space' name' := by
  cases space with
  | none =>
    cases space' with
    | none => exact s.scopes.find?_declare_of_ne id fun hname => h (by rw [hname])
    | some space' => rfl
  | some space =>
    cases space' with
    | none => rfl
    | some space' =>
      show (s.spaces.declare space name id).find? space' name' = s.spaces.find? space' name'
      rw [Namespaces.find?, Namespaces.find?, Namespaces.frame?, Namespaces.declare, Table.get?_insert]
      split
      · rename_i hspace
        subst hspace
        have hname : name ≠ name' := fun hname => h (by rw [hname])
        rw [Option.bind_some, Table.get?_insert_of_ne _ _ hname, Namespaces.frame?]
        cases s.spaces.members.get? space <;> rfl
      · rfl

end LinkState

namespace Link

variable {env : LinkEnv} {s s' : LinkState}

theorem runs_declareName {space : Option DeclId} {id : DeclId} {d : Decl} (hd : env.source.decl? id = some d)
    (hinner : s.scopes.inner = []) (hfresh : s.bound? space d.name = none) :
    Runs env (declareName space id) s [] (s.bind space d.name id) := by
  refine runs_bind.2 ⟨d, s, runs_declOf.2 ⟨hd, rfl⟩, runs_bind.2 ⟨s, s, runs_get.2 ⟨rfl, rfl⟩, ?_⟩⟩
  cases space with
  | none =>
    have hroot : s.scopes.findInnermost? d.name = none := by
      simpa [LinkState.bound?, ScopeStack.find?, ScopeStack.findInnermost?, ScopeStack.frames, ScopeStack.innermost,
        hinner] using hfresh
    refine runs_bind.2 ⟨(), s.bind none d.name id, runs_modify.2 rfl, ?_⟩
    dsimp only
    rw [hroot]
    exact runs_pure.2 ⟨rfl, rfl⟩
  | some space =>
    have hnone : s.spaces.find? space d.name = none := hfresh
    refine runs_bind.2 ⟨(), s.bind (some space) d.name id, runs_modify.2 rfl, ?_⟩
    dsimp only
    rw [hnone]
    exact runs_pure.2 ⟨rfl, rfl⟩

/-- Only the names of the listed declarations were bound, and none in a frame that is closed again. -/
structure Bound (src : Source) (listings : List Listing) (s s' : LinkState) : Prop where
  eq : s' = { s with scopes := s'.scopes, spaces := s'.spaces }
  inner : s'.scopes.inner = []
  bound : ∀ space name id, s'.bound? space name = some id ↔
    ⟨space, id⟩ ∈ listings ∧ (src.decl? id).map (·.name) = some name ∨ s.bound? space name = some id

theorem bound_bind {src : Source} {x : Listing} {d : Decl} (hd : src.decl? x.id = some d)
    (hinner : s.scopes.inner = []) (hfresh : s.bound? x.space d.name = none) :
    Bound src [x] s (s.bind x.space d.name x.id) := by
  obtain ⟨space, id⟩ := x
  refine ⟨?_, ?_, fun space' name' id' => ?_⟩
  · cases space <;> rfl
  · cases space with
    | none => simp [LinkState.bind, ScopeStack.declare, hinner]
    | some space => exact hinner
  · by_cases hkey : (space, d.name) = (space', name')
    · obtain ⟨rfl, rfl⟩ := Prod.mk.inj hkey
      rw [LinkState.bound?_bind_self, hfresh, List.mem_singleton, Listing.mk.injEq]
      constructor
      · rintro ⟨rfl⟩
        exact .inl ⟨⟨rfl, rfl⟩, by rw [hd]; rfl⟩
      · rintro (⟨⟨-, rfl⟩, -⟩ | hnone)
        · rfl
        · cases hnone
    · rw [LinkState.bound?_bind_of_ne s id hkey, List.mem_singleton, Listing.mk.injEq]
      constructor
      · exact .inr
      · rintro (⟨⟨rfl, rfl⟩, hname⟩ | hbound)
        · rw [hd] at hname
          exact absurd (congrArg (Prod.mk space') (Option.some.inj hname)) hkey
        · exact hbound

theorem Bound.trans {src : Source} {listings listings' : List Listing} {s₁ : LinkState} (h : Bound src listings s s₁)
    (h' : Bound src listings' s₁ s') : Bound src (listings ++ listings') s s' := by
  refine ⟨?_, h'.inner, fun space name id => ?_⟩
  · rw [h'.eq, h.eq]
  · rw [h'.bound, h.bound, List.mem_append]
    tauto

theorem exists_declareNames {listings : List Listing} (hinner : s.scopes.inner = [])
    (hdecls : ∀ x ∈ listings, (env.source.decl? x.id).isSome = true)
    (hfresh : ∀ x ∈ listings, ∀ d, env.source.decl? x.id = some d → s.bound? x.space d.name = none)
    (hdistinct : (listings.map env.source.bindingOf).Nodup) :
    ∃ s', Runs env (declareNames listings) s [] s' ∧ Bound env.source listings s s' := by
  induction listings generalizing s with
  | nil => exact ⟨s, runs_pure.2 ⟨rfl, rfl⟩, rfl, hinner, fun _ _ _ => by simp⟩
  | cons x listings ih =>
    obtain ⟨d, hd⟩ := Option.isSome_iff_exists.1 (hdecls x List.mem_cons_self)
    rw [List.map_cons, List.nodup_cons] at hdistinct
    have hx := hfresh x List.mem_cons_self d hd
    have hbound : Bound env.source [x] s (s.bind x.space d.name x.id) := bound_bind hd hinner hx
    -- the other names stay free, since they are bound elsewhere or are different
    have hfresh₁ : ∀ y ∈ listings, ∀ e, env.source.decl? y.id = some e →
        (s.bind x.space d.name x.id).bound? y.space e.name = none := by
      intro y hy e he
      rw [LinkState.bound?_bind_of_ne]
      · exact hfresh y (List.mem_cons_of_mem _ hy) e he
      · intro hkey
        obtain ⟨hspace, hname⟩ := Prod.mk.inj hkey
        refine hdistinct.1 (List.mem_map.2 ⟨y, hy, ?_⟩)
        rw [Source.bindingOf, Source.bindingOf, hd, he, hspace, Option.map_some, Option.map_some, hname]
    obtain ⟨s', hrun, hrest⟩ := ih hbound.inner (fun y hy => hdecls y (List.mem_cons_of_mem _ hy)) hfresh₁ hdistinct.2
    refine ⟨s', ?_, hbound.trans hrest⟩
    rw [declareNames_cons]
    exact runs_bind.2 ⟨[], _, runs_declareName hd hinner hx, runs_bind.2 ⟨[], s', hrun, runs_pure.2 ⟨rfl, rfl⟩⟩⟩

theorem declared_of_declareNames {listings : List Listing} {found : List Redeclaration}
    (h : Runs env (declareNames listings) s found s') : ∀ x ∈ listings, (env.source.decl? x.id).isSome = true := by
  induction listings generalizing s found s' with
  | nil => exact nofun
  | cons y listings ih =>
    simp only [declareNames_cons, runs_bind] at h
    obtain ⟨_, s₁, hname, _, s₂, hrest, -⟩ := h
    simp only [declareName, runs_bind, runs_declOf] at hname
    obtain ⟨d, _, ⟨hd, -⟩, -⟩ := hname
    intro x hx
    rcases List.mem_cons.1 hx with rfl | hx
    · rw [hd]
      rfl
    · exact ih hrest x hx

theorem Bound.lookup_eq {src : Source} {listings listings' : List Listing} {t' : LinkState}
    (h : Bound src listings s s') (h' : Bound src listings' s t') (hperm : listings'.Perm listings) :
    s'.lookup = t'.lookup := by
  have hbound : ∀ space name, s'.bound? space name = t'.bound? space name := by
    intro space name
    refine Option.ext fun id => ?_
    rw [h.bound, h'.bound, hperm.mem_iff]
  have hname : s'.scopes.find? = t'.scopes.find? := funext (hbound none)
  have hmember : s'.spaces.find? = t'.spaces.find? := funext fun space => funext (hbound (some space))
  rw [LinkState.lookup, LinkState.lookup, hname, hmember]

theorem Bound.proper {src : Source} {listings : List Listing} (h : Bound src listings s s')
    (hs : ∀ space name, s.bound? space name = none) : s'.lookup.Proper src := by
  have hanswers : ∀ space name id, s'.bound? space name = some id → src.Answers name id := by
    intro space name id hid
    rcases (h.bound space name id).1 hid with ⟨-, hname⟩ | hbound
    · obtain ⟨d, hd, hname⟩ := Option.map_eq_some_iff.1 hname
      exact ⟨d, hd, .inl hname⟩
    · rw [hs] at hbound
      exact nomatch hbound
  exact ⟨hanswers none, fun space => hanswers (some space)⟩

end Link

end Linkage
