import Linkage.Proofs.Link.Scopes

/-!
# Names and generic parameters

One pass binds the names of items, at the top level and in namespaces, and another lists the generic parameters of
declarations. After them a name leads to a declaration that can be reached, the lists are those of the source unit,
and everything else is as it was in the beginning.
-/

namespace Linkage

variable {decl : DeclId} {u : Unit}

/-- A declaration and the frame that its name is bound in, which is that of a namespace or of the top level. -/
structure Listing where
  space : Option DeclId
  id : DeclId

mutual
def Item.listings (space : Option DeclId) : Item → List Listing
  | .decl id => [⟨space, id⟩]
  | .space id members => ⟨space, id⟩ :: Item.listingsAll (some id) members
def Item.listingsAll (space : Option DeclId) : List Item → List Listing
  | [] => []
  | item :: items => item.listings space ++ Item.listingsAll space items
end

theorem Item.listingsAll_eq_flatMap (space : Option DeclId) (items : List Item) :
    listingsAll space items = items.flatMap (listings space) := by
  induction items with
  | nil => rw [listingsAll, List.flatMap_nil]
  | cons item items ih => rw [listingsAll, List.flatMap_cons, ih]

variable {src : Source}

def Redeclaration.Reachable (src : Source) (x : Redeclaration) : Prop :=
  src.Reachable x.first ∧ src.Reachable x.second

theorem Namespaces.find?_declare {spaces : Namespaces} {space space' : DeclId} {name name' : String}
    {d : DeclId} (h : (spaces.declare space name decl).find? space' name' = some d) :
    decl = d ∨ spaces.find? space' name' = some d := by
  obtain ⟨members, hmembers, hd⟩ := Option.bind_eq_some_iff.1 h
  rw [Namespaces.frame?, Namespaces.declare, Table.get?_insert] at hmembers
  split at hmembers
  · rename_i heq
    subst heq
    obtain rfl := Option.some.inj hmembers
    rw [Table.get?_insert] at hd
    split at hd
    · exact .inl (Option.some.inj hd)
    · refine .inr ?_
      rw [Namespaces.find?]
      cases hframe : spaces.frame? space with
      | none => simp [hframe, Table.get?] at hd
      | some frame => simpa [hframe] using hd
  · exact .inr (Option.bind_eq_some_iff.2 ⟨members, hmembers, hd⟩)

namespace Link

variable {env : LinkEnv} {s s₁ s' : LinkState}

/-! ### Names -/

/-- Binding the names of items is binding one name after the other. -/
def declareNames (listings : List Listing) : LinkM (List Redeclaration) :=
  return (← listings.mapM fun x => declareName x.space x.id).flatten

theorem declareNames_nil : declareNames [] = pure [] := rfl

theorem declareNames_cons (x : Listing) (listings : List Listing) : declareNames (x :: listings) = (do
    let found ← declareName x.space x.id
    let more ← declareNames listings
    return found ++ more) := by
  simp [declareNames, List.mapM_cons]

theorem declareNames_append (listings listings' : List Listing) : declareNames (listings ++ listings') = (do
    let found ← declareNames listings
    let more ← declareNames listings'
    return found ++ more) := by
  simp [declareNames, List.mapM_append]

mutual
theorem declareItem_eq (space : Option DeclId) :
    ∀ item : Item, declareItem space item = declareNames (item.listings space)
  | .decl id => by
    rw [declareItem, Item.listings, declareNames_cons, declareNames_nil]
    simp
  | .space id members => by
    rw [declareItem, Item.listings, declareNames_cons, declareItems_eq (some id) members]
theorem declareItems_eq (space : Option DeclId) :
    ∀ items : List Item, declareItems space items = declareNames (Item.listingsAll space items)
  | [] => by rw [declareItems, Item.listingsAll, declareNames_nil]
  | item :: items => by
    rw [declareItems, Item.listingsAll, declareNames_append, declareItem_eq space item, declareItems_eq space items]
end

/-- From `s` to `s'` only names were bound, to declarations that can be reached. -/
structure Binds (src : Source) (s s' : LinkState) : Prop where
  known : s'.known = s.known
  quiet : s'.quiet = s.quiet
  outer : s'.scopes.frames.tail = s.scopes.frames.tail
  sees : Sees src src.Reachable s → Sees src src.Reachable s'

theorem Binds.refl (s : LinkState) : Binds src s s := ⟨rfl, rfl, rfl, fun h => h⟩

theorem Binds.trans (h : Binds src s s₁) (h' : Binds src s₁ s') : Binds src s s' :=
  ⟨h'.known.trans h.known, h'.quiet.trans h.quiet, h'.outer.trans h.outer, fun hs => h'.sees (h.sees hs)⟩

theorem binds_declareIn {space : Option DeclId} {name : String} (hdecl : src.Reachable decl)
    (h : Runs env (declareIn space name decl) s u s') : Binds src s s' := by
  unfold declareIn at h
  split at h
  · obtain rfl := runs_modify.1 h
    obtain ⟨frame, outer, hframes, hdeclare⟩ : ∃ frame outer, s.scopes.frames = frame :: outer ∧
      (s.scopes.declare name decl).frames = frame.insert name decl :: outer := frames_declare
    refine ⟨rfl, rfl, ?_, fun hs => ⟨hs.spaces, fun f hf key d hd => ?_⟩⟩
    · show (s.scopes.declare name decl).frames.tail = s.scopes.frames.tail
      rw [hframes, hdeclare]
      rfl
    · change f ∈ (s.scopes.declare name decl).frames at hf
      rw [hdeclare] at hf
      rcases List.mem_cons.1 hf with rfl | hf
      · refine Table.forall_insert (P := fun _ d => src.Reachable d) (fun key d => ?_) hdecl key d hd
        exact hs.frames frame (hframes ▸ List.mem_cons_self) key d
      · exact hs.frames f (hframes ▸ List.mem_cons_of_mem _ hf) key d hd
  · obtain rfl := runs_modify.1 h
    refine ⟨rfl, rfl, rfl, fun hs => ⟨fun space' name' d hd => ?_, hs.frames⟩⟩
    rcases Namespaces.find?_declare hd with rfl | hd
    · exact hdecl
    · exact hs.spaces space' name' d hd

theorem declareName_binds {space : Option DeclId} {id : DeclId} (hid : env.source.Reachable id)
    {found : List Redeclaration} (h : Runs env (declareName space id) s found s') :
    Binds env.source s s' ∧
      (Sees env.source env.source.Reachable s → ∀ x ∈ found, x.Reachable env.source) := by
  simp only [declareName, runs_bind, runs_declOf, runs_get] at h
  obtain ⟨d, _, ⟨-, rfl⟩, _, _, ⟨rfl, rfl⟩, _, s₁, hdeclare, h⟩ := h
  have hbinds := binds_declareIn hid hdeclare
  split at h
  · obtain ⟨rfl, rfl⟩ := runs_pure.1 h
    exact ⟨hbinds, fun _ => by simp⟩
  · rename_i first hfirst
    simp only [runs_bind, runs_declOf, runs_pure] at h
    obtain ⟨fd, _, ⟨-, rfl⟩, rfl, rfl⟩ := h
    refine ⟨hbinds, fun hs x hx => ?_⟩
    split at hx
    · obtain rfl := List.mem_singleton.1 hx
      refine ⟨?_, hid⟩
      cases space with
      | none =>
        refine hs.frames s.scopes.innermost ?_ d.name first hfirst
        rw [ScopeStack.innermost, ScopeStack.frames]
        cases s.scopes.inner <;> simp
      | some space => exact hs.spaces space d.name first hfirst
    · simp at hx

theorem declareNames_binds {listings : List Listing} (hreachable : ∀ x ∈ listings, env.source.Reachable x.id)
    {found : List Redeclaration} (h : Runs env (declareNames listings) s found s') :
    Binds env.source s s' ∧
      (Sees env.source env.source.Reachable s → ∀ x ∈ found, x.Reachable env.source) := by
  induction listings generalizing s found with
  | nil =>
    obtain ⟨rfl, rfl⟩ := runs_pure.1 h
    exact ⟨.refl s, fun _ => nofun⟩
  | cons x listings ih =>
    simp only [declareNames_cons, runs_bind, runs_pure] at h
    obtain ⟨found, s₁, hname, more, s₂, hrest, rfl, rfl⟩ := h
    obtain ⟨hid, hids⟩ := List.forall_mem_cons.1 hreachable
    obtain ⟨hbinds, hfound⟩ := declareName_binds hid hname
    obtain ⟨hbinds', hmore⟩ := ih hids hrest
    exact ⟨hbinds.trans hbinds', fun hs => List.forall_mem_append.2 ⟨hfound hs, hmore (hbinds.sees hs)⟩⟩

theorem reachable_listings {item : Item} (h : item.Sound src) (howners : item.owners src ⊆ src.owners)
    (space : Option DeclId) : ∀ x ∈ item.listings space, src.Reachable x.id := by
  induction h generalizing space with
  | decl hnamed =>
    rw [Item.listings, List.forall_mem_singleton]
    exact ⟨hnamed, .inr (howners (Item.mem_owners_decl _ _))⟩
  | space hnamed hspace _ ih =>
    rw [Item.owners, Item.ownersAll_eq_flatMap] at howners
    rw [Item.listings, Item.listingsAll_eq_flatMap]
    refine List.forall_mem_cons.2 ⟨⟨hnamed, .inl hspace⟩, List.forall_mem_flatMap.2 fun item hitem => ?_⟩
    exact ih item hitem (fun d hd => howners (List.mem_flatMap_of_mem hitem hd)) _

/-! ### Generic parameters -/

def Placed (src : Source) (params : Table GenericId ParamInfo) : Prop :=
  ∀ g info, params.get? g = some info → ∃ p, src.generic? g = some p ∧ info = ⟨p.owner, p.index⟩

theorem runs_placeParams {gs : List GenericId} (hgs : ∀ g ∈ gs, ∀ p, env.source.generic? g = some p → p.owner = decl)
    (h : Runs env (gs.forM fun g => do
      let index := (← genericOf g).index
      onSignatures fun sigs => { sigs with params := sigs.params.insert g { owner := decl, index } }) s u s') :
    ∃ params, s' = { s with program.signatures.params := params } ∧
      (Placed env.source s.signatures.params → Placed env.source params) ∧
      ∀ g, g ∈ gs ∨ s.signatures.params.contains g = true → params.contains g = true := by
  induction gs generalizing s with
  | nil =>
    obtain rfl := runs_forM_nil.1 h
    exact ⟨s.signatures.params, rfl, fun hplaced => hplaced, fun g hg => hg.resolve_left List.not_mem_nil⟩
  | cons g gs ih =>
    obtain ⟨s₁, hfirst, hrest⟩ := runs_forM_cons.1 h
    simp only [runs_bind, runs_genericOf] at hfirst
    obtain ⟨p, _, ⟨hp, rfl⟩, hfirst⟩ := hfirst
    obtain rfl := runs_modify.1 hfirst
    obtain ⟨params, rfl, hplaced, hcontains⟩ := ih (fun g hg => hgs g (List.mem_cons_of_mem _ hg)) hrest
    refine ⟨params, rfl, fun hbefore => hplaced (Table.forall_insert hbefore ⟨p, hp, ?_⟩), fun k hk => ?_⟩
    · rw [hgs g List.mem_cons_self p hp]
    · refine hcontains k ?_
      show _ ∨ (s.signatures.params.insert g _).contains k = true
      rw [Table.contains, Table.get?_insert]
      split
      · exact .inr rfl
      · rename_i hne
        rcases hk with hk | hk
        · exact .inl ((List.mem_cons.1 hk).resolve_left fun heq => hne heq.symm)
        · exact .inr hk

/-- The parameters of the declarations in `done` are listed, and nothing else is known of declarations. -/
structure Listed (src : Source) (done : List DeclId) (sigs : Signatures) : Prop where
  early : sigs = { generics := sigs.generics, params := sigs.params }
  generics : ∀ d gs, sigs.generics.get? d = some gs → gs = src.genericsOf d
  listed : ∀ d ∈ done, sigs.genericsOf d = src.genericsOf d
  placed : Placed src sigs.params
  present : ∀ d ∈ done, ∀ g ∈ src.genericsOf d, sigs.params.contains g = true

theorem Listed.nil (src : Source) : Listed src [] {} where
  early := rfl
  generics _ _ h := by simp [Table.get?] at h
  listed := nofun
  placed _ _ h := by simp [Table.get?] at h
  present := nofun

theorem recordGenerics_lists (hbuilt : env.source.WellBuilt) (h : Runs env (recordGenerics decl) s u s') :
    (∃ sigs, s' = { s with program.signatures := sigs }) ∧ ∀ {done : List DeclId},
      Listed env.source done s.signatures → Listed env.source (decl :: done) s'.signatures := by
  simp only [recordGenerics, runs_bind, runs_declOf] at h
  obtain ⟨d, _, ⟨hd, rfl⟩, h⟩ := h
  have hgenerics := Source.genericsOf_eq hd
  split at h
  · rename_i hempty
    obtain ⟨-, rfl⟩ := runs_pure.1 h
    rw [List.isEmpty_iff.1 hempty] at hgenerics
    refine ⟨⟨s.signatures, rfl⟩, fun hlisted => { hlisted with listed := ?_, present := ?_ }⟩
    · intro d' hd'
      rcases List.mem_cons.1 hd' with rfl | hd'
      · rw [Signatures.genericsOf]
        cases hget : s.signatures.generics.get? d' with
        | none => exact hgenerics.symm
        | some gs => exact hlisted.generics d' gs hget
      · exact hlisted.listed d' hd'
    · intro d' hd' g hg
      rcases List.mem_cons.1 hd' with rfl | hd'
      · rw [hgenerics] at hg
        exact absurd hg List.not_mem_nil
      · exact hlisted.present d' hd' g hg
  · simp only [runs_bind] at h
    obtain ⟨_, s₁, hparams, hlist⟩ := h
    obtain ⟨params, rfl, hplaced, hcontains⟩ := runs_placeParams (fun g hg p hp => by
      obtain ⟨k, hk⟩ := List.getElem?_of_mem hg
      obtain ⟨q, -, hq, -, howner, -⟩ := hbuilt.generic decl d hd k g hk
      obtain rfl := Option.some.inj (hp.symm.trans hq)
      exact howner) hparams
    obtain rfl := runs_modify.1 hlist
    refine ⟨⟨_, rfl⟩, fun hlisted => ⟨?_, ?_, ?_, hplaced hlisted.placed, ?_⟩⟩
    · have hearly := hlisted.early
      show ({ s.signatures with params := params, generics := _ } : Signatures) = _
      rw [hearly]
      rfl
    · exact Table.forall_insert hlisted.generics hgenerics.symm
    · intro d' hd'
      show ((s.signatures.generics.insert decl d.generics).get? d').getD [] = _
      rw [Table.get?_insert]
      split
      · rename_i heq
        subst heq
        exact hgenerics.symm
      · rename_i hne
        exact hlisted.listed d' ((List.mem_cons.1 hd').resolve_left fun heq => hne heq.symm)
    · intro d' hd' g hg
      refine hcontains g ?_
      rcases List.mem_cons.1 hd' with rfl | hd'
      · exact .inl (hgenerics ▸ hg)
      · exact .inr (hlisted.present d' hd' g hg)

theorem recordAll_lists (hbuilt : env.source.WellBuilt) {owners done : List DeclId}
    (h : Runs env (owners.forM recordGenerics) s u s') (hdone : Listed env.source done s.signatures) :
    (∃ sigs, s' = { s with program.signatures := sigs }) ∧
      Listed env.source (owners.reverse ++ done) s'.signatures := by
  induction owners generalizing s done with
  | nil =>
    obtain rfl := runs_forM_nil.1 h
    exact ⟨⟨s.signatures, rfl⟩, hdone⟩
  | cons decl owners ih =>
    obtain ⟨s₁, hfirst, hrest⟩ := runs_forM_cons.1 h
    obtain ⟨⟨sigs, rfl⟩, hlist⟩ := recordGenerics_lists hbuilt hfirst
    obtain ⟨⟨sigs', rfl⟩, hlisted⟩ := ih hrest (hlist hdone)
    refine ⟨⟨sigs', rfl⟩, ?_⟩
    rw [List.reverse_cons, List.append_assoc]
    exact hlisted

theorem signaturesFit_of_listed {r : Regime} (hbuilt : src.WellBuilt) {sigs : Signatures}
    (h : Listed src src.owners sigs) : SignaturesFit r src sigs where
  generics := h.listed
  params d hd i g hg := by
    have hmem := List.mem_of_getElem? hg
    obtain ⟨info, hinfo⟩ := Option.isSome_iff_exists.1 (h.present d hd g hmem)
    obtain ⟨p, hp, rfl⟩ := h.placed g info hinfo
    cases hdecl : src.decl? d with
    | none => simp [Source.genericsOf, hdecl] at hg
    | some decl =>
      rw [Source.genericsOf_eq hdecl] at hg
      obtain ⟨q, -, hq, rfl, rfl, -⟩ := hbuilt.generic d decl hdecl i g hg
      obtain rfl := Option.some.inj (hp.symm.trans hq)
      exact hinfo
  bounds g t ht := by rw [h.early] at ht; simp [Table.get?] at ht
  defaults g t ht := by rw [h.early] at ht; simp [Table.get?] at ht
  declared g t ht := by rw [h.early] at ht; simp [Table.get?] at ht
  mentions g t ht := by rw [h.early] at ht; simp [Table.get?] at ht
  aliases d t ht := by rw [h.early] at ht; simp [Table.get?] at ht
  functions d sig hsig := by rw [h.early] at hsig; simp [Table.get?] at hsig
  fields d fields hfields := by rw [h.early] at hfields; simp [Table.get?] at hfields
  cases d cases hcases := by rw [h.early] at hcases; simp [Table.get?] at hcases
  unions d members hmembers := by rw [h.early] at hmembers; simp [Table.get?] at hmembers
  declTypes d t ht := by rw [h.early] at ht; simp [Table.get?] at ht

theorem outside_of_listed {r : Regime} (hpart : ¬r.whole) (hbuilt : src.WellBuilt)
    (hknown : s.known = { ({} : LinkState).known with signatures := s.signatures })
    (hlisted : Listed src src.owners s.signatures) (hsees : Sees src src.Reachable s)
    (hloud : s.quiet = false) : Outside r src s := by
  refine ⟨?_, hsees, hloud⟩
  rw [hknown]
  exact {
    signatures := signaturesFit_of_listed hbuilt hlisted
    whole := fun hwhole => absurd hwhole hpart
    paramTypes := fun d sig hsig => by
      change s.signatures.functions.get? d = some sig at hsig
      rw [hlisted.early] at hsig
      simp [Table.get?] at hsig
    bodies := nofun
    exprTypes := fun e t ht => by simp [LinkState.known, Table.get?] at ht
    usages := fun _ _ site u hu => by simp [LinkState.known, Table.get?] at hu
    sound := Registry.sound_empty _
    orderly := ⟨nofun, nofun, fun h => absurd rfl h⟩
    coherent := fun e _ _ u hu => by simp [LinkState.known, Table.get?] at hu }

end Link

end Linkage
