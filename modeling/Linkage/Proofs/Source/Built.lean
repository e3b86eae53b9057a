import Linkage.Proofs.Source.Changes

/-!
# What building guarantees

An identifier can point anywhere, but the lists that building itself maintains are sound in every unit that was built:
a top-level item is a declaration that can be one and stands in nothing, a member of a namespace stands in a
namespace, a generic parameter knows its owner and its place in the owner's list, and a function parameter belongs to
one function only. A declaration that is changed keeps its sort, so what the lists say of it stays true; the rest is
checked where a list grows.
-/

namespace Linkage

variable {d : Decl} {src : Source}

namespace Source

/-- The unit comes from carrying out some steps. -/
def Built (src : Source) : Prop :=
  ∃ steps results b, Builder.run {} steps = .ok (results, b) ∧ b.source = src

structure WellBuilt (src : Source) : Prop where
  item : ∀ d ∈ src.items, ∃ decl, src.decl? d = some decl ∧ decl.parent = none ∧ decl.kind.isItem = true
  member : ∀ d decl, src.decl? d = some decl → ∀ m ∈ decl.kind.members,
    ∃ md p pd, src.decl? m = some md ∧ md.parent = some p ∧ src.decl? p = some pd ∧ pd.kind.isSpace = true
  generic : ∀ d decl, src.decl? d = some decl → ∀ (k : Nat) g, decl.generics[k]? = some g →
    ∃ p pd, src.generic? g = some p ∧ p.index = k ∧ p.owner = d ∧ src.decl? p.decl = some pd ∧
      pd.kind.generic? = some g
  param : ∀ d decl, src.decl? d = some decl → ∀ p ∈ decl.kind.params,
    ∃ pd, src.decl? p = some pd ∧ pd.kind.isParameter = true
  paramOwner : ∀ d decl d' decl', src.decl? d = some decl → src.decl? d' = some decl' →
    ∀ p ∈ decl.kind.params, p ∈ decl'.kind.params → d = d'

theorem wellBuilt_empty : ({} : Source).WellBuilt where
  item d hd := by simp at hd
  member d decl h := by simp [decl?, NodeId.get?] at h
  generic d decl h := by simp [decl?, NodeId.get?] at h
  param d decl h := by simp [decl?, NodeId.get?] at h
  paramOwner d decl d' decl' h := by simp [decl?, NodeId.get?] at h

/-- Only the declarations, the generic parameters and the items matter. -/
theorem WellBuilt.of_eq {src' : Source} (h : src.WellBuilt) (hdecls : src'.decls = src.decls)
    (hgenerics : src'.generics = src.generics) (hitems : src'.items = src.items) : src'.WellBuilt := by
  obtain ⟨hitem, hmember, hgeneric, hparam, howner⟩ := h
  simp only [decl?, generic?, ← hdecls, ← hgenerics, ← hitems] at hitem hmember hgeneric hparam howner
  exact ⟨hitem, hmember, hgeneric, hparam, howner⟩

/-! ### Appending a declaration -/

theorem WellBuilt.push (h : src.WellBuilt) (hbare : d.kind.Bare) : (src.push d).WellBuilt where
  item id hid := by
    obtain ⟨decl, hdecl, hrest⟩ := h.item id hid
    exact ⟨decl, decl?_push_of_some hdecl, hrest⟩
  member id decl hdecl m hm := by
    rcases decl?_push_cases hdecl with hold | ⟨-, rfl⟩
    · obtain ⟨md, p, pd, hmd, hparent, hpd, hspace⟩ := h.member id decl hold m hm
      exact ⟨md, p, pd, decl?_push_of_some hmd, hparent, decl?_push_of_some hpd, hspace⟩
    · simp [hbare.members] at hm
  generic id decl hdecl k g hg := by
    rcases decl?_push_cases hdecl with hold | ⟨-, rfl⟩
    · obtain ⟨p, pd, hp, hindex, howner, hpd, hkind⟩ := h.generic id decl hold k g hg
      exact ⟨p, pd, hp, hindex, howner, decl?_push_of_some hpd, hkind⟩
    · simp [Decl.generics, hbare.generics] at hg
  param id decl hdecl p hp := by
    rcases decl?_push_cases hdecl with hold | ⟨-, rfl⟩
    · obtain ⟨pd, hpd, hkind⟩ := h.param id decl hold p hp
      exact ⟨pd, decl?_push_of_some hpd, hkind⟩
    · simp [hbare.params] at hp
  paramOwner id decl id' decl' hdecl hdecl' p hp hp' := by
    rcases decl?_push_cases hdecl with hold | ⟨-, rfl⟩
    · rcases decl?_push_cases hdecl' with hold' | ⟨-, rfl⟩
      · exact h.paramOwner id decl id' decl' hold hold' p hp hp'
      · simp [hbare.params] at hp'
    · simp [hbare.params] at hp

/-! ### Changing a declaration -/

/-- A unit stays sound when a declaration is changed and what is new in its lists is in order. It may
also move into a namespace, unless it is a top-level item. Generic parameters may be added to the store
along with the change. -/
theorem WellBuilt.put (h : src.WellBuilt) {id : DeclId} (d' : Decl)
    (more : List GenericParam) (hid : src.decl? id = some d) (hform : d.kind.SameForm d'.kind)
    (hparent : d'.parent = d.parent ∨ id ∉ src.items ∧
      ∃ p pd, d'.parent = some p ∧ src.decl? p = some pd ∧ pd.kind.isSpace = true)
    (hgenerics : ∀ (k : Nat) g, d'.generics[k]? = some g → d.generics[k]? = some g ∨
      ∃ p pd, g.get? (src.generics ++ more) = some p ∧ p.index = k ∧ p.owner = id ∧
        src.decl? p.decl = some pd ∧ pd.kind.generic? = some g) (hmembers : ∀ m ∈ d'.kind.members, m ∈ d.kind.members ∨
      ∃ md p pd, src.decl? m = some md ∧ md.parent = some p ∧ src.decl? p = some pd ∧ pd.kind.isSpace = true)
    (hparams : ∀ p ∈ d'.kind.params, p ∈ d.kind.params ∨
      (∃ pd, src.decl? p = some pd ∧ pd.kind.isParameter = true) ∧
        ∀ other decl, src.decl? other = some decl → p ∉ decl.kind.params) :
    ({ src.put id d' with generics := src.generics ++ more } : Source).WellBuilt where
  item other hother := by
    obtain ⟨e, he, hnone, hitem⟩ := h.item other hother
    obtain ⟨e', he', hsame, hp⟩ := decl?_put_of_some hid hform he
    refine ⟨e', he', (hp ?_).trans hnone, hsame.isItem.trans hitem⟩
    rcases hparent with hkept | ⟨hnot, -⟩
    · exact .inr hkept
    · exact .inl fun hother' => hnot (hother' ▸ hother)
  member other decl hdecl m hm := by
    have hfound : ∃ md p pd, src.decl? m = some md ∧ md.parent = some p ∧ src.decl? p = some pd ∧
        pd.kind.isSpace = true := by
      rcases decl?_put_cases hdecl with ⟨rfl, rfl⟩ | ⟨-, hold⟩
      · rcases hmembers m hm with hm | hfound
        · exact h.member other d hid m hm
        · exact hfound
      · exact h.member other decl hold m hm
    have hspace : ∀ {p : DeclId} {pd : Decl}, src.decl? p = some pd → pd.kind.isSpace = true →
        ∃ pd', (src.put id d').decl? p = some pd' ∧ pd'.kind.isSpace = true := by
      intro p pd hpd hisSpace
      obtain ⟨pd', hpd', hsame, -⟩ := decl?_put_of_some hid hform hpd
      exact ⟨pd', hpd', hsame.isSpace.trans hisSpace⟩
    obtain ⟨md, p, pd, hmd, hparentOf, hpd, hisSpace⟩ := hfound
    obtain ⟨md', hmd', -, hp⟩ := decl?_put_of_some hid hform hmd
    by_cases hkept : m ≠ id ∨ d'.parent = d.parent
    · obtain ⟨pd', hpd'⟩ := hspace hpd hisSpace
      exact ⟨md', p, pd', hmd', (hp hkept).trans hparentOf, hpd'⟩
    · -- the member itself has moved, and it stands in a namespace now
      rw [not_or, ne_eq, Classical.not_not] at hkept
      obtain ⟨rfl, hmoved⟩ := hkept
      obtain ⟨-, p, pd, hnew, hpd, hisSpace⟩ := hparent.resolve_left hmoved
      obtain ⟨pd', hpd'⟩ := hspace hpd hisSpace
      exact ⟨d', p, pd', decl?_put_self hid, hnew, hpd'⟩
  generic other decl hdecl k g hg := by
    have hold : ∀ {e : Decl}, src.decl? other = some e → e.generics[k]? = some g →
        ∃ p pd, g.get? (src.generics ++ more) = some p ∧ p.index = k ∧ p.owner = other ∧
          src.decl? p.decl = some pd ∧ pd.kind.generic? = some g := by
      intro e he hg
      obtain ⟨p, pd, hp, hrest⟩ := h.generic other e he k g hg
      exact ⟨p, pd, NodeId.get?_append_of_some hp more, hrest⟩
    have hfound : ∃ p pd, g.get? (src.generics ++ more) = some p ∧ p.index = k ∧ p.owner = other ∧
        src.decl? p.decl = some pd ∧ pd.kind.generic? = some g := by
      rcases decl?_put_cases hdecl with ⟨rfl, rfl⟩ | ⟨-, hdecl⟩
      · rcases hgenerics k g hg with hg | hfound
        · exact hold hid hg
        · exact hfound
      · exact hold hdecl hg
    obtain ⟨p, pd, hp, hindex, howner, hpd, hkind⟩ := hfound
    obtain ⟨pd', hpd', hsame, -⟩ := decl?_put_of_some hid hform hpd
    exact ⟨p, pd', hp, hindex, howner, hpd', hsame.generic?.trans hkind⟩
  param other decl hdecl p hp := by
    have hfound : ∃ pd, src.decl? p = some pd ∧ pd.kind.isParameter = true := by
      rcases decl?_put_cases hdecl with ⟨rfl, rfl⟩ | ⟨-, hold⟩
      · rcases hparams p hp with hp | ⟨hfound, -⟩
        · exact h.param other d hid p hp
        · exact hfound
      · exact h.param other decl hold p hp
    obtain ⟨pd, hpd, hkind⟩ := hfound
    obtain ⟨pd', hpd', hsame, -⟩ := decl?_put_of_some hid hform hpd
    exact ⟨pd', hpd', hsame.isParameter.trans hkind⟩
  paramOwner a decl b decl' ha hb p hp hp' := by
    rcases decl?_put_cases ha with ⟨rfl, rfl⟩ | ⟨-, ha'⟩
    · rcases decl?_put_cases hb with ⟨rfl, -⟩ | ⟨-, hb'⟩
      · rfl
      · rcases hparams p hp with hp | ⟨-, hfresh⟩
        · exact h.paramOwner a d b decl' hid hb' p hp hp'
        · exact absurd hp' (hfresh b decl' hb')
    · rcases decl?_put_cases hb with ⟨rfl, rfl⟩ | ⟨-, hb'⟩
      · rcases hparams p hp' with hp' | ⟨-, hfresh⟩
        · exact h.paramOwner a decl b d ha' hid p hp hp'
        · exact absurd hp (hfresh a decl ha')
      · exact h.paramOwner a decl b decl' ha' hb' p hp hp'

theorem WellBuilt.edit (h : src.WellBuilt) {id : DeclId}
    (hid : src.decl? id = some d) {kind : DeclKind} (hform : d.kind.SameForm kind)
    (hgenerics : kind.generics = d.kind.generics) (hparams : kind.params = d.kind.params)
    (hmembers : kind.members = d.kind.members) : (src.put id { d with kind }).WellBuilt := by
  have hput : ({ src.put id { d with kind } with generics := src.generics ++ [] } : Source).WellBuilt := by
    refine h.put { d with kind } [] hid hform (.inl rfl) (fun k g hg => .inl ?_) (fun m hm => .inl ?_)
      (fun p hp => .inl ?_)
    · rw [Decl.generics, hgenerics] at hg
      exact hg
    · rwa [← hmembers]
    · rwa [← hparams]
  exact hput.of_eq rfl (List.append_nil _).symm rfl

theorem WellBuilt.reparent (h : src.WellBuilt) {item space : DeclId} {sd : Decl}
    (hd : src.decl? item = some d) (hsd : src.decl? space = some sd) (hspace : sd.kind.isSpace = true) :
    (({ src with items := src.items.filter (· ≠ item) } : Source).put item
      { d with parent := some space }).WellBuilt := by
  have hfiltered : ({ src with items := src.items.filter (· ≠ item) } : Source).WellBuilt :=
    ⟨fun id hid => h.item id (List.mem_filter.1 hid).1, h.member, h.generic, h.param, h.paramOwner⟩
  have hput := hfiltered.put { d with parent := some space } [] hd (.refl _)
    (.inr ⟨by simp, space, sd, rfl, hsd, hspace⟩) (fun k g hg => .inl hg) (fun m hm => .inl hm)
    (fun p hp => .inl hp)
  exact hput.of_eq rfl (List.append_nil _).symm rfl

/-! ### Steps -/

theorem WellBuilt.addItem (h : src.WellBuilt) (hparent : d.parent = none)
    (hitem : d.kind.isItem = true) (hbare : d.kind.Bare) :
    ({ src.push d with items := src.items ++ [NodeId.next src.decls] } : Source).WellBuilt := by
  have hpush := h.push hbare
  refine ⟨fun id hid => ?_, hpush.member, hpush.generic, hpush.param, hpush.paramOwner⟩
  rcases List.mem_append.1 hid with hid | hid
  · exact hpush.item id hid
  · rw [List.mem_singleton.1 hid]
    exact ⟨d, decl?_push_next src d, hparent, hitem⟩

theorem WellBuilt.addGeneric (h : src.WellBuilt) {gd : Decl} {kind : DeclKind}
    {param : GenericParam} (hgd : gd.kind = .genericParam (NodeId.next src.generics))
    (hdecl : param.decl = NodeId.next src.decls) (hd : (src.push gd).decl? param.owner = some d)
    (hindex : param.index = d.generics.length) (hkind : d.kind.addGeneric? (NodeId.next src.generics) = some kind) :
    ({ (src.push gd).put param.owner { d with kind } with generics := src.generics ++ [param] } :
      Source).WellBuilt := by
  have hpush : (src.push gd).WellBuilt := h.push (by rw [hgd]; exact ⟨rfl, rfl, rfl, rfl⟩)
  obtain ⟨hform, hparams, -, hmembers⟩ := DeclKind.sameForm_of_addGeneric? hkind
  have hgenerics := DeclKind.generics_of_addGeneric? hkind
  refine hpush.put { d with kind } [param] hd hform (.inl rfl) ?_ ?_ ?_
  · intro k g hg
    simp only [Decl.generics, hgenerics] at hg hindex ⊢
    rcases Nat.lt_or_ge k d.kind.generics.length with hlt | hge
    · rw [List.getElem?_append_left hlt] at hg
      exact .inl hg
    · have hlt := (List.getElem?_eq_some_iff.1 hg).1
      rw [List.length_append, List.length_singleton] at hlt
      have hk : k = d.kind.generics.length := by omega
      subst hk
      rw [List.getElem?_append_right (Nat.le_refl _), Nat.sub_self] at hg
      obtain rfl := Option.some.inj hg
      refine .inr ⟨param, gd, NodeId.get?_next _ _, hindex, rfl, ?_, ?_⟩
      · rw [hdecl]
        exact decl?_push_next src gd
      · rw [hgd]
        rfl
  · intro m hm
    rw [hmembers] at hm
    exact .inl hm
  · intro p hp
    rw [hparams] at hp
    exact .inl hp

theorem WellBuilt.addParam (h : src.WellBuilt) {pd : Decl} {p : ParameterDecl} {func : DeclId}
    {f : FunctionDecl} (hpd : pd.kind = .parameter p) (hd : (src.push pd).decl? func = some d)
    (hf : d.kind = .function f) : ((src.push pd).put func
      { d with kind := .function { f with params := f.params ++ [NodeId.next src.decls] } }).WellBuilt := by
  have hpush : (src.push pd).WellBuilt := h.push (by rw [hpd]; exact ⟨rfl, rfl, rfl, rfl⟩)
  have hput := hpush.put { d with kind := .function { f with params := f.params ++ [NodeId.next src.decls] } } []
    hd (by rw [hf]; exact ⟨⟨rfl, rfl, rfl, rfl⟩, rfl, rfl⟩) (.inl rfl)
    (fun k g hg => .inl (by rw [Decl.generics, hf]; exact hg)) (fun m hm => .inl (by rw [hf]; exact hm)) ?_
  · exact hput.of_eq rfl (List.append_nil _).symm rfl
  · intro q hq
    rw [hf]
    rcases List.mem_append.1 hq with hq | hq
    · exact .inl hq
    · rw [List.mem_singleton.1 hq]
      refine .inr ⟨⟨pd, decl?_push_next src pd, by rw [hpd]; rfl⟩, fun other decl hdecl hmem => ?_⟩
      -- the new declaration is in no list, since what is in a list was there before
      rcases decl?_push_cases hdecl with hold | ⟨-, rfl⟩
      · obtain ⟨qd, hqd, -⟩ := h.param other decl hold _ hmem
        simp [decl?_next] at hqd
      · simp [hpd, DeclKind.params] at hmem

theorem WellBuilt.nest (h : src.WellBuilt) {item space : DeclId} {e : Decl} {members : List DeclId}
    (hd : src.decl? item = some d) (he : (src.put item { d with parent := some space }).decl? space = some e)
    (hmembers : e.kind = .space members) :
    ({ (src.put item { d with parent := some space }).put space { e with kind := .space (members ++ [item]) } with
      items := src.items.filter (· ≠ item) } : Source).WellBuilt := by
  have hsd : ∃ sd, src.decl? space = some sd ∧ sd.kind.isSpace = true := by
    rcases decl?_put_cases he with ⟨rfl, rfl⟩ | ⟨-, hold⟩
    · exact ⟨d, hd, congrArg DeclKind.isSpace hmembers⟩
    · exact ⟨e, hold, congrArg DeclKind.isSpace hmembers⟩
  obtain ⟨sd, hsd, hspace⟩ := hsd
  have hmoved := h.reparent hd hsd hspace
  have hput := hmoved.put { e with kind := .space (members ++ [item]) } [] he
    (by rw [hmembers]; exact ⟨⟨rfl, rfl, rfl, rfl⟩, rfl, rfl⟩) (.inl rfl)
    (fun k g hg => by simp [Decl.generics, DeclKind.generics] at hg) ?_ (fun p hp => by
      simp [DeclKind.params] at hp)
  · exact hput.of_eq rfl (List.append_nil _).symm rfl
  · intro m hm
    rw [hmembers]
    rcases List.mem_append.1 hm with hm | hm
    · exact .inl hm
    · rw [List.mem_singleton.1 hm]
      exact .inr ⟨_, space, e, decl?_put_self hd, rfl, he, congrArg DeclKind.isSpace hmembers⟩

theorem WellBuilt.change {src' : Source} (hchange : src.Change src') (h : src.WellBuilt) : src'.WellBuilt := by
  cases hchange with
  | other hdecls hgenerics hitems _ => exact h.of_eq hdecls hgenerics hitems
  | item d hparent hitem hbare => exact h.addItem hparent hitem hbare
  | edit hd hkept => exact h.edit hd hkept.toSameForm hkept.generics hkept.params hkept.members
  | generic gd param hgd _ _ hdecl hd hindex hkind => exact h.addGeneric hgd hdecl hd hindex hkind
  | param pd hpd _ hd hf => exact h.addParam hpd hd hf
  | method md hmd _ hd hi =>
    have hpush : (src.push md).WellBuilt := h.push (by rw [hmd]; exact ⟨rfl, rfl, rfl, rfl⟩)
    refine hpush.edit hd ?_ ?_ ?_ ?_ <;> rw [hi]
    · exact ⟨⟨rfl, rfl, rfl, rfl⟩, rfl, rfl⟩
    · rfl
    · rfl
    · rfl
  | nest hd he hmembers => exact h.nest hd he hmembers
  | binding d _ hd _ =>
    have hpush : (src.push d).WellBuilt := h.push (by rw [hd]; exact ⟨rfl, rfl, rfl, rfl⟩)
    exact hpush.of_eq rfl rfl rfl

end Source

def Source.ofSteps (steps : List BuildStep) : Source :=
  match ({} : Builder).run steps with
  | .ok (_, b) => b.source
  | .error _ => {}

theorem Source.built_ofSteps (steps : List BuildStep) : (Source.ofSteps steps).Built := by
  unfold ofSteps
  split
  · rename_i results b hrun
    exact ⟨steps, results, b, hrun, rfl⟩
  · exact ⟨[], [], {}, rfl, rfl⟩

/-- What every change of a well-built unit keeps holds of all units that were built. -/
theorem Source.Built.induction {P : Source → Prop} (h : src.Built) (hempty : P {})
    (hchange : ∀ src src' : Source, src.Change src' → src.WellBuilt → P src → P src') : src.WellBuilt ∧ P src := by
  obtain ⟨steps, results, b, hrun, rfl⟩ := h
  refine Builder.run_induction (P := fun src => src.WellBuilt ∧ P src) ?_ ⟨wellBuilt_empty, hempty⟩ hrun
  rintro src src' hstep ⟨hwell, hP⟩
  exact ⟨hwell.change hstep, hchange src src' hstep hwell hP⟩

theorem Source.Built.wellBuilt (h : src.Built) : src.WellBuilt :=
  (h.induction trivial fun _ _ _ _ _ => trivial).1

end Linkage
