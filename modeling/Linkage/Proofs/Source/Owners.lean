import Linkage.Proofs.Source.Items
import Linkage.Proofs.Source.Validity

/-!
# What names can lead to

The top level and the namespaces of a source unit hold items only, where namespaces hold nothing else. If an item is
not a namespace itself it is an owner, one of the declarations that have signatures. Inside a declaration its own
generic parameters are visible, and those of the interface it belongs to. A declaration that a name leads to belongs
to no interface, so its own are all there are.
-/

namespace Linkage

namespace Source

def ItemsOnly (src : Source) : Prop :=
  ∀ d decl, src.decl? d = some decl → ∀ m ∈ decl.kind.members, ∀ md, src.decl? m = some md →
    md.kind.isItem = true

instance (src : Source) : Decidable src.ItemsOnly :=
  decidable_of_iff
    (∀ decl ∈ src.decls, ∀ m ∈ decl.kind.members, ∀ md ∈ src.decl? m, md.kind.isItem = true) <| by
    constructor
    · intro h d decl hdecl
      exact h decl (List.mem_of_getElem? hdecl)
    · intro h decl hdecl
      obtain ⟨i, hi⟩ := List.getElem?_of_mem hdecl
      exact h ⟨i⟩ decl hi

/-- The declarations that have signatures. -/
def owners (src : Source) : List DeclId := Item.ownersAll src src.itemTrees

/-- An item that stands in nothing or in a namespace. -/
def Named (src : Source) (d : DeclId) : Prop :=
  ∃ decl, src.decl? d = some decl ∧ decl.kind.isItem = true ∧
    ∀ p pd, decl.parent = some p → src.decl? p = some pd → pd.kind.isSpace = true

/-- A declaration with a signature that a path can lead to. -/
abbrev Owner (src : Source) (d : DeclId) : Prop := src.Named d ∧ d ∈ src.owners

/-- A declaration that a path can lead to from the top level. -/
structure Reachable (src : Source) (d : DeclId) : Prop where
  named : src.Named d
  owner : (∃ decl, src.decl? d = some decl ∧ decl.kind.isSpace = true) ∨ d ∈ src.owners

def genericsOf (src : Source) (d : DeclId) : List GenericId := ((src.decl? d).map Decl.generics).getD []

def hasDefault (src : Source) (g : GenericId) : Bool := (src.generic? g).any (·.default.isSome)

def interfaceGenerics (src : Source) (decl : Decl) : List GenericId :=
  match decl.parent.bind src.decl? with
  | some pd => if pd.kind.isInterface then pd.generics else []
  | none => []

/-- The namespaces around a declaration, innermost first. -/
def spacesAround (src : Source) (d : DeclId) : List DeclId :=
  (src.ancestors d).filter fun a => (src.decl? a).any (·.kind.isSpace)

/-- The generic parameters that are visible inside a declaration. -/
def visible (src : Source) (d : DeclId) : List GenericId :=
  match src.decl? d with
  | some decl => src.interfaceGenerics decl ++ decl.generics
  | none => []

variable {src : Source} {d : DeclId} {decl : Decl}

theorem genericsOf_eq (h : src.decl? d = some decl) : src.genericsOf d = decl.generics := by
  simp [genericsOf, h]

theorem visible_eq (h : src.decl? d = some decl) :
    src.visible d = src.interfaceGenerics decl ++ decl.generics := by
  simp [visible, h]

theorem interfaceGenerics_of_space
    (h : ∀ p pd, decl.parent = some p → src.decl? p = some pd → pd.kind.isSpace = true) :
    src.interfaceGenerics decl = [] := by
  unfold interfaceGenerics
  split
  · rename_i pd hpd
    obtain ⟨p, hp, hpd⟩ := Option.bind_eq_some_iff.1 hpd
    have hspace := h p pd hp hpd
    cases hkind : pd.kind <;> simp_all [DeclKind.isSpace, DeclKind.isInterface]
  · rfl

theorem Named.visible_eq (h : src.Named d) : src.visible d = src.genericsOf d := by
  obtain ⟨decl, hdecl, -, hparent⟩ := h
  rw [Source.visible_eq hdecl, genericsOf_eq hdecl, interfaceGenerics_of_space hparent, List.nil_append]

theorem WellBuilt.nodup_genericsOf (h : src.WellBuilt) (d : DeclId) : (src.genericsOf d).Nodup := by
  cases hdecl : src.decl? d with
  | none => simp [genericsOf, hdecl]
  | some decl =>
    rw [genericsOf_eq hdecl]
    refine List.pairwise_iff_getElem.2 fun i j hi hj hlt heq => ?_
    obtain ⟨p, -, hp, hindex, -⟩ := h.generic d decl hdecl i _ (List.getElem?_eq_getElem hi)
    obtain ⟨q, -, hq, hindex', -⟩ := h.generic d decl hdecl j _ (List.getElem?_eq_getElem hj)
    rw [heq, hq] at hp
    obtain rfl := Option.some.inj hp
    omega

theorem WellBuilt.eq_of_generic (h : src.WellBuilt) {d' : DeclId} {g : GenericId} (hg : g ∈ src.genericsOf d)
    (hg' : g ∈ src.genericsOf d') : d = d' := by
  have owned : ∀ {d : DeclId}, g ∈ src.genericsOf d → ∃ p, src.generic? g = some p ∧ p.owner = d := by
    intro d hg
    cases hdecl : src.decl? d with
    | none => simp [genericsOf, hdecl] at hg
    | some decl =>
      rw [genericsOf_eq hdecl] at hg
      obtain ⟨k, hk⟩ := List.getElem?_of_mem hg
      obtain ⟨p, -, hp, -, howner, -⟩ := h.generic d decl hdecl k g hk
      exact ⟨p, hp, howner⟩
  obtain ⟨p, hp, rfl⟩ := owned hg
  obtain ⟨q, hq, rfl⟩ := owned hg'
  rw [Option.some.inj (hp.symm.trans hq)]

/-- A generic parameter visible inside a declaration makes its own name visible. -/
theorem WellBuilt.generic_of_visible (h : src.WellBuilt) {g : GenericId} (hg : g ∈ src.visible d) :
    ∃ p pd, src.generic? g = some p ∧ src.decl? p.decl = some pd ∧ pd.kind = .genericParam g := by
  have found : ∀ {d decl}, src.decl? d = some decl → g ∈ decl.generics →
      ∃ p pd, src.generic? g = some p ∧ src.decl? p.decl = some pd ∧ pd.kind = .genericParam g := by
    intro d decl hdecl hmem
    obtain ⟨k, hk⟩ := List.getElem?_of_mem hmem
    obtain ⟨p, pd, hp, -, -, hpd, hkind⟩ := h.generic d decl hdecl k g hk
    refine ⟨p, pd, hp, hpd, ?_⟩
    cases hpdk : pd.kind <;> simp_all [DeclKind.generic?]
  unfold visible at hg
  split at hg
  · rename_i decl hdecl
    rcases List.mem_append.1 hg with hg | hg
    · unfold interfaceGenerics at hg
      split at hg
      · rename_i pd hpd
        obtain ⟨p, -, hpd⟩ := Option.bind_eq_some_iff.1 hpd
        split at hg
        · exact found hpd hg
        · simp at hg
      · simp at hg
    · exact found hdecl hg
  · simp at hg

/-! ### Items -/

end Source

/-- Every declaration of the item is named, and what has members is a namespace. -/
inductive Item.Sound (src : Source) : Item → Prop
  | decl {id : DeclId} (h : src.Named id) : Sound src (.decl id)
  | space {id : DeclId} {members : List Item} (h : src.Named id)
      (hspace : ∃ decl, src.decl? id = some decl ∧ decl.kind.isSpace = true)
      (hmembers : ∀ item ∈ members, Sound src item) : Sound src (.space id members)

theorem Item.mem_owners_decl (src : Source) (id : DeclId) : id ∈ (Item.decl id).owners src := by
  rw [Item.owners, Source.ownersOf]
  split <;> simp

namespace Source

variable {src : Source} {d : DeclId}

theorem WellBuilt.named_of_item (h : src.WellBuilt) (hd : d ∈ src.items) : src.Named d := by
  obtain ⟨decl, hdecl, hparent, hitem⟩ := h.item d hd
  exact ⟨decl, hdecl, hitem, fun p pd hp => by simp [hparent] at hp⟩

theorem WellBuilt.named_of_member (h : src.WellBuilt) (hitems : src.ItemsOnly) {decl : Decl}
    (hdecl : src.decl? d = some decl) {m : DeclId} (hm : m ∈ decl.kind.members) : src.Named m := by
  obtain ⟨md, p, pd, hmd, hparent, hpd, hspace⟩ := h.member d decl hdecl m hm
  refine ⟨md, hmd, hitems d decl hdecl m hm md hmd, fun p' pd' hp' hpd' => ?_⟩
  rw [hparent] at hp'
  obtain rfl := Option.some.inj hp'
  rw [hpd] at hpd'
  exact Option.some.inj hpd' ▸ hspace

theorem WellBuilt.sound_itemTree (h : src.WellBuilt) (hitems : src.ItemsOnly) (n : Nat)
    (hd : src.Named d) : (src.itemTree n d).Sound src := by
  induction n generalizing d with
  | zero => exact .decl hd
  | succ n ih =>
    unfold itemTree
    split
    · rename_i name span parent members hdecl
      refine .space hd ⟨_, hdecl, rfl⟩ fun item hitem => ?_
      obtain ⟨m, hm, rfl⟩ := List.mem_map.1 hitem
      exact ih (h.named_of_member hitems hdecl hm)
    · exact .decl hd

theorem WellBuilt.sound_itemTrees (h : src.WellBuilt) (hitems : src.ItemsOnly) :
    ∀ item ∈ src.itemTrees, item.Sound src := by
  intro item hitem
  obtain ⟨d, hd, rfl⟩ := List.mem_map.1 hitem
  exact h.sound_itemTree hitems _ (h.named_of_item hd)

/-! ### Owners -/

theorem isFunction_of_method (h : src.validate = .ok ()) {decl : Decl} (hd : src.decl? d = some decl)
    {i : InterfaceDecl} (hkind : decl.kind = .interface i) {m : DeclId} (hm : m ∈ i.methods) {md : Decl}
    (hmd : src.decl? m = some md) : md.kind.isFunction = true := by
  have hclosed := ((closed_of_validate h).decl hd).kind
  rw [hkind] at hclosed
  obtain ⟨md', hmd', hfunction⟩ := hclosed m hm
  rwa [Option.some.inj (hmd.symm.trans hmd')]

end Source

theorem DeclKind.isItem_of_isFunction {k : DeclKind} (h : k.isFunction = true) : k.isItem = true := by
  cases k <;> first | rfl | exact nomatch h

theorem Item.Sound.isItem_of_owner {src : Source} (hvalid : src.validate = .ok ()) {item : Item} (h : item.Sound src) :
    ∀ d ∈ item.owners src, ∀ decl, src.decl? d = some decl → decl.kind.isItem = true := by
  induction h with
  | @decl id hnamed =>
    intro d hd od hod
    obtain ⟨idDecl, hid, hitem, -⟩ := hnamed
    have hself : d = id → od.kind.isItem = true := by
      rintro rfl
      exact Option.some.inj (hid.symm.trans hod) ▸ hitem
    rw [Item.owners, Source.ownersOf] at hd
    split at hd
    · rename_i i hinterface
      rcases List.mem_cons.1 hd with hd | hd
      · exact hself hd
      · exact DeclKind.isItem_of_isFunction (Source.isFunction_of_method hvalid hinterface rfl hd hod)
    · exact hself (List.mem_singleton.1 hd)
  | space _ _ _ ih =>
    rw [Item.owners, Item.ownersAll_eq_flatMap]
    exact List.forall_mem_flatMap.2 ih

end Linkage
