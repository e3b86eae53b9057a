import Linkage.Link.Declare
import Linkage.Source.Display

/-!
# The order of items

A source unit lists its top-level items in an order. Nothing else that is read from the unit depends on it.
-/

namespace Linkage

namespace Source

/-- The unit with its top-level items listed in another way. -/
def withItems (src : Source) (items : List DeclId) : Source := { src with items := items }

variable (src : Source) (items : List DeclId)

theorem ancestorsWithin_withItems (n : Nat) (id : DeclId) :
    (src.withItems items).ancestorsWithin n id = src.ancestorsWithin n id := by
  induction n generalizing id with
  | zero => rfl
  | succ n ih =>
    simp only [ancestorsWithin, ih]
    rfl

theorem ancestors_withItems (id : DeclId) : (src.withItems items).ancestors id = src.ancestors id :=
  src.ancestorsWithin_withItems items src.decls.length id

theorem itemTree_withItems (n : Nat) (id : DeclId) : (src.withItems items).itemTree n id = src.itemTree n id := by
  induction n generalizing id with
  | zero => rfl
  | succ n ih =>
    have ih : (src.withItems items).itemTree n = src.itemTree n := funext ih
    simp only [itemTree, ih]
    rfl

theorem itemTrees_withItems : (src.withItems items).itemTrees = items.map (src.itemTree src.decls.length) :=
  List.map_congr_left fun id _ => src.itemTree_withItems items src.decls.length id

mutual
theorem showTy_withItems : ∀ t, (src.withItems items).showTy t = src.showTy t
  | .prim _ => by rw [showTy, showTy]
  | .literal kind => by cases kind <;> rw [showTy, showTy]
  | .param g => by
    rw [showTy, showTy]
    rfl
  | .linked d [] => by
    rw [showTy, showTy]
    rfl
  | .linked d (arg :: args) => by
    rw [showTy, showTy, showTy_withItems arg, showTys_withItems args]
    rfl
  | .pointer inner => by rw [showTy, showTy, showTy_withItems inner]
  | .reference inner => by rw [showTy, showTy, showTy_withItems inner]
  | .array elem none => by rw [showTy, showTy, showTy_withItems elem]
  | .array elem (some len) => by rw [showTy, showTy, showTy_withItems elem]
  | .function params ret => by rw [showTy, showTy, showTys_withItems params, showTy_withItems ret]
  | .unknown => by rw [showTy, showTy]
theorem showTys_withItems : ∀ ts, (src.withItems items).showTys ts = src.showTys ts
  | [] => by rw [showTys, showTys]
  | t :: ts => by rw [showTys, showTys, showTy_withItems t, showTys_withItems ts]
end

end Source

namespace Item

variable (src : Source) (items : List DeclId)

mutual
theorem owners_withItems : ∀ item : Item, item.owners (src.withItems items) = item.owners src
  | .decl id => by
    rw [owners, owners]
    rfl
  | .space _ members => by rw [owners, owners, ownersAll_withItems members]
theorem ownersAll_withItems : ∀ l : List Item, ownersAll (src.withItems items) l = ownersAll src l
  | [] => by rw [ownersAll, ownersAll]
  | item :: l => by rw [ownersAll, ownersAll, owners_withItems item, ownersAll_withItems l]
end

theorem ownersAll_eq_flatMap (l : List Item) : ownersAll src l = l.flatMap (owners src) := by
  induction l with
  | nil => rw [ownersAll, List.flatMap_nil]
  | cons item l ih => rw [ownersAll, List.flatMap_cons, ih]

end Item

end Linkage
