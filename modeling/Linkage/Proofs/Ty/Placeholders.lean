import Linkage.Proofs.Ty.Satisfaction

/-!
# Placeholders never cause a mismatch

Where an error leaves no type to put, the unknown type is put instead. A check that accepts a value still accepts it
when the unknown type takes the place of any parts of the two types, so one error is not reported again as a mismatch.
-/

namespace Linkage

/-- The second type is the first with the unknown type in the place of some of its parts, or of the whole. -/
def Ty.Blanked (t t' : Ty) : Prop := TypeEnv.Alike (fun _ u => u = .unknown) t t'

namespace TypeEnv

variable {sigs : Signatures} {n : Nat} {a a' e e' t u : Ty}

theorem expandWithin_unknown (env : TypeEnv) (n : Nat) : env.expandWithin n .unknown = .unknown := by
  cases n <;> rfl

theorem head?_unknown (env : TypeEnv) (n : Nat) : env.head? n .unknown = some .unknown := by
  cases n <;> rfl

theorem blanked_expand (sigs : Signatures) (h : a.Blanked a') : (sigs.env.expand a).Blanked (sigs.env.expand a') :=
  Alike.expandWithin (fun k _ _ hunknown => .base (by rw [hunknown, expandWithin_unknown])) h

theorem keeps_of_blanked (h : a.Blanked a') : Keeps Ty.Blanked a a' := by
  cases h with
  | base hunknown => exact .inl hunknown
  | refl =>
    by_cases hcompound : a.isCompound = true
    · exact .inr (.inr (.refl Alike.refl hcompound))
    · exact .inr (.inl ⟨by simpa using hcompound, rfl⟩)
  | parts h => exact .inr (.inr h)

/-! ### Normal forms with placeholders -/

theorem exists_head?_of_blanked (h : a.Blanked a') (ha : sigs.env.head? n a = some t) :
    ∃ t', sigs.env.head? n a' = some t' ∧ t.Blanked t' := by
  refine head?_induction (motive := fun n a => ∀ a', a.Blanked a' → ∃ t', sigs.env.head? n a' = some t' ∧
    t.Blanked t') ?stop ?step ha a' h
  case stop =>
    intro n hnone a' h
    have hnone' : sigs.env.unalias a' = none := by
      cases h with
      | base hunknown => exact hunknown ▸ rfl
      | refl => exact hnone
      | parts h => exact h.unalias_eq_none hnone
    exact ⟨a', head?_of_unalias hnone' n, h⟩
  case step =>
    intro n a target htarget hhead ih a' h
    cases h with
    | base hunknown => exact ⟨.unknown, by rw [hunknown, head?_unknown], .base rfl⟩
    | refl => exact ⟨t, by rw [head?, htarget]; exact hhead, .refl t⟩
    | parts h =>
      obtain ⟨hnone, -⟩ | ⟨c, c', hc, hc', hcc'⟩ := h.unalias sigs
      · simp [htarget] at hnone
      · obtain rfl := Option.some.inj (htarget.symm.trans hc)
        rw [head?, hc']
        exact ih c' hcc'

/-- Blanking leaves no deeper normal form. -/
theorem exists_normalForm?_of_blanked (h : a.Blanked a') (ha : sigs.env.normalForm? n a = some u) :
    ∃ u', sigs.env.normalForm? n a' = some u' := by
  induction n generalizing a a' u with
  | zero => simp [normalForm?] at ha
  | succ n ih =>
    obtain ⟨head, hhead, hparts⟩ := Option.bind_eq_some_iff.1 ha
    obtain ⟨head', hhead', hblanked⟩ := exists_head?_of_blanked h hhead
    have hforms : ∀ y ∈ head'.parts, ∃ y', sigs.env.normalForm? n y = some y' := by
      intro y hy
      cases hblanked with
      | base hunknown => simp [hunknown, Ty.parts] at hy
      | refl => exact exists_of_mem_parts hparts hy
      | parts hheads =>
        obtain ⟨x, hx, hxy⟩ := hheads.exists_part hy
        obtain ⟨x', hx'⟩ := exists_of_mem_parts hparts hx
        exact ih hxy hx'
    obtain ⟨u', hu'⟩ := exists_mapParts? hforms
    exact ⟨u', by rw [normalForm?, hhead', Option.bind_some, hu']⟩

/-! ### Checks with placeholders -/

theorem keeps_expand_of_blanked (h : a.Blanked a') (ha : sigs.env.normalForm? (n + 1) a = some u) :
    Keeps (fun x x' => x.Blanked x' ∧ ∃ v, sigs.env.normalForm? n x = some v) (sigs.env.expand a)
      (sigs.env.expand a') := by
  obtain ⟨head, hhead, hparts⟩ := Option.bind_eq_some_iff.1 ha
  have hexpand : sigs.env.expand a = head := expandWithin_of_head? hhead
  refine (keeps_of_blanked (blanked_expand sigs h)).imp_right (Or.imp_right ?_)
  exact HeadsAgree.imp_parts fun x hx y hxy => ⟨hxy, exists_of_mem_parts hparts (hexpand ▸ hx)⟩

theorem matching_of_blanked (sigs : Signatures) : sigs.env.Matching (fun _ => Ty.Blanked)
    (fun n a a' => a.Blanked a' ∧ ∃ u, sigs.env.normalForm? n a = some u) Ty.Blanked
    (fun a a' => a.Blanked a' ∧ sigs.env.Expandable a) where
  expectedPace _ _ _ h := keeps_of_blanked (blanked_expand sigs h)
  actualPace _ _ _ := fun ⟨h, _, ha⟩ => keeps_expand_of_blanked h ha
  ends _ _ := fun ⟨_, _, ha⟩ => by simp [normalForm?] at ha
  expected _ _ h := ⟨0, fun _ _ => h⟩
  alternatives e e' h hknown := by
    replace h := blanked_expand sigs h
    generalize sigs.env.expand e = x at h ⊢
    generalize sigs.env.expand e' = x' at h hknown ⊢
    cases h with
    | base hunknown => exact absurd hunknown hknown
    | refl => exact List.forall₂_same.2 fun t _ => .refl t
    | parts h => exact h.alternatives
  actual _ _ := fun ⟨h, u, n, ha⟩ => ⟨n, fun _ hk => ⟨h, u, normalForm?_mono hk ha⟩⟩
  expanded _ _ := fun ⟨h, u, n, ha⟩ => ⟨blanked_expand sigs h, u, n, normalForm?_expand ha⟩
  settled _ _ _ := fun ⟨h, _, ha⟩ e => by
    obtain ⟨u', ha'⟩ := exists_normalForm?_of_blanked h ha
    exact isSome_sameWithin ha' true e

/-- An accepted check is still accepted with the unknown type in the place of any parts of the two types, once
it may go far enough down. Only the actual type needs a normal form. -/
theorem satisfies_of_blanked {reach : Nat} (ha : sigs.env.Expandable a) (hee' : e.Blanked e') (haa' : a.Blanked a')
    (h : { sigs.env with reach := reach }.satisfies e a = true) :
    ∃ n, ∀ reach, n ≤ reach → { sigs.env with reach := reach }.satisfies e' a' = true := by
  have hsettled : sigs.env.satisfiesWithin (reach + 1) e a = some true := by
    rw [← satisfiesWithin_reach sigs.env reach]
    simpa [satisfies] using h
  obtain ⟨n, verdict, hverdict, haccepts⟩ := (matching_of_blanked sigs).satisfiesWithin hee' ⟨haa', ha⟩ hsettled
  rw [haccepts rfl] at hverdict
  exact ⟨n, fun reach hreach => satisfies_of_settled hverdict hreach⟩

/-- `0<P0>` is a union of `P0` and `*P0`, and `1<P1>` stands for `&0<P1>`. -/
def borrowedUnion : Signatures where
  generics := (Table.insert {} ⟨0⟩ [⟨0⟩]).insert ⟨1⟩ [⟨1⟩]
  unionMembers := Table.insert {} ⟨0⟩ [.param ⟨0⟩, .pointer (.param ⟨0⟩)]
  aliasTargets := Table.insert {} ⟨1⟩ (.reference (.linked ⟨0⟩ [.param ⟨1⟩]))

/-- A value of type `*2<int, bool>` satisfies `1<2<int, bool>>`, and still does when the arguments are not known,
those of the alias in other places than those of the value. -/
theorem satisfies_borrowedUnion :
    let e := Ty.linked ⟨1⟩ [.linked ⟨2⟩ [.int, .bool]]
    let e' := Ty.linked ⟨1⟩ [.linked ⟨2⟩ [.unknown, .bool]]
    let a := Ty.pointer (.linked ⟨2⟩ [.int, .bool])
    let a' := Ty.pointer (.linked ⟨2⟩ [.int, .unknown])
    e.Blanked e' ∧ a.Blanked a' ∧ borrowedUnion.env.Expandable a ∧ borrowedUnion.env.satisfies e a = true ∧
      ∃ n, ∀ reach, n ≤ reach → { borrowedUnion.env with reach := reach }.satisfies e' a' = true := by
  intro e e' a a'
  have hee' : e.Blanked e' := .parts (.linked (.cons (.parts (.linked
    (.cons (.base rfl) (.cons (.refl _) .nil)))) .nil))
  have haa' : a.Blanked a' := .parts (.pointer (.parts (.linked
    (.cons (.refl _) (.cons (.base rfl) .nil)))))
  have ha : borrowedUnion.env.Expandable a := ⟨a, 3, by decide +kernel⟩
  have haccepts : borrowedUnion.env.satisfies e a = true := by decide +kernel
  exact ⟨hee', haa', ha, haccepts, satisfies_of_blanked ha hee' haa' haccepts⟩

end TypeEnv

end Linkage
