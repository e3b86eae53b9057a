import Linkage.Proofs.Ty.Closing
import Linkage.Proofs.Ty.Unions

/-!
# Checks and spellings of a type

A check comes to the same verdict however the types are written, but it must be able to look through all aliases that
it meets. A union closes its members over its arguments, and this can put an alias behind others that already are as
many as are followed. One spelling of an argument is then accepted and the other is not, although the arguments are
the same, and so are the two unions over them.
-/

namespace Linkage

namespace TypeEnv

/-- The types have a common normal form within so many levels. -/
def FormsAt (env : TypeEnv) (n : Nat) (a b : Ty) : Prop :=
  ∃ u, env.normalForm? n a = some u ∧ env.normalForm? n b = some u

def SameForm (env : TypeEnv) (a b : Ty) : Prop := ∃ u, env.NormalForm a u ∧ env.NormalForm b u

variable {env : TypeEnv} {sigs : Signatures} {n : Nat} {a a' b e e' : Ty}

theorem FormsAt.formsAgree (h : env.FormsAt n a b) : env.FormsAgree a b := by
  obtain ⟨u, ha, hb⟩ := h
  intro v w hv hw
  rw [hv.unique ⟨n, ha⟩, hw.unique ⟨n, hb⟩]

/-- Spellings of one normal form show the same at the front, and the parts are spellings of one normal form. -/
theorem FormsAt.expand (h : env.FormsAt (n + 1) a b) :
    ((env.expand a).isCompound = false ∧ env.expand a = env.expand b) ∨
      HeadsAgree (env.FormsAt n) (env.expand a) (env.expand b) := by
  obtain ⟨u, ha, hb⟩ := h
  obtain ⟨x, hheada, ha⟩ := normalForm?_succ_iff.1 ha
  obtain ⟨y, hheadb, hb⟩ := normalForm?_succ_iff.1 hb
  have hexpanda : env.expand a = x := expandWithin_of_head? hheada
  have hexpandb : env.expand b = y := expandWithin_of_head? hheadb
  rw [hexpanda, hexpandb]
  obtain ⟨hleaf, rfl⟩ | ha := ha
  · obtain ⟨-, rfl⟩ | hb := hb
    · exact .inl ⟨hleaf, rfl⟩
    · simp [hb.isCompound.2] at hleaf
  · obtain ⟨hleaf, rfl⟩ | hb := hb
    · simp [ha.isCompound.2] at hleaf
    · exact .inr (ha.comp hb.flip)

theorem SameForm.symm (h : env.SameForm a b) : env.SameForm b a := by
  obtain ⟨u, ha, hb⟩ := h
  exact ⟨u, hb, ha⟩

theorem SameForm.levels (h : env.SameForm a b) : ∃ n, ∀ k, n ≤ k → env.FormsAt k a b := by
  obtain ⟨u, ha, hb⟩ := h
  obtain ⟨n, hlevels⟩ := ha.levels hb
  exact ⟨n, fun k hk => ⟨u, hlevels k hk⟩⟩

theorem FormsAt.sameForm (h : env.FormsAt n a b) : env.SameForm a b := by
  obtain ⟨u, ha, hb⟩ := h
  exact ⟨u, ⟨n, ha⟩, ⟨n, hb⟩⟩

theorem SameForm.heads (h : env.SameForm a b) :
    ((env.expand a).isCompound = false ∧ env.expand a = env.expand b) ∨
      HeadsAgree env.SameForm (env.expand a) (env.expand b) := by
  obtain ⟨n, hlevels⟩ := h.levels
  exact (hlevels (n + 1) (Nat.le_succ n)).expand.imp_right (HeadsAgree.imp fun _ _ => FormsAt.sameForm)

theorem SameForm.expand (h : env.SameForm a b) : env.SameForm (env.expand a) (env.expand b) := by
  obtain ⟨u, ⟨n, ha⟩, ⟨m, hb⟩⟩ := h
  exact ⟨u, ⟨n, normalForm?_expand ha⟩, ⟨m, normalForm?_expand hb⟩⟩

theorem sameForm_of_agree (ha : env.Expandable a) (hb : env.Expandable b) (h : env.FormsAgree a b) :
    env.SameForm a b := by
  obtain ⟨u, ha⟩ := ha
  obtain ⟨v, hb⟩ := hb
  obtain rfl : u = v := h u v ha hb
  exact ⟨u, ha, hb⟩

/-! ### Checks on spellings of the same types -/

theorem SameForm.alternatives (h : sigs.env.SameForm e e') (he : sigs.env.Unfolds e) (he' : sigs.env.Unfolds e') :
    List.Forall₂ (fun t t' => sigs.env.SameForm t t' ∧ sigs.env.Unfolds t ∧ sigs.env.Unfolds t')
      (sigs.env.alternatives (sigs.env.expand e)) (sigs.env.alternatives (sigs.env.expand e')) := by
  have halike : List.Forall₂ (Alike sigs.env.FormsAgree) (sigs.env.alternatives (sigs.env.expand e))
      (sigs.env.alternatives (sigs.env.expand e')) := by
    obtain ⟨n, hlevels⟩ := h.levels
    obtain ⟨-, heq⟩ | hparts := (hlevels (n + 1) (Nat.le_succ n)).expand
    · rw [heq]
      exact List.forall₂_same.2 fun t _ => .refl t
    · exact (hparts.imp fun _ _ hpart => .base hpart.formsAgree).alternatives
  -- what a check may come to has a normal form, so that agreement is more than a condition
  obtain ⟨hlength, hpairs⟩ := List.forall₂_iff_zip.1 halike
  refine List.forall₂_iff_zip.2 ⟨hlength, fun {t t'} hmem => ?_⟩
  have ht : sigs.env.Unfolds t := he.admits (List.of_mem_zip hmem).1
  have ht' : sigs.env.Unfolds t' := he'.admits (List.of_mem_zip hmem).2
  exact ⟨sameForm_of_agree ht.expandable ht'.expandable (formsAgree_of_alike (hpairs hmem)), ht, ht'⟩

theorem matching_of_sameForm (sigs : Signatures) : sigs.env.Matching sigs.env.FormsAt sigs.env.FormsAt
    (fun e e' => sigs.env.SameForm e e' ∧ sigs.env.Unfolds e ∧ sigs.env.Unfolds e') sigs.env.SameForm where
  expectedPace _ _ _ h := .inr h.expand
  actualPace _ _ _ h := .inr h.expand
  ends _ _ := fun ⟨_, ha, _⟩ => by simp [normalForm?] at ha
  expected _ _ := fun ⟨h, _, _⟩ => h.levels
  alternatives _ _ := fun ⟨h, he, he'⟩ _ => h.alternatives he he'
  actual _ _ h := h.levels
  expanded _ _ h := h.expand
  settled _ _ _ := fun ⟨_, _, ha'⟩ e => isSome_sameWithin ha' true e

/-- A settled check has the same verdict on other spellings of the two types. -/
theorem SameForm.satisfiesWithin {r : Bool} (hee' : sigs.env.SameForm e e') (he : sigs.env.Unfolds e)
    (he' : sigs.env.Unfolds e') (haa' : sigs.env.SameForm a a') (h : sigs.env.satisfiesWithin n e a = some r) :
    ∃ m, sigs.env.satisfiesWithin m e' a' = some r := by
  obtain ⟨m, r', hm, hrr'⟩ := (matching_of_sameForm sigs).satisfiesWithin ⟨hee', he, he'⟩ haa' h
  obtain ⟨k, r'', hk, hrr''⟩ := (matching_of_sameForm sigs).satisfiesWithin ⟨hee'.symm, he', he⟩ haa'.symm hm
  -- back at the types of the first check, the verdict can only be the one it had
  obtain rfl : r = r'' := Option.some.inj
    ((satisfiesWithin_mono (Nat.le_max_left n k) e a r h).symm.trans
      (satisfiesWithin_mono (Nat.le_max_right n k) e a r'' hk))
  obtain rfl : r = r' := Bool.eq_iff_iff.2 ⟨hrr', hrr''⟩
  exact ⟨m, hm⟩

theorem SameForm.satisfiesBound {reach : Nat} (hee' : env.SameForm e e') (haa' : env.SameForm a a')
    (h : { env with reach := reach }.satisfies e a = { env with reach := reach }.satisfies e' a') :
    { env with reach := reach }.satisfiesBound e a = { env with reach := reach }.satisfiesBound e' a' := by
  have hfront : ∀ {a b}, env.SameForm a b → env.expand a = env.expand b ∨
      HeadsAgree (fun _ _ => True) (env.expand a) (env.expand b) := by
    intro a b h
    obtain ⟨n, hlevels⟩ := h.levels
    exact (hlevels (n + 1) (Nat.le_succ n)).expand.imp And.right (HeadsAgree.imp fun _ _ _ => trivial)
  rw [TypeEnv.satisfiesBound, TypeEnv.satisfiesBound, h, expand_reach]
  congr 1
  have he := hfront hee'
  have ha := hfront haa'
  generalize env.expand e = x, env.expand e' = x' at he ⊢
  generalize env.expand a = y, env.expand a' = y' at ha ⊢
  obtain rfl | he := he
  · obtain rfl | ha := ha
    · rfl
    · cases ha <;> cases x <;> rfl
  · obtain rfl | ha := ha
    · cases he <;> cases y <;> rfl
    · cases he <;> cases ha <;> rfl

/-- Checks cannot tell aliases apart. Types that are the same satisfy and are satisfied by the same types, and
meet and are met by the same bounds, if no union leads back to itself and all aliases can be looked through: in
the types, and in what a check of the expected ones may come to. Such a check comes to an end. -/
theorem checks_agree_of_same (hunions : sigs.UnionsAcyclic) (he : sigs.env.Unfolds e) (he' : sigs.env.Unfolds e')
    (ha : sigs.env.Expandable a) (ha' : sigs.env.Expandable a') {reach reach' : Nat}
    (hee' : { sigs.env with reach := reach }.same e e' = true)
    (haa' : { sigs.env with reach := reach' }.same a a' = true) :
    ∃ n verdict, sigs.env.satisfiesWithin n e a = some verdict ∧ sigs.env.satisfiesWithin n e' a' = some verdict ∧
      ∀ reach, n ≤ reach →
        { sigs.env with reach := reach }.satisfies e a = { sigs.env with reach := reach }.satisfies e' a' ∧
        { sigs.env with reach := reach }.satisfiesBound e a =
          { sigs.env with reach := reach }.satisfiesBound e' a' := by
  have hexpected : sigs.env.SameForm e e' :=
    sameForm_of_agree he.expandable he'.expandable (formsAgree_of_same hee')
  have hactual : sigs.env.SameForm a a' := sameForm_of_agree ha ha' (formsAgree_of_same haa')
  obtain ⟨n, verdict, hn⟩ := exists_satisfiesWithin (ends_of_acyclic hunions e he) ha
  obtain ⟨m, hm⟩ := hexpected.satisfiesWithin he he' hactual hn
  refine ⟨max n m, verdict, satisfiesWithin_mono (Nat.le_max_left n m) e a verdict hn,
    satisfiesWithin_mono (Nat.le_max_right n m) e' a' verdict hm, fun reach hreach => ?_⟩
  have hverdict : { sigs.env with reach := reach }.satisfies e a = { sigs.env with reach := reach }.satisfies e' a' :=
    (satisfies_of_settled hn (by omega)).trans (satisfies_of_settled hm (by omega)).symm
  exact ⟨hverdict, hexpected.satisfiesBound hactual hverdict⟩

/-- `0<P0>` is a union of `bool` and `1<P0>`, which stands for `*P0`. `2` stands for `int`. -/
def aliasedMember : Signatures where
  generics := (Table.insert {} ⟨0⟩ [⟨0⟩]).insert ⟨1⟩ [⟨1⟩]
  unionMembers := Table.insert {} ⟨0⟩ [.bool, .linked ⟨1⟩ [.param ⟨0⟩]]
  aliasTargets := (Table.insert {} ⟨1⟩ (.pointer (.param ⟨1⟩))).insert ⟨2⟩ .int

/-- A value of type `*2` is checked against `&0<int>`, and a value of type `1<int>` against `&0<2>`. -/
theorem checks_agree_aliasedMember :
    let e := Ty.reference (.linked ⟨0⟩ [.int])
    let e' := Ty.reference (.linked ⟨0⟩ [.linked ⟨2⟩ []])
    let a := Ty.pointer (.linked ⟨2⟩ [])
    let a' := Ty.linked ⟨1⟩ [.int]
    aliasedMember.UnionsAcyclic ∧ aliasedMember.env.Unfolds e ∧ aliasedMember.env.Unfolds e' ∧
      aliasedMember.env.same e e' = true ∧ aliasedMember.env.same a a' = true ∧
      ∃ n verdict, aliasedMember.env.satisfiesWithin n e a = some verdict ∧
        aliasedMember.env.satisfiesWithin n e' a' = some verdict ∧ ∀ reach, n ≤ reach →
          { aliasedMember.env with reach := reach }.satisfies e a =
            { aliasedMember.env with reach := reach }.satisfies e' a' ∧
          { aliasedMember.env with reach := reach }.satisfiesBound e a =
            { aliasedMember.env with reach := reach }.satisfiesBound e' a' := by
  intro e e' a a'
  have hunions : aliasedMember.UnionsAcyclic :=
    Signatures.unionsAcyclic_of_rank (fun d => 3 - d.index) (by decide +kernel) (by decide +kernel)
  have he : aliasedMember.env.Unfolds e := unfolds_of_within (n := 5) (by decide +kernel)
  have he' : aliasedMember.env.Unfolds e' := unfolds_of_within (n := 5) (by decide +kernel)
  have ha : aliasedMember.env.Expandable a := ⟨.pointer .int, 2, by decide +kernel⟩
  have ha' : aliasedMember.env.Expandable a' := ⟨.pointer .int, 2, by decide +kernel⟩
  have hee' : aliasedMember.env.same e e' = true := by decide +kernel
  have haa' : aliasedMember.env.same a a' = true := by decide +kernel
  exact ⟨hunions, he, he', hee', haa', checks_agree_of_same hunions he he' ha ha' hee' haa'⟩

/-- `0<int>` and `0<33>` are the same and have a normal form, but the member `1<33>` of the second has none: after
the aliases `1` to `32` no other is followed. A value of type `int` satisfies the first union only. -/
theorem checks_differ_longWay :
    let e := Ty.linked ⟨0⟩ [.int]
    let e' := Ty.linked ⟨0⟩ [.linked ⟨33⟩ []]
    longWay.UnionsAcyclic ∧ longWay.TargetsOwn ∧
      (∀ d members, longWay.unionMembers.get? d = some members →
        ∀ t ∈ members, ∀ g ∈ t.occurrences, g ∈ longWay.genericsOf d) ∧
      longWay.env.Expandable e ∧ longWay.env.Expandable e' ∧ longWay.env.Expandable .int ∧
      longWay.env.same e e' = true ∧ longWay.env.same .int .int = true ∧
      longWay.env.satisfies e .int = true ∧ longWay.env.satisfies e' .int = false ∧
      longWay.env.satisfiesBound e .int = true ∧ longWay.env.satisfiesBound e' .int = false := by
  intro e e'
  refine ⟨?_, targetsOwn_longWay, ?_, ⟨e, 2, by decide +kernel⟩, ⟨e, 2, by decide +kernel⟩, ⟨.int, 1, by decide +kernel⟩,
    by decide +kernel, by decide +kernel, by decide +kernel, by decide +kernel, by decide +kernel, by decide +kernel⟩
  · exact Signatures.unionsAcyclic_of_rank (fun d => 40 - d.index) (by decide +kernel) (by decide +kernel)
  · have hown : ∀ entry ∈ longWay.unionMembers.entries, ∀ t ∈ entry.2, ∀ g ∈ t.occurrences,
        g ∈ longWay.genericsOf entry.1 := by decide +kernel
    exact fun d members hmembers => hown (d, members) (Table.mem_entries_of_get? hmembers)

end TypeEnv

end Linkage
