import Linkage.Proofs.Ty.NormalForms
import Linkage.Proofs.Ty.Substitution

/-!
# Types that differ in some places

Two types are alike up to a relation if the one turns into the other when related types are exchanged in some places.
Looking through aliases takes both types the same way, until one of the exchanged types comes to the front. If the
exchanged types have the same normal form wherever they have one, so do the types around them.
-/

namespace Linkage

variable {k : Nat} {env : TypeEnv}

namespace TypeEnv

namespace HeadsAgree

variable {R S : Ty → Ty → Prop} {a b : Ty}

theorem refl (hR : ∀ t, R t t) (ha : a.isCompound = true) : HeadsAgree R a a := by
  have hlist : ∀ ts : List Ty, List.Forall₂ R ts ts := fun ts => List.forall₂_same.2 fun t _ => hR t
  cases a with
  | linked decl args => exact .linked (hlist args)
  | pointer inner => exact .pointer (hR inner)
  | reference inner => exact .reference (hR inner)
  | array elem len => exact .array (hR elem)
  | function params ret => exact .function (hlist params) (hR ret)
  | prim | literal | param | unknown => simp [Ty.isCompound] at ha

theorem imp_parts (hRS : ∀ x ∈ a.parts, ∀ y, R x y → S x y) (h : HeadsAgree R a b) :
    HeadsAgree S a b := by
  have hlist : ∀ {as bs : List Ty}, List.Forall₂ R as bs → (∀ x ∈ as, ∀ y, R x y → S x y) →
      List.Forall₂ S as bs := by
    intro as bs hs
    induction hs with
    | nil => exact fun _ => .nil
    | cons h _ ih =>
      intro hall
      exact .cons (hall _ List.mem_cons_self _ h) (ih fun x hx => hall x (List.mem_cons_of_mem _ hx))
  cases h with
  | linked hs => exact .linked (hlist hs hRS)
  | pointer h => exact .pointer (hRS _ (by simp [Ty.parts]) _ h)
  | reference h => exact .reference (hRS _ (by simp [Ty.parts]) _ h)
  | array h => exact .array (hRS _ (by simp [Ty.parts]) _ h)
  | function hs h =>
    refine .function (hlist hs fun x hx => hRS x ?_) (hRS _ (by simp [Ty.parts]) _ h)
    exact List.mem_append_left _ hx

theorem exists_part (h : HeadsAgree R a b) {y : Ty} (hy : y ∈ b.parts) : ∃ x ∈ a.parts, R x y := by
  have hlist : ∀ {as bs : List Ty}, List.Forall₂ R as bs → y ∈ bs → ∃ x ∈ as, R x y := by
    intro as bs hs hy
    induction hs with
    | nil => simp at hy
    | cons h _ ih =>
      rcases List.mem_cons.1 hy with rfl | hy
      · exact ⟨_, List.mem_cons_self, h⟩
      · obtain ⟨x, hx, hxy⟩ := ih hy
        exact ⟨x, List.mem_cons_of_mem _ hx, hxy⟩
  cases h with
  | linked hs => exact hlist hs hy
  | pointer h | reference h | array h => exact hlist (.cons h .nil) hy
  | function hs h => exact hlist (List.rel_append hs (.cons h .nil)) hy

end HeadsAgree

/-- The least congruence on types with the relation in it. -/
inductive Alike (R : Ty → Ty → Prop) : Ty → Ty → Prop
  | base {a b : Ty} (h : R a b) : Alike R a b
  | refl (t : Ty) : Alike R t t
  | parts {a b : Ty} (h : HeadsAgree (Alike R) a b) : Alike R a b

namespace Alike

variable {R : Ty → Ty → Prop} {σ τ : GenericId → Option Ty} {as bs : List Ty}

theorem replace (h : ∀ g, Alike R ((σ g).getD (.param g)) ((τ g).getD (.param g))) (t : Ty) :
    Alike R (t.replace σ) (t.replace τ) := by
  have hlist : ∀ ts : List Ty, (∀ t ∈ ts, Alike R (t.replace σ) (t.replace τ)) →
      List.Forall₂ (Alike R) (Ty.replaceAll σ ts) (Ty.replaceAll τ ts) := by
    intro ts hts
    rw [Ty.replaceAll_eq, Ty.replaceAll_eq, List.forall₂_map_left_iff, List.forall₂_map_right_iff]
    exact List.forall₂_same.2 hts
  induction t using Ty.inductionOn with
  | prim p => exact .refl _
  | literal kind => exact .refl _
  | param g => exact h g
  | linked decl args ih => exact .parts (.linked (hlist args ih))
  | pointer inner ih => exact .parts (.pointer ih)
  | reference inner ih => exact .parts (.reference ih)
  | array elem len ih => exact .parts (.array ih)
  | function params ret ihs ih => exact .parts (.function (hlist params ihs) ih)
  | unknown => exact .refl _

/-- A type closed over alike arguments. No argument need be there for each parameter. -/
theorem subst (hs : List.Forall₂ (Alike R) as bs) (t : Ty) (params : List GenericId) :
    Alike R (t.subst params as) (t.subst params bs) := by
  rw [Ty.subst_eq_replace, Ty.subst_eq_replace]
  refine replace (fun g => ?_) t
  unfold Ty.argFor
  cases params.idxOf? g with
  | none => exact .refl _
  | some i =>
    rw [Option.bind_some, Option.bind_some]
    by_cases hi : i < as.length
    · have hi' : i < bs.length := hs.length_eq ▸ hi
      rw [List.getElem?_eq_getElem hi, List.getElem?_eq_getElem hi']
      exact hs.get hi hi'
    · have hi' : ¬i < bs.length := hs.length_eq ▸ hi
      rw [List.getElem?_eq_none (Nat.le_of_not_lt hi), List.getElem?_eq_none (Nat.le_of_not_lt hi')]
      exact .refl _

end Alike

variable {R : Ty → Ty → Prop} {sigs : Signatures} {n : Nat} {a b a' b' t u v : Ty}

theorem HeadsAgree.unalias (sigs : Signatures) (h : HeadsAgree (Alike R) a b) :
    (sigs.env.unalias a = none ∧ sigs.env.unalias b = none) ∨
      ∃ a' b', sigs.env.unalias a = some a' ∧ sigs.env.unalias b = some b' ∧ Alike R a' b' := by
  cases h with
  | linked hs =>
    rename_i decl as bs
    cases htarget : sigs.aliasTargets.get? decl with
    | none => exact .inl ⟨by simp [TypeEnv.unalias, Signatures.env, Signatures.aliasTarget?, htarget],
        by simp [TypeEnv.unalias, Signatures.env, Signatures.aliasTarget?, htarget]⟩
    | some target =>
      refine .inr ⟨_, _, ?_, ?_, Alike.subst hs target (sigs.genericsOf decl)⟩
      · simp [TypeEnv.unalias, Signatures.env, Signatures.aliasTarget?, htarget]
      · simp [TypeEnv.unalias, Signatures.env, Signatures.aliasTarget?, htarget]
  | pointer h | reference h | array h => exact .inl ⟨rfl, rfl⟩
  | function hs h => exact .inl ⟨rfl, rfl⟩

theorem HeadsAgree.unalias_eq_none (h : HeadsAgree R a b)
    (hnone : sigs.env.unalias a = none) : sigs.env.unalias b = none := by
  cases h with
  | linked hs =>
    rename_i decl as bs
    have hget : sigs.aliasTargets.get? decl = none := Option.map_eq_none_iff.1 hnone
    show (sigs.aliasTargets.get? decl).map _ = none
    rw [hget, Option.map_none]
  | pointer | reference | array | function => rfl

theorem Alike.expandWithin
    (hR : ∀ k a b, R a b → Alike R (sigs.env.expandWithin k a) (sigs.env.expandWithin k b))
    (h : Alike R a b) : Alike R (sigs.env.expandWithin n a) (sigs.env.expandWithin n b) := by
  induction n generalizing a b with
  | zero => exact h
  | succ n ih =>
    cases h with
    | base h => exact hR (n + 1) _ _ h
    | refl => exact .refl _
    | parts h =>
      rw [TypeEnv.expandWithin, TypeEnv.expandWithin]
      obtain ⟨ha, hb⟩ | ⟨a', b', ha, hb, hab⟩ := h.unalias sigs
      · rw [ha, hb]
        exact .parts h
      · rw [ha, hb]
        exact ih hab

/-! ### Heads -/

theorem unalias_of_head? (h : env.head? n t = some u) : env.unalias u = none :=
  head?_induction (motive := fun _ _ => env.unalias u = none) (fun _ hnone => hnone) (fun _ _ _ _ _ ih => ih) h

theorem head?_of_unalias (h : env.unalias t = none) (n : Nat) : env.head? n t = some t := by
  cases n <;> simp [head?, h]

theorem head?_mono {m : Nat} (hnm : n ≤ m) (h : env.head? n t = some u) : env.head? m t = some u := by
  refine head?_induction (motive := fun n t => ∀ m, n ≤ m → env.head? m t = some u) ?stop ?step h m hnm
  case stop => exact fun _ hnone m _ => head?_of_unalias hnone m
  case step =>
    intro n t target htarget _ ih m hnm
    obtain ⟨m, rfl⟩ : ∃ k, m = k + 1 := ⟨m - 1, by omega⟩
    rw [head?, htarget]
    exact ih m (Nat.le_of_succ_le_succ hnm)

theorem head?_of_unalias_some (htarget : env.unalias t = some u) (h : env.head? n t = some v) :
    ∃ m, n = m + 1 ∧ env.head? m u = some v := by
  cases n with
  | zero => simp [head?, htarget] at h
  | succ m =>
    rw [head?, htarget] at h
    exact ⟨m, rfl, h⟩

theorem Alike.head?
    (hR : ∀ k ≤ n, ∀ a b a' b', R a b → sigs.env.head? k a = some a' → sigs.env.head? k b = some b' → R a' b')
    (h : Alike R a b) (ha : sigs.env.head? n a = some a') (hb : sigs.env.head? n b = some b') :
    Alike R a' b' := by
  induction n generalizing a b with
  | zero =>
    obtain ⟨-, rfl⟩ : sigs.env.unalias a = none ∧ a = a' := by simpa [TypeEnv.head?] using ha
    obtain ⟨-, rfl⟩ : sigs.env.unalias b = none ∧ b = b' := by simpa [TypeEnv.head?] using hb
    exact h
  | succ n ih =>
    cases h with
    | base h => exact .base (hR (n + 1) (Nat.le_refl _) _ _ _ _ h ha hb)
    | refl => exact Option.some.inj (ha.symm.trans hb) ▸ .refl a'
    | parts h =>
      rw [TypeEnv.head?] at ha hb
      obtain ⟨hnonea, hnoneb⟩ | ⟨c, d, hc, hd, hcd⟩ := h.unalias sigs
      · rw [hnonea] at ha
        rw [hnoneb] at hb
        exact Option.some.inj ha ▸ Option.some.inj hb ▸ .parts h
      · rw [hc] at ha
        rw [hd] at hb
        exact ih (fun k hk => hR k (Nat.le_succ_of_le hk)) hcd ha hb

/-! ### Normal forms of alike types -/

/-- The type has a full alias expansion. -/
def Expandable (env : TypeEnv) (t : Ty) : Prop := ∃ u, env.NormalForm t u

/-- Whatever normal forms the types have are the same. -/
def FormsAgree (env : TypeEnv) (a b : Ty) : Prop := ∀ u v, env.NormalForm a u → env.NormalForm b v → u = v

theorem NormalForm.unique (hu : env.NormalForm t u) (hv : env.NormalForm t v) : u = v := by
  obtain ⟨n, hlevels⟩ := hu.levels hv
  exact Option.some.inj ((hlevels n (Nat.le_refl n)).1.symm.trans (hlevels n (Nat.le_refl n)).2)

theorem normalForm?_of_head? (hk : k ≤ maxAliasDepth) (h : env.head? k t = some u) :
    env.normalForm? n t = env.normalForm? n u := by
  cases n with
  | zero => rfl
  | succ n =>
    rw [normalForm?, normalForm?, head?_mono hk h, head?_of_unalias (unalias_of_head? h)]

theorem normalForm?_expand (h : env.normalForm? n t = some u) : env.normalForm? n (env.expand t) = some u := by
  cases n with
  | zero => simp [normalForm?] at h
  | succ n =>
    obtain ⟨head, hhead, -⟩ := normalForm?_succ_iff.1 h
    rwa [expand, expandWithin_of_head? hhead, ← normalForm?_of_head? (Nat.le_refl _) hhead]

theorem FormsAgree.head? (hk : k ≤ maxAliasDepth) (h : env.FormsAgree a b)
    (ha : env.head? k a = some a') (hb : env.head? k b = some b') : env.FormsAgree a' b' := by
  rintro u v ⟨n, hu⟩ ⟨m, hv⟩
  rw [← normalForm?_of_head? hk ha] at hu
  rw [← normalForm?_of_head? hk hb] at hv
  exact h u v ⟨n, hu⟩ ⟨m, hv⟩

theorem normalForm?_eq_of_alike (h : Alike sigs.env.FormsAgree a b) (ha : sigs.env.normalForm? n a = some u)
    (hb : sigs.env.normalForm? n b = some v) : u = v := by
  induction n generalizing a b u v with
  | zero => simp [normalForm?] at ha
  | succ n ih =>
    obtain ⟨a', hheada, hparta⟩ := normalForm?_succ_iff.1 ha
    obtain ⟨b', hheadb, hpartb⟩ := normalForm?_succ_iff.1 hb
    have hheads : Alike sigs.env.FormsAgree a' b' :=
      h.head? (fun k hk _ _ _ _ => FormsAgree.head? hk) hheada hheadb
    rw [normalForm?_of_head? (Nat.le_refl _) hheada] at ha
    rw [normalForm?_of_head? (Nat.le_refl _) hheadb] at hb
    cases hheads with
    | base h => exact h u v ⟨_, ha⟩ ⟨_, hb⟩
    | refl => exact Option.some.inj (ha.symm.trans hb)
    | parts h => exact h.eq_of_forms hparta hpartb fun _ _ _ _ => ih

theorem formsAgree_of_alike (h : Alike sigs.env.FormsAgree a b) : sigs.env.FormsAgree a b := by
  intro u v hu hv
  obtain ⟨n, hlevels⟩ := hu.levels hv
  exact normalForm?_eq_of_alike h (hlevels n (Nat.le_refl n)).1 (hlevels n (Nat.le_refl n)).2

/-- A comparison that comes out true tells of equal normal forms, however few levels it was given. -/
theorem formsAgree_of_sameWithin (h : env.sameWithin false k a b = some true) : env.FormsAgree a b := by
  intro u v hu hv
  obtain ⟨n, hlevels⟩ := hu.levels hv
  obtain ⟨ha, hb⟩ := hlevels n (Nat.le_refl n)
  clear hlevels hu hv
  induction n generalizing k a b u v with
  | zero => simp [normalForm?] at ha
  | succ n ih =>
    obtain ⟨k, rfl⟩ : ∃ j, k = j + 1 := by
      cases k with
      | zero => simp [sameWithin] at h
      | succ j => exact ⟨j, rfl⟩
    obtain ⟨a', hheada, hparta⟩ := normalForm?_succ_iff.1 ha
    obtain ⟨b', hheadb, hpartb⟩ := normalForm?_succ_iff.1 hb
    have hexpanda : env.expand a = a' := expandWithin_of_head? hheada
    have hexpandb : env.expand b = b' := expandWithin_of_head? hheadb
    rw [sameWithin_succ_iff, hexpanda, hexpandb] at h
    rcases h with rfl | h
    · rw [normalForm?_of_head? (Nat.le_refl _) hheada] at ha
      rw [normalForm?_of_head? (Nat.le_refl _) hheadb] at hb
      exact Option.some.inj (ha.symm.trans hb)
    · exact h.eq_of_forms hparta hpartb fun _ _ x' y' hxy => ih hxy x' y'

theorem formsAgree_of_same {reach : Nat} (h : { env with reach := reach }.same a b = true) : env.FormsAgree a b := by
  have htargets : { env with reach := reach }.aliasTarget = env.aliasTarget := rfl
  rw [same_iff, sameWithin_congr htargets] at h
  exact formsAgree_of_sameWithin h

end TypeEnv

end Linkage
