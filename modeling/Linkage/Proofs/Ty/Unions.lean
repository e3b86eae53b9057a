import Linkage.Proofs.Ty.Satisfaction
import Mathlib.Data.Fintype.Card
import Mathlib.Data.Set.Finite.Basic

/-!
# Checks against unions come to an end

A member of a union may be an argument that the union was given, so a check can meet one union inside another and the
same union twice. If no union leads back to itself through what declarations are defined by, and every type on the way
has a normal form, there is an end to it nevertheless. What a member brings in from the definition names only unions
further down, and what it brings in from an argument was part of a type with a less deep normal form.
-/

namespace Linkage

namespace Ty

mutual
/-- Every declaration that the type names, from left to right. -/
def named : Ty → List DeclId
  | .linked decl args => decl :: namedAll args
  | .pointer inner => named inner
  | .reference inner => named inner
  | .array elem _ => named elem
  | .function params ret => namedAll params ++ named ret
  | .prim _ => []
  | .literal _ => []
  | .param _ => []
  | .unknown => []
def namedAll : List Ty → List DeclId
  | [] => []
  | t :: ts => named t ++ namedAll ts
end

theorem mem_namedAll {d : DeclId} {ts : List Ty} : d ∈ namedAll ts ↔ ∃ t ∈ ts, d ∈ t.named := by
  induction ts with
  | nil => simp [namedAll]
  | cons t ts ih => simp [namedAll, ih]

end Ty

namespace Signatures

/-- What a declaration is defined by: what an alias stands for, or the members of a union. -/
def bodies (sigs : Signatures) (d : DeclId) : List Ty :=
  (sigs.aliasTargets.get? d).toList ++ (sigs.unionMembers.get? d).getD []

/-- The definition of one declaration names another. -/
def Names (sigs : Signatures) (d e : DeclId) : Prop := ∃ t ∈ sigs.bodies d, e ∈ t.named

def UnionsAcyclic (sigs : Signatures) : Prop :=
  ∀ d, sigs.unionMembers.contains d = true → ¬Relation.TransGen sigs.Names d d

variable {sigs : Signatures}

theorem unionsAcyclic_of_rank (rank : DeclId → Nat)
    (htargets : ∀ entry ∈ sigs.aliasTargets.entries, ∀ e ∈ entry.2.named, rank e < rank entry.1)
    (hmembers : ∀ entry ∈ sigs.unionMembers.entries, ∀ t ∈ entry.2, ∀ e ∈ t.named, rank e < rank entry.1) :
    sigs.UnionsAcyclic := by
  have hnames : ∀ d e, sigs.Names d e → rank e < rank d := by
    rintro d e ⟨t, ht, he⟩
    rcases List.mem_append.1 ht with ht | ht
    · exact htargets (d, t) (Table.mem_entries_of_get? (Option.mem_toList.1 ht)) e he
    · cases hget : sigs.unionMembers.get? d with
      | none => simp [hget] at ht
      | some members =>
        rw [hget, Option.getD_some] at ht
        exact hmembers (d, members) (Table.mem_entries_of_get? hget) t ht e he
  have hless : ∀ d e, Relation.TransGen sigs.Names d e → rank e < rank d := by
    intro d e hde
    induction hde with
    | single hde => exact hnames _ _ hde
    | tail _ hef ih => exact Nat.lt_trans (hnames _ _ hef) ih
  exact fun d _ hcycle => Nat.lt_irrefl _ (hless d d hcycle)

theorem UnionsAcyclic.wellFounded (h : sigs.UnionsAcyclic) :
    WellFounded fun e d : { d // sigs.unionMembers.contains d = true } => Relation.TransGen sigs.Names d e := by
  have hfinite : Finite { d // sigs.unionMembers.contains d = true } := by
    refine ((List.finite_toSet sigs.unionMembers.keys).subset fun d hd => ?_).to_subtype
    obtain ⟨members, hmembers⟩ := Option.isSome_iff_exists.1 hd
    exact Table.mem_keys_of_get? hmembers
  have htrans : IsTrans { d // sigs.unionMembers.contains d = true }
      fun e d => Relation.TransGen sigs.Names d e := ⟨fun _ _ _ hde hef => hef.trans hde⟩
  have hirrefl : Std.Irrefl fun e d : { d // sigs.unionMembers.contains d = true } =>
      Relation.TransGen sigs.Names d e := ⟨fun d => h d d.2⟩
  exact Finite.wellFounded_of_trans_of_irrefl _

end Signatures

namespace TypeEnv

/-- A check against the first type may go on to the second. -/
def Admits (env : TypeEnv) (t u : Ty) : Prop := u ∈ env.alternatives (env.expand t)

/-- Every type that a check may come to has a normal form. -/
def Unfolds (env : TypeEnv) (t : Ty) : Prop := ∀ u, Relation.ReflTransGen env.Admits t u → env.Expandable u

/-- Every way down from the type comes to an end. -/
def Grounded (env : TypeEnv) (t : Ty) : Prop := Acc (fun u t => env.Admits t u) t

/-- Every way down from the type comes to an end, or to a type without a normal form. -/
def Ends (env : TypeEnv) (t : Ty) : Prop := env.Unfolds t → env.Grounded t

variable {env : TypeEnv} {t u : Ty}

theorem Unfolds.expandable (h : env.Unfolds t) : env.Expandable t := h t .refl

theorem Unfolds.admits (h : env.Unfolds t) (hu : env.Admits t u) : env.Unfolds u :=
  fun v hv => h v (.head hu hv)

theorem unfolds_of_admits (ht : env.Expandable t) (h : ∀ u, env.Admits t u → env.Unfolds u) : env.Unfolds t := by
  intro v hv
  obtain rfl | ⟨u, hu, huv⟩ := hv.cases_head
  · exact ht
  · exact h u hu v huv

theorem admits_of_expand_eq (h : env.expand t = env.expand u) {v : Ty} : env.Admits t v ↔ env.Admits u v := by
  rw [Admits, Admits, h]

/-- Every way down from the type ends within so many steps, and the types on it have normal forms. -/
def unfoldsWithin (env : TypeEnv) : Nat → Ty → Bool
  | 0, _ => false
  | n + 1, t => (env.normalForm? (n + 1) t).isSome && (env.alternatives (env.expand t)).all (env.unfoldsWithin n)

theorem unfolds_of_within {n : Nat} (h : env.unfoldsWithin n t = true) : env.Unfolds t := by
  induction n generalizing t with
  | zero => simp [unfoldsWithin] at h
  | succ n ih =>
    obtain ⟨hform, hall⟩ := Bool.and_eq_true_iff.1 h
    obtain ⟨u, hu⟩ := Option.isSome_iff_exists.1 hform
    exact unfolds_of_admits ⟨u, n + 1, hu⟩ fun v hv => ih (List.all_eq_true.1 hall v hv)

/-! ### Types built from grounded ones -/

/-- The type is built from types with the property by naming declarations in the set. -/
inductive Built (S : DeclId → Prop) (P : Ty → Prop) : Ty → Prop
  | base {t : Ty} (h : P t) : Built S P t
  | parts {t : Ty} (hdecl : ∀ d args, t = .linked d args → S d) (h : ∀ x ∈ t.parts, Built S P x) : Built S P t

namespace Built

variable {S : DeclId → Prop} {P : Ty → Prop} {σ : GenericId → Option Ty}

theorem of_leaf {t : Ty} (ht : t.isCompound = false) : Built S P t := by
  refine .parts (fun d args h => ?_) fun x hx => ?_
  · simp [h, Ty.isCompound] at ht
  · cases t <;> simp_all [Ty.parts, Ty.isCompound]

theorem replace (hσ : ∀ g x, σ g = some x → Built S P x) {t : Ty} (ht : ∀ d ∈ t.named, S d) :
    Built S P (t.replace σ) := by
  have hlist : ∀ ts : List Ty, (∀ t ∈ ts, (∀ d ∈ t.named, S d) → Built S P (t.replace σ)) →
      (∀ d ∈ Ty.namedAll ts, S d) → ∀ x ∈ Ty.replaceAll σ ts, Built S P x := by
    intro ts ih hts x hx
    rw [Ty.replaceAll_eq] at hx
    obtain ⟨t, ht, rfl⟩ := List.mem_map.1 hx
    exact ih t ht fun d hd => hts d (Ty.mem_namedAll.2 ⟨t, ht, hd⟩)
  induction t using Ty.inductionOn with
  | prim p => exact of_leaf rfl
  | literal kind => exact of_leaf rfl
  | param g =>
    rw [Ty.replace]
    cases hg : σ g with
    | none => exact of_leaf rfl
    | some x => exact hσ g x hg
  | linked decl args ih =>
    refine .parts (fun d _ heq => ?_) (hlist args ih fun d hd => ht d (List.mem_cons_of_mem _ hd))
    obtain rfl : decl = d := by
      rw [Ty.replace] at heq
      exact (Ty.linked.inj heq).1
    exact ht decl List.mem_cons_self
  | pointer inner ih => exact .parts (by simp [Ty.replace]) fun x hx => List.mem_singleton.1 hx ▸ ih ht
  | reference inner ih => exact .parts (by simp [Ty.replace]) fun x hx => List.mem_singleton.1 hx ▸ ih ht
  | array elem len ih => exact .parts (by simp [Ty.replace]) fun x hx => List.mem_singleton.1 hx ▸ ih ht
  | function params ret ihs ih =>
    refine .parts (by simp [Ty.replace]) fun x hx => ?_
    rcases List.mem_append.1 hx with hx | hx
    · exact hlist params ihs (fun d hd => ht d (List.mem_append_left _ hd)) x hx
    · exact List.mem_singleton.1 hx ▸ ih fun d hd => ht d (List.mem_append_right _ hd)
  | unknown => exact of_leaf rfl

theorem subst {args : List Ty} (hargs : ∀ x ∈ args, Built S P x) {t : Ty} (ht : ∀ d ∈ t.named, S d)
    (params : List GenericId) : Built S P (t.subst params args) := by
  rw [Ty.subst_eq_replace]
  exact replace (fun g x hx => hargs x (Ty.mem_of_argFor hx)) ht

theorem head? {sigs : Signatures} (hclosed : ∀ d e, S d → sigs.Names d e → S e) {n : Nat} {t u : Ty}
    (ht : Built S P t) (hu : sigs.env.head? n t = some u) :
    (∃ x, P x ∧ sigs.env.head? n x = some u) ∨
      (∀ d args, u = .linked d args → S d) ∧ ∀ x ∈ u.parts, Built S P x := by
  refine head?_induction (motive := fun n t => Built S P t → (∃ x, P x ∧ sigs.env.head? n x = some u) ∨
    (∀ d args, u = .linked d args → S d) ∧ ∀ x ∈ u.parts, Built S P x) ?stop ?step hu ht
  case stop =>
    intro n hnone ht
    cases ht with
    | base h => exact .inl ⟨u, h, head?_of_unalias hnone n⟩
    | parts hdecl h => exact .inr ⟨hdecl, h⟩
  case step =>
    intro n t target htarget hhead ih ht
    cases ht with
    | base h => exact .inl ⟨t, h, by rw [TypeEnv.head?, htarget]; exact hhead⟩
    | parts hdecl h =>
      have hbuilt : Built S P target := by
        cases t with
        | linked d args =>
          obtain ⟨body, hbody, rfl⟩ := Option.map_eq_some_iff.1 htarget
          refine subst h (fun e he => hclosed d e (hdecl d args rfl) ⟨body, ?_, he⟩) _
          simp [Signatures.bodies, hbody]
        | _ => simp [TypeEnv.unalias] at htarget
      obtain ⟨x, hx, hxu⟩ | hparts := ih hbuilt
      · exact .inl ⟨x, hx, head?_mono (Nat.le_succ n) hxu⟩
      · exact .inr hparts

end Built

variable {sigs : Signatures} {S : DeclId → Prop}

theorem built_of_mem_members {P : Ty → Prop} {d : DeclId} {args : List Ty} (hargs : ∀ x ∈ args, P x)
    (hu : u ∈ sigs.env.alternatives (.linked d args)) :
    sigs.unionMembers.contains d = true ∧ Built (Relation.TransGen sigs.Names d) P u := by
  change u ∈ Option.getD ((sigs.unionMembers.get? d).map _) [] at hu
  cases hmembers : sigs.unionMembers.get? d with
  | none => simp [hmembers] at hu
  | some members =>
    rw [hmembers] at hu
    obtain ⟨body, hbody, rfl⟩ := List.mem_map.1 hu
    refine ⟨by simp [Table.contains, hmembers], Built.subst (fun x hx => .base (hargs x hx)) (fun e he => ?_) _⟩
    exact .single ⟨body, by simp [Signatures.bodies, hmembers, hbody], he⟩

theorem ends_of_built (hclosed : ∀ d e, S d → sigs.Names d e → S e)
    (hunions : ∀ d, S d → sigs.unionMembers.contains d = true → ∀ u,
      Built (Relation.TransGen sigs.Names d) sigs.env.Ends u → sigs.env.Ends u)
    (ht : Built S sigs.env.Ends t) : sigs.env.Ends t := by
  intro hunfolds
  obtain ⟨v, n, hv⟩ := hunfolds.expandable
  -- arguments have normal forms of one level less, and hand this on to the members they end up in
  induction n generalizing t v with
  | zero => simp [normalForm?] at hv
  | succ n ih =>
    obtain ⟨head, hhead, hparts⟩ := Option.bind_eq_some_iff.1 hv
    have hexpand : sigs.env.expand t = head := expandWithin_of_head? hhead
    have hbelow : ∀ x ∈ head.parts, Built S sigs.env.Ends x → sigs.env.Ends x := by
      intro x hx hbuilt hunfolds
      obtain ⟨w, hw⟩ := exists_of_mem_parts hparts hx
      exact ih hbuilt hunfolds w hw
    obtain ⟨x, hx, hxhead⟩ | ⟨hdecl, hbuilt⟩ := ht.head? hclosed hhead
    · have hsame : sigs.env.expand x = sigs.env.expand t := by rw [hexpand]; exact expandWithin_of_head? hxhead
      have hxunfolds : sigs.env.Unfolds x := by
        refine unfolds_of_admits ⟨v, n + 1, ?_⟩ fun u hu => hunfolds.admits ((admits_of_expand_eq hsame).1 hu)
        rw [normalForm?_of_head? (Nat.le_refl _) hxhead, ← normalForm?_of_head? (Nat.le_refl _) hhead, hv]
      exact ⟨t, fun u hu => (hx hxunfolds).inv ((admits_of_expand_eq hsame).2 hu)⟩
    · refine ⟨t, fun u hu => ?_⟩
      have huunfolds : sigs.env.Unfolds u := hunfolds.admits hu
      rw [Admits, hexpand] at hu
      cases head with
      | reference inner =>
        obtain rfl := List.mem_singleton.1 hu
        exact hbelow u (by simp [Ty.parts]) (hbuilt u (by simp [Ty.parts])) huunfolds
      | linked d args =>
        obtain ⟨hunion, hmember⟩ := built_of_mem_members (fun x hx => hbelow x hx (hbuilt x hx)) hu
        exact hunions d (hdecl d args rfl) hunion u hmember huunfolds
      | _ => simp [alternatives] at hu

/-- There is no endless way down from one alternative to the next. -/
theorem ends_of_acyclic (hunions : sigs.UnionsAcyclic) (t : Ty) : sigs.env.Ends t := by
  have hbelow : ∀ d : { d // sigs.unionMembers.contains d = true }, ∀ u,
      Built (Relation.TransGen sigs.Names d) sigs.env.Ends u → sigs.env.Ends u := by
    intro d
    induction d using hunions.wellFounded.induction with
    | h d ih =>
      intro u
      exact ends_of_built (fun _ _ => .tail) fun e hde he => ih ⟨e, he⟩ hde
  have hall : ∀ t : Ty, Built (fun _ => True) sigs.env.Ends t := by
    intro t
    rw [← Ty.replace_none t]
    exact Built.replace (by simp) fun _ _ => trivial
  exact ends_of_built (fun _ _ _ _ => trivial) (fun d _ hd => hbelow ⟨d, hd⟩) (hall t)

/-! ### Settled checks -/

theorem exists_anyM {g : Nat → Ty → Option Bool} (hmono : ∀ n m, n ≤ m → ∀ t r, g n t = some r → g m t = some r)
    {ts : List Ty} (h : ∀ t ∈ ts, ∃ n r, g n t = some r) : ∃ n r, ts.anyM (g n) = some r := by
  induction ts with
  | nil => exact ⟨0, false, rfl⟩
  | cons t ts ih =>
    obtain ⟨n, r, hr⟩ := h t List.mem_cons_self
    obtain ⟨n', r', hr'⟩ := ih fun u hu => h u (List.mem_cons_of_mem _ hu)
    refine ⟨max n n', r || r', ?_⟩
    rw [List.anyM, hmono n _ (Nat.le_max_left n n') t r hr]
    cases r with
    | true => rfl
    | false => exact anyM_extend (hmono n' _ (Nat.le_max_right n n')) hr'

/-- A check of a value whose type has a normal form is settled if every way down from the expected type ends. -/
theorem exists_satisfiesWithin {e a : Ty} (he : env.Grounded e) (ha : env.Expandable a) :
    ∃ n r, env.satisfiesWithin n e a = some r := by
  induction he generalizing a with
  | intro e _ ih =>
    obtain ⟨v, k, hk⟩ := ha
    have hexpand : env.Expandable (env.expand a) := ⟨v, k, normalForm?_expand hk⟩
    obtain ⟨same, hsame⟩ := Option.isSome_iff_exists.1 (isSome_sameWithin hk true e)
    obtain ⟨m, r, hr⟩ : ∃ m r, (env.tries (env.expand e) (env.expand a)).anyM
        (env.satisfiesWithin m · (env.expand a)) = some r := by
      refine exists_anyM (fun _ _ hnm t r => satisfiesWithin_mono hnm t _ r) fun t ht => ?_
      have hadmits : env.Admits e t := by
        rw [tries] at ht
        split at ht
        · simp at ht
        · exact ht
      exact ih t hadmits hexpand
    refine ⟨max k m + 1, ?_⟩
    rw [satisfiesWithin_succ, sameWithin_mono (by omega) e a same hsame, Option.bind_some,
      anyM_extend (fun t r => satisfiesWithin_mono (Nat.le_max_right k m) t _ r) hr]
    split <;> exact ⟨_, rfl⟩

end TypeEnv

end Linkage
