import Linkage.Proofs.Ty.Congruence
import Linkage.Proofs.Ty.Scoping

/-!
# Closing types that are the same

As long as an alias is given all its arguments and its target speaks of nothing but its own parameters, closing the
normal form of a type and then looking through the aliases that came in with the arguments leads where closing the
type itself leads. So types that are the same stay the same when they are closed over the same arguments, and a type
closed over arguments that are the same pairwise gives types that are the same. An alias that is given too few
arguments keeps a parameter of its own, which closing the type reaches only if the alias was looked through before.
-/

namespace Linkage

/-- What comes up in a type: its parts, and what the alias at its head stands for. -/
def TypeEnv.Uncovers (env : TypeEnv) (t u : Ty) : Prop := u ∈ t.parts ∨ env.unalias t = some u

/-- Every alias that comes up in the type is given an argument for each of its parameters. -/
def Signatures.FullyApplied (sigs : Signatures) (t : Ty) : Prop :=
  ∀ decl args, Relation.ReflTransGen sigs.env.Uncovers t (.linked decl args) →
    sigs.aliasTargets.contains decl = true → (sigs.genericsOf decl).length ≤ args.length

/-- The targets of aliases mention only parameters of the alias. -/
def Signatures.TargetsOwn (sigs : Signatures) : Prop :=
  ∀ decl target, sigs.aliasTargets.get? decl = some target → ∀ g ∈ target.occurrences, g ∈ sigs.genericsOf decl

namespace Signatures

variable {sigs : Signatures} {t u : Ty}

theorem targetsOwn_of_entries (h : ∀ entry ∈ sigs.aliasTargets.entries, ∀ g ∈ entry.2.occurrences,
    g ∈ sigs.genericsOf entry.1) : sigs.TargetsOwn :=
  fun decl target htarget => h (decl, target) (Table.mem_entries_of_get? htarget)

theorem FullyApplied.uncovers (h : sigs.FullyApplied t) (hu : sigs.env.Uncovers t u) : sigs.FullyApplied u :=
  fun decl args hcomes => h decl args (.head hu hcomes)

theorem FullyApplied.head? {n : Nat} (h : sigs.FullyApplied t) (ht : sigs.env.head? n t = some u) :
    sigs.FullyApplied u := by
  refine TypeEnv.head?_induction (motive := fun _ t => sigs.FullyApplied t → sigs.FullyApplied u) ?stop ?step ht h
  case stop => exact fun _ _ h => h
  case step => exact fun _ _ _ htarget _ ih h => ih (h.uncovers (.inr htarget))

/-- The rule that aliases are given all their arguments. -/
def aliasRules (sigs : Signatures) : TyRules where
  unknown := True
  arity decl n := sigs.aliasTargets.contains decl = true → (sigs.genericsOf decl).length ≤ n

theorem fullyApplied_of_obeys
    (htargets : ∀ decl target, sigs.aliasTargets.get? decl = some target → target.Obeys sigs.aliasRules)
    (ht : t.Obeys sigs.aliasRules) : sigs.FullyApplied t := by
  have hstep : ∀ t u : Ty, t.Obeys sigs.aliasRules → sigs.env.Uncovers t u → u.Obeys sigs.aliasRules := by
    rintro t u ht (hpart | htarget)
    · cases ht with
      | linked _ hargs => exact hargs u hpart
      | pointer h | reference h | array h => exact List.mem_singleton.1 hpart ▸ h
      | function hparams hret =>
        rcases List.mem_append.1 hpart with hparam | hlast
        · exact hparams u hparam
        · exact List.mem_singleton.1 hlast ▸ hret
      | prim | literal | param | unknown => simp [Ty.parts] at hpart
    · cases ht with
      | linked _ hargs =>
        obtain ⟨target, hget, rfl⟩ := Option.map_eq_some_iff.1 htarget
        exact (htargets _ target hget).subst hargs _
      | _ => simp [TypeEnv.unalias] at htarget
  have hall : ∀ u, Relation.ReflTransGen sigs.env.Uncovers t u → u.Obeys sigs.aliasRules := by
    intro u hu
    induction hu with
    | refl => exact ht
    | tail _ hlast ih => exact hstep _ _ ih hlast
  intro decl args hcomes
  obtain _ | _ | _ | ⟨harity, -⟩ := hall _ hcomes
  exact harity

end Signatures

namespace TypeEnv

variable {sigs : Signatures} {σ : GenericId → Option Ty} {n m : Nat} {a b t u v w : Ty}

theorem unalias_replace (hown : sigs.TargetsOwn) (happlied : sigs.FullyApplied t)
    (htarget : sigs.env.unalias t = some u) : sigs.env.unalias (t.replace σ) = some (u.replace σ) := by
  cases t with
  | linked decl args =>
    obtain ⟨target, hget, rfl⟩ := Option.map_eq_some_iff.1 htarget
    have hlength : (sigs.genericsOf decl).length ≤ args.length :=
      happlied decl args .refl (by rw [Table.contains, hget]; rfl)
    rw [Ty.replace_subst (hown decl target hget) hlength, Ty.replace, Ty.replaceAll_eq]
    show (sigs.aliasTargets.get? decl).map _ = _
    rw [hget, Option.map_some]
  | _ => simp [TypeEnv.unalias] at htarget

theorem unalias_replace_of_compound (hcompound : t.isCompound = true) (hnone : sigs.env.unalias t = none) :
    sigs.env.unalias (t.replace σ) = none := by
  cases t with
  | linked decl args =>
    have hget : sigs.aliasTargets.get? decl = none := Option.map_eq_none_iff.1 hnone
    show (sigs.aliasTargets.get? decl).map _ = none
    rw [hget, Option.map_none]
  | pointer | reference | array | function => rfl
  | prim | literal | param | unknown => simp [Ty.isCompound] at hcompound

theorem head?_replace (hown : sigs.TargetsOwn) (happlied : sigs.FullyApplied t)
    (ht : sigs.env.head? n t = some u) (hw : sigs.env.head? m (t.replace σ) = some w) :
    sigs.env.head? m (u.replace σ) = some w := by
  refine head?_induction (motive := fun _ t => sigs.FullyApplied t → ∀ m, sigs.env.head? m (t.replace σ) = some w →
    sigs.env.head? m (u.replace σ) = some w) ?stop ?step ht happlied m hw
  case stop => exact fun _ _ _ _ hw => hw
  case step =>
    intro n t target htarget _ ih happlied m hw
    obtain ⟨k, rfl, hk⟩ := head?_of_unalias_some (unalias_replace hown happlied htarget) hw
    exact head?_mono (Nat.le_succ k) (ih (happlied.uncovers (.inr htarget)) k hk)

theorem HeadsAgree.replace {R : Ty → Ty → Prop} (σ : GenericId → Option Ty) (h : HeadsAgree R a b) :
    HeadsAgree (fun x y => ∃ x' y', R x' y' ∧ x = x'.replace σ ∧ y = y'.replace σ) (a.replace σ) (b.replace σ) := by
  have hlist : ∀ {as bs : List Ty}, List.Forall₂ R as bs →
      List.Forall₂ (fun x y => ∃ x' y', R x' y' ∧ x = x'.replace σ ∧ y = y'.replace σ)
        (Ty.replaceAll σ as) (Ty.replaceAll σ bs) := by
    intro as bs hs
    rw [Ty.replaceAll_eq, Ty.replaceAll_eq, List.forall₂_map_left_iff, List.forall₂_map_right_iff]
    exact hs.imp fun x y hxy => ⟨x, y, hxy, rfl, rfl⟩
  cases h with
  | linked hs => exact .linked (hlist hs)
  | pointer h => exact .pointer ⟨_, _, h, rfl, rfl⟩
  | reference h => exact .reference ⟨_, _, h, rfl, rfl⟩
  | array h => exact .array ⟨_, _, h, rfl, rfl⟩
  | function hs h => exact .function (hlist hs) ⟨_, _, h, rfl, rfl⟩

/-- The normal form of a type with its parameters replaced is that of its normal form with the parameters
replaced, and takes no more levels. -/
theorem normalForm?_replace (hown : sigs.TargetsOwn) (happlied : sigs.FullyApplied t)
    (ht : sigs.env.normalForm? n t = some u) (hw : sigs.env.normalForm? m (t.replace σ) = some w) :
    sigs.env.normalForm? m (u.replace σ) = some w := by
  induction n generalizing m t u w with
  | zero => simp [normalForm?] at ht
  | succ n ih =>
    cases m with
    | zero => simp [normalForm?] at hw
    | succ m =>
      obtain ⟨head, hhead, hparts⟩ := normalForm?_succ_iff.1 ht
      obtain ⟨head', hhead', -⟩ := normalForm?_succ_iff.1 hw
      have hmoved := head?_replace hown happlied hhead hhead'
      rw [normalForm?_of_head? (Nat.le_refl _) hhead', ← normalForm?_of_head? (Nat.le_refl _) hmoved] at hw
      obtain ⟨-, rfl⟩ | hparts := hparts
      · exact hw
      -- no alias is left at the head, neither of the type nor of its normal form
      have hplain : sigs.env.unalias head = none := unalias_of_head? hhead
      have hheadPlain : sigs.env.unalias (head.replace σ) = none :=
        unalias_replace_of_compound hparts.isCompound.1 hplain
      have huPlain : sigs.env.unalias (u.replace σ) = none :=
        unalias_replace_of_compound hparts.isCompound.2 (hparts.unalias_eq_none hplain)
      have happlied' : ∀ x ∈ head.parts, sigs.FullyApplied x :=
        fun x hx => (happlied.head? hhead).uncovers (.inl hx)
      have hknown := hparts.imp_parts (S := fun x y => sigs.FullyApplied x ∧ sigs.env.normalForm? n x = some y)
        fun x hx y hxy => ⟨happlied' x hx, hxy⟩
      obtain ⟨head'', hhead'', hparts'⟩ := normalForm?_succ_iff.1 hw
      rw [head?_of_unalias hheadPlain] at hhead''
      obtain rfl := Option.some.inj hhead''
      have hcompound := (hknown.replace σ).isCompound.1
      replace hparts' := hparts'.resolve_left (by simp [hcompound])
      refine normalForm?_succ_iff.2 ⟨_, head?_of_unalias huPlain _, .inr ?_⟩
      refine (((hknown.replace σ).flip).comp hparts').imp ?_
      rintro _ z ⟨_, ⟨x, y, ⟨hx, hxy⟩, rfl, rfl⟩, hz⟩
      exact ih hx hxy hz

theorem FormsAgree.replace (hown : sigs.TargetsOwn) (hta : sigs.FullyApplied a) (htb : sigs.FullyApplied b)
    (ha : sigs.env.Expandable a) (hb : sigs.env.Expandable b) (h : sigs.env.FormsAgree a b) :
    sigs.env.FormsAgree (a.replace σ) (b.replace σ) := by
  obtain ⟨u, ha⟩ := ha
  obtain ⟨v, hb⟩ := hb
  obtain rfl := h u v ha hb
  obtain ⟨n, ha⟩ := ha
  obtain ⟨m, hb⟩ := hb
  rintro v w ⟨k, hv⟩ ⟨l, hw⟩
  exact NormalForm.unique ⟨k, normalForm?_replace hown hta ha hv⟩ ⟨l, normalForm?_replace hown htb hb hw⟩

theorem exists_same {env : TypeEnv} (ha : env.Expandable a) (hb : env.Expandable b) :
    ∃ n, ∀ reach, n ≤ reach → env.FormsAgree a b → { env with reach := reach }.same a b = true := by
  obtain ⟨u, ha⟩ := ha
  obtain ⟨v, hb⟩ := hb
  obtain ⟨n, hlevels⟩ := ha.levels hb
  refine ⟨n, fun reach hreach hagree => ?_⟩
  have hlevel := hlevels (reach + 1) (Nat.le_succ_of_le hreach)
  have htargets : { env with reach := reach }.aliasTarget = env.aliasTarget := rfl
  rw [same_iff, sameWithin_congr htargets, sameWithin_eq_decide hlevel.1 hlevel.2]
  simpa using hagree u v ha hb

/-- Sameness goes along with closing. Types that are the same are still so when they are closed over the same
arguments, and so is one type that is closed over arguments that are the same. Every alias that comes up in the
types is given all its arguments, and the types have normal forms before and after they are closed. -/
theorem same_subst (hown : sigs.TargetsOwn) (params : List GenericId) :
    (∀ (args : List Ty) (a b : Ty), sigs.FullyApplied a → sigs.FullyApplied b →
      sigs.env.Expandable a → sigs.env.Expandable b →
      sigs.env.Expandable (a.subst params args) → sigs.env.Expandable (b.subst params args) →
      ∃ n, ∀ reach, n ≤ reach → { sigs.env with reach := reach }.same a b = true →
        { sigs.env with reach := reach }.same (a.subst params args) (b.subst params args) = true) ∧
    ∀ (args args' : List Ty) (t : Ty),
      sigs.env.Expandable (t.subst params args) → sigs.env.Expandable (t.subst params args') →
      ∃ n, ∀ reach, n ≤ reach → { sigs.env with reach := reach }.allSame args args' = true →
        { sigs.env with reach := reach }.same (t.subst params args) (t.subst params args') = true := by
  refine ⟨?types, ?arguments⟩
  case types =>
    intro args a b hta htb ha hb hclosed hclosed'
    obtain ⟨n, hsame⟩ := exists_same hclosed hclosed'
    refine ⟨n, fun reach hreach hab => hsame reach hreach ?_⟩
    rw [Ty.subst_eq_replace, Ty.subst_eq_replace]
    exact (formsAgree_of_same hab).replace hown hta htb ha hb
  case arguments =>
    intro args args' t hclosed hclosed'
    obtain ⟨n, hsame⟩ := exists_same hclosed hclosed'
    refine ⟨n, fun reach hreach hall => hsame reach hreach (formsAgree_of_alike (Alike.subst ?_ t params))⟩
    exact (allSame_iff.1 hall).imp fun _ _ h => .base (formsAgree_of_same h)

/-- `0<P0, P1>` stands for its first argument and drops the second, and `1<P2>` for `0<*P2, P2>`. -/
def projections : Signatures where
  generics := (Table.insert {} ⟨0⟩ [⟨0⟩, ⟨1⟩]).insert ⟨1⟩ [⟨2⟩]
  aliasTargets := (Table.insert {} ⟨0⟩ (.param ⟨0⟩)).insert ⟨1⟩
    (.linked ⟨0⟩ [.pointer (.param ⟨2⟩), .param ⟨2⟩])

theorem targetsOwn_projections : projections.TargetsOwn := Signatures.targetsOwn_of_entries (by decide)

theorem obeys_projections : ∀ decl target, projections.aliasTargets.get? decl = some target →
    target.Obeys projections.aliasRules :=
  Table.forall_insert (Table.forall_insert (by simp [Table.get?]) (.param _))
    (.linked (fun _ => by decide) (by simpa using ⟨.pointer (.param _), .param _⟩))

/-- `0<&P3, bool>` and `&P3` are the same, also with `1<int>` for `P3`; and `1<P3>` is the same with `int` for
`P3` as with `0<int, str>`. -/
theorem same_subst_projections :
    let a := Ty.linked ⟨0⟩ [.reference (.param ⟨3⟩), .bool]
    let b := Ty.reference (.param ⟨3⟩)
    let t := Ty.linked ⟨1⟩ [.param ⟨3⟩]
    projections.env.same a b = true ∧
      (∃ n, ∀ reach, n ≤ reach → { projections.env with reach := reach }.same a b = true →
        { projections.env with reach := reach }.same (a.subst [⟨3⟩] [.linked ⟨1⟩ [.int]])
          (b.subst [⟨3⟩] [.linked ⟨1⟩ [.int]]) = true) ∧
      projections.env.allSame [.int] [.linked ⟨0⟩ [.int, .str]] = true ∧
      ∃ n, ∀ reach, n ≤ reach →
        { projections.env with reach := reach }.allSame [.int] [.linked ⟨0⟩ [.int, .str]] = true →
        { projections.env with reach := reach }.same (t.subst [⟨3⟩] [.int])
          (t.subst [⟨3⟩] [.linked ⟨0⟩ [.int, .str]]) = true := by
  intro a b t
  have happlied : projections.FullyApplied a ∧ projections.FullyApplied b := by
    constructor
    · exact Signatures.fullyApplied_of_obeys obeys_projections
        (.linked (fun _ => by decide) (by simpa using ⟨.reference (.param _), .prim _⟩))
    · exact Signatures.fullyApplied_of_obeys obeys_projections (.reference (.param _))
  obtain ⟨htypes, harguments⟩ := same_subst targetsOwn_projections [⟨3⟩]
  refine ⟨by decide +kernel, htypes _ a b happlied.1 happlied.2 ?_ ?_ ?_ ?_, by decide +kernel,
    harguments _ _ t ?_ ?_⟩
  · exact ⟨.reference (.param ⟨3⟩), 2, by decide +kernel⟩
  · exact ⟨.reference (.param ⟨3⟩), 2, by decide +kernel⟩
  · exact ⟨.reference (.pointer .int), 3, by decide +kernel⟩
  · exact ⟨.reference (.pointer .int), 3, by decide +kernel⟩
  · exact ⟨.pointer .int, 2, by decide +kernel⟩
  · exact ⟨.pointer .int, 2, by decide +kernel⟩

/-- `1<P0>` stands for `P0`, and `2<P1>` for `0<1, P1>`, where `1` is not given its argument. -/
def unfilled : Signatures where
  generics := (Table.insert {} ⟨1⟩ [⟨0⟩]).insert ⟨2⟩ [⟨1⟩]
  aliasTargets := (Table.insert {} ⟨1⟩ (.param ⟨0⟩)).insert ⟨2⟩ (.linked ⟨0⟩ [.linked ⟨1⟩ [], .param ⟨1⟩])

/-- `0<P0>` is a union of `1<P0>` alone, which stands for `2<P0>`, and so on up to `32<P0>`, which stands for `P0`.
`33` stands for `int`. -/
def longWay : Signatures where
  generics := ⟨(List.range 33).map fun i => (⟨i⟩, [⟨i⟩])⟩
  unionMembers := Table.insert {} ⟨0⟩ [.linked ⟨1⟩ [.param ⟨0⟩]]
  aliasTargets := ⟨(⟨33⟩, .int) :: (⟨32⟩, .param ⟨32⟩) ::
    (List.range 31).map fun i => (⟨i + 1⟩, .linked ⟨i + 2⟩ [.param ⟨i + 1⟩])⟩

theorem targetsOwn_longWay : longWay.TargetsOwn := Signatures.targetsOwn_of_entries (by decide +kernel)

/-- In `2<int>` and `0<P0, int>`, which are the same, every alias is given all its arguments. But the first has a `P0`
that comes up only when `2` is looked through, and `str` is not put in for it. And `int` and `33` are the same, but
with `33` for `P40` one alias more is met on the way from `1<P40>` than is followed. -/
theorem same_lost_unfilled :
    let a := Ty.linked ⟨2⟩ [.int]
    let b := Ty.linked ⟨0⟩ [.param ⟨0⟩, .int]
    let t := Ty.linked ⟨1⟩ [.param ⟨40⟩]
    (unfilled.TargetsOwn ∧ a.Obeys unfilled.aliasRules ∧ b.Obeys unfilled.aliasRules ∧
      unfilled.env.Expandable a ∧ unfilled.env.Expandable b ∧
      unfilled.env.Expandable (a.subst [⟨0⟩] [.str]) ∧ unfilled.env.Expandable (b.subst [⟨0⟩] [.str]) ∧
      unfilled.env.same a b = true ∧ unfilled.env.same (a.subst [⟨0⟩] [.str]) (b.subst [⟨0⟩] [.str]) = false) ∧
    longWay.TargetsOwn ∧ t.Obeys longWay.aliasRules ∧ longWay.env.Expandable t ∧
      longWay.env.Expandable (t.subst [⟨40⟩] [.int]) ∧ longWay.env.allSame [.int] [.linked ⟨33⟩ []] = true ∧
      longWay.env.same (t.subst [⟨40⟩] [.int]) (t.subst [⟨40⟩] [.linked ⟨33⟩ []]) = false := by
  intro a b t
  refine ⟨⟨Signatures.targetsOwn_of_entries (by decide), ?_, ?_, ⟨b, 3, by decide +kernel⟩, ⟨b, 3, by decide +kernel⟩,
    ⟨b, 3, by decide +kernel⟩, ⟨.linked ⟨0⟩ [.str, .int], 3, by decide +kernel⟩, by decide +kernel, by decide +kernel⟩,
    targetsOwn_longWay, ?_, ⟨.param ⟨40⟩, 1, by decide +kernel⟩, ⟨.int, 1, by decide +kernel⟩, by decide +kernel,
    by decide +kernel⟩
  · exact .linked (fun _ => by decide) (by simpa using .prim _)
  · exact .linked (fun _ => by decide) (by simpa using ⟨.param _, .prim _⟩)
  · exact .linked (fun _ => by decide) (by simpa using .param _)

end TypeEnv

end Linkage
