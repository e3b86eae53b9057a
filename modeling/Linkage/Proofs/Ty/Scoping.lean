import Linkage.Proofs.Ty.Substitution
import Linkage.Ty.Relation

/-!
# Types that fit their surroundings

Rules lay down whether the unknown type may stand in a type, and how many arguments each declared type is given.
Beside the rules, the surroundings of a type say which generic parameters it may mention. A type of a generic
declaration that is closed over enough arguments fits where the arguments fit, and so does what stands behind an
alias.
-/

namespace Linkage

variable {decl : DeclId} {args : List Ty} {t : Ty}

structure TyRules where
  unknown : Prop
  arity : DeclId → Nat → Prop

/-- The same, without the unknown type. -/
def TyRules.known (rules : TyRules) : TyRules := { rules with unknown := False }

namespace Ty

inductive Obeys (rules : TyRules) : Ty → Prop
  | prim (p : Primitive) : Obeys rules (.prim p)
  | literal (kind : LiteralKind) : Obeys rules (.literal kind)
  | param (g : GenericId) : Obeys rules (.param g)
  | linked {decl : DeclId} {args : List Ty} (harity : rules.arity decl args.length)
      (hargs : ∀ a ∈ args, Obeys rules a) : Obeys rules (.linked decl args)
  | pointer {inner : Ty} (h : Obeys rules inner) : Obeys rules (.pointer inner)
  | reference {inner : Ty} (h : Obeys rules inner) : Obeys rules (.reference inner)
  | array {elem : Ty} (h : Obeys rules elem) (len : Option Nat) : Obeys rules (.array elem len)
  | function {params : List Ty} {ret : Ty} (hparams : ∀ p ∈ params, Obeys rules p)
      (hret : Obeys rules ret) : Obeys rules (.function params ret)
  | unknown (h : rules.unknown) : Obeys rules .unknown

/-- The type obeys the rules and mentions parameters from `scope` only. -/
structure Fits (rules : TyRules) (scope : GenericId → Prop) (t : Ty) : Prop where
  obeys : Obeys rules t
  inScope : ∀ g ∈ t.occurrences, scope g

variable {rules : TyRules} {scope inner outer : GenericId → Prop}

theorem Obeys.hasUnknown (h : ¬rules.unknown) (ht : Obeys rules t) : t.hasUnknown = false := by
  induction ht with
  | prim p => rfl
  | literal kind => rfl
  | param g => rfl
  | linked _ _ ih =>
    rw [Ty.hasUnknown, hasUnknownAny_eq, List.any_eq_false]
    intro a ha
    rw [ih a ha]
    exact Bool.false_ne_true
  | pointer _ ih => exact ih
  | reference _ ih => exact ih
  | array _ _ ih => exact ih
  | function _ _ ihs ih =>
    rw [Ty.hasUnknown, hasUnknownAny_eq, Bool.or_eq_false_iff, List.any_eq_false]
    refine ⟨fun p hp => ?_, ih⟩
    rw [ihs p hp]
    exact Bool.false_ne_true
  | unknown hu => exact absurd hu h

theorem Obeys.known (ht : Obeys rules t) (h : t.hasUnknown = false) : Obeys rules.known t := by
  induction ht with
  | prim p => exact .prim p
  | literal kind => exact .literal kind
  | param g => exact .param g
  | linked harity _ ih =>
    rw [Ty.hasUnknown, hasUnknownAny_eq, List.any_eq_false] at h
    exact .linked harity fun a ha => ih a ha (Bool.not_eq_true _ ▸ h a ha)
  | pointer _ ih => exact .pointer (ih h)
  | reference _ ih => exact .reference (ih h)
  | array _ len ih => exact .array (ih h) len
  | function _ _ ihs ih =>
    rw [Ty.hasUnknown, hasUnknownAny_eq, Bool.or_eq_false_iff, List.any_eq_false] at h
    exact .function (fun p hp => ihs p hp (Bool.not_eq_true _ ▸ h.1 p hp)) (ih h.2)
  | unknown => exact nomatch h

theorem Obeys.replace {σ : GenericId → Option Ty} (ht : Obeys rules t)
    (hσ : ∀ g ∈ t.occurrences, ∀ u, σ g = some u → Obeys rules u) : Obeys rules (t.replace σ) := by
  induction ht with
  | prim p => exact .prim p
  | literal kind => exact .literal kind
  | param g =>
    rw [Ty.replace]
    cases h : σ g with
    | none => exact .param g
    | some u => exact hσ g (by simp [occurrences]) u h
  | linked harity _ ih =>
    rw [Ty.replace, replaceAll_eq]
    refine .linked (by rwa [List.length_map]) fun b hb => ?_
    obtain ⟨a, ha, rfl⟩ := List.mem_map.1 hb
    exact ih a ha fun g hg => hσ g (mem_occurrencesAll.2 ⟨a, ha, hg⟩)
  | pointer _ ih => exact .pointer (ih hσ)
  | reference _ ih => exact .reference (ih hσ)
  | array _ len ih => exact .array (ih hσ) len
  | function _ _ ihs ih =>
    simp only [occurrences, List.mem_append] at hσ
    rw [Ty.replace, replaceAll_eq]
    refine .function (fun b hb => ?_) (ih fun g hg => hσ g (.inr hg))
    obtain ⟨a, ha, rfl⟩ := List.mem_map.1 hb
    exact ihs a ha fun g hg => hσ g (.inl (mem_occurrencesAll.2 ⟨a, ha, hg⟩))
  | unknown h => exact .unknown h

theorem Obeys.subst (ht : Obeys rules t) (hargs : ∀ a ∈ args, Obeys rules a)
    (params : List GenericId) : Obeys rules (t.subst params args) := by
  rw [subst_eq_replace]
  exact ht.replace fun g _ u hu => hargs u (mem_of_argFor hu)

/-! ### Types that fit -/

theorem Fits.prim (p : Primitive) : Fits rules scope (.prim p) :=
  ⟨.prim p, fun g hg => by simp [occurrences] at hg⟩

theorem Fits.literal (kind : LiteralKind) : Fits rules scope (.literal kind) :=
  ⟨.literal kind, fun g hg => by simp [occurrences] at hg⟩

theorem Fits.unknown (h : rules.unknown) : Fits rules scope .unknown :=
  ⟨.unknown h, fun g hg => by simp [occurrences] at hg⟩

theorem Fits.param {g : GenericId} (h : scope g) : Fits rules scope (.param g) :=
  ⟨.param g, fun k hk => by rwa [List.mem_singleton.1 hk]⟩

theorem Fits.linked (harity : rules.arity decl args.length)
    (hargs : ∀ a ∈ args, Fits rules scope a) : Fits rules scope (.linked decl args) := by
  refine ⟨.linked harity fun a ha => (hargs a ha).obeys, fun g hg => ?_⟩
  obtain ⟨a, ha, hga⟩ := mem_occurrencesAll.1 hg
  exact (hargs a ha).inScope g hga

theorem Fits.pointer (h : Fits rules scope t) : Fits rules scope (.pointer t) :=
  ⟨.pointer h.obeys, h.inScope⟩

theorem Fits.reference (h : Fits rules scope t) : Fits rules scope (.reference t) :=
  ⟨.reference h.obeys, h.inScope⟩

theorem Fits.array (h : Fits rules scope t) (len : Option Nat) : Fits rules scope (.array t len) :=
  ⟨.array h.obeys len, h.inScope⟩

theorem Fits.function {params : List Ty} {ret : Ty} (hparams : ∀ p ∈ params, Fits rules scope p)
    (hret : Fits rules scope ret) : Fits rules scope (.function params ret) := by
  refine ⟨.function (fun p hp => (hparams p hp).obeys) hret.obeys, fun g hg => ?_⟩
  rcases List.mem_append.1 hg with hg | hg
  · obtain ⟨p, hp, hgp⟩ := mem_occurrencesAll.1 hg
    exact (hparams p hp).inScope g hgp
  · exact hret.inScope g hg

theorem Fits.arity (h : Fits rules scope (.linked decl args)) : rules.arity decl args.length := by
  obtain _ | _ | _ | ⟨harity, -⟩ := h.obeys
  exact harity

theorem Fits.of_unknown (h : Fits rules scope .unknown) : rules.unknown := by
  cases h.obeys with
  | unknown hunknown => exact hunknown

theorem Fits.of_mem_args (h : Fits rules scope (.linked decl args)) {a : Ty} (ha : a ∈ args) : Fits rules scope a := by
  obtain _ | _ | _ | ⟨-, hargs⟩ := h.obeys
  exact ⟨hargs a ha, fun g hg => h.inScope g (mem_occurrencesAll.2 ⟨a, ha, hg⟩)⟩

theorem Fits.of_pointer (h : Fits rules scope (.pointer t)) : Fits rules scope t := by
  obtain _ | _ | _ | _ | ⟨hobeys⟩ := h.obeys
  exact ⟨hobeys, h.inScope⟩

theorem Fits.of_reference (h : Fits rules scope (.reference t)) : Fits rules scope t := by
  obtain _ | _ | _ | _ | _ | ⟨hobeys⟩ := h.obeys
  exact ⟨hobeys, h.inScope⟩

theorem Fits.of_array {len : Option Nat} (h : Fits rules scope (.array t len)) : Fits rules scope t := by
  obtain _ | _ | _ | _ | _ | _ | ⟨hobeys⟩ := h.obeys
  exact ⟨hobeys, h.inScope⟩

theorem Fits.of_function {params : List Ty} {ret : Ty} (h : Fits rules scope (.function params ret)) :
    (∀ p ∈ params, Fits rules scope p) ∧ Fits rules scope ret := by
  obtain _ | _ | _ | _ | _ | _ | _ | ⟨hparams, hret⟩ := h.obeys
  refine ⟨fun p hp => ⟨hparams p hp, fun g hg => h.inScope g ?_⟩, hret, fun g hg => h.inScope g ?_⟩
  · exact List.mem_append_left _ (mem_occurrencesAll.2 ⟨p, hp, hg⟩)
  · exact List.mem_append_right _ hg

theorem Fits.mono (h : Fits rules inner t) (hscope : ∀ g, inner g → outer g) : Fits rules outer t :=
  ⟨h.obeys, fun g hg => hscope g (h.inScope g hg)⟩

theorem Fits.concrete (h : Fits rules scope t) : Fits rules scope t.concrete := by
  unfold Ty.concrete
  split
  · exact .prim _
  · exact .prim _
  · exact .prim _
  · exact h

theorem Fits.subst {params : List GenericId} (ht : Fits rules inner t)
    (hscope : ∀ g, inner g → g ∈ params ∨ outer g) (hlength : args.length = params.length)
    (hargs : ∀ a ∈ args, Fits rules outer a) : Fits rules outer (t.subst params args) := by
  refine ⟨ht.obeys.subst (fun a ha => (hargs a ha).obeys) params, fun g hg => ?_⟩
  rcases mem_occurrences_subst hlength hg with ⟨a, ha, hga⟩ | ⟨hgt, hnot⟩
  · exact (hargs a ha).inScope g hga
  · exact (hscope g (ht.inScope g hgt)).resolve_left hnot

theorem Fits.subst_of_fits (ht : Fits rules scope t)
    (hargs : ∀ a ∈ args, Fits rules scope a) (params : List GenericId) : Fits rules scope (t.subst params args) := by
  refine ⟨ht.obeys.subst (fun a ha => (hargs a ha).obeys) params, fun g hg => ?_⟩
  rw [subst_eq_replace, mem_occurrences_replace] at hg
  obtain ⟨m, hm, hgm⟩ := hg
  cases harg : argFor params args m with
  | none =>
    rw [harg, Option.getD_none, occurrences, List.mem_singleton] at hgm
    exact hgm ▸ ht.inScope m hm
  | some a =>
    rw [harg, Option.getD_some] at hgm
    exact (hargs a (mem_of_argFor harg)).inScope g hgm

end Ty

/-! ### Aliases -/

/-- What an alias that fits stands for fits as well. -/
def TypeEnv.AliasesFit (env : TypeEnv) (rules : TyRules) (scope : GenericId → Prop) : Prop :=
  ∀ decl args t, (Ty.linked decl args).Fits rules scope → env.aliasTarget decl args = some t →
    t.Fits rules scope

namespace Ty

variable {rules : TyRules} {scope : GenericId → Prop} {env : TypeEnv}

theorem Fits.expandWithin (henv : env.AliasesFit rules scope) (n : Nat)
    (ht : Fits rules scope t) : Fits rules scope (env.expandWithin n t) := by
  induction n generalizing t with
  | zero => exact ht
  | succ n ih =>
    rw [TypeEnv.expandWithin]
    split
    · rename_i target htarget
      cases t with
      | linked decl args => exact ih (henv decl args target ht htarget)
      | _ => simp [TypeEnv.unalias] at htarget
    · exact ht

theorem Fits.expand (henv : env.AliasesFit rules scope) (ht : Fits rules scope t) :
    Fits rules scope (env.expand t) :=
  ht.expandWithin henv _

end Ty

end Linkage
