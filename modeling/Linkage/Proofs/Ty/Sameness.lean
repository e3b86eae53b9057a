import Linkage.Ty.Relation
import Mathlib.Data.List.Forall2
import Mathlib.Logic.Relation

/-!
# Sameness of types

Two types are the same when their expansions are equal, or have equal heads with parts that are the
same one level further down. So a comparison that comes out true is a finite derivation, and
sameness is an equivalence in every environment, however its aliases run: a comparison that gives up
has no derivation and takes no part. Only the targets of aliases enter a comparison.
-/

namespace Linkage

variable {as bs : List Ty} {a b : Ty} {env env' : TypeEnv}

namespace TypeEnv

/-- Two types have equal heads, and the parts below them are related. -/
inductive HeadsAgree (R : Ty → Ty → Prop) : Ty → Ty → Prop
  | linked {decl : DeclId} {as bs : List Ty} (h : List.Forall₂ R as bs) :
      HeadsAgree R (.linked decl as) (.linked decl bs)
  | pointer {a b : Ty} (h : R a b) : HeadsAgree R (.pointer a) (.pointer b)
  | reference {a b : Ty} (h : R a b) : HeadsAgree R (.reference a) (.reference b)
  | array {a b : Ty} {len : Option Nat} (h : R a b) : HeadsAgree R (.array a len) (.array b len)
  | function {as bs : List Ty} {a b : Ty} (hs : List.Forall₂ R as bs) (h : R a b) :
      HeadsAgree R (.function as a) (.function bs b)

theorem forall₂_comp {R S : Ty → Ty → Prop} {cs : List Ty} (hab : List.Forall₂ R as bs)
    (hbc : List.Forall₂ S bs cs) : List.Forall₂ (Relation.Comp R S) as cs := by
  induction hab generalizing cs with
  | nil =>
    obtain _ | _ := hbc
    exact .nil
  | cons h _ ih =>
    obtain _ | ⟨h', hbc⟩ := hbc
    exact .cons ⟨_, h, h'⟩ (ih hbc)

namespace HeadsAgree

variable {R S : Ty → Ty → Prop} {a b c : Ty}

theorem imp (hRS : ∀ a b, R a b → S a b) (h : HeadsAgree R a b) : HeadsAgree S a b := by
  cases h with
  | linked hs => exact .linked (hs.imp hRS)
  | pointer h => exact .pointer (hRS _ _ h)
  | reference h => exact .reference (hRS _ _ h)
  | array h => exact .array (hRS _ _ h)
  | function hs h => exact .function (hs.imp hRS) (hRS _ _ h)

theorem flip (h : HeadsAgree R a b) : HeadsAgree (fun b a => R a b) b a := by
  cases h with
  | linked hs => exact .linked hs.flip
  | pointer h => exact .pointer h
  | reference h => exact .reference h
  | array h => exact .array h
  | function hs h => exact .function hs.flip h

theorem comp (hab : HeadsAgree R a b) (hbc : HeadsAgree S b c) :
    HeadsAgree (Relation.Comp R S) a c := by
  cases hab with
  | linked hs =>
    obtain ⟨hs'⟩ := hbc
    exact .linked (forall₂_comp hs hs')
  | pointer h =>
    obtain _ | ⟨h'⟩ := hbc
    exact .pointer ⟨_, h, h'⟩
  | reference h =>
    obtain _ | _ | ⟨h'⟩ := hbc
    exact .reference ⟨_, h, h'⟩
  | array h =>
    obtain _ | _ | _ | ⟨h'⟩ := hbc
    exact .array ⟨_, h, h'⟩
  | function hs h =>
    obtain _ | _ | _ | _ | ⟨hs', h'⟩ := hbc
    exact .function (forall₂_comp hs hs') ⟨_, h, h'⟩

theorem symm (hR : ∀ a b, R a b → R b a) (h : HeadsAgree R a b) : HeadsAgree R b a :=
  h.flip.imp fun _ _ => hR _ _

theorem trans (hR : ∀ a b c, R a b → R b c → R a c) (hab : HeadsAgree R a b)
    (hbc : HeadsAgree R b c) : HeadsAgree R a c :=
  (hab.comp hbc).imp fun _ _ ⟨_, h, h'⟩ => hR _ _ _ h h'

end HeadsAgree

theorem pairwise_eq_true_iff {compare : Ty → Ty → Option Bool} :
    pairwise compare as bs = some true ↔ List.Forall₂ (compare · · = some true) as bs := by
  have hzip : ∀ as bs : List Ty, as.length = bs.length →
      ((as.zip bs).allM (fun p => compare p.1 p.2) = some true ↔
        List.Forall₂ (compare · · = some true) as bs) := by
    intro as
    induction as with
    | nil => intro bs h; cases bs <;> simp_all
    | cons a as ih =>
      intro bs h
      cases bs with
      | nil => simp at h
      | cons b bs =>
        have hlength : as.length = bs.length := by simpa using h
        rw [List.forall₂_cons, ← ih bs hlength, List.zip_cons_cons, List.allM]
        rcases compare a b with _ | _ | _ <;> simp
  unfold pairwise
  split
  · rename_i h
    exact hzip as bs h
  · rename_i h
    simp only [Option.some.injEq, Bool.false_eq_true, false_iff]
    exact fun hs => h hs.length_eq

theorem sameHeads_eq_true_iff {compare : Ty → Ty → Option Bool} :
    sameHeads false compare a b = some true ↔ HeadsAgree (compare · · = some true) a b := by
  constructor
  · intro h
    unfold sameHeads at h
    split at h
    · simp at h
    · simp at h
    · split at h
      · rename_i hdecl
        subst hdecl
        exact .linked (pairwise_eq_true_iff.1 h)
      · simp at h
    · exact .pointer h
    · exact .reference h
    · split at h
      · rename_i hlen
        subst hlen
        exact .array h
      · simp at h
    · rename_i as a bs b
      rcases hs : pairwise compare as bs with _ | _ | _
      · simp [hs] at h
      · simp [hs] at h
      · rw [hs] at h
        exact .function (pairwise_eq_true_iff.1 hs) h
    · simp at h
  · intro h
    cases h with
    | linked hs => simp [sameHeads, pairwise_eq_true_iff.2 hs]
    | pointer h => exact h
    | reference h => exact h
    | array h => simp [sameHeads, h]
    | function hs h => simp [sameHeads, pairwise_eq_true_iff.2 hs, h]

/-- A comparison that comes out true has found equal expansions, or equal heads and parts that are
the same one level further down. -/
theorem sameWithin_succ_iff {n : Nat} :
    env.sameWithin false (n + 1) a b = some true ↔
      env.expand a = env.expand b ∨
        HeadsAgree (env.sameWithin false n · · = some true) (env.expand a) (env.expand b) := by
  by_cases hab : a = b
  · simp [sameWithin, hab]
  · by_cases hexpand : env.expand a = env.expand b
    · simp [sameWithin, hab, hexpand]
    · simp only [sameWithin, hab, hexpand, if_false, false_or]
      exact sameHeads_eq_true_iff

theorem sameWithin_symm (n : Nat) (a b : Ty)
    (h : env.sameWithin false n a b = some true) : env.sameWithin false n b a = some true := by
  induction n generalizing a b with
  | zero => simp [sameWithin] at h
  | succ n ih =>
    rw [sameWithin_succ_iff] at h ⊢
    exact h.imp Eq.symm (HeadsAgree.symm ih)

theorem sameWithin_trans (n : Nat) (a b c : Ty)
    (hab : env.sameWithin false n a b = some true) (hbc : env.sameWithin false n b c = some true) :
    env.sameWithin false n a c = some true := by
  induction n generalizing a b c with
  | zero => simp [sameWithin] at hab
  | succ n ih =>
    rw [sameWithin_succ_iff] at hab hbc ⊢
    rcases hab with hab | hab
    · rwa [hab]
    · rcases hbc with hbc | hbc
      · rw [← hbc]
        exact .inr hab
      · exact .inr (hab.trans ih hbc)

theorem same_iff : env.same a b = true ↔ env.sameWithin false (env.reach + 1) a b = some true := by
  simp [same]

theorem same_equivalence (env : TypeEnv) : Equivalence (env.same · · = true) where
  refl a := by simp [same, sameWithin]
  symm h := same_iff.2 (sameWithin_symm _ _ _ (same_iff.1 h))
  trans hab hbc := same_iff.2 (sameWithin_trans _ _ _ _ (same_iff.1 hab) (same_iff.1 hbc))

/-! ### Lists of types -/

theorem allSame_iff : env.allSame as bs = true ↔ List.Forall₂ (env.same · · = true) as bs := by
  simp only [allSame, Bool.and_eq_true, beq_iff_eq, List.all_eq_true, List.forall₂_iff_zip, Prod.forall]

theorem allSame_refl (env : TypeEnv) (as : List Ty) : env.allSame as as = true :=
  allSame_iff.2 (List.forall₂_same.2 fun a _ => env.same_equivalence.refl a)

theorem allSame_symm (h : env.allSame as bs = true) : env.allSame bs as = true :=
  allSame_iff.2 ((allSame_iff.1 h).imp fun _ _ => env.same_equivalence.symm).flip

theorem allSame_trans {cs : List Ty} (hab : env.allSame as bs = true)
    (hbc : env.allSame bs cs = true) : env.allSame as cs = true :=
  allSame_iff.2 ((forall₂_comp (allSame_iff.1 hab) (allSame_iff.1 hbc)).imp
    fun _ _ ⟨_, h, h'⟩ => env.same_equivalence.trans h h')

/-! ### What a comparison depends on -/

theorem expandWithin_congr (h : env.aliasTarget = env'.aliasTarget) (n : Nat) (t : Ty) :
    env.expandWithin n t = env'.expandWithin n t := by
  have hunalias : env.unalias = env'.unalias := by
    funext t
    cases t <;> simp [unalias, h]
  induction n generalizing t with
  | zero => rfl
  | succ n ih =>
    simp only [expandWithin, hunalias]
    split
    · exact ih _
    · rfl

theorem sameWithin_congr (h : env.aliasTarget = env'.aliasTarget) (lenient : Bool)
    (n : Nat) : env.sameWithin lenient n = env'.sameWithin lenient n := by
  induction n with
  | zero => rfl
  | succ n ih =>
    have hexpand : env.expand = env'.expand := funext (expandWithin_congr h maxAliasDepth)
    funext a b
    rw [sameWithin, sameWithin, ih, hexpand]

theorem allSame_congr (h : env.aliasTarget = env'.aliasTarget)
    (hreach : env.reach = env'.reach) : env.allSame = env'.allSame := by
  funext as bs
  simp only [allSame, same, sameWithin_congr h, hreach]

end TypeEnv

end Linkage
