import Linkage.Proofs.Ty.Substitution
import Mathlib.Data.List.Basic

/-!
# Closing a type twice

A type that is closed over arguments can be closed again, over the parameters that the arguments brought in. As long as
it mentions only listed parameters and there is an argument for each, that is the same as closing the arguments first.
An argument may mention the parameter it is put in for: all parameters are replaced at once, and what is put in is not
looked at again. The parameters of the closed type are gathered from the arguments, each of which counts where its
parameter is first seen.
-/

namespace Linkage

namespace Ty

variable {g : GenericId} {params : List GenericId} {args : List Ty} {t : Ty}

theorem subst_subst (hown : ∀ g ∈ t.occurrences, g ∈ params) (hlength : params.length ≤ args.length)
    (params' : List GenericId) (args' : List Ty) :
    (t.subst params args).subst params' args' = t.subst params (substAll args params' args') := by
  have hall : substAll args params' args' = args.map (replace (argFor params' args')) :=
    List.map_congr_left fun a _ => subst_eq_replace a params' args'
  rw [subst_eq_replace _ params', replace_subst hown hlength, hall]

theorem flatMap_filter_ne {f : GenericId → List GenericId} (hg : f g = []) (gs : List GenericId) :
    (gs.filter fun h => !h == g).flatMap f = gs.flatMap f := by
  induction gs with
  | nil => rfl
  | cons h gs ih =>
    by_cases heq : h = g
    · simp [heq, hg, ih]
    · simp [heq, ih]

/-- What is gathered for a parameter that was seen before adds nothing new. -/
theorem eraseDups_flatMap_eraseDups (f : GenericId → List GenericId) (gs : List GenericId) :
    (gs.eraseDups.flatMap f).eraseDups = (gs.flatMap f).eraseDups := by
  match gs with
  | [] => rfl
  | g :: gs =>
    have hfewer : (gs.filter fun h => !h == g).length ≤ gs.length := List.length_filter_le _ gs
    have hnone : (f g).removeAll (f g) = [] := by simp [List.removeAll]
    have ih := eraseDups_flatMap_eraseDups (fun h => (f h).removeAll (f g)) (gs.filter fun h => !h == g)
    rw [flatMap_filter_ne hnone] at ih
    rw [List.eraseDups_cons, List.flatMap_cons, List.flatMap_cons, List.eraseDups_append, List.eraseDups_append,
      List.removeAll, List.removeAll, List.filter_flatMap, List.filter_flatMap]
    exact congrArg _ ih
termination_by gs.length

theorem params_subst (hown : ∀ g ∈ t.occurrences, g ∈ params) (hlength : args.length = params.length) :
    (t.subst params args).params = paramsOfAll (t.params.filterMap (argFor params args)) := by
  have hput : t.params.filterMap (argFor params args) =
      t.params.map fun g => (argFor params args g).getD (.param g) := by
    rw [List.filterMap_eq_map_iff_forall_eq_some]
    intro g hg
    obtain ⟨a, -, ha⟩ := argFor_of_mem hlength (hown g (mem_params.1 hg))
    rw [ha, Option.getD_some]
  rw [hput, paramsOfAll, occurrencesAll_eq, List.flatMap_map, Ty.params, Ty.params, eraseDups_flatMap_eraseDups,
    subst_eq_replace, occurrences_replace]

theorem mem_params_subst (hown : ∀ g ∈ t.occurrences, g ∈ params) (hnodup : params.Nodup)
    (hlength : args.length = params.length) : g ∈ (t.subst params args).params ↔
      ∃ (i : Nat) (p : GenericId) (a : Ty), params[i]? = some p ∧ args[i]? = some a ∧ p ∈ t.params ∧ g ∈ a.params := by
  rw [mem_params, subst_eq_replace, mem_occurrences_replace]
  constructor
  · rintro ⟨p, hp, hg⟩
    obtain ⟨i, hi⟩ := List.getElem?_of_mem (hown p hp)
    obtain ⟨a, -, ha⟩ := argFor_of_mem hlength (hown p hp)
    rw [ha, Option.getD_some] at hg
    rw [argFor_of_getElem? hnodup hi] at ha
    exact ⟨i, p, a, hi, ha, mem_params.2 hp, mem_params.2 hg⟩
  · rintro ⟨i, p, a, hi, ha, hp, hg⟩
    refine ⟨p, mem_params.1 hp, ?_⟩
    rw [argFor_of_getElem? hnodup hi, ha, Option.getD_some]
    exact mem_params.1 hg

/-- Closing a type replaces its parameters all at once, also where the test for open types cuts it short. If the type
mentions listed parameters only, none is listed twice and each has an argument, then closing it a second time is closing
its arguments first, and the parameters it mentions afterwards are those of the arguments that were put in, in the order
in which the type first mentions their parameters. -/
theorem subst_composes (t : Ty) (params params' : List GenericId) (args args' : List Ty) :
    t.subst params args = t.replace (argFor params args) ∧
      ((∀ g ∈ t.params, g ∈ params) → params.Nodup → args.length = params.length →
        (t.subst params args).subst params' args' = t.subst params (substAll args params' args') ∧
        (t.subst params args).params = paramsOfAll (t.params.filterMap (argFor params args)) ∧
        ∀ g, g ∈ (t.subst params args).params ↔ ∃ (i : Nat) (p : GenericId) (a : Ty),
          params[i]? = some p ∧ args[i]? = some a ∧ p ∈ t.params ∧ g ∈ a.params) := by
  refine ⟨subst_eq_replace t params args, fun hmentioned hnodup hlength => ?_⟩
  have hown : ∀ g ∈ t.occurrences, g ∈ params := fun g hg => hmentioned g (mem_params.2 hg)
  exact ⟨subst_subst hown (Nat.le_of_eq hlength.symm) params' args', params_subst hown hlength,
    fun g => mem_params_subst hown hnodup hlength⟩

/-- `0<P1, fn(P0) -> P1>`, closed over `0<P1, P2>` for `P0` and `*P0` for `P1`, mentions `P0`, `P1` and `P2`. -/
theorem subst_composes_swapped :
    let t := Ty.linked ⟨0⟩ [.param ⟨1⟩, .function [.param ⟨0⟩] (.param ⟨1⟩)]
    let args := [Ty.linked ⟨0⟩ [.param ⟨1⟩, .param ⟨2⟩], .pointer (.param ⟨0⟩)]
    (t.subst [⟨0⟩, ⟨1⟩] args).subst [⟨0⟩, ⟨2⟩] [.int, .param ⟨0⟩] =
        t.subst [⟨0⟩, ⟨1⟩] [.linked ⟨0⟩ [.param ⟨1⟩, .param ⟨0⟩], .pointer .int] ∧
      (t.subst [⟨0⟩, ⟨1⟩] args).params = [⟨0⟩, ⟨1⟩, ⟨2⟩] := by
  intro t args
  obtain ⟨hcompose, hparams, -⟩ := (subst_composes t [⟨0⟩, ⟨1⟩] [⟨0⟩, ⟨2⟩] args [.int, .param ⟨0⟩]).2
    (by decide) (by decide) rfl
  exact ⟨hcompose.trans (by decide), hparams.trans (by decide)⟩

end Ty

end Linkage
