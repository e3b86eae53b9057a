import Linkage.Proofs.Inference.Scoping
import Mathlib.Data.List.Nodup

/-!
# Inference finds a substitution again

Close the formals of a callee over some arguments and pass values of the types that come out. Inference lays each
formal over its own closed form, so it finds the arguments of all parameters that the formals mention, and of no
others. An argument must not be the unknown type, which fills no slot, nor the type of a literal, which fills a slot
with the type that the literal takes.
-/

namespace Linkage

theorem TypeEnv.expand_of_no_aliases {env : TypeEnv} (henv : ∀ d args, env.aliasTarget d args = none) (t : Ty) :
    env.expand t = t := by
  have hunalias : env.unalias t = none := by
    cases t with
    | linked d args => exact henv d args
    | _ => rfl
  rw [TypeEnv.expand, maxAliasDepth, TypeEnv.expandWithin, hunalias]

theorem Ty.concrete_eq_self {t : Ty} (h : ∀ kind, t ≠ .literal kind) : t.concrete = t := by
  cases t with
  | literal kind => exact absurd rfl (h kind)
  | _ => rfl

theorem Ty.argFor_map_params (params : List GenericId) (s : GenericId → Ty) (g : GenericId) :
    Ty.argFor params (params.map s) g = if g ∈ params then some (s g) else none := by
  unfold Ty.argFor
  cases hidx : params.idxOf? g with
  | none => rw [if_neg (List.idxOf?_eq_none_iff.1 hidx), Option.bind_none]
  | some i =>
    obtain ⟨hi, hget, -⟩ := List.idxOf?_eq_some_iff.1 hidx
    have hg : params[i] = g := by simpa using hget
    rw [if_pos (hg ▸ List.getElem_mem hi), Option.bind_some, List.getElem?_map, List.getElem?_eq_getElem hi, hg]
    rfl

namespace Slots

/-- The slots when the parameters in the list have been met, each at its argument. -/
def holding (params : List GenericId) (s : GenericId → Ty) (met : List GenericId) : Slots :=
  params.map fun p => if p ∈ met then some (s p) else none

variable {env : TypeEnv} {params : List GenericId} {s : GenericId → Ty} {met met' : List GenericId}

theorem holding_congr (h : ∀ p ∈ params, p ∈ met ↔ p ∈ met') : holding params s met = holding params s met' :=
  List.map_congr_left fun p hp => by simp only [h p hp]

theorem fill_holding (hnodup : params.Nodup) {g : GenericId} {t : Ty} (ht : g ∈ params → t = s g) :
    (holding params s met).fill params g t = holding params s (met ++ [g]) := by
  unfold fill
  cases hidx : params.idxOf? g with
  | none =>
    have hg : g ∉ params := List.idxOf?_eq_none_iff.1 hidx
    refine holding_congr fun p hp => ?_
    have hne : p ≠ g := fun h => hg (h ▸ hp)
    simp [hne]
  | some i =>
    obtain ⟨hi, hget, -⟩ := List.idxOf?_eq_some_iff.1 hidx
    have hg : params[i] = g := by simpa using hget
    have hslot : (holding params s met)[i]? = some (if g ∈ met then some (s g) else none) := by
      rw [holding, List.getElem?_map, List.getElem?_eq_getElem hi, hg]
      rfl
    by_cases hmet : g ∈ met
    · -- a slot that is full stays as it is
      rw [if_pos hmet] at hslot
      dsimp only
      rw [hslot]
      refine holding_congr fun p _ => ?_
      have hp : p = g → p ∈ met := fun h => h ▸ hmet
      simpa using hp
    · rw [if_neg hmet] at hslot
      dsimp only
      rw [hslot, ht (hg ▸ List.getElem_mem hi)]
      refine List.ext_getElem (by simp [holding]) fun j hj hj' => ?_
      have hjp : j < params.length := by simpa [holding] using hj'
      by_cases hij : i = j
      · subst hij
        simp [holding, hg]
      · have hne : params[j] ≠ g := fun h => hij (hnodup.getElem_inj_iff.1 (hg.trans h.symm))
        simp [holding, List.getElem_set_ne hij, hne]

theorem map_getD_holding (params : List GenericId) (s : GenericId → Ty) (met : List GenericId) :
    (holding params s met).map (·.getD .unknown) = params.map fun p => if p ∈ met then s p else .unknown := by
  rw [holding, List.map_map]
  refine List.map_congr_left fun p _ => ?_
  by_cases hp : p ∈ met <;> simp [hp]

theorem filterMap_holding (params : List GenericId) (s : GenericId → Ty) (met : List GenericId) :
    (((holding params s met).zip params).filterMap fun (arg, p) => if arg.isNone then some p else none) =
      params.filter (· ∉ met) := by
  induction params with
  | nil => rfl
  | cons p params ih =>
    by_cases hp : p ∈ met <;> simpa [holding, hp] using ih

/-- Laying formals over their own closed forms, given that each of them finds what it mentions. There may be more
formals than arguments. -/
theorem matchShapes_holding {σ : GenericId → Option Ty} (formals : List Ty)
    (h : ∀ formal ∈ formals, ∀ met, matchShape env params formal (formal.replace σ) (holding params s met) =
      holding params s (met ++ formal.occurrences)) (rest : List Ty) (met : List GenericId) :
    matchShapes env params (formals ++ rest) (formals.map (·.replace σ)) (holding params s met) =
      holding params s (met ++ Ty.occurrencesAll formals) := by
  induction formals generalizing met with
  | nil =>
    rw [Ty.occurrencesAll, List.append_nil]
    cases rest <;> rfl
  | cons formal formals ih =>
    rw [List.cons_append, List.map_cons, matchShapes, h formal List.mem_cons_self,
      ih fun f hf => h f (List.mem_cons_of_mem _ hf), Ty.occurrencesAll, List.append_assoc]

theorem matchShape_holding (henv : ∀ d args, env.aliasTarget d args = none) (hnodup : params.Nodup)
    (hs : ∀ p ∈ params, s p ≠ .unknown ∧ ∀ kind, s p ≠ .literal kind) (formal : Ty) (met : List GenericId) :
    matchShape env params formal (formal.replace (Ty.argFor params (params.map s))) (holding params s met) =
      holding params s (met ++ formal.occurrences) := by
  have hlist : ∀ formals : List Ty, (∀ formal ∈ formals, ∀ met,
      matchShape env params formal (formal.replace (Ty.argFor params (params.map s))) (holding params s met) =
        holding params s (met ++ formal.occurrences)) → ∀ met,
      matchShapes env params formals (Ty.replaceAll (Ty.argFor params (params.map s)) formals)
        (holding params s met) = holding params s (met ++ Ty.occurrencesAll formals) := by
    intro formals h met
    rw [Ty.replaceAll_eq]
    simpa using matchShapes_holding formals h [] met
  induction formal using Ty.inductionOn generalizing met with
  | prim p => simp [Ty.replace, matchShape, Ty.occurrences]
  | literal kind => simp [Ty.replace, matchShape, Ty.occurrences]
  | unknown => simp [Ty.replace, matchShape, Ty.occurrences]
  | param g =>
    rw [Ty.replace, Ty.argFor_map_params, Ty.occurrences]
    by_cases hg : g ∈ params
    · obtain ⟨hknown, htyped⟩ := hs g hg
      rw [if_pos hg, Option.getD_some, matchShape, if_neg hknown, Ty.concrete_eq_self htyped]
      exact fill_holding hnodup fun _ => rfl
    · rw [if_neg hg, Option.getD_none, matchShape, if_neg (by simp)]
      exact fill_holding hnodup fun h => absurd h hg
  | linked decl args ih =>
    rw [Ty.replace, matchShape, if_neg (by simp), TypeEnv.expand_of_no_aliases henv]
    have hlength : (Ty.replaceAll (Ty.argFor params (params.map s)) args).length = args.length := by
      rw [Ty.replaceAll_eq, List.length_map]
    dsimp only
    rw [if_pos ⟨rfl, hlength⟩]
    exact hlist args ih met
  | pointer inner ih =>
    rw [Ty.replace, matchShape, if_neg (by simp)]
    exact ih met
  | reference inner ih =>
    rw [Ty.replace, matchShape, if_neg (by simp)]
    exact ih met
  | array elem len ih =>
    rw [Ty.replace, matchShape, if_neg (by simp)]
    exact ih met
  | function formals ret ihs ih =>
    have hlength : (Ty.replaceAll (Ty.argFor params (params.map s)) formals).length = formals.length := by
      rw [Ty.replaceAll_eq, List.length_map]
    rw [Ty.replace, matchShape, if_neg (by simp), if_pos hlength, hlist formals ihs, ih, Ty.occurrences, List.append_assoc]

end Slots

namespace GenericSignature

variable {sig : GenericSignature} {env : TypeEnv} {s : GenericId → Ty}

theorem getElem?_seeds_of_no_defaults (hdefaults : ∀ d ∈ sig.defaults, d = none) (i : Nat) :
    sig.seeds[i]?.join = none := by
  cases h : sig.seeds[i]?.join with
  | none => rfl
  | some t => exact nomatch hdefaults _ (mem_defaults_of_seed (Option.join_eq_some_iff.1 h))

theorem start_of_no_defaults (hdefaults : ∀ d ∈ sig.defaults, d = none) :
    sig.start [] = Slots.holding sig.params s [] := by
  have hstart : sig.start [] = sig.seeds := by simp [start]
  refine List.ext_getElem (by simp [hstart, Slots.holding]) fun i hi hi' => ?_
  have hseed := getElem?_seeds_of_no_defaults hdefaults i
  rw [← hstart, List.getElem?_eq_getElem hi] at hseed
  simpa [Slots.holding] using hseed

theorem settle_of_no_defaults (hdefaults : ∀ d ∈ sig.defaults, d = none) (written : List Ty) (slots : Slots)
    (i : Nat) (slot : Option Ty) : sig.settle written slots i slot = slot := by
  have hdefault : sig.isDefault written i = false := by
    simp [isDefault, getElem?_seeds_of_no_defaults hdefaults i]
  cases slot with
  | none => rfl
  | some t => simp [settle, hdefault]

theorem matched_closed_formals (henv : ∀ d args, env.aliasTarget d args = none) (hnodup : sig.params.Nodup)
    (hdefaults : ∀ d ∈ sig.defaults, d = none)
    (hs : ∀ p ∈ sig.params, s p ≠ .unknown ∧ ∀ kind, s p ≠ .literal kind) {supplied : List Ty}
    (hsupplied : supplied <+: sig.explicitTypes) :
    sig.matched env [] { argTypes := Ty.substAll supplied sig.params (sig.params.map s), expected := none } =
      Slots.holding sig.params s (Ty.occurrencesAll supplied) := by
  obtain ⟨rest, hrest⟩ := hsupplied
  have hlaid := Slots.matchShapes_holding supplied
    (fun formal _ => Slots.matchShape_holding henv hnodup hs formal) rest []
  have hclosed : Ty.substAll supplied sig.params (sig.params.map s) =
      supplied.map (·.replace (Ty.argFor sig.params (sig.params.map s))) :=
    List.map_congr_left fun t _ => Ty.subst_eq_replace t sig.params (sig.params.map s)
  rw [matched, ← hrest, hclosed, start_of_no_defaults hdefaults, hlaid]
  cases sig.ret <;> rfl

/-- Inference inverts substitution. From values whose types are the formals closed over some arguments, or the
first few of them, it finds the argument of each parameter that these formals mention. The other parameters are
unresolved, in declaration order, and hold the unknown type. -/
theorem infer_closed_formals (henv : ∀ d args, env.aliasTarget d args = none) (hnodup : sig.params.Nodup)
    (hdefaults : ∀ d ∈ sig.defaults, d = none)
    (hs : ∀ p ∈ sig.params, s p ≠ .unknown ∧ ∀ kind, s p ≠ .literal kind) {supplied : List Ty}
    (hsupplied : supplied <+: sig.explicitTypes) :
    sig.infer env [] { argTypes := Ty.substAll supplied sig.params (sig.params.map s), expected := none } =
      { args := sig.params.map fun p => if p ∈ Ty.occurrencesAll supplied then s p else .unknown
        unresolved := sig.params.filter (· ∉ Ty.occurrencesAll supplied) } := by
  have hsettled : ∀ slots : Slots, slots.mapIdx (sig.settle [] slots) = slots := by
    intro slots
    refine List.ext_getElem (by simp) fun i _ _ => ?_
    rw [List.getElem_mapIdx, settle_of_no_defaults hdefaults]
  rw [infer, matched_closed_formals henv hnodup hdefaults hs hsupplied]
  dsimp only
  rw [hsettled, Slots.map_getD_holding, Slots.filterMap_holding]

/-- `fn<P0, P1, P2, P3>(&0<P1, *P0>, implicit P3, fn(P1) -> [P0])`. -/
def nestedFormals : GenericSignature where
  params := [⟨0⟩, ⟨1⟩, ⟨2⟩, ⟨3⟩]
  defaults := [none, none, none, none]
  formals := [{ ty := .reference (.linked ⟨0⟩ [.param ⟨1⟩, .pointer (.param ⟨0⟩)]) },
    { ty := .param ⟨3⟩, implicit := true },
    { ty := .function [.param ⟨1⟩] (.array (.param ⟨0⟩) none) }]
  ret := some (.param ⟨2⟩)

/-- The arguments `1<?>` and `&P0` for `P0` and `P1` are found; `P2` and `P3` are unresolved, although there is a
result of type `P2` and an implicit parameter of type `P3`. -/
theorem infer_nestedFormals :
    let s : GenericId → Ty := fun p =>
      if p = ⟨0⟩ then .linked ⟨1⟩ [.unknown] else if p = ⟨1⟩ then .reference (.param ⟨0⟩) else .bool
    nestedFormals.params.Nodup ∧ (∀ p ∈ nestedFormals.params, s p ≠ .unknown ∧ ∀ kind, s p ≠ .literal kind) ∧
      nestedFormals.infer .empty []
          { argTypes := Ty.substAll nestedFormals.explicitTypes nestedFormals.params (nestedFormals.params.map s)
            expected := none } =
        { args := [.linked ⟨1⟩ [.unknown], .reference (.param ⟨0⟩), .unknown, .unknown]
          unresolved := [⟨2⟩, ⟨3⟩] } := by
  intro s
  have hnodup : nestedFormals.params.Nodup := by decide
  have hs : ∀ p ∈ nestedFormals.params, s p ≠ .unknown ∧ ∀ kind, s p ≠ .literal kind := by
    intro p _
    dsimp only [s]
    split
    · exact ⟨nofun, nofun⟩
    · split <;> exact ⟨nofun, nofun⟩
  refine ⟨hnodup, hs, ?_⟩
  exact (infer_closed_formals (fun _ _ => rfl) hnodup (by decide) hs (List.prefix_rfl)).trans (by decide +kernel)

end GenericSignature

end Linkage
