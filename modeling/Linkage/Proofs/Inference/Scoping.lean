import Linkage.Inference
import Linkage.Proofs.Ty.Scoping

/-!
# Inferred arguments fit

A slot holds a written argument, a part of the type of a value, a part of the expected type, or a default. The first
three fit the place of the call. A default speaks about the parameters of the callee; it is closed over the other
slots, and fits the place of the call as long as it mentions only parameters that have no default of their own, for a
slot that holds a default still holds it as it was declared.
-/

namespace Linkage

variable {i : Nat} {slot : Option Ty} {slots : Slots} {t : Ty}

namespace Slots

/-- What filling does: a full slot stays as it is, and what comes into an empty one has `P`. -/
structure Filled (P : Ty → Prop) (before after : Slots) : Prop where
  length : after.length = before.length
  kept : ∀ (i : Nat) t, before[i]? = some (some t) → after[i]? = some (some t)
  new : ∀ (i : Nat) t, after[i]? = some (some t) → before[i]? = some (some t) ∨ P t

variable {P : Ty → Prop} {env : TypeEnv} {params : List GenericId}

theorem Filled.refl (slots : Slots) : Filled P slots slots :=
  ⟨rfl, fun _ _ h => h, fun _ _ h => .inl h⟩

theorem Filled.trans {a b c : Slots} (hab : Filled P a b) (hbc : Filled P b c) : Filled P a c := by
  refine ⟨hbc.length.trans hab.length, fun i t h => hbc.kept i t (hab.kept i t h), fun i t h => ?_⟩
  rcases hbc.new i t h with h | h
  · exact hab.new i t h
  · exact .inr h

theorem filled_fill (slots : Slots) (g : GenericId) (ht : P t) : Filled P slots (slots.fill params g t) := by
  unfold fill
  split
  · exact .refl slots
  · rename_i i _
    split
    · rename_i hempty
      refine ⟨List.length_set, ?_, ?_⟩
      · intro j u hj
        have hne : i ≠ j := by
          rintro rfl
          simp [hempty] at hj
        rwa [List.getElem?_set_ne hne]
      · intro j u hj
        by_cases hne : i = j
        · subst hne
          rw [List.getElem?_set_self (List.getElem?_eq_some_iff.1 hempty).1] at hj
          obtain rfl := Option.some.inj (Option.some.inj hj)
          exact .inr ht
        · rw [List.getElem?_set_ne hne] at hj
          exact .inl hj
    · exact .refl slots

theorem filled_matchShapes {formals : List Ty}
    (h : ∀ formal ∈ formals, ∀ actual slots, P actual →
      Filled P slots (matchShape env params formal actual slots))
    {actuals : List Ty} (hactuals : ∀ t ∈ actuals, P t) (slots : Slots) :
    Filled P slots (matchShapes env params formals actuals slots) := by
  induction formals generalizing actuals slots with
  | nil =>
    rw [matchShapes]
    exact .refl slots
  | cons formal formals ih =>
    cases actuals with
    | nil =>
      rw [matchShapes]
      exact .refl slots
    | cons actual actuals =>
      rw [matchShapes]
      have hfirst := h formal List.mem_cons_self actual slots (hactuals actual List.mem_cons_self)
      refine hfirst.trans (ih (fun f hf => h f (List.mem_cons_of_mem _ hf)) ?_ _)
      exact fun t ht => hactuals t (List.mem_cons_of_mem _ ht)

variable {rules : TyRules} {scope : GenericId → Prop}

theorem filled_matchShape (henv : env.AliasesFit rules scope) (formal : Ty) {actual : Ty} (slots : Slots)
    (h : actual.Fits rules scope) :
    Filled (Ty.Fits rules scope) slots (matchShape env params formal actual slots) := by
  induction formal using Ty.inductionOn generalizing actual slots with
  | param g =>
    unfold matchShape
    dsimp only
    split
    · exact .refl slots
    · exact filled_fill slots g h.concrete
  | linked decl args ih =>
    unfold matchShape
    dsimp only
    split
    · exact .refl slots
    · split
      · rename_i actualDecl actualArgs hexpand
        split
        · have hexpanded := h.expand henv
          rw [hexpand] at hexpanded
          refine filled_matchShapes (fun formal hf actual slots ha => ih formal hf slots ha) ?_ slots
          exact fun t ht => hexpanded.of_mem_args ht
        · exact .refl slots
      · exact .refl slots
  | pointer inner ih =>
    unfold matchShape
    dsimp only
    split
    · exact .refl slots
    · split
      · exact ih slots h.of_pointer
      · exact .refl slots
  | reference inner ih =>
    unfold matchShape
    dsimp only
    split
    · exact .refl slots
    · split
      · exact ih slots h.of_reference
      · exact ih slots h
  | array elem len ih =>
    unfold matchShape
    dsimp only
    split
    · exact .refl slots
    · split
      · exact ih slots h.of_array
      · exact .refl slots
  | function formals ret ihs ih =>
    unfold matchShape
    dsimp only
    split
    · exact .refl slots
    · split
      · split
        · obtain ⟨hactuals, hret⟩ := h.of_function
          refine (filled_matchShapes (fun formal hf actual slots ha => ihs formal hf slots ha) hactuals
            slots).trans ?_
          exact ih _ hret
        · exact .refl slots
      · exact .refl slots
  | prim p =>
    unfold matchShape
    dsimp only
    split <;> exact .refl slots
  | literal kind =>
    unfold matchShape
    dsimp only
    split <;> exact .refl slots
  | unknown =>
    unfold matchShape
    dsimp only
    split <;> exact .refl slots

end Slots

namespace GenericSignature

variable {sig : GenericSignature} {written : List Ty} {site : CallSite} {env : TypeEnv}
  {rules : TyRules} {scope : GenericId → Prop}

@[simp] theorem length_seeds (sig : GenericSignature) : sig.seeds.length = sig.params.length := by
  simp [seeds]

theorem length_start (sig : GenericSignature) (written : List Ty) :
    (sig.start written).length = sig.params.length := by
  rw [start, List.length_append, List.length_take, List.length_map, List.length_drop, length_seeds]
  omega

theorem getElem?_start (h : (sig.start written)[i]? = some (some t)) :
    (i < written.length ∧ t ∈ written) ∨ written.length ≤ i ∧ sig.seeds[i]? = some (some t) := by
  rw [start] at h
  by_cases hi : i < ((written.map some).take sig.params.length).length
  · rw [List.getElem?_append_left hi] at h
    have hmem := List.mem_of_mem_take (List.mem_of_getElem? h)
    obtain ⟨u, hu, hut⟩ := List.mem_map.1 hmem
    obtain rfl := Option.some.inj hut
    rw [List.length_take, List.length_map] at hi
    exact .inl ⟨by omega, hu⟩
  · rw [List.getElem?_append_right (by omega), List.getElem?_drop] at h
    have hlt := (List.getElem?_eq_some_iff.1 h).1
    rw [List.length_take, List.length_map] at h hi hlt
    rw [length_seeds] at hlt
    have hle : written.length ≤ sig.params.length := by omega
    rw [Nat.min_eq_right hle] at h hi
    rw [show written.length + (i - written.length) = i by omega] at h
    exact .inr ⟨by omega, h⟩

theorem getElem?_start_of_seed (hi : written.length ≤ i)
    (h : sig.seeds[i]? = some (some t)) : (sig.start written)[i]? = some (some t) := by
  have hlt := (List.getElem?_eq_some_iff.1 h).1
  rw [length_seeds] at hlt
  have hlength : ((written.map some).take sig.params.length).length = written.length := by
    rw [List.length_take, List.length_map]
    omega
  rw [start, List.getElem?_append_right (by omega), hlength, List.getElem?_drop]
  rwa [show written.length + (i - written.length) = i by omega]

theorem filled_matched (henv : env.AliasesFit rules scope) (hargs : ∀ t ∈ site.argTypes, t.Fits rules scope)
    (hexpected : ∀ t ∈ site.expected, t.Fits rules scope) :
    Slots.Filled (Ty.Fits rules scope) (sig.start written) (sig.matched env written site) := by
  have hformals : Slots.Filled (Ty.Fits rules scope) (sig.start written)
      (Slots.matchShapes env sig.params sig.explicitTypes site.argTypes (sig.start written)) :=
    Slots.filled_matchShapes
      (fun formal _ actual slots ha => Slots.filled_matchShape henv formal slots ha) hargs _
  rw [matched]
  split
  · rename_i ret expected _ hsome
    exact hformals.trans (Slots.filled_matchShape henv ret _ (hexpected expected hsome))
  · exact hformals

theorem length_matched (henv : env.AliasesFit rules scope)
    (hargs : ∀ t ∈ site.argTypes, t.Fits rules scope) (hexpected : ∀ t ∈ site.expected, t.Fits rules scope) :
    (sig.matched env written site).length = sig.params.length :=
  (filled_matched henv hargs hexpected).length.trans (length_start sig written)

/-- What a slot holds in the end: its default, untouched, if it has one and nothing was written for
it, and otherwise something that fits. -/
theorem getElem?_matched (henv : env.AliasesFit rules scope) (hwritten : ∀ t ∈ written, t.Fits rules scope)
    (hargs : ∀ t ∈ site.argTypes, t.Fits rules scope) (hexpected : ∀ t ∈ site.expected, t.Fits rules scope)
    (h : (sig.matched env written site)[i]? = some (some t)) :
    if sig.isDefault written i then sig.seeds[i]? = some (some t) else t.Fits rules scope := by
  have hfilled : Slots.Filled (Ty.Fits rules scope) (sig.start written) (sig.matched env written site) :=
    filled_matched henv hargs hexpected
  split
  · rename_i hdefault
    rw [isDefault, Bool.and_eq_true, decide_eq_true_eq] at hdefault
    obtain ⟨hi, hsome⟩ := hdefault
    obtain ⟨u, hu⟩ := Option.isSome_iff_exists.1 hsome
    have hseed : sig.seeds[i]? = some (some u) := Option.join_eq_some_iff.1 hu
    have hkept := hfilled.kept i u (getElem?_start_of_seed hi hseed)
    obtain rfl := Option.some.inj (Option.some.inj (hkept.symm.trans h))
    exact hseed
  · rename_i hdefault
    rcases hfilled.new i t h with hstart | hfits
    · rcases getElem?_start hstart with ⟨-, hmem⟩ | ⟨hi, hseed⟩
      · exact hwritten t hmem
      · simp [isDefault, hi, hseed] at hdefault
    · exact hfits

/-- A default may mention what has no default itself. Where all parameters are in scope it may mention
anything. -/
def DefaultsFit (sig : GenericSignature) (rules : TyRules) (scope : GenericId → Prop) : Prop :=
  ∀ (i : Nat) t, sig.seeds[i]? = some (some t) → t.Obeys rules ∧
    ∀ g ∈ t.occurrences, (∀ h, scope h) ∨
      ∃ j : Nat, sig.params[j]? = some g ∧ sig.seeds[j]? = some none

theorem argFor_zip {params : List GenericId} (hnodup : params.Nodup) {j : Nat}
    {g : GenericId} (hg : params[j]? = some g) (hslot : slots[j]? = some slot) :
    Ty.argFor params ((slots.zip params).map fun (slot, p) => slot.getD (.param p)) g =
      some (slot.getD (.param g)) := by
  have hzip : (slots.zip params)[j]? = some (slot, g) :=
    List.getElem?_zip_eq_some.2 ⟨hslot, hg⟩
  rw [Ty.argFor_of_getElem? hnodup hg, List.getElem?_map, hzip]
  rfl

theorem fits_of_settle (hnodup : sig.params.Nodup) (hdefaults : sig.DefaultsFit rules scope)
    (hlength : slots.length = sig.params.length) (hslots : ∀ (i : Nat) t, slots[i]? = some (some t) →
      if sig.isDefault written i then sig.seeds[i]? = some (some t) else t.Fits rules scope)
    (hslot : slots[i]? = some slot) (h : sig.settle written slots i slot = some t) : t.Fits rules scope := by
  have hobeys : ∀ (j : Nat) u, slots[j]? = some (some u) → u.Obeys rules := by
    intro j u hu
    have hcases := hslots j u hu
    split at hcases
    · exact (hdefaults j u hcases).1
    · exact hcases.obeys
  unfold settle at h
  cases slot with
  | none => simp at h
  | some u =>
    have hcases := hslots i u hslot
    simp only at h
    split at h
    · rename_i hdefault
      rw [if_pos hdefault] at hcases
      obtain ⟨hu, hmentions⟩ := hdefaults i u hcases
      split at h
      · simp at h
      · rename_i hclosed
        obtain rfl := Option.some.inj h
        refine ⟨hu.subst ?_ _, ?_⟩
        · intro a ha
          obtain ⟨⟨slot, p⟩, hp, rfl⟩ := List.mem_map.1 ha
          obtain ⟨j, hj⟩ := List.mem_iff_getElem?.1 (List.of_mem_zip hp).1
          cases slot with
          | none => exact .param p
          | some v => exact hobeys j v hj
        · intro g hg
          have hg' := hg
          rw [Ty.subst_eq_replace, Ty.mem_occurrences_replace] at hg'
          obtain ⟨m, hm, hgm⟩ := hg'
          rcases hmentions m hm with hall | ⟨j, hj, hseed⟩
          · exact hall g
          -- `m` has no default, so its slot is empty or holds something that fits
          have hlt : j < slots.length := by
            rw [hlength]
            exact (List.getElem?_eq_some_iff.1 hj).1
          obtain ⟨slot, hslotj⟩ : ∃ slot, slots[j]? = some slot := ⟨slots[j], by simp [hlt]⟩
          rw [argFor_zip hnodup hj hslotj, Option.getD_some] at hgm
          cases slot with
          | none =>
            rw [Option.getD_none, Ty.occurrences, List.mem_singleton] at hgm
            subst hgm
            -- an empty slot is seen in the closed default, which is then not settled
            refine absurd ?_ hclosed
            refine List.any_eq_true.2 ⟨g, hg, ?_⟩
            rw [List.contains_iff_mem, List.mem_filterMap]
            exact ⟨(none, g), List.mem_of_getElem? (List.getElem?_zip_eq_some.2 ⟨hslotj, hj⟩), by simp⟩
          | some v =>
            have hv := hslots j v hslotj
            have hnot : sig.isDefault written j = false := by simp [isDefault, hseed]
            rw [hnot, if_neg Bool.false_ne_true] at hv
            exact hv.inScope g hgm
    · rename_i hdefault
      rw [if_neg hdefault] at hcases
      obtain rfl := Option.some.inj h
      exact hcases

theorem length_infer (henv : env.AliasesFit rules scope) (hargs : ∀ t ∈ site.argTypes, t.Fits rules scope)
    (hexpected : ∀ t ∈ site.expected, t.Fits rules scope) :
    (sig.infer env written site).args.length = sig.params.length := by
  rw [infer, List.length_map, List.length_mapIdx]
  exact length_matched henv hargs hexpected

/-- All inferred arguments fit the place of the call, once inference is complete or the unknown type
is allowed. -/
theorem fits_infer (hnodup : sig.params.Nodup) (henv : env.AliasesFit rules scope)
    (hdefaults : sig.DefaultsFit rules scope) (hwritten : ∀ t ∈ written, t.Fits rules scope)
    (hargs : ∀ t ∈ site.argTypes, t.Fits rules scope) (hexpected : ∀ t ∈ site.expected, t.Fits rules scope)
    (hcomplete : ¬rules.unknown → (sig.infer env written site).unresolved = []) :
    ∀ a ∈ (sig.infer env written site).args, a.Fits rules scope := by
  intro a ha
  have hlength : (sig.matched env written site).length = sig.params.length :=
    length_matched henv hargs hexpected
  rw [infer] at ha hcomplete
  obtain ⟨settled, hsettled, rfl⟩ := List.mem_map.1 ha
  obtain ⟨i, hi, hsettle⟩ := List.mem_mapIdx.1 hsettled
  cases settled with
  | some t =>
    have hslot : (sig.matched env written site)[i]? = some (sig.matched env written site)[i] := by
      simp [hi]
    exact fits_of_settle hnodup hdefaults hlength
      (fun j u => getElem?_matched henv hwritten hargs hexpected) hslot hsettle
  | none =>
    rw [Option.getD_none]
    refine Ty.Fits.unknown (Classical.byContradiction fun hunknown => ?_)
    have hparam : i < sig.params.length := by omega
    have hmem : sig.params[i] ∈ (sig.infer env written site).unresolved := by
      rw [infer, List.mem_filterMap]
      refine ⟨(none, sig.params[i]), List.mem_of_getElem? (i := i) ?_, by simp⟩
      refine List.getElem?_zip_eq_some.2 ⟨?_, by simp⟩
      rw [List.getElem?_mapIdx, List.getElem?_eq_getElem hi, Option.map_some, hsettle]
    rw [infer, hcomplete hunknown] at hmem
    simp at hmem

theorem mem_defaults_of_seed (h : sig.seeds[i]? = some (some t)) : some t ∈ sig.defaults := by
  rw [seeds, List.getElem?_mapIdx] at h
  obtain ⟨_, -, hdefault⟩ := Option.map_eq_some_iff.1 h
  exact List.mem_of_getElem? (Option.join_eq_some_iff.1 hdefault)

theorem fits_settle_of_params (hparams : ∀ g ∈ sig.params, scope g)
    (hslots : ∀ t, some t ∈ slots → t.Fits rules scope) (hslot : slot ∈ slots)
    (h : sig.settle written slots i slot = some t) : t.Fits rules scope := by
  unfold settle at h
  cases slot with
  | none => simp at h
  | some u =>
    simp only at h
    split at h
    · split at h
      · simp at h
      · obtain rfl := Option.some.inj h
        refine (hslots u hslot).subst_of_fits (fun a ha => ?_) _
        obtain ⟨⟨slot, p⟩, hzip, rfl⟩ := List.mem_map.1 ha
        obtain ⟨hmem, hp⟩ := List.of_mem_zip hzip
        cases slot with
        | none => exact .param (hparams p hp)
        | some v => exact hslots v hmem
    · obtain rfl := Option.some.inj h
      exact hslots u hslot

/-- Where the parameters of the callee are in scope and the unknown type is allowed, the inferred arguments
fit if the defaults do. -/
theorem fits_infer_of_params (hunknown : rules.unknown) (hparams : ∀ g ∈ sig.params, scope g)
    (hdefaults : ∀ t, some t ∈ sig.defaults → t.Fits rules scope) (henv : env.AliasesFit rules scope)
    (hwritten : ∀ t ∈ written, t.Fits rules scope) (hargs : ∀ t ∈ site.argTypes, t.Fits rules scope)
    (hexpected : ∀ t ∈ site.expected, t.Fits rules scope) :
    ∀ a ∈ (sig.infer env written site).args, a.Fits rules scope := by
  have hslots : ∀ t, some t ∈ sig.matched env written site → t.Fits rules scope := by
    intro t ht
    obtain ⟨i, hi⟩ := List.mem_iff_getElem?.1 ht
    have hcases := getElem?_matched henv hwritten hargs hexpected hi
    split at hcases
    · exact hdefaults t (mem_defaults_of_seed hcases)
    · exact hcases
  intro a ha
  obtain ⟨settled, hsettled, rfl⟩ := List.mem_map.1 ha
  obtain ⟨i, hi, hsettle⟩ := List.mem_mapIdx.1 hsettled
  cases settled with
  | none => exact .unknown hunknown
  | some t => exact fits_settle_of_params hparams hslots (List.getElem_mem hi) hsettle

end GenericSignature

end Linkage
