import Linkage.Ty.Subst

/-!
# What a substituted type mentions

Closing a type is replacing its parameters, also where the test for open types cuts it short. The
parameters that are mentioned afterwards are those of what was put in, and those that nothing was put
in for. Only what a substitution does to the parameters of the type matters.
-/

namespace Linkage

variable {g : GenericId} {σ : GenericId → Option Ty} {params : List GenericId} {args : List Ty} {t : Ty}

namespace Ty

theorem mem_occurrencesAll {ts : List Ty} : g ∈ occurrencesAll ts ↔ ∃ t ∈ ts, g ∈ t.occurrences := by
  rw [occurrencesAll_eq, List.mem_flatMap]

theorem mem_params : g ∈ t.params ↔ g ∈ t.occurrences :=
  List.mem_eraseDups

theorem isOpen_iff : t.isOpen = true ↔ ∃ g, g ∈ t.occurrences := by
  rw [isOpen, Bool.not_eq_true', List.isEmpty_eq_false_iff_exists_mem]

theorem isOpen_eq_false_iff : t.isOpen = false ↔ ∀ g, g ∉ t.occurrences := by
  rw [← Bool.not_eq_true, isOpen_iff, not_exists]

theorem any_isOpen_iff {ts : List Ty} : ts.any (·.isOpen) = true ↔ ∃ g, g ∈ occurrencesAll ts := by
  simp only [List.any_eq_true, isOpen_iff, mem_occurrencesAll]
  constructor
  · rintro ⟨t, ht, g, hg⟩
    exact ⟨g, t, ht, hg⟩
  · rintro ⟨g, t, ht, hg⟩
    exact ⟨t, ht, g, hg⟩

/-- Two replacements of one type are equal just if they put the same in the place of every parameter it mentions. -/
theorem replace_inj {τ : GenericId → Option Ty} : t.replace σ = t.replace τ ↔
    ∀ g ∈ t.occurrences, (σ g).getD (.param g) = (τ g).getD (.param g) := by
  have hall : ∀ ts : List Ty, (∀ t ∈ ts, t.replace σ = t.replace τ ↔
      ∀ g ∈ t.occurrences, (σ g).getD (.param g) = (τ g).getD (.param g)) →
      (replaceAll σ ts = replaceAll τ ts ↔
        ∀ g ∈ occurrencesAll ts, (σ g).getD (.param g) = (τ g).getD (.param g)) := by
    intro ts ih
    rw [replaceAll_eq, replaceAll_eq, List.map_inj_left]
    constructor
    · intro h g hg
      obtain ⟨t, ht, hgt⟩ := mem_occurrencesAll.1 hg
      exact (ih t ht).1 (h t ht) g hgt
    · exact fun h t ht => (ih t ht).2 fun g hg => h g (mem_occurrencesAll.2 ⟨t, ht, hg⟩)
  induction t using Ty.inductionOn with
  | prim | literal | param | unknown => simp [replace, occurrences]
  | linked decl args ih =>
    simp only [replace, linked.injEq, true_and]
    exact hall args ih
  | pointer inner ih | reference inner ih | array inner len ih =>
    simp only [replace, pointer.injEq, reference.injEq, array.injEq, and_true]
    exact ih
  | function params ret ihs ih =>
    simp only [replace, function.injEq, occurrences, List.forall_mem_append]
    exact and_congr (hall params ihs) ih

theorem replace_congr {τ : GenericId → Option Ty} (h : ∀ g ∈ t.occurrences, σ g = τ g) : t.replace σ = t.replace τ :=
  replace_inj.2 fun g hg => by rw [h g hg]

theorem replace_none (t : Ty) : t.replace (fun _ => none) = t := by
  have hall : ∀ ts : List Ty, (∀ t ∈ ts, t.replace (fun _ => none) = t) → replaceAll (fun _ => none) ts = ts := by
    intro ts ih
    rw [replaceAll_eq, List.map_congr_left ih, List.map_id']
  induction t using Ty.inductionOn with
  | prim | literal | param | unknown => rfl
  | linked decl args ih => rw [replace, hall args ih]
  | pointer inner ih | reference inner ih | array inner len ih => rw [replace, ih]
  | function params ret ihs ih => rw [replace, hall params ihs, ih]

theorem replace_eq_self (h : ∀ g ∈ t.occurrences, σ g = none) : t.replace σ = t := by
  rw [replace_congr h, replace_none]

theorem occurrences_replace (σ : GenericId → Option Ty) (t : Ty) :
    (t.replace σ).occurrences = t.occurrences.flatMap fun g => ((σ g).getD (.param g)).occurrences := by
  have hall : ∀ ts : List Ty, (∀ t ∈ ts, (t.replace σ).occurrences =
      t.occurrences.flatMap fun g => ((σ g).getD (.param g)).occurrences) →
      occurrencesAll (replaceAll σ ts) =
        (occurrencesAll ts).flatMap fun g => ((σ g).getD (.param g)).occurrences := by
    intro ts ih
    rw [replaceAll_eq, occurrencesAll_eq, occurrencesAll_eq, List.flatMap_map, List.flatMap_assoc, List.flatMap,
      List.flatMap, List.map_congr_left ih]
  induction t using Ty.inductionOn with
  | prim | literal | unknown => rfl
  | param g => simp [replace, occurrences]
  | linked decl args ih => exact hall args ih
  | pointer inner ih | reference inner ih | array inner len ih => exact ih
  | function params ret ihs ih => simp only [replace, occurrences, List.flatMap_append, hall params ihs, ih]

theorem mem_occurrences_replace :
    g ∈ (t.replace σ).occurrences ↔
      ∃ h ∈ t.occurrences, g ∈ ((σ h).getD (.param h)).occurrences := by
  rw [occurrences_replace, List.mem_flatMap]

theorem subst_eq_replace (t : Ty) (params : List GenericId) (args : List Ty) :
    t.subst params args = t.replace (argFor params args) := by
  unfold subst
  split
  · rename_i h
    symm
    apply replace_eq_self
    intro g hg
    rcases Bool.or_eq_true_iff.1 h with hempty | hclosed
    · rw [List.isEmpty_iff.1 hempty]
      rfl
    · have hopen : t.isOpen = true := isOpen_iff.2 ⟨g, hg⟩
      simp [hopen] at hclosed
  · rfl

theorem replace_of_closed (h : t.isOpen = false) (σ : GenericId → Option Ty) : t.replace σ = t :=
  replace_eq_self fun g hg => absurd hg (isOpen_eq_false_iff.1 h g)

theorem argFor_of_getElem? (hnodup : params.Nodup) {i : Nat}
    (hg : params[i]? = some g) : argFor params args g = args[i]? := by
  have hidx : params.idxOf? g = some i := by
    rw [List.idxOf?_eq_some_iff]
    obtain ⟨hlt, rfl⟩ := List.getElem?_eq_some_iff.1 hg
    refine ⟨hlt, by simp, fun k hk => ?_⟩
    have hne := List.pairwise_iff_getElem.1 hnodup k i (by omega) hlt hk
    simpa using hne
  rw [argFor, hidx, Option.bind_some]

theorem mem_of_argFor (h : argFor params args g = some t) : t ∈ args := by
  obtain ⟨i, -, hi⟩ := Option.bind_eq_some_iff.1 h
  exact List.mem_of_getElem? hi

theorem argFor_of_mem (hlength : args.length = params.length)
    (hg : g ∈ params) : ∃ t ∈ args, argFor params args g = some t := by
  obtain ⟨i, hi⟩ := Option.isSome_iff_exists.1 (List.isSome_idxOf?.2 hg)
  have hlt : i < args.length := by
    rw [hlength]
    exact (List.idxOf?_eq_some_iff.1 hi).1
  exact ⟨args[i], List.getElem_mem hlt, by simp [argFor, hi, hlt]⟩

theorem argFor_map (f : Ty → Ty) (params : List GenericId) (args : List Ty) (g : GenericId) :
    argFor params (args.map f) g = (argFor params args g).map f := by
  unfold argFor
  cases params.idxOf? g with
  | none => rfl
  | some i => simp only [Option.bind_some, List.getElem?_map]

theorem replace_replace (σ τ : GenericId → Option Ty) (t : Ty) :
    (t.replace τ).replace σ = t.replace fun g => some (((τ g).getD (.param g)).replace σ) := by
  have hlist : ∀ ts : List Ty,
      (∀ t ∈ ts, (t.replace τ).replace σ = t.replace fun g => some (((τ g).getD (.param g)).replace σ)) →
      replaceAll σ (replaceAll τ ts) = replaceAll (fun g => some (((τ g).getD (.param g)).replace σ)) ts := by
    intro ts ih
    simp only [replaceAll_eq, List.map_map]
    exact List.map_congr_left ih
  induction t using Ty.inductionOn with
  | prim | literal | param | unknown => rfl
  | linked decl args ih => simp only [replace, hlist args ih]
  | pointer inner ih | reference inner ih | array inner len ih => simp only [replace, ih]
  | function params ret ihs ih => simp only [replace, hlist params ihs, ih]

/-- Where a type mentions only listed parameters and there is an argument for each, it makes no difference
whether the arguments go through a replacement before or after the type is closed over them. -/
theorem replace_subst (hown : ∀ g ∈ t.occurrences, g ∈ params) (hlength : params.length ≤ args.length) :
    (t.subst params args).replace σ = t.subst params (args.map (replace σ)) := by
  rw [subst_eq_replace, subst_eq_replace, replace_replace]
  refine replace_congr fun g hg => ?_
  obtain ⟨i, hi⟩ := Option.isSome_iff_exists.1 (List.isSome_idxOf?.2 (hown g hg))
  have hlt : i < args.length := Nat.lt_of_lt_of_le (List.idxOf?_eq_some_iff.1 hi).1 hlength
  rw [argFor_map, argFor, hi, Option.bind_some, List.getElem?_eq_getElem hlt]
  rfl

theorem mem_occurrences_subst (hlength : args.length = params.length) (hg : g ∈ (t.subst params args).occurrences) :
    (∃ a ∈ args, g ∈ a.occurrences) ∨ g ∈ t.occurrences ∧ g ∉ params := by
  rw [subst_eq_replace, mem_occurrences_replace] at hg
  obtain ⟨h, hh, hg⟩ := hg
  by_cases hmem : h ∈ params
  · obtain ⟨a, ha, harg⟩ := argFor_of_mem hlength hmem
    rw [harg, Option.getD_some] at hg
    exact .inl ⟨a, ha, hg⟩
  · have hnone : argFor params args h = none := by
      rw [argFor, List.idxOf?_eq_none_iff.2 hmem]
      rfl
    rw [hnone, Option.getD_none, occurrences, List.mem_singleton] at hg
    subst hg
    exact .inr ⟨hh, hmem⟩

end Ty

end Linkage
