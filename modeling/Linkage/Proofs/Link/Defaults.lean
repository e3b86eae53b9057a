import Linkage.Proofs.Inference.Scoping
import Linkage.Proofs.Link.Outcome

/-!
# Two ways of filling in defaults

An annotation fills in defaults from left to right and closes each of them over the arguments before it, which are
closed by then. Inference closes all defaults at once, over the slots as they are. A slot that holds a default holds
it as it was declared, so a default that mentions a parameter with an open default stays open. The two ways lead to
the same arguments if and only if no default that is filled in is chained to another in this manner.
-/

namespace Linkage

namespace Signatures

variable (sigs : Signatures) (decl : DeclId) (supplied : List Ty)

theorem constructSignature_params : (sigs.constructSignature decl supplied).params = sigs.genericsOf decl := rfl

theorem constructSignature_defaults : (sigs.constructSignature decl supplied).defaults = sigs.defaultsOf decl := rfl

theorem constructSignature_formals_nil : (sigs.constructSignature decl []).formals = [] := rfl

end Signatures

namespace GenericSignature

variable {sig : GenericSignature} {written args : List Ty} {i j : Nat} {g : GenericId} {t u : Ty}

def DefaultsEarlier (sig : GenericSignature) : Prop :=
  ∀ i < sig.params.length, ∀ t ∈ sig.seeds[i]?.join, ∀ g ∈ t.occurrences, g ∈ sig.params.take i

def Covers (sig : GenericSignature) (written : List Ty) : Prop :=
  ∀ i < sig.params.length, written.length ≤ i → (sig.seeds[i]?.join).isSome

def ClosedDefault (sig : GenericSignature) (written : List Ty) (g : GenericId) : Prop :=
  ∀ i < sig.params.length, written.length ≤ i → sig.params[i]? = some g → ∀ t ∈ sig.seeds[i]?.join, t.isOpen = false

/-- No default that is filled in mentions a parameter for which an open default is filled in. -/
def Unchained (sig : GenericSignature) (written : List Ty) : Prop :=
  ∀ i < sig.params.length, written.length ≤ i → ∀ t ∈ sig.seeds[i]?.join, ∀ g ∈ t.occurrences,
    sig.ClosedDefault written g

instance : Decidable sig.DefaultsEarlier := inferInstanceAs (Decidable (∀ i < sig.params.length, _))

instance : Decidable (sig.Covers written) := inferInstanceAs (Decidable (∀ i < sig.params.length, _))

instance : Decidable (sig.ClosedDefault written g) := inferInstanceAs (Decidable (∀ i < sig.params.length, _))

instance : Decidable (sig.Unchained written) := inferInstanceAs (Decidable (∀ i < sig.params.length, _))

/-- The arguments are the written ones and then the defaults, each closed over all of the arguments. -/
structure Closing (sig : GenericSignature) (written args : List Ty) : Prop where
  length : args.length = sig.params.length
  kept : ∀ i : Nat, i < written.length → i < sig.params.length → args[i]? = written[i]?
  default : ∀ (i : Nat) t, written.length ≤ i → sig.seeds[i]? = some (some t) →
    args[i]? = some (t.subst sig.params args)

theorem lt_of_seed (h : sig.seeds[i]? = some (some t)) : i < sig.params.length := by
  simpa using (List.getElem?_eq_some_iff.1 h).1

theorem Covers.exists_seed (hcovers : sig.Covers written) (hi : written.length ≤ i) (hlt : i < sig.params.length) :
    ∃ t, sig.seeds[i]? = some (some t) := by
  obtain ⟨t, ht⟩ := Option.isSome_iff_exists.1 (hcovers i hlt hi)
  exact ⟨t, Option.join_eq_some_iff.1 ht⟩

theorem exists_position {params : List GenericId} (h : g ∈ params.take i) : ∃ j < i, params[j]? = some g := by
  obtain ⟨j, hj⟩ := List.mem_iff_getElem?.1 h
  have hlt : j < i := by
    have hlength := (List.getElem?_eq_some_iff.1 hj).1
    rw [List.length_take] at hlength
    omega
  rw [List.getElem?_take_of_lt hlt] at hj
  exact ⟨j, hlt, hj⟩

theorem DefaultsEarlier.position (hearlier : sig.DefaultsEarlier) (ht : sig.seeds[i]? = some (some t))
    (hg : g ∈ t.occurrences) : ∃ j < i, sig.params[j]? = some g :=
  exists_position (hearlier i (lt_of_seed ht) t (by rw [ht]; rfl) g hg)

theorem Closing.isOpen_eq_false (hclosing : sig.Closing written args) (hnodup : sig.params.Nodup)
    (hearlier : sig.DefaultsEarlier) (hcovers : sig.Covers written) (hclosed : ∀ t ∈ written, t.isOpen = false)
    (hi : args[i]? = some t) : t.isOpen = false := by
  induction i using Nat.strongRecOn generalizing t with
  | ind i ih =>
    have hlt : i < sig.params.length := hclosing.length ▸ (List.getElem?_eq_some_iff.1 hi).1
    by_cases hwritten : i < written.length
    · rw [hclosing.kept i hwritten hlt] at hi
      exact hclosed t (List.mem_of_getElem? hi)
    · obtain ⟨u, hu⟩ := hcovers.exists_seed (Nat.le_of_not_lt hwritten) hlt
      rw [hclosing.default i u (Nat.le_of_not_lt hwritten) hu] at hi
      obtain rfl := Option.some.inj hi
      rw [Ty.isOpen_eq_false_iff]
      intro g hg
      rw [Ty.subst_eq_replace, Ty.mem_occurrences_replace] at hg
      obtain ⟨m, hm, hgm⟩ := hg
      -- what is mentioned stands before, and its argument is closed
      obtain ⟨j, hj, hjm⟩ := hearlier.position hu hm
      have hjlt : j < args.length := by
        rw [hclosing.length]
        omega
      rw [Ty.argFor_of_getElem? hnodup hjm, List.getElem?_eq_getElem hjlt, Option.getD_some] at hgm
      exact Ty.isOpen_eq_false_iff.1 (ih j hj (List.getElem?_eq_getElem hjlt)) g hgm

/-! ### Inference without formals -/

/-- The written arguments and then the defaults as they were declared. -/
def laidOut (sig : GenericSignature) (written : List Ty) : List Ty := (sig.start written).map (·.getD .unknown)

@[simp] theorem length_laidOut (sig : GenericSignature) (written : List Ty) :
    (sig.laidOut written).length = sig.params.length := by
  rw [laidOut, List.length_map, length_start]

theorem getElem?_start_of_written (hi : i < written.length) (hlt : i < sig.params.length) :
    (sig.start written)[i]? = written[i]?.map some := by
  have hleft : i < ((written.map some).take sig.params.length).length := by
    rw [List.length_take, List.length_map]
    omega
  rw [start, List.getElem?_append_left hleft, List.getElem?_take_of_lt hlt, List.getElem?_map]

theorem getElem?_laidOut_of_written (hi : i < written.length) (hlt : i < sig.params.length) :
    (sig.laidOut written)[i]? = written[i]? := by
  rw [laidOut, List.getElem?_map, getElem?_start_of_written hi hlt, List.getElem?_eq_getElem hi]
  rfl

theorem getElem?_laidOut_of_seed (hi : written.length ≤ i) (ht : sig.seeds[i]? = some (some t)) :
    (sig.laidOut written)[i]? = some t := by
  rw [laidOut, List.getElem?_map, getElem?_start_of_seed hi ht]
  rfl

theorem start_eq_laidOut (hcovers : sig.Covers written) : sig.start written = (sig.laidOut written).map some := by
  refine List.ext_getElem (by rw [List.length_map, length_laidOut, length_start]) fun i hi hi' => ?_
  have hlt : i < sig.params.length := length_start sig written ▸ hi
  obtain ⟨t, ht⟩ : ∃ t, (sig.start written)[i]? = some (some t) := by
    by_cases hwritten : i < written.length
    · exact ⟨written[i], by rw [getElem?_start_of_written hwritten hlt, List.getElem?_eq_getElem hwritten]; rfl⟩
    · obtain ⟨t, ht⟩ := hcovers.exists_seed (Nat.le_of_not_lt hwritten) hlt
      exact ⟨t, getElem?_start_of_seed (Nat.le_of_not_lt hwritten) ht⟩
  have hget : (sig.start written)[i] = some t := (List.getElem?_eq_some_iff.1 ht).2
  simp [laidOut, hget]

theorem matched_of_no_formals (hformals : sig.formals = []) (tenv : TypeEnv) (written argTypes : List Ty) :
    sig.matched tenv written { argTypes, expected := none } = sig.start written := by
  have hnone : sig.explicitTypes = [] := by simp [explicitTypes, hformals]
  rw [matched, hnone, Slots.matchShapes]
  cases sig.ret <;> rfl

theorem filled_of_full {full : List Ty} {ps : List GenericId} (hlength : full.length = ps.length) :
    ((full.map some).zip ps).map (fun (slot, p) => slot.getD (.param p)) = full :=
  List.ext_getElem (by simp [hlength]) fun _ _ _ => by simp

theorem unfilled_of_full (full : List Ty) (ps : List GenericId) :
    ((full.map some).zip ps).filterMap (fun (slot, p) => if slot.isNone then some p else none) = [] := by
  rw [List.filterMap_eq_nil_iff]
  rintro ⟨slot, p⟩ hmem
  obtain ⟨t, -, rfl⟩ := List.mem_map.1 (List.of_mem_zip hmem).1
  rfl

theorem settle_of_full {full : List Ty} (hlength : full.length = sig.params.length) (written : List Ty) (i : Nat)
    (t : Ty) :
    sig.settle written (full.map some) i (some t) =
      some (if sig.isDefault written i then t.subst sig.params full else t) := by
  simp only [settle, filled_of_full hlength, unfilled_of_full]
  split <;> simp

theorem infer_of_covered (hformals : sig.formals = []) (hcovers : sig.Covers written) (tenv : TypeEnv)
    (argTypes : List Ty) :
    sig.infer tenv written { argTypes, expected := none } =
      { args := (sig.laidOut written).mapIdx fun i t =>
          if sig.isDefault written i then t.subst sig.params (sig.laidOut written) else t
        unresolved := [] } := by
  have hsettled : ((sig.laidOut written).map some).mapIdx (sig.settle written ((sig.laidOut written).map some)) =
      ((sig.laidOut written).mapIdx fun i t =>
        if sig.isDefault written i then t.subst sig.params (sig.laidOut written) else t).map some := by
    refine List.ext_getElem (by simp) fun i hi hi' => ?_
    rw [List.getElem_mapIdx, List.getElem_map, settle_of_full (length_laidOut sig written)]
    simp
  rw [infer, matched_of_no_formals hformals, start_eq_laidOut hcovers]
  dsimp only
  rw [hsettled]
  congr 1
  · rw [List.map_map]
    exact List.map_id _
  · exact unfilled_of_full _ _

theorem getElem?_infer_of_written (hformals : sig.formals = []) (hcovers : sig.Covers written) (tenv : TypeEnv)
    (argTypes : List Ty) (hi : i < written.length) (hlt : i < sig.params.length) :
    (sig.infer tenv written { argTypes, expected := none }).args[i]? = written[i]? := by
  have hdefault : sig.isDefault written i = false := by
    rw [isDefault, decide_eq_false (Nat.not_le.2 hi), Bool.false_and]
  rw [infer_of_covered hformals hcovers, List.getElem?_mapIdx, getElem?_laidOut_of_written hi hlt, hdefault]
  simp

theorem getElem?_infer_of_seed (hformals : sig.formals = []) (hcovers : sig.Covers written) (tenv : TypeEnv)
    (argTypes : List Ty) (hi : written.length ≤ i) (ht : sig.seeds[i]? = some (some t)) :
    (sig.infer tenv written { argTypes, expected := none }).args[i]? =
      some (t.subst sig.params (sig.laidOut written)) := by
  have hdefault : sig.isDefault written i = true := by simp [isDefault, hi, ht]
  rw [infer_of_covered hformals hcovers, List.getElem?_mapIdx, getElem?_laidOut_of_seed hi ht, Option.map_some,
    if_pos hdefault]

/-! ### The two ways compared -/

section

variable (hnodup : sig.params.Nodup) (hearlier : sig.DefaultsEarlier) (hcovers : sig.Covers written)

include hnodup hearlier

theorem Closing.subst_laidOut_iff (hclosing : sig.Closing written args) (ht : sig.seeds[i]? = some (some t)) :
    t.subst sig.params (sig.laidOut written) = t.subst sig.params args ↔
      ∀ g ∈ t.occurrences, ∀ j : Nat, sig.params[j]? = some g → (sig.laidOut written)[j]? = args[j]? := by
  rw [Ty.subst_eq_replace, Ty.subst_eq_replace, Ty.replace_inj]
  refine forall₂_congr fun g hg => ?_
  have hat : ∀ j : Nat, sig.params[j]? = some g →
      ((Ty.argFor sig.params (sig.laidOut written) g).getD (.param g) = (Ty.argFor sig.params args g).getD (.param g) ↔
        (sig.laidOut written)[j]? = args[j]?) := by
    intro j hj
    have hlt : j < sig.params.length := (List.getElem?_eq_some_iff.1 hj).1
    have hlaid : j < (sig.laidOut written).length := by rwa [length_laidOut]
    have hargs : j < args.length := by rwa [hclosing.length]
    rw [Ty.argFor_of_getElem? hnodup hj, Ty.argFor_of_getElem? hnodup hj, List.getElem?_eq_getElem hlaid,
      List.getElem?_eq_getElem hargs, Option.getD_some, Option.getD_some, Option.some.injEq]
  obtain ⟨k, -, hk⟩ := hearlier.position ht hg
  exact ⟨fun heq j hj => (hat j hj).1 heq, fun h => (hat k hk).2 (h k hk)⟩

include hcovers

theorem Closing.laidOut_eq_iff (hclosing : sig.Closing written args) (hclosed : ∀ t ∈ written, t.isOpen = false)
    (hi : written.length ≤ i) (ht : sig.seeds[i]? = some (some t)) :
    (sig.laidOut written)[i]? = args[i]? ↔ t.isOpen = false := by
  have harg := hclosing.default i t hi ht
  rw [getElem?_laidOut_of_seed hi ht, harg, Option.some.injEq]
  constructor
  · intro heq
    rw [heq]
    exact hclosing.isOpen_eq_false hnodup hearlier hcovers hclosed harg
  · intro hopen
    rw [Ty.subst_eq_replace, Ty.replace_of_closed hopen]

variable (hformals : sig.formals = []) (tenv : TypeEnv) (argTypes : List Ty)

include hformals

theorem Closing.infer_eq_iff (hclosing : sig.Closing written args) (hclosed : ∀ t ∈ written, t.isOpen = false) :
    (sig.infer tenv written { argTypes, expected := none }).args = args ↔ sig.Unchained written := by
  constructor
  · intro heq i _ hi t ht g hg j _ hj hjg u hu
    rw [Option.mem_def, Option.join_eq_some_iff] at ht hu
    have harg := getElem?_infer_of_seed hformals hcovers tenv argTypes hi ht
    rw [heq, hclosing.default i t hi ht, Option.some.injEq] at harg
    have hsame := (hclosing.subst_laidOut_iff hnodup hearlier ht).1 harg.symm g hg j hjg
    exact (hclosing.laidOut_eq_iff hnodup hearlier hcovers hclosed hj hu).1 hsame
  · intro hunchained
    refine List.ext_getElem? fun i => ?_
    by_cases hlt : i < sig.params.length
    · by_cases hwritten : i < written.length
      · rw [getElem?_infer_of_written hformals hcovers tenv argTypes hwritten hlt, hclosing.kept i hwritten hlt]
      · have hi : written.length ≤ i := Nat.le_of_not_lt hwritten
        obtain ⟨t, ht⟩ := hcovers.exists_seed hi hlt
        rw [getElem?_infer_of_seed hformals hcovers tenv argTypes hi ht, hclosing.default i t hi ht, Option.some.injEq,
          hclosing.subst_laidOut_iff hnodup hearlier ht]
        intro g hg j hj
        have hjlt : j < sig.params.length := (List.getElem?_eq_some_iff.1 hj).1
        by_cases hjwritten : j < written.length
        · rw [getElem?_laidOut_of_written hjwritten hjlt, hclosing.kept j hjwritten hjlt]
        · obtain ⟨u, hu⟩ := hcovers.exists_seed (Nat.le_of_not_lt hjwritten) hjlt
          rw [hclosing.laidOut_eq_iff hnodup hearlier hcovers hclosed (Nat.le_of_not_lt hjwritten) hu]
          exact hunchained i hlt hi t (by rw [ht]; rfl) g hg j hjlt (Nat.le_of_not_lt hjwritten) hj u (by rw [hu]; rfl)
    · have hnone : (sig.infer tenv written { argTypes, expected := none }).args.length ≤ i := by
        rw [infer_of_covered hformals hcovers, List.length_mapIdx, length_laidOut]
        exact Nat.le_of_not_lt hlt
      rw [List.getElem?_eq_none hnone, List.getElem?_eq_none (hclosing.length ▸ Nat.le_of_not_lt hlt)]

/-- An argument that inference leaves open comes from a default that is chained to another. -/
theorem unchained_of_closed (hclosed : ∀ a ∈ (sig.infer tenv written { argTypes, expected := none }).args,
      ∀ g ∈ sig.params, g ∉ a.occurrences) : sig.Unchained written := by
  intro i _ hi t ht g hg j _ hj hjg u hu
  rw [Option.mem_def, Option.join_eq_some_iff] at ht hu
  have harg := getElem?_infer_of_seed hformals hcovers tenv argTypes hi ht
  rw [Ty.isOpen_eq_false_iff]
  intro h hh
  obtain ⟨k, -, hk⟩ := hearlier.position hu hh
  refine hclosed _ (List.mem_of_getElem? harg) h (List.mem_of_getElem? hk) ?_
  rw [Ty.subst_eq_replace, Ty.mem_occurrences_replace]
  refine ⟨g, hg, ?_⟩
  rwa [Ty.argFor_of_getElem? hnodup hjg, getElem?_laidOut_of_seed hj hu, Option.getD_some]

end

end GenericSignature

namespace Link

open GenericSignature

variable {env : LinkEnv} {s : LinkState} {generics : List GenericId}

theorem runs_fillTypeArgs (env : LinkEnv) (name : String) (span : Span) {rest : List GenericId} {args : List Ty}
    (hlength : args.length ≤ generics.length) (hrest : generics.drop args.length = rest)
    (hdefaults : ∀ g ∈ rest, ∃ t, s.signatures.defaults.get? g = some t) :
    ∃ out, Runs env (fillTypeArgs name span generics rest args) s out s ∧ out.length = generics.length ∧ args <+: out ∧
      ∀ (i : Nat) g t, args.length ≤ i → generics[i]? = some g → s.signatures.defaults.get? g = some t →
        out[i]? = some (t.subst (generics.take i) (out.take i)) := by
  induction rest generalizing args with
  | nil =>
    have hall : generics.length ≤ args.length := List.drop_eq_nil_iff.1 hrest
    refine ⟨args, runs_pure.2 ⟨rfl, rfl⟩, Nat.le_antisymm hlength hall, List.prefix_refl _, ?_⟩
    intro i g t hi hg
    have hlt := (List.getElem?_eq_some_iff.1 hg).1
    omega
  | cons g rest ih =>
    obtain ⟨t, ht⟩ := hdefaults g List.mem_cons_self
    have hg : generics[args.length]? = some g := by
      rw [← Nat.add_zero args.length, ← List.getElem?_drop, hrest]
      rfl
    have hlt : args.length < generics.length := (List.getElem?_eq_some_iff.1 hg).1
    let closed := t.subst (generics.take args.length) args
    have hrest' : generics.drop (args ++ [closed]).length = rest := by
      rw [List.length_append, List.length_singleton, ← List.drop_drop, hrest]
      rfl
    have hlength' : (args ++ [closed]).length ≤ generics.length := by
      rw [List.length_append, List.length_singleton]
      omega
    obtain ⟨out, hrun, hout, hprefix, hclosed⟩ :=
      ih hlength' hrest' fun h hh => hdefaults h (List.mem_cons_of_mem _ hh)
    have hprefix' : args <+: out := (List.prefix_append _ _).trans hprefix
    refine ⟨out, ?_, hout, hprefix', fun i h u hi hh hu => ?_⟩
    · rw [fillTypeArgs]
      simp only [runs_bind, runs_signatures]
      refine ⟨_, _, ⟨rfl, rfl⟩, ?_⟩
      simp only [ht, runs_bind, runs_sliceTo]
      exact ⟨_, _, ⟨hlength, rfl, rfl⟩, hrun⟩
    · rcases Nat.eq_or_lt_of_le hi with rfl | hi
      · obtain rfl : g = h := Option.some.inj (hg.symm.trans hh)
        obtain rfl : t = u := Option.some.inj (ht.symm.trans hu)
        rw [← List.prefix_iff_eq_take.1 hprefix']
        obtain ⟨tail, rfl⟩ := hprefix
        simp [closed]
      · exact hclosed i h u (by rw [List.length_append, List.length_singleton]; omega) hh hu

theorem subst_take (hnodup : generics.Nodup) {i : Nat} {t : Ty} (hearlier : ∀ g ∈ t.occurrences, g ∈ generics.take i)
    (out : List Ty) : t.subst (generics.take i) (out.take i) = t.subst generics out := by
  rw [Ty.subst_eq_replace, Ty.subst_eq_replace]
  refine Ty.replace_congr fun g hg => ?_
  obtain ⟨j, hlt, hj⟩ := exists_position (hearlier g hg)
  have htake : (generics.take i)[j]? = some g := by rw [List.getElem?_take_of_lt hlt, hj]
  rw [Ty.argFor_of_getElem? (hnodup.sublist (List.take_sublist _ _)) htake, List.getElem?_take_of_lt hlt,
    Ty.argFor_of_getElem? hnodup hj]

variable {sig : GenericSignature} {decl : DeclId} {written : List Ty}

theorem seeds_eq_map (hparams : sig.params = s.signatures.genericsOf decl)
    (hdefaults : sig.defaults = s.signatures.defaultsOf decl) :
    sig.seeds = sig.params.map s.signatures.defaults.get? := by
  refine List.ext_getElem? fun i => ?_
  rw [seeds, hdefaults, Signatures.defaultsOf, ← hparams, List.getElem?_mapIdx, List.getElem?_map]
  cases sig.params[i]? <;> rfl

theorem exists_runs_completeTypeArgs {d : Decl} (hdecl : env.source.decl? decl = some d) (s : LinkState)
    (written : List Ty) (span : Span) : ∃ s' : LinkState, s'.signatures = s.signatures ∧
      let generics := s.signatures.genericsOf decl
      let kept := written.take generics.length
      ∀ args t, Runs env (fillTypeArgs d.name span generics (generics.drop kept.length) kept) s' args t →
        Runs env (completeTypeArgs decl written span) s args t := by
  have hname : Runs env (nameOf decl) s d.name s :=
    runs_bind.2 ⟨d, s, runs_declOf.2 ⟨hdecl, rfl⟩, runs_pure.2 ⟨rfl, rfl⟩⟩
  by_cases hexcess : (s.signatures.genericsOf decl).length < written.length
  · let p := Problem.annotationTypeArgs d.name (s.signatures.genericsOf decl).length written.length
    refine ⟨if s.quiet then s else { s with reports := s.reports ++ [p.diagnostic span] }, by split <;> rfl, ?_⟩
    intro generics kept args t hfill
    rw [completeTypeArgs, runs_bind]
    refine ⟨_, s, runs_signatures.2 ⟨rfl, rfl⟩, runs_bind.2 ⟨_, s, hname, ?_⟩⟩
    rw [if_pos hexcess]
    exact runs_bind.2 ⟨(), _, runs_modify.2 rfl,
      runs_bind.2 ⟨_, _, runs_sliceFrom.2 ⟨List.length_take_le _ _, rfl, rfl⟩, hfill⟩⟩
  · refine ⟨s, rfl, ?_⟩
    intro generics kept args t hfill
    rw [completeTypeArgs, runs_bind]
    refine ⟨_, s, runs_signatures.2 ⟨rfl, rfl⟩, runs_bind.2 ⟨_, s, hname, ?_⟩⟩
    rw [if_neg hexcess]
    exact runs_bind.2 ⟨_, _, runs_sliceFrom.2 ⟨List.length_take_le _ _, rfl, rfl⟩, hfill⟩

/-- An annotation closes every default over the arguments that it ends up with. -/
theorem exists_closing {d : Decl} (hdecl : env.source.decl? decl = some d)
    (hparams : sig.params = s.signatures.genericsOf decl) (hdefaults : sig.defaults = s.signatures.defaultsOf decl)
    (hnodup : sig.params.Nodup) (hearlier : sig.DefaultsEarlier) (hcovers : sig.Covers written) (span : Span) :
    ∃ args s', Runs env (completeTypeArgs decl written span) s args s' ∧ sig.Closing written args := by
  have hseeds : ∀ i : Nat, sig.seeds[i]? = sig.params[i]?.map s.signatures.defaults.get? := by
    intro i
    rw [seeds_eq_map hparams hdefaults, List.getElem?_map]
  obtain ⟨s', hsignatures, hcomplete⟩ := exists_runs_completeTypeArgs hdecl s written span
  rw [← hparams] at hcomplete
  obtain ⟨args, hrun, hlength, hprefix, hclosed⟩ := runs_fillTypeArgs (s := s') env d.name span
    (List.length_take_le sig.params.length written) rfl (by
      intro g hg
      obtain ⟨i, hi⟩ := List.mem_iff_getElem?.1 hg
      rw [List.getElem?_drop, List.length_take] at hi
      have hlt := (List.getElem?_eq_some_iff.1 hi).1
      obtain ⟨t, ht⟩ := hcovers.exists_seed (by omega) hlt
      rw [hseeds, hi, Option.map_some, Option.some.injEq] at ht
      exact ⟨t, hsignatures ▸ ht⟩)
  refine ⟨args, s', hcomplete args s' hrun, hlength, ?_, ?_⟩
  · intro i hi hlt
    obtain ⟨tail, rfl⟩ := hprefix
    have hleft : i < (written.take sig.params.length).length := by
      rw [List.length_take]
      omega
    rw [List.getElem?_append_left hleft, List.getElem?_take_of_lt hlt]
  · intro i t hi ht
    have hlt : i < sig.params.length := lt_of_seed ht
    have hget := hseeds i
    rw [ht, List.getElem?_eq_getElem hlt, Option.map_some, Option.some.injEq] at hget
    rw [hclosed i sig.params[i] t (by rw [List.length_take]; omega) (List.getElem?_eq_getElem hlt)
      (hsignatures ▸ hget.symm), subst_take hnodup (hearlier i hlt t (by rw [ht]; rfl))]

end Link

open Link

/-- An annotation closes all of its arguments. A literal without fields resolves all of them too, and the two agree, and
no parameter is left in the literal's arguments, just if no default that is filled in is chained to another. -/
theorem defaults_agree_iff {env : LinkEnv} {s : LinkState} {decl : DeclId} {d : Decl} {sig : GenericSignature}
    {written : List Ty} (hdecl : env.source.decl? decl = some d)
    (hparams : sig.params = s.signatures.genericsOf decl) (hdefaults : sig.defaults = s.signatures.defaultsOf decl)
    (hformals : sig.formals = []) (hnodup : sig.params.Nodup) (hearlier : sig.DefaultsEarlier)
    (hclosed : ∀ t ∈ written, t.isOpen = false) (hcovers : sig.Covers written)
    (tenv : TypeEnv) (argTypes : List Ty) (span : Span) :
    ∃ args s', Runs env (completeTypeArgs decl written span) s args s' ∧ (∀ a ∈ args, a.isOpen = false) ∧
      let inferred := sig.infer tenv written { argTypes, expected := none }
      inferred.unresolved = [] ∧ (inferred.args = args ↔ sig.Unchained written) ∧
        ((∀ a ∈ inferred.args, ∀ g ∈ sig.params, g ∉ a.occurrences) ↔ sig.Unchained written) := by
  obtain ⟨args, s', hrun, hclosing⟩ := exists_closing hdecl hparams hdefaults hnodup hearlier hcovers span
  have hargs : ∀ a ∈ args, a.isOpen = false := by
    intro a ha
    obtain ⟨i, hi⟩ := List.mem_iff_getElem?.1 ha
    exact hclosing.isOpen_eq_false hnodup hearlier hcovers hclosed hi
  have hagree := hclosing.infer_eq_iff hnodup hearlier hcovers hformals tenv argTypes hclosed
  refine ⟨args, s', hrun, hargs, ?_, hagree, ?_, ?_⟩
  · rw [GenericSignature.infer_of_covered hformals hcovers]
  · exact GenericSignature.unchained_of_closed hnodup hearlier hcovers hformals tenv argTypes
  · intro hunchained a ha g _
    rw [hagree.2 hunchained] at ha
    exact Ty.isOpen_eq_false_iff.1 (hargs a ha) g

/-- The declarations `struct Box<X> {}` and `struct S<T, U = .., V = Box<U>> {}`, with the default of `U` as given, and
a function whose body is `let x: S<int> = S<int> {};`. -/
def defaultedStruct (middle : TypeShape TypeExprId) : Setup where
  source := .ofSteps [
    .struct "Box" .copy,
    .generic ⟨0⟩ "X" none none,
    .struct "S" .copy,
    .generic ⟨2⟩ "T" none none,
    .typeExpr (.named ["T"] []),
    .typeExpr middle,
    .generic ⟨2⟩ "U" none (some ⟨1⟩),
    .typeExpr (.named ["U"] []),
    .typeExpr (.named ["Box"] [⟨2⟩]),
    .generic ⟨2⟩ "V" none (some ⟨3⟩),
    .function "main",
    .typeExpr (.named ["int"] []),
    .typeExpr (.named ["S"] [⟨4⟩]),
    .expr (.construct ⟨5⟩ []),
    .binding "x" (some ⟨5⟩) (some ⟨0⟩) false false,
    .block [⟨0⟩],
    .body ⟨6⟩ ⟨0⟩]

/-- With `U = str` the default of `V` is closed by one step. -/
theorem defaults_agree_str :
    let setup := defaultedStruct (.named ["str"] [])
    let sig := setup.declared.signatures.constructSignature ⟨2⟩ []
    ∃ args s', Runs setup.linkEnv (completeTypeArgs ⟨2⟩ [.int] {}) setup.declared args s' ∧
      sig.infer setup.declared.env [.int] { argTypes := [], expected := none } = { args, unresolved := [] } ∧
        ∀ a ∈ args, ∀ g ∈ sig.params, g ∉ a.occurrences := by
  intro setup sig
  obtain ⟨d, hdecl⟩ : ∃ d, setup.linkEnv.source.decl? ⟨2⟩ = some d := Option.isSome_iff_exists.1 (by decide +kernel)
  obtain ⟨args, s', hrun, -, hunresolved, hagree, hparams⟩ := @defaults_agree_iff setup.linkEnv setup.declared ⟨2⟩ d sig
    [.int] hdecl (Signatures.constructSignature_params _ _ _) (Signatures.constructSignature_defaults _ _ _)
    (Signatures.constructSignature_formals_nil _ _)
    (by decide +kernel) (by decide +kernel) (by decide +kernel) (by decide +kernel) setup.declared.env [] {}
  have hunchained : sig.Unchained [.int] := by decide +kernel
  have hargs := hagree.2 hunchained
  refine ⟨args, s', hrun, ?_, hargs ▸ hparams.2 hunchained⟩
  rw [← hargs, ← hunresolved]

/-- With `U = Box<T>` the literal keeps `T` in its last argument, and is refused where its own type is wanted. -/
theorem defaultedStruct_chained :
    let setup := defaultedStruct (.named ["Box"] [⟨0⟩])
    let sig := setup.declared.signatures.constructSignature ⟨2⟩ []
    let box : Ty → Ty := fun t => .linked ⟨0⟩ [t]
    (sig.params.Nodup ∧ sig.DefaultsEarlier ∧ sig.Covers [.int]) ∧
      (∃ args s', Runs setup.linkEnv (completeTypeArgs ⟨2⟩ [.int] {}) setup.declared args s' ∧
        args = [.int, box .int, box (box .int)]) ∧
      sig.infer setup.declared.env [.int] { argTypes := [], expected := none } =
        { args := [.int, box .int, box (box (.param ⟨1⟩))], unresolved := [] } ∧
      setup.link.reports.map (·.kind) = [.typeMismatch] := by
  intro setup sig box
  have hrun : ∃ args s', Runs setup.linkEnv (completeTypeArgs ⟨2⟩ [.int] {}) setup.declared args s' ∧
      args = [.int, box .int, box (box .int)] := exists_result_of_run (by decide +kernel)
  exact ⟨by decide +kernel, hrun, by decide +kernel, by decide +kernel⟩

end Linkage
