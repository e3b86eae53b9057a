import Linkage.Proofs.Inference.Facing
import Linkage.Proofs.Inference.Scoping
import Linkage.Proofs.Ty.Agreement

/-!
# Inference and spellings of types

Two calls are compared that differ in how the types of formals and arguments are spelled. If all formals are exposed
to the types that they are laid over, the same slots are filled, and what comes into them has the same normal form.
Where an alias comes in between, one call finds an argument and the other does not.
-/

namespace Linkage

variable {as : List Ty} {reach : Nat} {o o' : Option Ty}

namespace Slots

variable {env : TypeEnv} {params : List GenericId} {f f' a a' : Ty} {s s' : Slots}

/-- The types agree in their normal forms, and in which of the parameters they mention. -/
structure Interchangeable (env : TypeEnv) (params : List GenericId) (t t' : Ty) : Prop where
  forms : env.FormsAgree t t'
  mentions : ∀ g ∈ params, g ∈ t.occurrences ↔ g ∈ t'.occurrences

theorem Interchangeable.refl (t : Ty) : Interchangeable env params t t :=
  ⟨fun _ _ hu hv => hu.unique hv, fun _ _ => Iff.rfl⟩

/-- The same slots are empty, and what the others hold is interchangeable. -/
abbrev Agree (env : TypeEnv) (params : List GenericId) (s s' : Slots) : Prop :=
  List.Forall₂ (Option.Rel (Interchangeable env params)) s s'

theorem agree_set (ho : Option.Rel (Interchangeable env params) o o') (hs : Agree env params s s')
    (i : Nat) : Agree env params (s.set i o) (s'.set i o') := by
  induction hs generalizing i with
  | nil => exact .nil
  | cons h hs ih =>
    cases i with
    | zero => exact .cons ho hs
    | succ i => exact .cons h (ih i)

theorem agree_fill {t t' : Ty} (ht : Interchangeable env params t t') (hs : Agree env params s s') (g : GenericId) :
    Agree env params (s.fill params g t) (s'.fill params g t') := by
  unfold fill
  cases params.idxOf? g with
  | none => exact hs
  | some i =>
    by_cases hi : i < s.length
    · have hi' : i < s'.length := hs.length_eq ▸ hi
      have hrel : Option.Rel (Interchangeable env params) s[i] s'[i] := hs.get hi hi'
      simp only [List.getElem?_eq_getElem hi, List.getElem?_eq_getElem hi']
      generalize s[i] = o, s'[i] = o' at hrel
      cases hrel with
      | none => exact agree_set (.some ht) hs i
      | some => exact hs
    · have hi' : ¬i < s'.length := hs.length_eq ▸ hi
      simp only [List.getElem?_eq_none (Nat.le_of_not_lt hi), List.getElem?_eq_none (Nat.le_of_not_lt hi')]
      exact hs

theorem eq_unknown_of_sameForm (h : env.SameForm a a') (ha' : env.Shown params a') (ha : a = .unknown) :
    a' = .unknown := by
  subst ha
  obtain ⟨-, heq⟩ | hheads := h.heads
  · exact ha'.unknown heq.symm
  · cases hheads.isCompound.1

theorem eq_of_literal (h : env.SameForm a a') (ha' : env.Shown params a') (ha : a.isLiteral = true) : a = a' := by
  cases a with
  | literal kind =>
    obtain ⟨-, heq⟩ | hheads := h.heads
    · have hliteral : a'.isLiteral = true := ha'.literal (heq ▸ rfl)
      cases a' with
      | literal => exact heq
      | _ => simp [Ty.isLiteral] at hliteral
    · cases hheads.isCompound.1
  | _ => simp [Ty.isLiteral] at ha

theorem interchangeable_concrete (h : env.SameForm a a') (ha : env.Shown params a) (ha' : env.Shown params a') :
    Interchangeable env params a.concrete a'.concrete := by
  by_cases hliteral : a.isLiteral = true
  · rw [eq_of_literal h ha' hliteral]
    exact .refl _
  · have hliteral' : ¬a'.isLiteral = true := fun h' => hliteral (eq_of_literal h.symm ha h' ▸ h')
    have hconcrete : ∀ {t : Ty}, ¬t.isLiteral = true → t.concrete = t := by
      intro t ht
      cases t with
      | literal => exact absurd rfl ht
      | _ => rfl
    rw [hconcrete hliteral, hconcrete hliteral']
    obtain ⟨u, hu, hu'⟩ := h
    refine ⟨fun v w hv hw => ?_, fun g hg => ?_⟩
    · rw [hv.unique hu, hw.unique hu']
    · rw [← ha.params u hu g hg, ← ha'.params u hu' g hg]

theorem matchShape_param_respelled (h : env.SameForm a a') (ha : env.Shown params a) (ha' : env.Shown params a')
    (hs : Agree env params s s') (g : GenericId) :
    Agree env params (matchShape env params (.param g) a s) (matchShape env params (.param g) a' s') := by
  unfold matchShape
  by_cases hunknown : a = .unknown
  · rw [if_pos hunknown, if_pos (eq_unknown_of_sameForm h ha' hunknown)]
    exact hs
  · rw [if_neg hunknown, if_neg fun h' => hunknown (eq_unknown_of_sameForm h.symm ha h')]
    exact agree_fill (interchangeable_concrete h ha ha') hs g

theorem matchShapes_respelled {fs fs' as' : List Ty} (hfs : List.Forall₂ env.SameForm fs fs')
    (has : List.Forall₂ env.SameForm as as') (he : ∀ p ∈ fs.zip as, env.Exposed params p.1 p.2)
    (he' : ∀ p ∈ fs'.zip as', env.Exposed params p.1 p.2)
    (ih : ∀ f ∈ fs, ∀ f' a a' s s', env.SameForm f f' → env.SameForm a a' → env.Exposed params f a →
      env.Exposed params f' a' → Agree env params s s' →
        Agree env params (matchShape env params f a s) (matchShape env params f' a' s')) (hs : Agree env params s s') :
    Agree env params (matchShapes env params fs as s) (matchShapes env params fs' as' s') := by
  induction hfs generalizing as as' s s' with
  | nil => exact hs
  | cons hf hfs ihs =>
    cases has with
    | nil => exact hs
    | cons ha has =>
      simp only [List.zip_cons_cons, List.forall_mem_cons] at he he'
      rw [matchShapes, matchShapes]
      refine ihs has he.2 he'.2 (fun f hf => ih f (List.mem_cons_of_mem _ hf)) ?_
      exact ih _ List.mem_cons_self _ _ _ _ _ hf ha he.1 he'.1 hs

theorem matchShape_respelled_of_idle {sigs : Signatures} (hidle : sigs.env.Idle params f) (hf : sigs.env.SameForm f f')
    (ha : sigs.env.SameForm a a') (hs : Agree sigs.env params s s') :
    Agree sigs.env params (matchShape sigs.env params f a s) (matchShape sigs.env params f' a' s') := by
  obtain ⟨u, hu, hu'⟩ := ha
  rw [matchShape_of_idle hidle ⟨u, hu⟩, matchShape_of_idle (hidle.of_sameForm hf) ⟨u, hu'⟩]
  exact hs

theorem matchShape_respelled {sigs : Signatures} (hf : sigs.env.SameForm f f') (ha : sigs.env.SameForm a a')
    (he : sigs.env.Exposed params f a) (he' : sigs.env.Exposed params f' a') (hs : Agree sigs.env params s s') :
    Agree sigs.env params (matchShape sigs.env params f a s) (matchShape sigs.env params f' a' s') := by
  induction f using Ty.partsInduction generalizing f' a a' s s' with
  | leaf f hleaf =>
    by_cases hidle : sigs.env.Idle params f
    · exact matchShape_respelled_of_idle hidle hf ha hs
    · cases he with
      | idle h => exact absurd h hidle
      | parts hcompound => simp [hcompound] at hleaf
      | param g hshown =>
        obtain ⟨-, heq⟩ | hheads := hf.heads
        · obtain rfl : f' = .param g :=
            (he'.expand_formal fun h => hidle (h.of_sameForm hf.symm)).symm.trans heq.symm
          cases he' with
          | idle h => exact absurd h hidle
          | param _ hshown' => exact matchShape_param_respelled ha hshown hshown' hs g
          | parts hcompound => cases hcompound
        · cases hheads.isCompound.1
  | compound f hcompound ih =>
    by_cases hidle : sigs.env.Idle params f
    · exact matchShape_respelled_of_idle hidle hf ha hs
    · have hidle' : ¬sigs.env.Idle params f' := fun h => hidle (h.of_sameForm hf.symm)
      have hheads := hf.heads
      rw [he.expand_formal hidle, he'.expand_formal hidle'] at hheads
      replace hheads := hheads.resolve_left fun h => by simp [hcompound] at h
      cases he with
      | idle h => exact absurd h hidle
      | param => cases hcompound
      | parts _ _ hkind hparts =>
        cases he' with
        | idle h => exact absurd h hidle'
        | param => cases hheads.isCompound.2
        | parts _ _ hkind' hparts' =>
          rw [matchShape_eq hcompound, matchShape_eq hheads.isCompound.2]
          have hfacing := TypeEnv.facing?_respelled hheads ha hkind hkind'
          generalize hface : f.facing? (sigs.env.seen f a) = o at hfacing
          generalize hface' : f'.facing? (sigs.env.seen f' a') = o' at hfacing
          cases hfacing with
          | none => exact hs
          | some has =>
            refine matchShapes_respelled hheads.parts has (hparts _ hface) (hparts' _ hface') ?_ hs
            exact fun x hx _ _ _ _ _ hx' hb he he' hs => ih x hx hx' hb he he' hs

end Slots

namespace GenericSignature

open Slots

/-- The formals, the result, the arguments and the expected type are the same, member by member. -/
structure Respelled (env : TypeEnv) (sig sig' : GenericSignature) (site site' : CallSite) : Prop where
  params : sig'.params = sig.params
  defaults : sig'.defaults = sig.defaults
  formals : List.Forall₂ (fun p p' : Formal => p'.implicit = p.implicit ∧ env.same p.ty p'.ty = true)
    sig.formals sig'.formals
  ret : Option.Rel (env.same · · = true) sig.ret sig'.ret
  argTypes : List.Forall₂ (env.same · · = true) site.argTypes site'.argTypes
  expected : Option.Rel (env.same · · = true) site.expected site'.expected

/-- The types that inference looks at have normal forms, and no alias keeps it from anything. -/
structure Legible (env : TypeEnv) (sig : GenericSignature) (site : CallSite) : Prop where
  formals : ∀ t ∈ sig.explicitTypes, env.Expandable t
  args : ∀ t ∈ site.argTypes, env.Expandable t
  ret : ∀ t ∈ sig.ret, env.Expandable t
  expected : ∀ t ∈ site.expected, env.Expandable t
  exposed : ∀ p ∈ sig.explicitTypes.zip site.argTypes, env.Exposed sig.params p.1 p.2
  exposedRet : ∀ r ∈ sig.ret, ∀ t ∈ site.expected, env.Exposed sig.params r t

variable {env : TypeEnv} {sigs : Signatures} {sig sig' : GenericSignature} {site site' : CallSite} {written : List Ty}
  {params : List GenericId} {s s' : Slots}

/-! ### Slots at the start and after the match -/

theorem agree_refl (s : Slots) : Agree env params s s :=
  List.forall₂_same.2 fun o _ => by
    cases o with
    | none => exact .none
    | some t => exact .some (.refl t)

theorem Respelled.explicitTypes (h : Respelled env sig sig' site site') :
    List.Forall₂ (env.same · · = true) sig.explicitTypes sig'.explicitTypes := by
  rw [GenericSignature.explicitTypes, GenericSignature.explicitTypes]
  have hformals := h.formals
  generalize sig.formals = formals, sig'.formals = formals' at hformals
  induction hformals with
  | nil => exact .nil
  | @cons p p' _ _ hp _ ih =>
    rw [List.filter_cons, List.filter_cons, hp.1]
    split
    · exact .cons hp.2 ih
    · exact ih

theorem sameForm_of_same {ts ts' : List Ty} (h : List.Forall₂ ({ sigs.env with reach := reach }.same · · = true) ts ts')
    (hts : ∀ t ∈ ts, sigs.env.Expandable t) (hts' : ∀ t ∈ ts', sigs.env.Expandable t) :
    List.Forall₂ sigs.env.SameForm ts ts' := by
  obtain ⟨hlength, hzip⟩ := List.forall₂_iff_zip.1 h
  refine List.forall₂_iff_zip.2 ⟨hlength, fun {t t'} hmem => ?_⟩
  exact TypeEnv.sameForm_of_agree (hts t (List.of_mem_zip hmem).1) (hts' t' (List.of_mem_zip hmem).2)
    (TypeEnv.formsAgree_of_same (hzip hmem))

theorem rel_sameForm (h : Option.Rel ({ sigs.env with reach := reach }.same · · = true) o o')
    (ho : ∀ t ∈ o, sigs.env.Expandable t) (ho' : ∀ t ∈ o', sigs.env.Expandable t) :
    Option.Rel sigs.env.SameForm o o' := by
  cases h with
  | none => exact .none
  | some h => exact .some (TypeEnv.sameForm_of_agree (ho _ rfl) (ho' _ rfl) (TypeEnv.formsAgree_of_same h))

theorem matched_respelled (h : Respelled { sigs.env with reach := reach } sig sig' site site')
    (hl : Legible sigs.env sig site) (hl' : Legible sigs.env sig' site') (written : List Ty) :
    Agree sigs.env sig.params (sig.matched sigs.env written site) (sig'.matched sigs.env written site') := by
  have hstart : sig'.start written = sig.start written := by
    simp only [start, seeds, h.params, h.defaults]
  have hexposed' := hl'.exposed
  have hexposedRet' := hl'.exposedRet
  rw [h.params] at hexposed' hexposedRet'
  have hformals : Agree sigs.env sig.params
      (matchShapes sigs.env sig.params sig.explicitTypes site.argTypes (sig.start written))
      (matchShapes sigs.env sig.params sig'.explicitTypes site'.argTypes (sig.start written)) :=
    matchShapes_respelled (sameForm_of_same h.explicitTypes hl.formals hl'.formals)
      (sameForm_of_same h.argTypes hl.args hl'.args) hl.exposed hexposed'
      (fun _ _ _ _ _ _ _ hf ha he he' hs => matchShape_respelled hf ha he he' hs) (agree_refl _)
  rw [matched, matched, hstart, h.params]
  have hret := rel_sameForm h.ret hl.ret hl'.ret
  have hexpected := rel_sameForm h.expected hl.expected hl'.expected
  have hexposedRet := hl.exposedRet
  generalize sig.ret = ret, sig'.ret = ret', site.expected = expected, site'.expected = expected'
    at hret hexpected hexposedRet hexposedRet' ⊢
  cases hret with
  | none => exact hformals
  | some hret =>
    cases hexpected with
    | none => exact hformals
    | some hexpected =>
      exact matchShape_respelled hret hexpected (hexposedRet _ rfl _ rfl) (hexposedRet' _ rfl _ rfl) hformals

theorem getElem?_matched_of_default {i : Nat} (h : sig.isDefault written i = true) :
    (sig.matched env written site)[i]? = sig.seeds[i]? := by
  have hfilled : Filled _ (sig.start written) (sig.matched env written site) :=
    filled_matched (fun _ _ t _ _ => t.within_true) (fun t _ => t.within_true) fun t _ => t.within_true
  rw [isDefault, Bool.and_eq_true, decide_eq_true_eq] at h
  obtain ⟨t, ht⟩ := Option.isSome_iff_exists.1 h.2
  have hseed : sig.seeds[i]? = some (some t) := Option.join_eq_some_iff.1 ht
  rw [hfilled.kept i t (getElem?_start_of_seed h.1 hseed), hseed]

/-! ### Closing defaults -/

theorem forall₂_filled (hs : Agree env params s s') (ps : List GenericId) :
    List.Forall₂ (Interchangeable env params) ((s.zip ps).map fun (slot, p) => slot.getD (.param p))
      ((s'.zip ps).map fun (slot, p) => slot.getD (.param p)) := by
  induction hs generalizing ps with
  | nil => exact .nil
  | cons h _ ih =>
    cases ps with
    | nil => exact .nil
    | cons p ps =>
      refine .cons ?_ (ih ps)
      cases h with
      | none => exact .refl _
      | some ht => exact ht

theorem unfilled_eq (hs : Agree env params s s') (ps : List GenericId) :
    ((s.zip ps).filterMap fun (slot, p) => if slot.isNone then some p else none) =
      (s'.zip ps).filterMap fun (slot, p) => if slot.isNone then some p else none := by
  induction hs generalizing ps with
  | nil => rfl
  | cons h _ ih =>
    cases ps with
    | nil => rfl
    | cons p ps =>
      rw [List.zip_cons_cons, List.zip_cons_cons, List.filterMap_cons, List.filterMap_cons, ih ps]
      cases h <;> rfl

theorem interchangeable_subst {bs : List Ty} (h : List.Forall₂ (Interchangeable sigs.env params) as bs) (t : Ty)
    (ps : List GenericId) : Interchangeable sigs.env params (t.subst ps as) (t.subst ps bs) := by
  refine ⟨TypeEnv.formsAgree_of_alike (.subst (h.imp fun _ _ h => .base h.forms) t ps), fun g hg => ?_⟩
  rw [Ty.subst_eq_replace, Ty.subst_eq_replace, Ty.mem_occurrences_replace, Ty.mem_occurrences_replace]
  refine exists_congr fun m => and_congr_right fun _ => ?_
  unfold Ty.argFor
  cases ps.idxOf? m with
  | none => exact Iff.rfl
  | some i =>
    rw [Option.bind_some, Option.bind_some]
    by_cases hi : i < as.length
    · have hi' : i < bs.length := h.length_eq ▸ hi
      rw [List.getElem?_eq_getElem hi, List.getElem?_eq_getElem hi']
      exact (h.get hi hi').mentions g hg
    · have hi' : ¬i < bs.length := h.length_eq ▸ hi
      rw [List.getElem?_eq_none (Nat.le_of_not_lt hi), List.getElem?_eq_none (Nat.le_of_not_lt hi')]

theorem any_occurrences_eq {t t' : Ty} (h : Interchangeable env params t t') {l : List GenericId}
    (hl : ∀ g ∈ l, g ∈ params) : t.occurrences.any l.contains = t'.occurrences.any l.contains := by
  rw [Bool.eq_iff_iff, List.any_eq_true, List.any_eq_true]
  refine exists_congr fun g => and_congr_left fun hg => ?_
  exact h.mentions g (hl g (List.contains_iff_mem.1 hg))

/-- Slots that agree are settled alike, if those with defaults are equal. -/
theorem settle_respelled (hs : Agree sigs.env sig.params s s')
    (ho : Option.Rel (Interchangeable sigs.env sig.params) o o') {i : Nat}
    (hdefault : sig.isDefault written i = true → o = o') :
    Option.Rel (Interchangeable sigs.env sig.params) (sig.settle written s i o) (sig.settle written s' i o') := by
  cases ho with
  | none => exact .none
  | @some t t' ht =>
    simp only [settle]
    split
    · rename_i hisDefault
      obtain rfl : t = t' := Option.some.inj (hdefault hisDefault)
      have hclosed := interchangeable_subst (forall₂_filled hs sig.params) t sig.params
      have hown : ∀ g ∈ (s.zip sig.params).filterMap fun (slot, p) => if slot.isNone then some p else none,
          g ∈ sig.params := by
        intro g hg
        obtain ⟨⟨slot, p⟩, hmem, hp⟩ := List.mem_filterMap.1 hg
        simp only [Option.ite_none_right_eq_some, Option.some.injEq] at hp
        exact hp.2 ▸ (List.of_mem_zip hmem).2
      rw [← unfilled_eq hs sig.params, ← any_occurrences_eq hclosed hown]
      split
      · exact .none
      · exact .some hclosed
    · exact .some ht

theorem settled_respelled (h : Respelled { sigs.env with reach := reach } sig sig' site site')
    (hl : Legible sigs.env sig site) (hl' : Legible sigs.env sig' site') (written : List Ty) :
    Agree sigs.env sig.params
      ((sig.matched sigs.env written site).mapIdx (sig.settle written (sig.matched sigs.env written site)))
      ((sig'.matched sigs.env written site').mapIdx (sig'.settle written (sig'.matched sigs.env written site'))) := by
  have hmatched := matched_respelled h hl hl' written
  have hseeds : sig'.seeds = sig.seeds := by simp only [seeds, h.params, h.defaults]
  have hisDefault : sig'.isDefault written = sig.isDefault written := by
    funext i
    rw [isDefault, isDefault, hseeds]
  have hsettle : sig'.settle written = sig.settle written := by
    funext slots i slot
    simp only [settle, h.params, hisDefault]
  rw [hsettle]
  refine List.forall₂_iff_get.2 ⟨by simp only [List.length_mapIdx, hmatched.length_eq], fun i hi hi' => ?_⟩
  simp only [List.get_eq_getElem, List.getElem_mapIdx]
  rw [List.length_mapIdx] at hi hi'
  refine settle_respelled hmatched (hmatched.get hi hi') fun hdefault => ?_
  have hkept : (sig.matched sigs.env written site)[i]? = (sig'.matched sigs.env written site')[i]? := by
    rw [getElem?_matched_of_default hdefault, getElem?_matched_of_default (hisDefault ▸ hdefault), hseeds]
  rw [List.getElem?_eq_getElem hi, List.getElem?_eq_getElem hi'] at hkept
  exact Option.some.inj hkept

/-- A comparison of lists with agreeing normal forms comes out true, once it may go far enough down. -/
theorem exists_allSame {bs : List Ty} (h : List.Forall₂ env.FormsAgree as bs) (has : ∀ a ∈ as, env.Expandable a)
    (hbs : ∀ b ∈ bs, env.Expandable b) :
    ∃ n, ∀ reach, n ≤ reach → { env with reach := reach }.allSame as bs = true := by
  induction h with
  | nil => exact ⟨0, fun _ _ => rfl⟩
  | cons hab _ ih =>
    obtain ⟨n, hn⟩ := TypeEnv.exists_same (has _ List.mem_cons_self) (hbs _ List.mem_cons_self)
    obtain ⟨m, hm⟩ := ih (fun a ha => has a (List.mem_cons_of_mem _ ha)) fun b hb => hbs b (List.mem_cons_of_mem _ hb)
    refine ⟨max n m, fun reach hreach => TypeEnv.allSame_iff.2 (.cons ?_ ?_)⟩
    · exact hn reach (by omega) hab
    · exact TypeEnv.allSame_iff.1 (hm reach (by omega))

/-- Inference cannot tell the spellings of types apart if no alias keeps it from anything. It leaves the same parameters
unresolved, and the arguments that it finds are the same, provided they have normal forms. -/
theorem infer_respelled {reach : Nat} (h : Respelled { sigs.env with reach := reach } sig sig' site site')
    (hl : Legible sigs.env sig site) (hl' : Legible sigs.env sig' site') (written : List Ty)
    (hargs : ∀ a ∈ (sig.infer sigs.env written site).args, sigs.env.Expandable a)
    (hargs' : ∀ a ∈ (sig'.infer sigs.env written site').args, sigs.env.Expandable a) :
    (sig'.infer sigs.env written site').unresolved = (sig.infer sigs.env written site).unresolved ∧
      ∃ n, ∀ reach, n ≤ reach → { sigs.env with reach := reach }.allSame
        (sig.infer sigs.env written site).args (sig'.infer sigs.env written site').args = true := by
  have hsettled := settled_respelled h hl hl' written
  refine ⟨?_, exists_allSame ?_ hargs hargs'⟩
  · simp only [infer, h.params]
    exact (unfilled_eq hsettled sig.params).symm
  · simp only [infer]
    rw [List.forall₂_map_left_iff, List.forall₂_map_right_iff]
    refine hsettled.imp fun o o' ho => ?_
    cases ho with
    | none => exact fun _ _ hu hv => hu.unique hv
    | some ht => exact ht.forms

def legibleWithin (env : TypeEnv) (n : Nat) (sig : GenericSignature) (site : CallSite) : Bool :=
  (sig.explicitTypes ++ site.argTypes ++ sig.ret.toList ++ site.expected.toList).all
      (fun t => (env.normalForm? n t).isSome) &&
    (sig.explicitTypes.zip site.argTypes).all (fun p => env.exposedWithin sig.params n p.1 p.2) &&
    sig.ret.all fun r => site.expected.all fun t => env.exposedWithin sig.params n r t

theorem legible_of_within {n : Nat} (h : legibleWithin env n sig site = true) : Legible env sig site := by
  simp only [legibleWithin, Bool.and_eq_true, List.all_eq_true, Option.all_eq_true, List.mem_append,
    Option.mem_toList] at h
  obtain ⟨⟨hforms, hexposed⟩, hexposedRet⟩ := h
  have hexpandable : ∀ t, (((t ∈ sig.explicitTypes ∨ t ∈ site.argTypes) ∨ t ∈ sig.ret) ∨ t ∈ site.expected) →
      env.Expandable t := by
    intro t ht
    obtain ⟨u, hu⟩ := Option.isSome_iff_exists.1 (hforms t ht)
    exact ⟨u, n, hu⟩
  refine ⟨fun t ht => hexpandable t (.inl (.inl (.inl ht))), fun t ht => hexpandable t (.inl (.inl (.inr ht))),
    fun t ht => hexpandable t (.inl (.inr ht)), fun t ht => hexpandable t (.inr ht), ?_, ?_⟩
  · exact fun p hp => TypeEnv.exposed_of_within (hexposed p hp)
  · exact fun r hr t ht => TypeEnv.exposed_of_within (hexposedRet r hr t ht)

/-- `0<..>` is no alias, `1` stands for `0<int>`, `2` for `int`, `3` for `*int`, and `4<P8>` for `0<P8>`. -/
def boxAliases : Signatures where
  generics := Table.insert {} ⟨4⟩ [⟨8⟩]
  aliasTargets := (((Table.insert {} ⟨1⟩ (.linked ⟨0⟩ [.int])).insert ⟨2⟩ .int).insert ⟨3⟩ (.pointer .int)).insert ⟨4⟩
    (.linked ⟨0⟩ [.param ⟨8⟩])

/-- `fn<P0, P1, P2 = 4<P0>>(&0<P0>, fn(P1) -> *int, int) -> *P1`, with the `int` of the second and third formals as
given. -/
def boxCall (number : Ty) : GenericSignature where
  params := [⟨0⟩, ⟨1⟩, ⟨2⟩]
  defaults := [none, none, some (.linked ⟨4⟩ [.param ⟨0⟩])]
  formals := [{ ty := .reference (.linked ⟨0⟩ [.param ⟨0⟩]) },
    { ty := .function [.param ⟨1⟩] (.pointer number) },
    { ty := number }]
  ret := some (.pointer (.param ⟨1⟩))

/-- The arguments `1`, `fn(3) -> *int` and a literal, with `*3` expected, against `0<2>`, `fn(*int) -> *2` and the
literal, with `**int` expected. -/
theorem infer_respelled_boxCall :
    let site : CallSite :=
      { argTypes := [.linked ⟨1⟩ [], .function [.linked ⟨3⟩ []] (.pointer .int), .literal .int]
        expected := some (.pointer (.linked ⟨3⟩ [])) }
    let site' : CallSite :=
      { argTypes := [.linked ⟨0⟩ [.linked ⟨2⟩ []], .function [.pointer .int] (.pointer (.linked ⟨2⟩ [])), .literal .int]
        expected := some (.pointer (.pointer .int)) }
    let inferred := (boxCall .int).infer boxAliases.env [] site
    let inferred' := (boxCall (.linked ⟨2⟩ [])).infer boxAliases.env [] site'
    Respelled boxAliases.env (boxCall .int) (boxCall (.linked ⟨2⟩ [])) site site' ∧
      inferred.args = [.int, .linked ⟨3⟩ [], .linked ⟨4⟩ [.int]] ∧
      inferred'.args = [.linked ⟨2⟩ [], .pointer .int, .linked ⟨4⟩ [.linked ⟨2⟩ []]] ∧
      inferred'.unresolved = inferred.unresolved ∧ ∃ n, ∀ reach, n ≤ reach →
        { boxAliases.env with reach := reach }.allSame inferred.args inferred'.args = true := by
  intro site site' inferred inferred'
  have hrespelled : Respelled boxAliases.env (boxCall .int) (boxCall (.linked ⟨2⟩ [])) site site' :=
    ⟨rfl, rfl, by decide +kernel, .some (by decide +kernel), by decide +kernel, .some (by decide +kernel)⟩
  have hargs : inferred.args = [.int, .linked ⟨3⟩ [], .linked ⟨4⟩ [.int]] := by decide +kernel
  have hargs' : inferred'.args = [.linked ⟨2⟩ [], .pointer .int, .linked ⟨4⟩ [.linked ⟨2⟩ []]] := by decide +kernel
  have hexpandable : ∀ ts : List Ty, (ts.all fun t => (boxAliases.env.normalForm? 3 t).isSome) = true →
      ∀ t ∈ ts, boxAliases.env.Expandable t := by
    intro ts hts t ht
    obtain ⟨u, hu⟩ := Option.isSome_iff_exists.1 (List.all_eq_true.1 hts t ht)
    exact ⟨u, 3, hu⟩
  refine ⟨hrespelled, hargs, hargs', infer_respelled hrespelled (legible_of_within (n := 5) (by decide +kernel))
    (legible_of_within (n := 5) (by decide +kernel)) [] ?_ ?_⟩
  · exact hexpandable _ (by decide +kernel)
  · exact hexpandable _ (by decide +kernel)

/-- `fn<P0>(..)` with the formal as given. -/
def oneFormal (formal : Ty) : GenericSignature where
  params := [⟨0⟩]
  defaults := [none]
  formals := [{ ty := formal }]
  ret := none

/-- The formal `*P0` finds `int` in `*int` and nothing in `3`, which is the same. The formal `0<P0>` finds `int` in
`0<int>`, and `4<P0>`, which is the same, finds nothing. -/
theorem infer_hidden :
    let pointer := oneFormal (.pointer (.param ⟨0⟩))
    let box := oneFormal (.linked ⟨0⟩ [.param ⟨0⟩])
    let found : Inferred := { args := [.int], unresolved := [] }
    let lost : Inferred := { args := [.unknown], unresolved := [⟨0⟩] }
    (boxAliases.env.same (.pointer .int) (.linked ⟨3⟩ []) = true ∧
      pointer.infer boxAliases.env [] { argTypes := [.pointer .int], expected := none } = found ∧
      pointer.infer boxAliases.env [] { argTypes := [.linked ⟨3⟩ []], expected := none } = lost) ∧
    boxAliases.env.same (.linked ⟨0⟩ [.param ⟨0⟩]) (.linked ⟨4⟩ [.param ⟨0⟩]) = true ∧
      box.infer boxAliases.env [] { argTypes := [.linked ⟨0⟩ [.int]], expected := none } = found ∧
      (oneFormal (.linked ⟨4⟩ [.param ⟨0⟩])).infer boxAliases.env []
        { argTypes := [.linked ⟨0⟩ [.int]], expected := none } = lost := by
  decide +kernel

end GenericSignature

end Linkage
