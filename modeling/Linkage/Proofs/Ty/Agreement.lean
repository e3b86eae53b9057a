import Linkage.Proofs.Ty.Scoping
import Linkage.Signature

/-!
# What a bound check looks at

To hold an argument against a bound, the declarations that the two types name are looked up, then those that
alias targets and members of unions lead to, and so on. Two type environments that tell the same of all these
come to the same verdict, whatever else they know.
-/

namespace Linkage

abbrev Ty.Within (S : DeclId → Prop) (t : Ty) : Prop :=
  t.Fits { unknown := True, arity := fun d _ => S d } fun _ => True

theorem Ty.Within.subst {S : DeclId → Prop} {t : Ty} (ht : t.Within S) {args : List Ty}
    (hargs : ∀ a ∈ args, a.Within S) (params : List GenericId) : (t.subst params args).Within S :=
  ⟨ht.obeys.subst (fun a ha => (hargs a ha).obeys) params, fun _ _ => trivial⟩

theorem Ty.within_true (t : Ty) : t.Within fun _ => True := by
  induction t using Ty.inductionOn with
  | prim p => exact .prim p
  | literal kind => exact .literal kind
  | param g => exact .param trivial
  | linked decl args ih => exact .linked trivial ih
  | pointer inner ih => exact ih.pointer
  | reference inner ih => exact ih.reference
  | array elem len ih => exact ih.array len
  | function params ret ihs ih => exact .function ihs ih
  | unknown => exact .unknown trivial

namespace TypeEnv

/-- Both environments tell the same of the declarations in the set, and what they tell leads to no others. -/
structure AgreesOn (S : DeclId → Prop) (env env' : TypeEnv) : Prop where
  aliasTarget : ∀ d args, S d → env.aliasTarget d args = env'.aliasTarget d args
  unionMembers : ∀ d args, S d → env.unionMembers d args = env'.unionMembers d args
  implements : ∀ d interface, S d → env.implements d interface = env'.implements d interface
  reach : env.reach = env'.reach
  targets : ∀ d args t, (Ty.linked d args).Within S → env'.aliasTarget d args = some t → t.Within S
  members : ∀ d args ts, (Ty.linked d args).Within S → env'.unionMembers d args = some ts → ∀ t ∈ ts, t.Within S

variable {S : DeclId → Prop} {env env' : TypeEnv} (h : AgreesOn S env env')

include h in
theorem AgreesOn.within_expand {t : Ty} (ht : t.Within S) : (env'.expand t).Within S :=
  Ty.Fits.expand h.targets ht

include h in
theorem AgreesOn.expandWithin_eq (n : Nat) {t : Ty} (ht : t.Within S) :
    env.expandWithin n t = env'.expandWithin n t := by
  induction n generalizing t with
  | zero => rfl
  | succ n ih =>
    have hunalias : env.unalias t = env'.unalias t := by
      cases t with
      | linked d args => exact h.aliasTarget d args ht.arity
      | _ => rfl
    rw [expandWithin, expandWithin, hunalias]
    cases htarget : env'.unalias t with
    | none => rfl
    | some target =>
      cases t with
      | linked d args => exact ih (h.targets d args target ht htarget)
      | _ => cases htarget

include h in
theorem AgreesOn.expand_eq {t : Ty} (ht : t.Within S) : env.expand t = env'.expand t :=
  h.expandWithin_eq maxAliasDepth ht

/-! ### Sameness -/

theorem pairwise_congr {compare compare' : Ty → Ty → Option Bool} {as bs : List Ty}
    (h : ∀ a ∈ as, ∀ b ∈ bs, compare a b = compare' a b) : pairwise compare as bs = pairwise compare' as bs := by
  have hall : ∀ ps : List (Ty × Ty), (∀ p ∈ ps, compare p.1 p.2 = compare' p.1 p.2) →
      (ps.allM fun p => compare p.1 p.2) = ps.allM fun p => compare' p.1 p.2 := by
    intro ps
    induction ps with
    | nil => exact fun _ => rfl
    | cons p ps ih =>
      intro hps
      rw [List.allM, List.allM, hps p List.mem_cons_self, ih fun q hq => hps q (List.mem_cons_of_mem _ hq)]
  unfold pairwise
  rw [hall _ fun p hp => h p.1 (List.of_mem_zip hp).1 p.2 (List.of_mem_zip hp).2]

theorem sameHeads_congr {lenient : Bool} {compare compare' : Ty → Ty → Option Bool}
    (hcompare : ∀ a b : Ty, a.Within S → b.Within S → compare a b = compare' a b) {a b : Ty} (ha : a.Within S)
    (hb : b.Within S) : sameHeads lenient compare a b = sameHeads lenient compare' a b := by
  have hlists : ∀ as bs : List Ty, (∀ a ∈ as, a.Within S) → (∀ b ∈ bs, b.Within S) →
      pairwise compare as bs = pairwise compare' as bs :=
    fun as bs has hbs => pairwise_congr fun a ha b hb => hcompare a b (has a ha) (hbs b hb)
  unfold sameHeads
  split
  · rfl
  · rfl
  · rw [hlists _ _ (fun _ => ha.of_mem_args) fun _ => hb.of_mem_args]
  · exact hcompare _ _ ha.of_pointer hb.of_pointer
  · exact hcompare _ _ ha.of_reference hb.of_reference
  · rw [hcompare _ _ ha.of_array hb.of_array]
  · rw [hlists _ _ ha.of_function.1 hb.of_function.1, hcompare _ _ ha.of_function.2 hb.of_function.2]
  · rfl

include h in
theorem AgreesOn.sameWithin_eq (lenient : Bool) (n : Nat) {a b : Ty} (ha : a.Within S) (hb : b.Within S) :
    env.sameWithin lenient n a b = env'.sameWithin lenient n a b := by
  induction n generalizing a b with
  | zero => rfl
  | succ n ih =>
    rw [sameWithin, sameWithin, h.expand_eq ha, h.expand_eq hb]
    dsimp only
    rw [sameHeads_congr (fun _ _ => ih) (h.within_expand ha) (h.within_expand hb)]

/-! ### Satisfaction -/

theorem anyM_congr {f g : Ty → Option Bool} {ts : List Ty} (h : ∀ t ∈ ts, f t = g t) : ts.anyM f = ts.anyM g := by
  induction ts with
  | nil => rfl
  | cons t ts ih =>
    rw [List.anyM, List.anyM, h t List.mem_cons_self, ih fun u hu => h u (List.mem_cons_of_mem _ hu)]

include h in
theorem AgreesOn.satisfiesWithin_eq (n : Nat) {expected actual : Ty} (he : expected.Within S)
    (ha : actual.Within S) : env.satisfiesWithin n expected actual = env'.satisfiesWithin n expected actual := by
  induction n generalizing expected actual with
  | zero => rfl
  | succ n ih =>
    have hexpected := h.within_expand he
    have hactual := h.within_expand ha
    rw [satisfiesWithin, satisfiesWithin, h.sameWithin_eq true (n + 1) he ha, h.expand_eq he, h.expand_eq ha]
    congr 1
    funext same
    split
    · rfl
    · -- only below a reference and among the members of a union the comparison goes on
      split
      · rfl
      · rfl
      · rfl
      · rfl
      · rfl
      · rename_i inner hinner _ _
        rw [hinner] at hexpected
        exact ih hexpected.of_reference hactual
      · rename_i d args hlinked _
        rw [hlinked] at hexpected
        rw [h.unionMembers d args hexpected.arity]
        cases hmembers : env'.unionMembers d args with
        | none => rfl
        | some members => exact anyM_congr fun t ht => ih (h.members d args members hexpected hmembers t ht) hactual
      · rfl

include h in
theorem AgreesOn.satisfiesBound_eq {bound arg : Ty} (hb : bound.Within S) (ha : arg.Within S) :
    env.satisfiesBound bound arg = env'.satisfiesBound bound arg := by
  have harg := h.within_expand ha
  unfold satisfiesBound satisfies
  rw [h.reach, h.satisfiesWithin_eq _ hb ha, h.expand_eq hb, h.expand_eq ha]
  congr 1
  split
  · rename_i interface _ d _ _ hd
    rw [hd] at harg
    exact h.implements d interface harg.arity
  · rfl

end TypeEnv

namespace Signatures

/-- Both signatures tell the same of the declarations in the set, and what they tell leads to no others. -/
structure AgreeOn (S : DeclId → Prop) (sigs sigs' : Signatures) : Prop where
  generics : ∀ d, S d → sigs.generics.get? d = sigs'.generics.get? d
  aliasTargets : ∀ d, S d → sigs.aliasTargets.get? d = sigs'.aliasTargets.get? d
  unionMembers : ∀ d, S d → sigs.unionMembers.get? d = sigs'.unionMembers.get? d
  implements : ∀ d, S d → sigs.implements.get? d = sigs'.implements.get? d
  targets : ∀ d t, S d → sigs'.aliasTargets.get? d = some t → t.Within S
  members : ∀ d ts, S d → sigs'.unionMembers.get? d = some ts → ∀ t ∈ ts, t.Within S

variable {S : DeclId → Prop} {sigs sigs' : Signatures} (h : AgreeOn S sigs sigs')

include h in
theorem AgreeOn.genericsOf {d : DeclId} (hd : S d) : sigs.genericsOf d = sigs'.genericsOf d := by
  rw [Signatures.genericsOf, h.generics d hd]
  rfl

include h in
theorem AgreeOn.env : sigs.env.AgreesOn S sigs'.env where
  aliasTarget d args hd := by
    show (sigs.aliasTargets.get? d).map _ = (sigs'.aliasTargets.get? d).map _
    rw [h.aliasTargets d hd, h.genericsOf hd]
  unionMembers d args hd := by
    show (sigs.unionMembers.get? d).map _ = (sigs'.unionMembers.get? d).map _
    rw [h.unionMembers d hd, h.genericsOf hd]
  implements d interface hd := by
    show ((sigs.implements.get? d).getD []).contains interface = _
    rw [h.implements d hd]
    rfl
  reach := rfl
  targets d args t hd ht := by
    obtain ⟨target, htarget, rfl⟩ := Option.map_eq_some_iff.1 ht
    exact (h.targets d target hd.arity htarget).subst (fun _ => hd.of_mem_args) _
  members d args ts hd hts t ht := by
    obtain ⟨members, hmembers, rfl⟩ := Option.map_eq_some_iff.1 hts
    obtain ⟨member, hmember, rfl⟩ := List.mem_map.1 ht
    exact (h.members d members hd.arity hmembers member hmember).subst (fun _ => hd.of_mem_args) _

end Signatures

end Linkage
