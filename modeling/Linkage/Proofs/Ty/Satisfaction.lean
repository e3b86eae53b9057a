import Linkage.Proofs.Ty.Congruence

/-!
# What a satisfaction check tells apart

A check first compares two types leniently, then looks at the heads of their expansions, and then goes on to the types
that may be satisfied in place of the expected one: the value that a reference would borrow, or the members of a
union. Types keep pace if their expansions have equal heads and parts that keep pace one level further down, unless
the second shows the unknown type. Checks on the first of two pairs that keep pace are matched by checks on the
second.
-/

namespace Linkage

namespace Ty

def isReference : Ty → Bool
  | .reference _ => true
  | _ => false

/-- What can be told from the heads of expanded types alone: nothing is known about one of them, or both are
scalars and the second fits the first. -/
def accepts : Ty → Ty → Bool
  | .unknown, _ => true
  | _, .unknown => true
  | .prim expected, .literal kind => expected.accepts kind
  | .prim expected, .prim actual => actual.widensTo expected
  | _, _ => false

theorem accepts_of_compound {x y : Ty} (hx : x.isCompound = true) (hy : y ≠ .unknown) : x.accepts y = false := by
  unfold accepts
  split <;> simp_all [isCompound]

theorem accepts_compound {x y : Ty} (hx : x ≠ .unknown) (hy : y.isCompound = true) : x.accepts y = false := by
  unfold accepts
  split <;> simp_all [isCompound]

end Ty

namespace TypeEnv

def alternatives (env : TypeEnv) : Ty → List Ty
  | .reference inner => [inner]
  | .linked decl args => (env.unionMembers decl args).getD []
  | _ => []

/-- The alternatives that a check goes on to. A reference is not borrowed once more. -/
def tries (env : TypeEnv) (expected actual : Ty) : List Ty :=
  if expected.isReference && actual.isReference then [] else env.alternatives expected

variable {env : TypeEnv} {n m k : Nat} {a b e t : Ty} {r : Bool}

theorem anyM_singleton (f : Ty → Option Bool) (t : Ty) : [t].anyM f = f t := by
  rcases h : f t with _ | _ | _ <;> simp [List.anyM, h]

theorem satisfiesWithin_succ : env.satisfiesWithin (n + 1) e a =
    (env.sameWithin true (n + 1) e a).bind fun same =>
      if same || (env.expand e).accepts (env.expand a) then some true
      else (env.tries (env.expand e) (env.expand a)).anyM (env.satisfiesWithin n · (env.expand a)) := by
  rw [satisfiesWithin]
  cases env.sameWithin true (n + 1) e a with
  | none => rfl
  | some same =>
    cases same with
    | true => rfl
    | false =>
      simp only [Option.bind_eq_bind, Option.bind_some, Bool.false_eq_true, if_false, Bool.false_or]
      generalize env.expand e = x
      generalize env.expand a = y
      split
      · rfl
      · cases x <;> rfl
      · rename_i p kind
        cases h : p.accepts kind <;> simp [Ty.accepts, tries, alternatives, h]
      · rename_i p q
        cases h : q.widensTo p <;> simp [Ty.accepts, tries, alternatives, h]
      · rfl
      · rename_i inner hunknown hreference
        have hplain : y.isReference = false := by cases y <;> simp_all [Ty.isReference]
        rw [Ty.accepts_of_compound rfl hunknown, tries, hplain, Bool.and_false, if_neg Bool.false_ne_true,
          if_neg Bool.false_ne_true, alternatives, anyM_singleton]
      · rename_i decl args hunknown
        rw [Ty.accepts_of_compound rfl hunknown, tries]
        simp only [Ty.isReference, alternatives, Bool.false_and, Bool.false_eq_true, if_false]
        cases env.unionMembers decl args <;> rfl
      · have haccepts : x.accepts y = false := by unfold Ty.accepts; split <;> simp_all
        have hnone : env.alternatives x = [] := by unfold alternatives; split <;> simp_all
        simp [haccepts, tries, hnone]

theorem HeadsAgree.alternatives {R : Ty → Ty → Prop} {sigs : Signatures} (h : HeadsAgree (Alike R) a b) :
    List.Forall₂ (Alike R) (sigs.env.alternatives a) (sigs.env.alternatives b) := by
  cases h with
  | linked hs =>
    rename_i decl as bs
    show List.Forall₂ (Alike R) (Option.getD ((sigs.unionMembers.get? decl).map _) [])
      (Option.getD ((sigs.unionMembers.get? decl).map _) [])
    cases sigs.unionMembers.get? decl with
    | none => exact .nil
    | some members =>
      simp only [Option.map_some, Option.getD_some, Ty.substAll]
      rw [List.forall₂_map_left_iff, List.forall₂_map_right_iff]
      exact List.forall₂_same.2 fun t _ => Alike.subst hs t _
  | reference h => exact .cons h .nil
  | pointer | array | function => exact .nil

/-! ### More levels -/

/-- What the first comparison settles, the second settles in the same way. -/
def Extends (compare compare' : Ty → Ty → Option Bool) : Prop :=
  ∀ a b r, compare a b = some r → compare' a b = some r

theorem ite_eq_some_imp {c : Prop} [Decidable c] {x y z : Option Bool} (h : x = some r → y = some r)
    (hr : (if c then x else z) = some r) : (if c then y else z) = some r := by
  by_cases hc : c <;> simp_all

theorem Extends.pairwise {compare compare' : Ty → Ty → Option Bool} (h : Extends compare compare') {as bs : List Ty}
    (hr : pairwise compare as bs = some r) : pairwise compare' as bs = some r := by
  have hall : ∀ ps : List (Ty × Ty), (ps.allM fun p => compare p.1 p.2) = some r →
      (ps.allM fun p => compare' p.1 p.2) = some r := by
    intro ps
    induction ps with
    | nil => exact fun hr => hr
    | cons p ps ih =>
      intro hr
      obtain ⟨verdict, hp, hr⟩ := Option.bind_eq_some_iff.1 hr
      rw [List.allM, h _ _ _ hp]
      cases verdict with
      | false => exact hr
      | true => exact ih hr
  exact ite_eq_some_imp (hall _) hr

theorem Extends.sameHeads {compare compare' : Ty → Ty → Option Bool} (h : Extends compare compare') {lenient : Bool}
    (hr : sameHeads lenient compare a b = some r) : sameHeads lenient compare' a b = some r := by
  unfold TypeEnv.sameHeads at hr ⊢
  split at hr
  · exact hr
  · exact hr
  · exact ite_eq_some_imp h.pairwise hr
  · exact h _ _ _ hr
  · exact h _ _ _ hr
  · exact ite_eq_some_imp (h _ _ _) hr
  · obtain ⟨verdict, hparams, hr⟩ := Option.bind_eq_some_iff.1 hr
    rw [h.pairwise hparams]
    cases verdict with
    | false => exact hr
    | true => exact h _ _ _ hr
  · exact hr

theorem sameWithin_mono {lenient : Bool} (hnm : n ≤ m) :
    Extends (env.sameWithin lenient n) (env.sameWithin lenient m) := by
  induction n generalizing m with
  | zero => exact fun a b r h => by simp [sameWithin] at h
  | succ n ih =>
    obtain ⟨m, rfl⟩ : ∃ k, m = k + 1 := ⟨m - 1, by omega⟩
    intro a b r h
    rw [sameWithin] at h ⊢
    split at h
    · rename_i hab
      rwa [if_pos hab]
    · rename_i hab
      rw [if_neg hab]
      dsimp only at h ⊢
      split at h
      · rename_i hexpand
        rwa [if_pos hexpand]
      · rename_i hexpand
        rw [if_neg hexpand]
        exact (ih (Nat.le_of_succ_le_succ hnm)).sameHeads h

theorem anyM_extend {f g : Ty → Option Bool} (h : ∀ t r, f t = some r → g t = some r) {ts : List Ty}
    (hr : ts.anyM f = some r) : ts.anyM g = some r := by
  induction ts with
  | nil => exact hr
  | cons t ts ih =>
    obtain ⟨verdict, ht, hr⟩ := Option.bind_eq_some_iff.1 hr
    rw [List.anyM, h t verdict ht]
    cases verdict with
    | false => exact ih hr
    | true => exact hr

theorem satisfiesWithin_mono (hnm : n ≤ m) : Extends (env.satisfiesWithin n) (env.satisfiesWithin m) := by
  induction n generalizing m with
  | zero => exact fun e a r h => by simp [satisfiesWithin] at h
  | succ n ih =>
    obtain ⟨m, rfl⟩ : ∃ k, m = k + 1 := ⟨m - 1, by omega⟩
    intro e a r h
    rw [satisfiesWithin_succ] at h ⊢
    obtain ⟨same, hsame, h⟩ := Option.bind_eq_some_iff.1 h
    rw [sameWithin_mono hnm e a same hsame, Option.bind_some]
    split at h
    · rename_i haccepts
      rwa [if_pos haccepts]
    · rename_i haccepts
      rw [if_neg haccepts]
      exact anyM_extend (fun t r => ih (Nat.le_of_succ_le_succ hnm) t _ r) h

theorem expand_reach (env : TypeEnv) (reach : Nat) : { env with reach := reach }.expand = env.expand :=
  funext (expandWithin_congr rfl maxAliasDepth)

theorem satisfiesWithin_reach (env : TypeEnv) (reach n : Nat) :
    { env with reach := reach }.satisfiesWithin n = env.satisfiesWithin n := by
  have htargets : { env with reach := reach }.aliasTarget = env.aliasTarget := rfl
  induction n with
  | zero => rfl
  | succ n ih =>
    funext e a
    rw [satisfiesWithin_succ, satisfiesWithin_succ, ih, sameWithin_congr htargets, expand_reach]
    rfl

theorem satisfies_of_settled (h : env.satisfiesWithin n e a = some r) {reach : Nat} (hreach : n ≤ reach) :
    { env with reach := reach }.satisfies e a = r := by
  have hmore : { env with reach := reach }.satisfiesWithin (reach + 1) e a = some r := by
    rw [satisfiesWithin_reach]
    exact satisfiesWithin_mono (Nat.le_succ_of_le hreach) e a r h
  rw [satisfies, hmore]
  cases r <;> rfl

/-! ### Lenient comparison -/

theorem sameHeads_lenient {compare : Ty → Ty → Option Bool} (ha : a ≠ .unknown) (hb : b ≠ .unknown) :
    sameHeads true compare a b = sameHeads false compare a b := by
  unfold sameHeads
  split <;> simp_all

/-- A lenient comparison that comes out true has found equal expansions, the unknown type, or equal heads and
parts that agree one level further down. -/
theorem lenient_succ_iff : env.sameWithin true (n + 1) a b = some true ↔
    env.expand a = env.expand b ∨ (env.expand a = .unknown ∨ env.expand b = .unknown) ∨
      HeadsAgree (env.sameWithin true n · · = some true) (env.expand a) (env.expand b) := by
  by_cases hab : a = b
  · simp [sameWithin, hab]
  by_cases hexpand : env.expand a = env.expand b
  · simp [sameWithin, hab, hexpand]
  simp only [sameWithin, hab, hexpand, if_false, false_or]
  by_cases ha : env.expand a = .unknown
  · simp [ha, sameHeads]
  by_cases hb : env.expand b = .unknown
  · have hlenient : sameHeads true (env.sameWithin true n) (env.expand a) .unknown = some true := by
      cases env.expand a <;> rfl
    simp [hb, hlenient]
  rw [sameHeads_lenient ha hb, sameHeads_eq_true_iff]
  simp [ha, hb]

/-- A comparison is settled within the levels of one normal form, whatever the other type is. -/
theorem isSome_sameWithin {v : Ty} (hb : env.normalForm? n b = some v) (lenient : Bool) (a : Ty) :
    (env.sameWithin lenient n a b).isSome := by
  induction n generalizing a b v with
  | zero => simp [normalForm?] at hb
  | succ n ih =>
    obtain ⟨head, hhead, hparts⟩ := Option.bind_eq_some_iff.1 hb
    have hexpand : env.expand b = head := expandWithin_of_head? hhead
    rw [sameWithin, hexpand]
    dsimp only
    split
    · rfl
    · split
      · rfl
      · refine isSome_sameHeads (fun x _ y hy => ?_) lenient
        obtain ⟨w, hw⟩ := exists_of_mem_parts hparts hy
        exact ih hw x

/-! ### Keeping pace -/

/-- The second of two expanded types shows the unknown type, or what the first shows, with related parts. -/
def Keeps (R : Ty → Ty → Prop) (x x' : Ty) : Prop :=
  x' = .unknown ∨ (x.isCompound = false ∧ x = x') ∨ HeadsAgree R x x'

/-- Types that are related at a level have expansions whose parts are related at the level below. -/
def KeepsPace (env : TypeEnv) (V : Nat → Ty → Ty → Prop) : Prop :=
  ∀ n a b, V (n + 1) a b → Keeps (V n) (env.expand a) (env.expand b)

variable {R S : Ty → Ty → Prop} {V W : Nat → Ty → Ty → Prop} {a' e' x x' y y' : Ty}

theorem Keeps.of_unknown (h : Keeps R .unknown x') : x' = .unknown := by
  obtain rfl | ⟨-, rfl⟩ | h := h
  · rfl
  · rfl
  · cases h

theorem Keeps.accepts (hx : Keeps R x x') (hy : Keeps S y y') (h : x.accepts y = true) : x'.accepts y' = true := by
  have hunknown : ∀ z : Ty, z.accepts .unknown = true := fun z => by cases z <;> rfl
  by_cases hxknown : x = .unknown
  · subst hxknown
    rw [hx.of_unknown]
    rfl
  by_cases hyknown : y = .unknown
  · subst hyknown
    rw [hy.of_unknown, hunknown]
  -- both are known, so both are scalars
  obtain rfl | ⟨-, rfl⟩ | hx := hx
  · rfl
  · obtain rfl | ⟨-, rfl⟩ | hy := hy
    · exact hunknown x
    · exact h
    · simp [Ty.accepts_compound hxknown hy.isCompound.1] at h
  · simp [Ty.accepts_of_compound hx.isCompound.1 hyknown] at h

theorem Keeps.isReference (hx : Keeps R x x') (hknown : x' ≠ .unknown) : x.isReference = x'.isReference := by
  obtain rfl | ⟨-, rfl⟩ | hx := hx
  · exact absurd rfl hknown
  · rfl
  · cases hx <;> rfl

/-- Where the first types of two pairs agree leniently, the second do. As many levels as the relations last for
are enough to see it. -/
theorem lenient_of_pace (hV : env.KeepsPace V) (hW : env.KeepsPace W) (hend : ∀ a a', ¬W 0 a a')
    (he : V n e e') (ha : W n a a') (hnk : n ≤ k) (h : ∃ m, env.sameWithin true m e a = some true) :
    env.sameWithin true k e' a' = some true := by
  induction n generalizing k e e' a a' with
  | zero => exact absurd ha (hend a a')
  | succ n ih =>
    obtain ⟨k, rfl⟩ : ∃ j, k = j + 1 := ⟨k - 1, by omega⟩
    obtain ⟨m, h⟩ := h
    obtain ⟨m, rfl⟩ : ∃ j, m = j + 1 := by
      cases m with
      | zero => simp [sameWithin] at h
      | succ j => exact ⟨j, rfl⟩
    rw [lenient_succ_iff] at h ⊢
    have hx := hV n e e' he
    have hy := hW n a a' ha
    rcases h with heq | (hunknown | hunknown) | hparts
    · -- the expansions are equal, and the second types differ from them by what `V` and `W` allow
      rw [heq] at hx
      obtain hx | ⟨hleaf, hx⟩ | hx := hx
      · exact .inr (.inl (.inl hx))
      · obtain hy | ⟨-, hy⟩ | hy := hy
        · exact .inr (.inl (.inr hy))
        · exact .inl (hx.symm.trans hy)
        · simp [hy.isCompound.1] at hleaf
      · obtain hy | ⟨hleaf, -⟩ | hy := hy
        · exact .inr (.inl (.inr hy))
        · simp [hx.isCompound.1] at hleaf
        · refine .inr (.inr ((hx.flip.comp hy).imp ?_))
          rintro p' q' ⟨p, hp, hq⟩
          exact ih hp hq (Nat.le_of_succ_le_succ hnk) ⟨1, by simp [sameWithin]⟩
    · rw [hunknown] at hx
      exact .inr (.inl (.inl hx.of_unknown))
    · rw [hunknown] at hy
      exact .inr (.inl (.inr hy.of_unknown))
    · obtain hx | ⟨hleaf, -⟩ | hx := hx
      · exact .inr (.inl (.inl hx))
      · simp [hparts.isCompound.1] at hleaf
      obtain hy | ⟨hleaf, -⟩ | hy := hy
      · exact .inr (.inl (.inr hy))
      · simp [hparts.isCompound.2] at hleaf
      refine .inr (.inr (((hx.flip.comp hparts).comp hy).imp ?_))
      rintro p' q' ⟨q, ⟨p, hp, hpq⟩, hq⟩
      exact ih hp hq (Nat.le_of_succ_le_succ hnk) ⟨m, hpq⟩

/-- Pairs of expected types and pairs of actual types on which checks can be matched. -/
structure Matching (env : TypeEnv) (V W : Nat → Ty → Ty → Prop) (T U : Ty → Ty → Prop) : Prop where
  expectedPace : env.KeepsPace V
  actualPace : env.KeepsPace W
  ends : ∀ a a', ¬W 0 a a'
  /-- Expected types keep pace for as long as one likes, and so do their alternatives. -/
  expected : ∀ e e', T e e' → ∃ n, ∀ k, n ≤ k → V k e e'
  alternatives : ∀ e e', T e e' → env.expand e' ≠ .unknown →
    List.Forall₂ T (env.alternatives (env.expand e)) (env.alternatives (env.expand e'))
  actual : ∀ a a', U a a' → ∃ n, ∀ k, n ≤ k → W k a a'
  expanded : ∀ a a', U a a' → U (env.expand a) (env.expand a')
  settled : ∀ n a a', W n a a' → ∀ e, (env.sameWithin true n e a').isSome

theorem exists_anyM_of_forall₂ {T : Ty → Ty → Prop} {f : Ty → Option Bool} {g : Nat → Ty → Option Bool}
    (hmono : ∀ n m, n ≤ m → ∀ t r, g n t = some r → g m t = some r)
    (h : ∀ t t' r, T t t' → f t = some r → ∃ m r', g m t' = some r' ∧ (r = true → r' = true))
    {ts ts' : List Ty} (hts : List.Forall₂ T ts ts') (hr : ts.anyM f = some r) :
    ∃ m r', ts'.anyM (g m) = some r' ∧ (r = true → r' = true) := by
  induction hts with
  | nil => exact ⟨0, r, hr, id⟩
  | cons ht _ ih =>
    obtain ⟨verdict, hverdict, hr⟩ := Option.bind_eq_some_iff.1 hr
    obtain ⟨m, verdict', hm, himp⟩ := h _ _ _ ht hverdict
    cases verdict' with
    | true => exact ⟨m, true, by simp [List.anyM, hm], fun _ => rfl⟩
    | false =>
      obtain rfl : verdict = false := by simpa using himp
      obtain ⟨m', r', hm', hrr'⟩ := ih hr
      refine ⟨max m m', r', ?_, hrr'⟩
      rw [List.anyM, hmono m _ (Nat.le_max_left m m') _ _ hm]
      exact anyM_extend (hmono m' _ (Nat.le_max_right m m')) hm'

theorem Matching.satisfiesWithin {T U : Ty → Ty → Prop} (hmatch : env.Matching V W T U) (he : T e e') (ha : U a a')
    (h : env.satisfiesWithin n e a = some r) :
    ∃ m r', env.satisfiesWithin m e' a' = some r' ∧ (r = true → r' = true) := by
  induction n generalizing e e' a a' r with
  | zero => simp [TypeEnv.satisfiesWithin] at h
  | succ n ih =>
    rw [satisfiesWithin_succ] at h
    obtain ⟨same, hsame, h⟩ := Option.bind_eq_some_iff.1 h
    obtain ⟨ne, hlevels⟩ := hmatch.expected e e' he
    obtain ⟨na, hlevels'⟩ := hmatch.actual a a' ha
    let d := max ne na
    have hpace : ∀ k, d ≤ k → V k e e' ∧ W k a a' := fun k hk => ⟨hlevels k (by omega), hlevels' k (by omega)⟩
    have hx : Keeps (V d) (env.expand e) (env.expand e') := hmatch.expectedPace d e e' (hpace _ (Nat.le_succ d)).1
    have hy : Keeps (W d) (env.expand a) (env.expand a') := hmatch.actualPace d a a' (hpace _ (Nat.le_succ d)).2
    obtain ⟨same', hsame'⟩ :=
      Option.isSome_iff_exists.1 (hmatch.settled (d + 1) a a' (hpace _ (Nat.le_succ d)).2 e')
    have himp : same = true → same' = true := by
      rintro rfl
      have htrue := lenient_of_pace hmatch.expectedPace hmatch.actualPace hmatch.ends (hpace d (Nat.le_refl d)).1
        (hpace d (Nat.le_refl d)).2 (Nat.le_succ d) ⟨_, hsame⟩
      simpa [htrue] using hsame'.symm
    by_cases hnow : (same' || (env.expand e').accepts (env.expand a')) = true
    · refine ⟨d + 1, true, ?_, fun _ => rfl⟩
      rw [satisfiesWithin_succ, hsame', Option.bind_some, if_pos hnow]
    · -- nothing is accepted at once, here or there, so both checks go on to the alternatives
      have hlater : (same || (env.expand e).accepts (env.expand a)) = false := by
        simp only [Bool.or_eq_true, not_or, Bool.not_eq_true] at hnow
        rw [Bool.or_eq_false_iff]
        exact ⟨by simpa [hnow.1] using himp, by simpa [hnow.2] using hx.accepts hy⟩
      rw [hlater, if_neg Bool.false_ne_true] at h
      have hknown : env.expand e' ≠ .unknown := fun hunknown => hnow (by simp [hunknown, Ty.accepts])
      have hknown' : env.expand a' ≠ .unknown :=
        fun hunknown => hnow (by rw [hunknown]; cases env.expand e' <;> simp [Ty.accepts])
      have htries : List.Forall₂ T (env.tries (env.expand e) (env.expand a))
          (env.tries (env.expand e') (env.expand a')) := by
        rw [tries, tries, hx.isReference hknown, hy.isReference hknown']
        split
        · exact .nil
        · exact hmatch.alternatives e e' he hknown
      obtain ⟨m, r', hm, hrr'⟩ := exists_anyM_of_forall₂ (g := fun m t => env.satisfiesWithin m t (env.expand a'))
        (fun _ _ hnm t r => satisfiesWithin_mono hnm t _ r)
        (fun t t' r ht => ih ht (hmatch.expanded a a' ha)) htries h
      refine ⟨max d m + 1, r', ?_, hrr'⟩
      rw [satisfiesWithin_succ, sameWithin_mono (by omega) e' a' same' hsame', Option.bind_some, if_neg hnow]
      exact anyM_extend (fun t r => satisfiesWithin_mono (Nat.le_max_right d m) t _ r) hm

end TypeEnv

end Linkage
