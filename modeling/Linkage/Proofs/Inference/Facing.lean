import Linkage.Inference
import Linkage.Proofs.Ty.Spellings

/-!
# What a formal faces

To find generic arguments, a formal type is laid over an actual one, and its parts over those that they face. A formal
that names a declared type looks through the aliases of the actual type, and no other formal does; nor is an alias in
the formal looked through. A formal is exposed to an actual type if no alias comes in between.
-/

namespace Linkage

variable {params : List GenericId} {n : Nat}

namespace Ty

theorem partsInduction {motive : Ty → Prop} (leaf : ∀ t, t.isCompound = false → motive t)
    (compound : ∀ t, t.isCompound = true → (∀ x ∈ t.parts, motive x) → motive t) (t : Ty) : motive t := by
  induction t using Ty.inductionOn with
  | prim | literal | param | unknown => exact leaf _ rfl
  | linked decl args ih => exact compound _ rfl ih
  | pointer inner ih | reference inner ih | array inner len ih => exact compound _ rfl (by simpa [parts] using ih)
  | function params ret ihs ih =>
    refine compound _ rfl fun x hx => ?_
    rcases List.mem_append.1 hx with hx | hx
    · exact ihs x hx
    · exact List.mem_singleton.1 hx ▸ ih

theorem mem_occurrences_iff_parts {t : Ty} (ht : t.isCompound = true) {g : GenericId} :
    g ∈ t.occurrences ↔ ∃ x ∈ t.parts, g ∈ x.occurrences := by
  cases t with
  | linked decl args => simp [occurrences, parts, mem_occurrencesAll]
  | pointer | reference | array => simp [occurrences, parts]
  | function params ret => simp [occurrences, parts, mem_occurrencesAll, or_and_right, exists_or]
  | prim | literal | param | unknown => simp [isCompound] at ht

def isLinked : Ty → Bool
  | .linked .. => true
  | _ => false

def isParam : Ty → Bool
  | .param _ => true
  | _ => false

def kindred : Ty → Ty → Bool
  | .pointer _, .pointer _ | .reference _, .reference _ | .array .., .array .. | .function .., .function .. => true
  | _, _ => false

/-- The parts of the actual type that the parts of the formal are laid over, if the two have heads that fit. A
reference also faces the value that it would borrow. -/
def facing? : Ty → Ty → Option (List Ty)
  | .linked decl args, .linked actual actualArgs =>
    if actual = decl ∧ actualArgs.length = args.length then some actualArgs else none
  | .pointer _, .pointer inner => some [inner]
  | .reference _, .reference inner => some [inner]
  | .reference _, actual => some [actual]
  | .array .., .array elem _ => some [elem]
  | .function params _, .function actuals ret =>
    if actuals.length = params.length then some (actuals ++ [ret]) else none
  | _, _ => none

end Ty

namespace TypeEnv

/-- What a formal is laid over. Aliases are looked through for a formal that names a declared type. -/
def seen (env : TypeEnv) (formal actual : Ty) : Ty := if formal.isLinked then env.expand actual else actual

/-- No argument can be found by the formal. -/
def Idle (env : TypeEnv) (params : List GenericId) (f : Ty) : Prop :=
  ∃ u, env.NormalForm f u ∧ ∀ g ∈ params, g ∉ u.occurrences

/-- No alias hides that the type is unknown or that of a literal, nor which of the parameters are in it. -/
structure Shown (env : TypeEnv) (params : List GenericId) (a : Ty) : Prop where
  unknown : env.expand a = .unknown → a = .unknown
  literal : (env.expand a).isLiteral = true → a.isLiteral = true
  params : ∀ u, env.NormalForm a u → ∀ g ∈ params, g ∈ u.occurrences ↔ g ∈ a.occurrences

/-- No alias keeps the formal from what it would find in the actual type. An alias in the formal mentions none of the
parameters, and where the formal is a pointer, a reference, an array or a function, no alias stands for one in the
actual type. -/
inductive Exposed (env : TypeEnv) (params : List GenericId) : Ty → Ty → Prop
  | idle {f a : Ty} (h : env.Idle params f) : Exposed env params f a
  | param (g : GenericId) {a : Ty} (h : env.Shown params a) : Exposed env params (.param g) a
  | parts {f a : Ty} (hf : f.isCompound = true) (hplain : env.unalias f = none)
      (hkind : f.kindred (env.expand a) = true → f.kindred a = true)
      (h : ∀ parts, f.facing? (env.seen f a) = some parts → ∀ p ∈ f.parts.zip parts, Exposed env params p.1 p.2) :
      Exposed env params f a

variable {env : TypeEnv} {R S : Ty → Ty → Prop} {f f' a a' x x' : Ty}

/-! ### What a formal faces -/

theorem facing?_of_heads (hf : HeadsAgree R f f') (hx : HeadsAgree S x x')
    (hseen : f.isLinked = true ∨ f.kindred x = true) :
    Option.Rel (List.Forall₂ S) (f.facing? x) (f'.facing? x') := by
  cases hf with
  | linked hs =>
    cases hx with
    | linked hargs =>
      simp only [Ty.facing?, hs.length_eq, hargs.length_eq]
      split
      · exact .some hargs
      · exact .none
    | _ => exact .none
  | pointer =>
    cases hx with
    | pointer h => exact .some (.cons h .nil)
    | _ => simp [Ty.isLinked, Ty.kindred] at hseen
  | reference =>
    cases hx with
    | reference h => exact .some (.cons h .nil)
    | _ => simp [Ty.isLinked, Ty.kindred] at hseen
  | array =>
    cases hx with
    | array h => exact .some (.cons h .nil)
    | _ => simp [Ty.isLinked, Ty.kindred] at hseen
  | function hs =>
    cases hx with
    | function hargs h =>
      simp only [Ty.facing?, hs.length_eq, hargs.length_eq]
      split
      · exact .some (List.rel_append hargs (.cons h .nil))
      · exact .none
    | _ => simp [Ty.isLinked, Ty.kindred] at hseen

theorem expand_of_kindred (h : f.kindred a = true) : env.expand a = a := by
  cases a with
  | linked => cases f <;> simp [Ty.kindred] at h
  | _ => rfl

theorem isCompound_of_kindred (h : f.kindred a = true) : a.isCompound = true := by
  cases f <;> cases a <;> simp_all [Ty.kindred, Ty.isCompound]

theorem kindred_congr (hf : HeadsAgree R f f') (hx : HeadsAgree S x x') : f.kindred x = f'.kindred x' := by
  cases hf <;> cases hx <;> rfl

/-- A formal that does not name a declared type faces nothing in a type of another kind, except that a reference faces
the whole of it. -/
theorem facing?_of_not_kindred (hf : HeadsAgree R f f') (hlinked : f.isLinked = false) (ha : f.kindred a = false)
    (ha' : f'.kindred a' = false) (h : S a a') : Option.Rel (List.Forall₂ S) (f.facing? a) (f'.facing? a') := by
  cases hf with
  | linked => simp [Ty.isLinked] at hlinked
  | reference =>
    have hface : ∀ {i b : Ty}, (Ty.reference i).kindred b = false → (Ty.reference i).facing? b = some [b] := by
      intro i b hb
      cases b <;> first | rfl | simp [Ty.kindred] at hb
    rw [hface ha, hface ha']
    exact .some (.cons h .nil)
  | pointer | array | function => cases a <;> cases a' <;> first | exact .none | simp [Ty.kindred] at ha ha'

theorem facing?_respelled (hf : HeadsAgree R f f') (h : env.SameForm a a')
    (hkind : f.kindred (env.expand a) = true → f.kindred a = true)
    (hkind' : f'.kindred (env.expand a') = true → f'.kindred a' = true) :
    Option.Rel (List.Forall₂ env.SameForm) (f.facing? (env.seen f a)) (f'.facing? (env.seen f' a')) := by
  have hlinked' : f'.isLinked = f.isLinked := by cases hf <;> rfl
  rw [seen, seen, hlinked']
  split
  · rename_i hlinked
    obtain ⟨hleaf, heq⟩ | hheads := h.heads
    · -- a type without parts does not name a declaration
      rw [← heq]
      generalize env.expand a = x at hleaf ⊢
      cases hf <;> cases x <;> first | exact .none | simp [Ty.isLinked, Ty.isCompound] at hlinked hleaf
    · exact facing?_of_heads hf hheads (.inl hlinked)
  · rename_i hlinked
    have hplain : ∀ {f b : Ty}, f.kindred (env.expand b) = false → f.kindred b = false := by
      intro f b hb
      cases hkindred : f.kindred b with
      | false => rfl
      | true => rwa [expand_of_kindred hkindred, hkindred] at hb
    obtain ⟨hleaf, heq⟩ | hheads := h.heads
    · have hnot : ∀ f : Ty, f.kindred (env.expand a) = false := by
        intro f
        cases hkindred : f.kindred (env.expand a) with
        | false => rfl
        | true => rwa [isCompound_of_kindred hkindred] at hleaf
      exact facing?_of_not_kindred hf (Bool.eq_false_of_not_eq_true hlinked) (hplain (hnot f))
        (hplain (heq ▸ hnot f')) h
    · have hcongr := kindred_congr hf hheads
      cases hkindred : f.kindred (env.expand a) with
      | true =>
        rw [expand_of_kindred (hkind hkindred), expand_of_kindred (hkind' (hcongr ▸ hkindred))] at hheads
        exact facing?_of_heads hf hheads (.inr (hkind hkindred))
      | false =>
        exact facing?_of_not_kindred hf (Bool.eq_false_of_not_eq_true hlinked) (hplain hkindred)
          (hplain (hcongr ▸ hkindred)) h

theorem HeadsAgree.parts (h : HeadsAgree R f f') : List.Forall₂ R f.parts f'.parts := by
  cases h with
  | linked hs => exact hs
  | pointer h | reference h | array h => exact .cons h .nil
  | function hs h => exact List.rel_append hs (.cons h .nil)

/-! ### Formals that find nothing -/

theorem normalForm_of_leaf {u : Ty} (hf : f.isCompound = false) (h : env.NormalForm f u) : u = f := by
  obtain ⟨n, h⟩ := h
  have hnone : env.unalias f = none := by
    cases f with
    | linked => simp [Ty.isCompound] at hf
    | _ => rfl
  cases n with
  | zero => simp [normalForm?] at h
  | succ n =>
    obtain ⟨head, hhead, hparts⟩ := normalForm?_succ_iff.1 h
    obtain rfl := Option.some.inj ((head?_of_unalias hnone _).symm.trans hhead)
    obtain ⟨-, rfl⟩ | hparts := hparts
    · rfl
    · rw [hparts.isCompound.1] at hf
      simp at hf

theorem Idle.of_sameForm (hidle : env.Idle params f) (h : env.SameForm f f') : env.Idle params f' := by
  obtain ⟨u, hu, hown⟩ := hidle
  obtain ⟨v, hv, hv'⟩ := h
  obtain rfl := hu.unique hv
  exact ⟨u, hv', hown⟩

theorem Idle.of_part (hidle : env.Idle params f) (hplain : env.unalias f = none)
    (hx : x ∈ f.parts) : env.Idle params x := by
  obtain ⟨u, ⟨n, hu⟩, hown⟩ := hidle
  cases n with
  | zero => simp [normalForm?] at hu
  | succ n =>
    obtain ⟨head, hhead, hparts⟩ := normalForm?_succ_iff.1 hu
    obtain rfl := Option.some.inj ((head?_of_unalias hplain _).symm.trans hhead)
    obtain ⟨hleaf, -⟩ | hparts := hparts
    · cases f <;> simp [Ty.isCompound, Ty.parts] at hleaf hx
    · obtain ⟨y, hy, hxy⟩ := hparts.flip.exists_part hx
      refine ⟨y, ⟨n, hxy⟩, fun g hg hmem => hown g hg ?_⟩
      exact (Ty.mem_occurrences_iff_parts hparts.isCompound.2).2 ⟨y, hy, hmem⟩

/-- A formal that may find something has no alias at the front. -/
theorem Exposed.expand_formal (h : env.Exposed params f a) (hidle : ¬env.Idle params f) : env.expand f = f := by
  cases h with
  | idle h => exact absurd h hidle
  | param => rfl
  | parts _ hplain => exact expandWithin_of_head? (head?_of_unalias hplain _)

/-! ### A check -/

def idleWithin (env : TypeEnv) (params : List GenericId) (n : Nat) (f : Ty) : Bool :=
  (env.normalForm? n f).any fun u => params.all fun g => !u.occurrences.contains g

def shownWithin (env : TypeEnv) (params : List GenericId) (n : Nat) (a : Ty) : Bool :=
  (!decide (env.expand a = .unknown) || decide (a = .unknown)) && (!(env.expand a).isLiteral || a.isLiteral) &&
    (env.normalForm? n a).any fun u => params.all fun g => u.occurrences.contains g == a.occurrences.contains g

def exposedWithin (env : TypeEnv) (params : List GenericId) : Nat → Ty → Ty → Bool
  | 0, _, _ => false
  | n + 1, f, a =>
    env.idleWithin params (n + 1) f || f.isParam && env.shownWithin params (n + 1) a ||
      f.isCompound && (env.unalias f).isNone && (!f.kindred (env.expand a) || f.kindred a) &&
        (f.facing? (env.seen f a)).all fun parts =>
          (f.parts.zip parts).all fun p => env.exposedWithin params n p.1 p.2

theorem idle_of_within (h : env.idleWithin params n f = true) : env.Idle params f := by
  obtain ⟨u, hu, hown⟩ := (Option.any_eq_true _ _).1 h
  exact ⟨u, ⟨n, hu⟩, fun g hg => by simpa using List.all_eq_true.1 hown g hg⟩

theorem shown_of_within (h : env.shownWithin params n a = true) : env.Shown params a := by
  simp only [shownWithin, Bool.and_eq_true] at h
  obtain ⟨⟨hunknown, hliteral⟩, hparams⟩ := h
  obtain ⟨u, hu, hown⟩ := (Option.any_eq_true _ _).1 hparams
  refine ⟨fun hexpand => ?_, fun hexpand => ?_, fun v hv g hg => ?_⟩
  · simpa [hexpand] using hunknown
  · simpa [hexpand] using hliteral
  · rw [hv.unique ⟨n, hu⟩, ← List.contains_iff_mem, ← List.contains_iff_mem, ← Bool.eq_iff_iff]
    exact beq_iff_eq.1 (List.all_eq_true.1 hown g hg)

theorem exposed_of_within (h : env.exposedWithin params n f a = true) : env.Exposed params f a := by
  induction n generalizing f a with
  | zero => simp [exposedWithin] at h
  | succ n ih =>
    simp only [exposedWithin, Bool.or_eq_true, Bool.and_eq_true] at h
    obtain (hidle | ⟨hparam, hshown⟩) | ⟨⟨⟨hf, hplain⟩, hkind⟩, hparts⟩ := h
    · exact .idle (idle_of_within hidle)
    · cases f with
      | param g => exact .param g (shown_of_within hshown)
      | _ => simp [Ty.isParam] at hparam
    · refine .parts hf (Option.isNone_iff_eq_none.1 hplain) (fun hexpand => ?_) fun parts hface p hp => ?_
      · simpa [hexpand] using hkind
      · exact ih (List.all_eq_true.1 ((Option.all_eq_true _ _).1 hparts parts hface) p hp)

theorem facing?_eq_some {parts : List Ty} (h : f.facing? (env.seen f a) = some parts) :
    parts = (env.expand a).parts ∨ parts = [a] := by
  cases f with
  | linked decl args =>
    have hseen : env.seen (.linked decl args) a = env.expand a := rfl
    rw [hseen] at h
    cases hx : env.expand a with
    | linked actual actualArgs =>
      rw [hx] at h
      simp only [Ty.facing?] at h
      split at h
      · exact .inl (Option.some.inj h).symm
      · simp at h
    | _ =>
      rw [hx] at h
      simp [Ty.facing?] at h
  | reference inner =>
    cases a with
    | reference => exact .inl (Option.some.inj h).symm
    | _ => exact .inr (Option.some.inj h).symm
  | function formals ret =>
    cases a with
    | function actuals actualRet =>
      simp only [seen, Ty.isLinked, Bool.false_eq_true, if_false, Ty.facing?] at h
      split at h
      · exact .inl (Option.some.inj h).symm
      · simp at h
    | _ => simp [seen, Ty.isLinked, Ty.facing?] at h
  | pointer | array =>
    cases a with
    | pointer | array => first | exact .inl (Option.some.inj h).symm | simp [seen, Ty.isLinked, Ty.facing?] at h
    | _ => simp [seen, Ty.isLinked, Ty.facing?] at h
  | prim | literal | param | unknown => simp [Ty.facing?] at h

theorem expandable_of_facing {parts : List Ty} (ha : env.Expandable a) (h : f.facing? (env.seen f a) = some parts) :
    ∀ x ∈ parts, env.Expandable x := by
  obtain ⟨u, hu⟩ := ha
  intro x hx
  obtain rfl | rfl := facing?_eq_some h
  · obtain ⟨hleaf, -⟩ | hheads := (show env.SameForm a a from ⟨u, hu, hu⟩).heads
    · generalize env.expand a = b at hleaf hx
      cases b <;> simp [Ty.isCompound, Ty.parts] at hleaf hx
    · obtain ⟨_, -, v, -, hv⟩ := hheads.exists_part hx
      exact ⟨v, hv⟩
  · obtain rfl := List.mem_singleton.1 hx
    exact ⟨u, hu⟩

theorem unalias_of_facing {sigs : Signatures} {parts : List Ty} (ha : sigs.env.Expandable a)
    (h : f.facing? (sigs.env.seen f a) = some parts) : sigs.env.unalias f = none := by
  cases f with
  | linked decl args =>
    obtain ⟨u, n, hu⟩ := ha
    cases n with
    | zero => simp [normalForm?] at hu
    | succ n =>
      obtain ⟨head, hhead, -⟩ := normalForm?_succ_iff.1 hu
      have hseen : sigs.env.seen (.linked decl args) a = head := expandWithin_of_head? hhead
      rw [hseen] at h
      have hplain := unalias_of_head? hhead
      cases head with
      | linked actual actualArgs =>
        simp only [Ty.facing?] at h
        split at h
        · rename_i heq
          obtain ⟨rfl, hlength⟩ := heq
          have hheads : HeadsAgree (fun _ _ => True) (.linked actual actualArgs) (.linked actual args) :=
            .linked (List.forall₂_iff_zip.2 ⟨hlength, fun _ => trivial⟩)
          exact hheads.unalias_eq_none hplain
        · simp at h
      | _ => simp [Ty.facing?] at h
  | _ => rfl

end TypeEnv

namespace Slots

variable {env : TypeEnv} {params : List GenericId} {f f' a a' : Ty} {s s' : Slots}

@[simp] theorem matchShape_unknown (f : Ty) : matchShape env params f .unknown s = s := by
  cases f <;> simp [matchShape]

theorem matchShapes_append {fs as : List Ty} (hlength : as.length = fs.length) (f a : Ty) (s : Slots) :
    matchShapes env params (fs ++ [f]) (as ++ [a]) s = matchShape env params f a (matchShapes env params fs as s) := by
  induction fs generalizing as s with
  | nil =>
    obtain rfl := List.length_eq_zero_iff.1 hlength
    rfl
  | cons _ fs ih =>
    obtain ⟨b, as, rfl⟩ := List.exists_cons_of_length_eq_add_one hlength
    exact ih (Nat.succ.inj hlength) _

/-- Laying a type with parts over another is laying its parts over those that they face. -/
theorem matchShape_eq (hf : f.isCompound = true) (a : Ty) (s : Slots) :
    matchShape env params f a s =
      match f.facing? (env.seen f a) with
      | some parts => matchShapes env params f.parts parts s
      | none => s := by
  by_cases ha : a = .unknown
  · subst ha
    rw [matchShape_unknown]
    cases f with
    | reference inner => exact (matchShape_unknown inner).symm
    | linked | pointer | array | function => rfl
    | prim | literal | param | unknown => simp [Ty.isCompound] at hf
  · cases f with
    | linked decl args =>
      have hseen : env.seen (.linked decl args) a = env.expand a := rfl
      rw [hseen]
      unfold matchShape
      rw [if_neg ha]
      cases env.expand a with
      | linked actual actualArgs =>
        simp only [Ty.facing?]
        split <;> rfl
      | _ => rfl
    | pointer inner =>
      unfold matchShape
      rw [if_neg ha]
      cases a <;> rfl
    | reference inner =>
      unfold matchShape
      rw [if_neg ha]
      cases a <;> rfl
    | array elem len =>
      unfold matchShape
      rw [if_neg ha]
      cases a <;> rfl
    | function formals ret =>
      unfold matchShape
      rw [if_neg ha]
      cases a with
      | function actuals actualRet =>
        simp only [TypeEnv.seen, Ty.isLinked, Bool.false_eq_true, if_false, Ty.facing?]
        split
        · rename_i hlength
          exact (matchShapes_append hlength _ _ _).symm
        · rfl
      | _ => rfl
    | prim | literal | param | unknown => simp [Ty.isCompound] at hf

theorem matchShapes_of_all {fs as : List Ty} (has : ∀ a ∈ as, env.Expandable a)
    (h : ∀ f ∈ fs, ∀ a s, env.Expandable a → matchShape env params f a s = s) (s : Slots) :
    matchShapes env params fs as s = s := by
  induction fs generalizing as with
  | nil => rfl
  | cons f fs ih =>
    cases as with
    | nil => rfl
    | cons a as =>
      rw [matchShapes, h f List.mem_cons_self a s (has a List.mem_cons_self)]
      exact ih (fun b hb => has b (List.mem_cons_of_mem _ hb)) fun f hf => h f (List.mem_cons_of_mem _ hf)

theorem matchShape_of_idle {sigs : Signatures} (hf : sigs.env.Idle params f) (ha : sigs.env.Expandable a) (s : Slots) :
    matchShape sigs.env params f a s = s := by
  induction f using Ty.partsInduction generalizing a s with
  | leaf f hleaf =>
    cases f with
    | param g =>
      obtain ⟨u, hu, hown⟩ := hf
      obtain rfl := TypeEnv.normalForm_of_leaf hleaf hu
      have hg : params.idxOf? g = none :=
        List.idxOf?_eq_none_iff.2 fun hmem => hown g hmem (by simp [Ty.occurrences])
      simp [matchShape, fill, hg]
    | prim | literal | unknown => simp [matchShape]
    | linked | pointer | reference | array | function => simp [Ty.isCompound] at hleaf
  | compound f hcompound ih =>
    rw [matchShape_eq hcompound]
    cases hface : f.facing? (sigs.env.seen f a) with
    | none => rfl
    | some parts =>
      have hplain := TypeEnv.unalias_of_facing ha hface
      exact matchShapes_of_all (TypeEnv.expandable_of_facing ha hface)
        (fun x hx b s hb => ih x hx (hf.of_part hplain hx) hb s) s

end Slots

end Linkage
