import Linkage.Proofs.Ty.Sameness
import Linkage.Signature

/-!
# Alias normal forms

The normal form of a type has every alias looked through, at every level. A type need not have one: an alias may lead
back to itself, at once or somewhere below what it stands for. A comparison of two types that have normal forms is
settled within as many levels as these take, and it comes out true if and only if they are equal.
-/

namespace Linkage

variable {a b t u : Ty} {f : Ty → Option Ty}

namespace Ty

def isCompound : Ty → Bool
  | .linked .. | .pointer .. | .reference .. | .array .. | .function .. => true
  | .prim .. | .literal .. | .param .. | .unknown => false

def parts : Ty → List Ty
  | .linked _ args => args
  | .pointer inner | .reference inner | .array inner _ => [inner]
  | .function params ret => params ++ [ret]
  | .prim .. | .literal .. | .param .. | .unknown => []

/-- Put something else in the place of every part of the type, if there is something for each. -/
def mapParts? (f : Ty → Option Ty) : Ty → Option Ty
  | .linked decl args => (args.mapM f).map (.linked decl)
  | .pointer inner => (f inner).map .pointer
  | .reference inner => (f inner).map .reference
  | .array elem len => (f elem).map (.array · len)
  | .function params ret => (params.mapM f).bind fun params => (f ret).map (.function params)
  | t => some t

theorem mapM_eq_some_iff {as bs : List Ty} : as.mapM f = some bs ↔ List.Forall₂ (f · = some ·) as bs := by
  induction as generalizing bs with
  | nil => cases bs <;> simp
  | cons a as ih =>
    cases bs with
    | nil => simp [List.mapM_cons, Option.bind_eq_some_iff]
    | cons b bs => simp [List.mapM_cons, Option.bind_eq_some_iff, ← ih]

end Ty

namespace TypeEnv

theorem HeadsAgree.eq (h : HeadsAgree (· = ·) a b) : a = b := by
  have heq : ∀ {as bs : List Ty}, List.Forall₂ (· = ·) as bs → as = bs := by
    simp [List.forall₂_eq_eq_eq]
  cases h with
  | linked hs => rw [heq hs]
  | pointer h | reference h | array h => rw [h]
  | function hs h => rw [heq hs, h]

theorem HeadsAgree.isCompound {R : Ty → Ty → Prop} (h : HeadsAgree R a b) :
    a.isCompound = true ∧ b.isCompound = true := by
  cases h <;> exact ⟨rfl, rfl⟩

/-- A type without parts is left as it is; one with parts keeps its head. -/
theorem mapParts?_eq_some_iff :
    t.mapParts? f = some u ↔
      t.isCompound = false ∧ t = u ∨ HeadsAgree (f · = some ·) t u := by
  constructor
  · intro h
    cases t with
    | linked decl args =>
      obtain ⟨args', hargs, rfl⟩ := Option.map_eq_some_iff.1 h
      exact .inr (.linked (Ty.mapM_eq_some_iff.1 hargs))
    | pointer inner =>
      obtain ⟨inner', hinner, rfl⟩ := Option.map_eq_some_iff.1 h
      exact .inr (.pointer hinner)
    | reference inner =>
      obtain ⟨inner', hinner, rfl⟩ := Option.map_eq_some_iff.1 h
      exact .inr (.reference hinner)
    | array elem len =>
      obtain ⟨elem', helem, rfl⟩ := Option.map_eq_some_iff.1 h
      exact .inr (.array helem)
    | function params ret =>
      obtain ⟨params', hparams, h⟩ := Option.bind_eq_some_iff.1 h
      obtain ⟨ret', hret, rfl⟩ := Option.map_eq_some_iff.1 h
      exact .inr (.function (Ty.mapM_eq_some_iff.1 hparams) hret)
    | prim | literal | param | unknown => exact .inl ⟨rfl, Option.some.inj h⟩
  · rintro (⟨ht, rfl⟩ | h)
    · cases t with
      | linked | pointer | reference | array | function => simp [Ty.isCompound] at ht
      | prim | literal | param | unknown => rfl
    · cases h with
      | linked hs => simp [Ty.mapParts?, Ty.mapM_eq_some_iff.2 hs]
      | pointer h | reference h | array h => simp [Ty.mapParts?, h]
      | function hs h => simp [Ty.mapParts?, Ty.mapM_eq_some_iff.2 hs, h]

theorem HeadsAgree.eq_of_forms {R : Ty → Ty → Prop} {v : Ty} (h : HeadsAgree R a b)
    (ha : a.isCompound = false ∧ a = u ∨ HeadsAgree (f · = some ·) a u)
    (hb : b.isCompound = false ∧ b = v ∨ HeadsAgree (f · = some ·) b v)
    (hR : ∀ x y x' y', R x y → f x = some x' → f y = some y' → x' = y') : u = v := by
  obtain ⟨hleaf, -⟩ | ha := ha
  · simp [h.isCompound.1] at hleaf
  obtain ⟨hleaf, -⟩ | hb := hb
  · simp [h.isCompound.2] at hleaf
  -- from the parts of `u` back to those of `a`, over to those of `b`, and on to those of `v`
  refine (((ha.flip.comp h).comp hb).imp ?_).eq
  rintro x' y' ⟨y, ⟨x, hx, hxy⟩, hy⟩
  exact hR x y x' y' hxy hx hy

theorem exists_of_mem_parts {x : Ty} (h : t.mapParts? f = some u) (hx : x ∈ t.parts) : ∃ y, f x = some y := by
  have hlist : ∀ {as bs : List Ty}, List.Forall₂ (f · = some ·) as bs → x ∈ as → ∃ y, f x = some y := by
    intro as bs hs hx
    induction hs with
    | nil => simp at hx
    | cons h _ ih =>
      rcases List.mem_cons.1 hx with rfl | hx
      · exact ⟨_, h⟩
      · exact ih hx
  obtain ⟨hleaf, rfl⟩ | hparts := mapParts?_eq_some_iff.1 h
  · cases t <;> simp_all [Ty.parts, Ty.isCompound]
  · cases hparts with
    | linked hs => exact hlist hs hx
    | pointer hpart | reference hpart | array hpart =>
      obtain rfl := List.mem_singleton.1 hx
      exact ⟨_, hpart⟩
    | function hs hret => exact hlist (List.rel_append hs (.cons hret .nil)) hx

theorem exists_mapParts? (h : ∀ x ∈ t.parts, ∃ y, f x = some y) :
    ∃ u, t.mapParts? f = some u := by
  have hlist : ∀ {as : List Ty}, (∀ x ∈ as, ∃ y, f x = some y) → ∃ bs, as.mapM f = some bs := by
    intro as
    induction as with
    | nil => exact fun _ => ⟨[], rfl⟩
    | cons a as ih =>
      intro hall
      obtain ⟨b, hb⟩ := hall a List.mem_cons_self
      obtain ⟨bs, hbs⟩ := ih fun x hx => hall x (List.mem_cons_of_mem _ hx)
      exact ⟨b :: bs, by simp [List.mapM_cons, hb, hbs]⟩
  cases t with
  | linked decl args =>
    obtain ⟨bs, hbs⟩ : ∃ bs, args.mapM f = some bs := hlist h
    exact ⟨.linked decl bs, by simp [Ty.mapParts?, hbs]⟩
  | pointer inner | reference inner | array inner =>
    obtain ⟨u, hu⟩ := h inner (by simp [Ty.parts])
    exact ⟨_, by simp [Ty.mapParts?, hu]; rfl⟩
  | function params ret =>
    obtain ⟨bs, hbs⟩ := hlist fun x hx => h x (List.mem_append_left _ hx)
    obtain ⟨u, hu⟩ := h ret (by simp [Ty.parts])
    exact ⟨.function bs u, by simp [Ty.mapParts?, hbs, hu]⟩
  | prim | literal | param | unknown => exact ⟨_, rfl⟩

/-! ### Normal forms -/

/-- Look through the aliases at the head of the type. There is no result if there are more than `n`. -/
def head? (env : TypeEnv) : Nat → Ty → Option Ty
  | 0, t => if (env.unalias t).isNone then some t else none
  | n + 1, t =>
    match env.unalias t with
    | some target => env.head? n target
    | none => some t

/-- Look through every alias of the type, down to `n` levels. There is no result if the type goes deeper, or
an alias leads through more others than a comparison follows. -/
def normalForm? (env : TypeEnv) : Nat → Ty → Option Ty
  | 0, _ => none
  | n + 1, t => (env.head? maxAliasDepth t).bind (·.mapParts? (env.normalForm? n))

def NormalForm (env : TypeEnv) (t u : Ty) : Prop := ∃ n, env.normalForm? n t = some u

variable {env : TypeEnv} {n m : Nat} {a b t u v : Ty}

/-- Induction along the aliases at the head of a type, from the end back to the type. -/
theorem head?_induction {motive : Nat → Ty → Prop} (stop : ∀ n, env.unalias u = none → motive n u)
    (step : ∀ n t target, env.unalias t = some target → env.head? n target = some u → motive n target →
      motive (n + 1) t)
    (h : env.head? n t = some u) : motive n t := by
  induction n generalizing t with
  | zero =>
    obtain ⟨hnone, rfl⟩ : env.unalias t = none ∧ t = u := by simpa [head?] using h
    exact stop 0 hnone
  | succ n ih =>
    rw [head?] at h
    cases htarget : env.unalias t with
    | none =>
      rw [htarget] at h
      obtain rfl := Option.some.inj h
      exact stop (n + 1) htarget
    | some target =>
      rw [htarget] at h
      exact step n t target htarget h (ih h)

theorem expandWithin_of_head? (h : env.head? n t = some u) : env.expandWithin n t = u := by
  refine head?_induction (motive := fun n t => env.expandWithin n t = u) ?stop ?step h
  case stop =>
    intro n hnone
    cases n <;> simp [expandWithin, hnone]
  case step =>
    intro n t target htarget _ ih
    rw [expandWithin, htarget]
    exact ih

theorem normalForm?_succ_iff :
    env.normalForm? (n + 1) t = some u ↔ ∃ head, env.head? maxAliasDepth t = some head ∧
      (head.isCompound = false ∧ head = u ∨ HeadsAgree (env.normalForm? n · = some ·) head u) := by
  simp only [normalForm?, Option.bind_eq_some_iff, mapParts?_eq_some_iff]

theorem normalForm?_mono (hnm : n ≤ m) (h : env.normalForm? n t = some u) :
    env.normalForm? m t = some u := by
  induction n generalizing m t u with
  | zero => simp [normalForm?] at h
  | succ n ih =>
    obtain ⟨m, rfl⟩ : ∃ k, m = k + 1 := ⟨m - 1, by omega⟩
    obtain ⟨head, hhead, hparts⟩ := normalForm?_succ_iff.1 h
    exact normalForm?_succ_iff.2 ⟨head, hhead,
      hparts.imp_right (HeadsAgree.imp fun _ _ => ih (Nat.le_of_succ_le_succ hnm))⟩

/-! ### Comparing types that have normal forms -/

theorem isSome_pairwise {compare : Ty → Ty → Option Bool} {as bs : List Ty}
    (h : ∀ a ∈ as, ∀ b ∈ bs, (compare a b).isSome) : (pairwise compare as bs).isSome := by
  have hzip : ∀ l : List (Ty × Ty), (∀ p ∈ l, (compare p.1 p.2).isSome) →
      (l.allM fun p => compare p.1 p.2).isSome := by
    intro l
    induction l with
    | nil => simp
    | cons p l ih =>
      intro hl
      obtain ⟨verdict, hp⟩ := Option.isSome_iff_exists.1 (hl p (by simp))
      have hrest := ih fun q hq => hl q (by simp [hq])
      cases verdict <;> simp [List.allM, hp, hrest]
  unfold pairwise
  split
  · exact hzip _ fun p hp => h _ (List.of_mem_zip hp).1 _ (List.of_mem_zip hp).2
  · rfl

theorem isSome_sameHeads {compare : Ty → Ty → Option Bool}
    (h : ∀ x ∈ a.parts, ∀ y ∈ b.parts, (compare x y).isSome) (lenient : Bool) :
    (sameHeads lenient compare a b).isSome := by
  unfold sameHeads
  split
  · rfl
  · rfl
  · split
    · exact isSome_pairwise h
    · rfl
  · exact h _ (by simp [Ty.parts]) _ (by simp [Ty.parts])
  · exact h _ (by simp [Ty.parts]) _ (by simp [Ty.parts])
  · split
    · exact h _ (by simp [Ty.parts]) _ (by simp [Ty.parts])
    · rfl
  · rename_i as a bs b
    have hparams : (pairwise compare as bs).isSome :=
      isSome_pairwise fun x hx y hy => h x (by simp [Ty.parts, hx]) y (by simp [Ty.parts, hy])
    have hret : (compare a b).isSome := h a (by simp [Ty.parts]) b (by simp [Ty.parts])
    obtain ⟨verdict, hverdict⟩ := Option.isSome_iff_exists.1 hparams
    cases verdict <;> simp [hverdict, hret]
  · rfl

section

-- `f` gives the normal forms of parts, and `compare` goes by these.
variable {f : Ty → Option Ty} {compare : Ty → Ty → Option Bool}
  (hcompare : ∀ {x y x' y'}, f x = some x' → f y = some y' → compare x y = some (decide (x' = y')))
  (ha : a.mapParts? f = some u) (hb : b.mapParts? f = some v)

include hcompare ha hb

theorem eq_of_headsAgree (hab : HeadsAgree (compare · · = some true) a b) : u = v := by
  refine hab.eq_of_forms (mapParts?_eq_some_iff.1 ha) (mapParts?_eq_some_iff.1 hb) ?_
  intro x y x' y' hxy hx hy
  simpa [hcompare hx hy] using hxy

theorem eq_or_headsAgree_of_eq (huv : u = v) :
    a = b ∨ HeadsAgree (compare · · = some true) a b := by
  subst huv
  obtain ⟨hleaf, rfl⟩ | ha := mapParts?_eq_some_iff.1 ha
  · obtain ⟨-, rfl⟩ | hb := mapParts?_eq_some_iff.1 hb
    · exact .inl rfl
    · simp [hb.isCompound.2] at hleaf
  · obtain ⟨hleaf, rfl⟩ | hb := mapParts?_eq_some_iff.1 hb
    · simp [ha.isCompound.2] at hleaf
    · refine .inr ((ha.comp hb.flip).imp ?_)
      rintro x y ⟨z, hx, hy⟩
      simp [hcompare hx hy]

theorem sameHeads_eq_decide (hne : a ≠ b) :
    sameHeads false compare a b = some (decide (u = v)) := by
  have hsettled : (sameHeads false compare a b).isSome := by
    refine isSome_sameHeads (fun x hx y hy => ?_) false
    obtain ⟨x', hx⟩ := exists_of_mem_parts ha hx
    obtain ⟨y', hy⟩ := exists_of_mem_parts hb hy
    simp [hcompare hx hy]
  have htrue : sameHeads false compare a b = some true ↔ u = v := by
    rw [sameHeads_eq_true_iff]
    exact ⟨eq_of_headsAgree hcompare ha hb, fun huv =>
      (eq_or_headsAgree_of_eq hcompare ha hb huv).resolve_left hne⟩
  obtain ⟨verdict, hverdict⟩ := Option.isSome_iff_exists.1 hsettled
  rw [hverdict] at htrue ⊢
  simp [← htrue]

end

theorem sameWithin_eq_decide (ha : env.normalForm? n a = some u) (hb : env.normalForm? n b = some v) :
    env.sameWithin false n a b = some (decide (u = v)) := by
  induction n generalizing a b u v with
  | zero => simp [normalForm?] at ha
  | succ n ih =>
    by_cases hab : a = b
    · subst hab
      have huv : u = v := Option.some.inj (ha.symm.trans hb)
      simp [sameWithin, huv]
    obtain ⟨a', hheada, ha'⟩ := Option.bind_eq_some_iff.1 ha
    obtain ⟨b', hheadb, hb'⟩ := Option.bind_eq_some_iff.1 hb
    have hexpanda : env.expand a = a' := expandWithin_of_head? hheada
    have hexpandb : env.expand b = b' := expandWithin_of_head? hheadb
    by_cases hab' : a' = b'
    · subst hab'
      have huv : u = v := Option.some.inj (ha'.symm.trans hb')
      simp [sameWithin, hexpanda, hexpandb, huv]
    · simp only [sameWithin, hab, hexpanda, hexpandb, hab', if_false]
      exact sameHeads_eq_decide ih ha' hb' hab'

theorem NormalForm.levels (ha : env.NormalForm a u) (hb : env.NormalForm b v) :
    ∃ n, ∀ k, n ≤ k → env.normalForm? k a = some u ∧ env.normalForm? k b = some v := by
  obtain ⟨n, ha⟩ := ha
  obtain ⟨m, hb⟩ := hb
  exact ⟨max n m, fun k hk => ⟨normalForm?_mono (by omega) ha, normalForm?_mono (by omega) hb⟩⟩

theorem NormalForm.settled_iff (ha : env.NormalForm a u) (hb : env.NormalForm b v) :
    (∃ n, ∀ k, n ≤ k → env.sameWithin false k a b = some true) ↔ u = v := by
  obtain ⟨n, hlevels⟩ := ha.levels hb
  have hdecide : ∀ k, n ≤ k → env.sameWithin false k a b = some (decide (u = v)) :=
    fun k hk => sameWithin_eq_decide (hlevels k hk).1 (hlevels k hk).2
  constructor
  · rintro ⟨m, hm⟩
    have htrue := hm (max n m) (n.le_max_right m)
    rw [hdecide (max n m) (n.le_max_left m)] at htrue
    simpa using htrue
  · intro huv
    exact ⟨n, fun k hk => by simpa [huv] using hdecide k hk⟩

/-- Sameness is equality of alias normal forms. Comparing two types that have normal forms is settled once it
may go as far down as they do, and it is the normal forms that it compares. -/
theorem same_iff_normalForm_eq (env : TypeEnv) :
    (∀ a b u v : Ty, env.NormalForm a u → env.NormalForm b v →
      ∃ n, (∀ k, n ≤ k → env.sameWithin false k a b = some (decide (u = v))) ∧
        ∀ reach, n ≤ reach → ({ env with reach := reach }.same a b = true ↔ u = v)) ∧
    Equivalence fun a b : { t : Ty // ∃ u, env.NormalForm t u } =>
      ∃ n, ∀ k, n ≤ k → env.sameWithin false k a b = some true := by
  refine ⟨?settled, ?equivalence⟩
  case settled =>
    intro a b u v ha hb
    obtain ⟨n, hlevels⟩ := ha.levels hb
    have hdecide : ∀ k, n ≤ k → env.sameWithin false k a b = some (decide (u = v)) :=
      fun k hk => sameWithin_eq_decide (hlevels k hk).1 (hlevels k hk).2
    refine ⟨n, hdecide, fun reach hreach => ?_⟩
    have htargets : { env with reach := reach }.aliasTarget = env.aliasTarget := rfl
    rw [same_iff, sameWithin_congr htargets, hdecide (reach + 1) (by omega)]
    simp
  case equivalence =>
    refine ⟨?_, ?_, ?_⟩
    · rintro ⟨a, u, ha⟩
      exact (ha.settled_iff ha).2 rfl
    · rintro ⟨a, u, ha⟩ ⟨b, v, hb⟩ hab
      exact (hb.settled_iff ha).2 ((ha.settled_iff hb).1 hab).symm
    · rintro ⟨a, u, ha⟩ ⟨b, v, hb⟩ ⟨c, w, hc⟩ hab hbc
      exact (ha.settled_iff hc).2 (((ha.settled_iff hb).1 hab).trans ((hb.settled_iff hc).1 hbc))

/-- `1<P0>` stands for `0<P0, P0>`, and `2` for `1<int>`. -/
def pairAliases : TypeEnv := Signatures.env
  { generics := Table.insert {} ⟨1⟩ [⟨0⟩]
    aliasTargets := (Table.insert {} ⟨1⟩ (.linked ⟨0⟩ [.param ⟨0⟩, .param ⟨0⟩])).insert ⟨2⟩
      (.linked ⟨1⟩ [.prim (.int 64 true)]) }

/-- `fn(2) -> &1<bool>` and `fn(0<int, int>) -> &1<bool>` have one normal form. -/
theorem same_pairAliases :
    let int := Ty.prim (.int 64 true)
    let bool := Ty.prim .bool
    let a := Ty.function [.linked ⟨2⟩ []] (.reference (.linked ⟨1⟩ [bool]))
    let b := Ty.function [.linked ⟨0⟩ [int, int]] (.reference (.linked ⟨1⟩ [bool]))
    let nf := Ty.function [.linked ⟨0⟩ [int, int]] (.reference (.linked ⟨0⟩ [bool, bool]))
    pairAliases.NormalForm a nf ∧ pairAliases.NormalForm b nf ∧
      ∃ n, (∀ k, n ≤ k → pairAliases.sameWithin false k a b = some (decide (nf = nf))) ∧
        ∀ reach, n ≤ reach → ({ pairAliases with reach := reach }.same a b = true ↔ nf = nf) := by
  intro int bool a b nf
  have ha : pairAliases.NormalForm a nf := ⟨4, by decide +kernel⟩
  have hb : pairAliases.NormalForm b nf := ⟨4, by decide +kernel⟩
  exact ⟨ha, hb, (same_iff_normalForm_eq pairAliases).1 a b nf nf ha hb⟩

end TypeEnv

end Linkage
