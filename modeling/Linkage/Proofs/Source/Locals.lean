import Linkage.Proofs.Source.Built

/-!
# Locals

A variable is declared together with the statement that binds it, and a parameter together with its entry in the list
of its function. So in a unit that was built no two statements bind the same declaration, and no function lists a
parameter twice.
-/

namespace Linkage

variable {d : Decl} {src : Source}

namespace Source

structure Separate (src : Source) : Prop where
  declared : ∀ d ∈ src.bindings, d.index < src.decls.length
  bindings : src.bindings.Nodup
  params : ∀ id d, src.decl? id = some d → d.kind.params.Nodup

/-- Declarations may have been added, and no list of parameters has changed. -/
structure SameParams (src src' : Source) : Prop where
  decls : src.decls.length ≤ src'.decls.length
  params : ∀ id d', src'.decl? id = some d' → d'.kind.params = [] ∨
    ∃ d, src.decl? id = some d ∧ d'.kind.params = d.kind.params

namespace SameParams

variable {src src' : Source}

theorem of_eq (h : src'.decls = src.decls) : src.SameParams src' := by
  refine ⟨Nat.le_of_eq (by rw [h]), fun id d hd => .inr ⟨d, ?_, rfl⟩⟩
  rwa [decl?, h] at hd

theorem push (src : Source) (hparams : d.kind.params = []) : src.SameParams (src.push d) := by
  refine ⟨by simp [Source.push], fun id e he => ?_⟩
  rcases decl?_push_cases he with hold | ⟨-, rfl⟩
  · exact .inr ⟨e, hold, rfl⟩
  · exact .inl hparams

theorem put {id : DeclId} (d' : Decl) (hid : src.decl? id = some d)
    (hparams : d'.kind.params = d.kind.params) : src.SameParams (src.put id d') := by
  refine ⟨by simp [Source.put], fun other e he => ?_⟩
  rcases decl?_put_cases he with ⟨rfl, rfl⟩ | ⟨-, hold⟩
  · exact .inr ⟨d, hid, hparams⟩
  · exact .inr ⟨e, hold, rfl⟩

end SameParams

theorem separate_empty : ({} : Source).Separate where
  declared d hd := by simp [Source.bindings] at hd
  bindings := by simp [Source.bindings]
  params id d h := by simp [decl?, NodeId.get?] at h

theorem Separate.of_sameParams {src' : Source} (h : src.Separate) (hsame : src.SameParams src')
    (hbindings : src'.bindings = src.bindings) : src'.Separate where
  declared d hd := Nat.lt_of_lt_of_le (h.declared d (hbindings ▸ hd)) hsame.decls
  bindings := hbindings ▸ h.bindings
  params id d hd := by
    rcases hsame.params id d hd with hnone | ⟨d₁, hd₁, heq⟩
    · rw [hnone]
      exact .nil
    · rw [heq]
      exact h.params id d₁ hd₁

theorem Separate.addParam (h : src.Separate) {id : DeclId} (d' : Decl) {param : DeclId}
    (hid : src.decl? id = some d) (hparams : d'.kind.params = d.kind.params ++ [param])
    (hnew : param ∉ d.kind.params) : (src.put id d').Separate where
  declared := by
    rw [Source.put, List.length_set]
    exact h.declared
  bindings := h.bindings
  params other e he := by
    rcases decl?_put_cases he with ⟨rfl, rfl⟩ | ⟨-, hold⟩
    · rw [hparams]
      refine List.nodup_append.2 ⟨h.params other d hid, List.pairwise_singleton _ _, fun p hp q hq => ?_⟩
      rw [List.mem_singleton.1 hq]
      exact fun heq => hnew (heq ▸ hp)
    · exact h.params other e hold

/-- A statement that binds a declaration is added after the declaration. -/
theorem Separate.bind (h : src.Separate) (hparams : d.kind.params = []) {node : StmtNode}
    (hnode : node.shape.binding? = some (NodeId.next src.decls)) :
    ({ src.push d with stmts := src.stmts ++ [node] } : Source).Separate := by
  have hbindings : ({ src.push d with stmts := src.stmts ++ [node] } : Source).bindings =
      src.bindings ++ [NodeId.next src.decls] := by
    simp [Source.bindings, List.filterMap_append, hnode]
  have hlength : (src.push d).decls.length = src.decls.length + 1 := by simp [Source.push]
  refine ⟨fun x hx => ?_, ?_, ?_⟩
  · show x.index < (src.push d).decls.length
    rw [hbindings] at hx
    rcases List.mem_append.1 hx with hx | hx
    · have := h.declared x hx
      omega
    · rw [List.mem_singleton.1 hx, hlength]
      exact Nat.lt_succ_self _
  · rw [hbindings]
    refine List.nodup_append.2 ⟨h.bindings, List.pairwise_singleton _ _, fun p hp q hq heq => ?_⟩
    rw [List.mem_singleton.1 hq] at heq
    exact absurd (heq ▸ h.declared p hp) (Nat.lt_irrefl _)
  · exact (h.of_sameParams (.push src hparams) rfl).params

theorem Separate.change {src' : Source} (hchange : src.Change src') (hwell : src.WellBuilt) (h : src.Separate) :
    src'.Separate := by
  cases hchange with
  | other hdecls _ _ hbindings => exact h.of_sameParams (.of_eq hdecls) hbindings
  | item d _ _ hbare =>
    have hpush := h.of_sameParams (.push src hbare.params) rfl
    exact hpush.of_sameParams (.of_eq rfl) rfl
  | edit hd hkept => exact h.of_sameParams (.put _ hd hkept.params) rfl
  | @generic gd param d kind hgd _ _ _ hd _ hkind =>
    have hpush := h.of_sameParams (.push src (d := gd) (by rw [hgd]; rfl)) rfl
    have hput := hpush.of_sameParams (.put { d with kind } hd (DeclKind.sameForm_of_addGeneric? hkind).2.1) rfl
    exact hput.of_sameParams (.of_eq rfl) rfl
  | @param pd d p func f hpd _ hd hf =>
    have hpush := h.of_sameParams (.push src (d := pd) (by rw [hpd]; rfl)) rfl
    refine hpush.addParam _ hd (by rw [hf]; rfl) fun hmem => ?_
    -- what a list holds was declared before
    rcases decl?_push_cases hd with hold | ⟨-, rfl⟩
    · obtain ⟨qd, hqd, -⟩ := hwell.param func d hold _ hmem
      simp [decl?_next] at hqd
    · simp [hpd, DeclKind.params] at hmem
  | method md hmd _ hd hi =>
    have hpush := h.of_sameParams (.push src (d := md) (by rw [hmd]; rfl)) rfl
    exact hpush.of_sameParams (.put _ hd (by rw [hi]; rfl)) rfl
  | @nest item space d e members hd he hmembers =>
    have hmoved := h.of_sameParams (.put { d with parent := some space } hd rfl) rfl
    have hput := hmoved.of_sameParams (.put { e with kind := .space (members ++ [item]) } he (by rw [hmembers]; rfl)) rfl
    exact hput.of_sameParams (.of_eq rfl) rfl
  | binding d _ hd hnode => exact h.bind (by rw [hd]; rfl) hnode

theorem Built.separate (h : src.Built) : src.Separate :=
  (h.induction separate_empty fun _ _ hchange hwell hseparate => hseparate.change hchange hwell).2

theorem Separate.binding_unique (h : src.Separate) {i j : StmtId} {m n : StmtNode} {d : DeclId}
    (hm : src.stmt? i = some m) (hn : src.stmt? j = some n) (hd : m.shape.binding? = some d)
    (hd' : n.shape.binding? = some d) : i = j := by
  have hapart := List.pairwise_iff_getElem.1 (List.pairwise_filterMap.1 h.bindings)
  obtain ⟨hi, rfl⟩ := List.getElem?_eq_some_iff.1 hm
  obtain ⟨hj, rfl⟩ := List.getElem?_eq_some_iff.1 hn
  rcases Nat.lt_trichotomy i.index j.index with hlt | heq | hlt
  · exact absurd rfl (hapart _ _ hi hj hlt d hd d hd')
  · cases i
    exact congrArg NodeId.mk heq
  · exact absurd rfl (hapart _ _ hj hi hlt d hd' d hd)

end Source

end Linkage
