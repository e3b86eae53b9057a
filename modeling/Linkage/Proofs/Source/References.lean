import Linkage.Proofs.Source.Changes
import Linkage.Proofs.Source.Validity

/-!
# References between declarations

Whoever builds a unit may use any identifiers for annotations, expressions, statements and blocks, and nothing looks
at them before validation does. A reference to a declaration is another matter: a step that stores one has made the
declaration itself, or has opened it. So in every unit that was built these references lead where they should, and
what is left for validation to find are the identifiers that no step looks at, and a path without segments.
-/

namespace Linkage

variable {d : Decl} {id : DeclId} {fault : Malformed}

namespace DeclKind

variable {k : DeclKind}

theorem generic?_eq_some {g : GenericId} : k.generic? = some g ↔ k = .genericParam g := by
  cases k <;> simp [generic?]

theorem isParameter_iff : k.isParameter = true ↔ ∃ p, k = .parameter p := by
  cases k <;> simp [isParameter]

theorem isFunction_iff : k.isFunction = true ↔ ∃ f, k = .function f := by
  cases k <;> simp [isFunction, function?]

theorem isVariable_iff : k.isVariable = true ↔ ∃ v, k = .var v := by
  cases k <;> simp [isVariable]

end DeclKind

namespace Source

/-- What the lists of `WellBuilt` leave open: the items are listed once, the parents exist, methods are functions,
bindings are variables, and the declaration of a generic parameter and the parameter know each other. -/
structure Anchored (src : Source) : Prop where
  once : src.items.Nodup
  parent : ∀ id d, src.decl? id = some d → ∀ p ∈ d.parent, src.HasDecl p
  method : ∀ id d, src.decl? id = some d → ∀ m ∈ d.kind.methods,
    ∃ md, src.decl? m = some md ∧ md.kind.isFunction = true
  binding : ∀ id ∈ src.bindings, ∃ d, src.decl? id = some d ∧ d.kind.isVariable = true
  generic : ∀ id d g, src.decl? id = some d → d.kind.generic? = some g →
    ∃ p, src.generic? g = some p ∧ p.decl = id ∧ p.name = d.name ∧ src.HasDecl p.owner

variable {src : Source}

theorem anchored_empty : ({} : Source).Anchored where
  once := .nil
  parent id d h := by simp [decl?, NodeId.get?] at h
  method id d h := by simp [decl?, NodeId.get?] at h
  binding id h := by simp [bindings] at h
  generic id d g h := by simp [decl?, NodeId.get?] at h

theorem HasDecl.push (h : src.HasDecl id) (d : Decl) : (src.push d).HasDecl id := by
  obtain ⟨e, he⟩ := Option.isSome_iff_exists.1 h
  exact hasDecl_of_eq_some (decl?_push_of_some he)

theorem HasDecl.put {other : DeclId} (h : src.HasDecl other) (d : Decl) : (src.put id d).HasDecl other := by
  obtain ⟨e, he⟩ := Option.isSome_iff_exists.1 h
  by_cases hid : id = other
  · subst hid
    exact hasDecl_of_eq_some (decl?_put_self he)
  · rw [HasDecl, decl?_put_of_ne src d hid]
    exact h

theorem Anchored.push (h : src.Anchored) (d : Decl) (more : List GenericParam)
    (hparent : ∀ p ∈ d.parent, (src.push d).HasDecl p) (hmethods : d.kind.methods = [])
    (hgeneric : ∀ g, d.kind.generic? = some g → ∃ p, g.get? (src.generics ++ more) = some p ∧
      p.decl = NodeId.next src.decls ∧ p.name = d.name ∧ (src.push d).HasDecl p.owner) :
    ({ src.push d with generics := src.generics ++ more } : Source).Anchored where
  once := h.once
  parent id e he p hp := by
    rcases decl?_push_cases he with hold | ⟨-, rfl⟩
    · exact (h.parent id e hold p hp).push d
    · exact hparent p hp
  method id e he m hm := by
    rcases decl?_push_cases he with hold | ⟨-, rfl⟩
    · obtain ⟨md, hmd, hfunction⟩ := h.method id e hold m hm
      exact ⟨md, decl?_push_of_some hmd, hfunction⟩
    · simp [hmethods] at hm
  binding id hid := by
    obtain ⟨e, he, hvariable⟩ := h.binding id hid
    exact ⟨e, decl?_push_of_some he, hvariable⟩
  generic id e g he hg := by
    rcases decl?_push_cases he with hold | ⟨rfl, rfl⟩
    · obtain ⟨p, hp, hdecl, hname, howner⟩ := h.generic id e g hold hg
      exact ⟨p, NodeId.get?_append_of_some hp more, hdecl, hname, howner.push d⟩
    · exact hgeneric g hg

/-- A declaration is changed and keeps its name and form. Its parent may become another declaration, and its
methods may become more. -/
theorem Anchored.put (h : src.Anchored) (d' : Decl) (hid : src.decl? id = some d)
    (hform : d.kind.SameForm d'.kind) (hname : d'.name = d.name)
    (hparent : ∀ p ∈ d'.parent, p ∈ d.parent ∨ src.HasDecl p) (hmethods : ∀ m ∈ d'.kind.methods, m ∈ d.kind.methods ∨
      ∃ md, src.decl? m = some md ∧ md.kind.isFunction = true) : (src.put id d').Anchored where
  once := h.once
  parent other e he p hp := by
    rcases decl?_put_cases he with ⟨rfl, rfl⟩ | ⟨-, hold⟩
    · rcases hparent p hp with hp | hp
      · exact (h.parent other d hid p hp).put e
      · exact hp.put e
    · exact (h.parent other e hold p hp).put d'
  method other e he m hm := by
    have hfound : ∃ md, src.decl? m = some md ∧ md.kind.isFunction = true := by
      rcases decl?_put_cases he with ⟨rfl, rfl⟩ | ⟨-, hold⟩
      · rcases hmethods m hm with hm | hfound
        · exact h.method other d hid m hm
        · exact hfound
      · exact h.method other e hold m hm
    obtain ⟨md, hmd, hfunction⟩ := hfound
    obtain ⟨md', hmd', hsame, -⟩ := decl?_put_of_some hid hform hmd
    exact ⟨md', hmd', hsame.isFunction.trans hfunction⟩
  binding other hother := by
    obtain ⟨e, he, hvariable⟩ := h.binding other hother
    obtain ⟨e', he', hsame, -⟩ := decl?_put_of_some hid hform he
    exact ⟨e', he', hsame.isVariable.trans hvariable⟩
  generic other e g he hg := by
    have hfound : ∃ p, src.generic? g = some p ∧ p.decl = other ∧ p.name = e.name ∧ src.HasDecl p.owner := by
      rcases decl?_put_cases he with ⟨rfl, rfl⟩ | ⟨-, hold⟩
      · rw [hform.generic?] at hg
        rw [hname]
        exact h.generic other d g hid hg
      · exact h.generic other e g hold hg
    obtain ⟨p, hp, hdecl, hpname, howner⟩ := hfound
    exact ⟨p, hp, hdecl, hpname, howner.put d'⟩

theorem Anchored.change {src' : Source} (hchange : src.Change src') (hwell : src.WellBuilt) (h : src.Anchored) :
    src'.Anchored := by
  cases hchange with
  | other hdecls hgenerics hitems hbindings =>
    obtain ⟨honce, hparent, hmethod, hbinding, hgeneric⟩ := h
    simp only [HasDecl, decl?, generic?, ← hdecls, ← hgenerics, ← hitems, ← hbindings]
      at honce hparent hmethod hbinding hgeneric
    exact ⟨honce, hparent, hmethod, hbinding, hgeneric⟩
  | item d hparent hitem hbare =>
    have hnone : d.kind.generic? = none := by
      cases hk : d.kind <;> simp_all [DeclKind.isItem, DeclKind.generic?]
    have hpush := h.push d [] (by simp [hparent]) hbare.methods (by simp [hnone])
    rw [List.append_nil] at hpush
    refine ⟨?_, hpush.parent, hpush.method, hpush.binding, hpush.generic⟩
    -- the items were there before, and the new declaration was not
    refine List.nodup_append.2 ⟨h.once, List.pairwise_singleton _ _, fun a ha b hb hab => ?_⟩
    obtain ⟨decl, hdecl, -⟩ := hwell.item a ha
    rw [hab, List.mem_singleton.1 hb, decl?_next] at hdecl
    simp at hdecl
  | edit hd hkept =>
    exact h.put _ hd hkept.toSameForm rfl (fun p hp => .inl hp) fun m hm => .inl (hkept.methods ▸ hm)
  | generic gd param hgd hparent hname hdecl hd hindex hkind =>
    have howner : (src.push gd).HasDecl param.owner := hasDecl_of_eq_some hd
    obtain ⟨hform, -, hmethods, -⟩ := DeclKind.sameForm_of_addGeneric? hkind
    have hpush : ({ src.push gd with generics := src.generics ++ [param] } : Source).Anchored := by
      refine h.push gd [param] ?_ (by rw [hgd]; rfl) fun g hg => ?_
      · rw [hparent]
        rintro p ⟨⟩
        exact howner
      · rw [hgd] at hg
        obtain rfl := Option.some.inj hg
        exact ⟨param, NodeId.get?_next _ _, hdecl, hname, howner⟩
    exact hpush.put _ hd hform rfl (fun p hp => .inl hp) fun m hm => .inl (hmethods ▸ hm)
  | param pd hpd hparent hd hf =>
    have hpush := h.push pd [] (by rw [hparent]; rintro p ⟨⟩; exact hasDecl_of_eq_some hd) (by rw [hpd]; rfl)
      (by simp [hpd, DeclKind.generic?])
    rw [List.append_nil] at hpush
    refine hpush.put _ hd ?_ rfl (fun p hp => .inl hp) fun m hm => .inl ?_
    · rw [hf]
      exact ⟨⟨rfl, rfl, rfl, rfl⟩, rfl, rfl⟩
    · rw [hf]
      exact hm
  | method md hmd hparent hd hi =>
    have hpush := h.push md [] (by rw [hparent]; rintro p ⟨⟩; exact hasDecl_of_eq_some hd) (by rw [hmd]; rfl)
      (by simp [hmd, DeclKind.generic?])
    rw [List.append_nil] at hpush
    refine hpush.put _ hd ?_ rfl (fun p hp => .inl hp) fun m hm => ?_
    · rw [hi]
      exact ⟨⟨rfl, rfl, rfl, rfl⟩, rfl, rfl⟩
    · rw [hi]
      rcases List.mem_append.1 hm with hm | hm
      · exact .inl hm
      · rw [List.mem_singleton.1 hm]
        exact .inr ⟨md, decl?_push_next src md, by rw [hmd]; rfl⟩
  | @nest item space d e members hd he hmembers =>
    have hspace : src.HasDecl space := by
      rcases decl?_put_cases he with ⟨rfl, -⟩ | ⟨-, hold⟩
      · exact hasDecl_of_eq_some hd
      · exact hasDecl_of_eq_some hold
    have hmoved : (src.put item { d with parent := some space }).Anchored :=
      h.put _ hd (.refl _) rfl (by rintro p ⟨⟩; exact .inr hspace) fun m hm => .inl hm
    have hput : ((src.put item { d with parent := some space }).put space
        { e with kind := .space (members ++ [item]) }).Anchored := by
      refine hmoved.put _ he ?_ rfl (fun p hp => .inl hp) fun m hm => by simp [DeclKind.methods] at hm
      rw [hmembers]
      exact ⟨⟨rfl, rfl, rfl, rfl⟩, rfl, rfl⟩
    exact ⟨h.once.filter _, hput.parent, hput.method, hput.binding, hput.generic⟩
  | @binding d v node hparent hd hnode =>
    have hpush := h.push d [] (by simp [hparent]) (by rw [hd]; rfl) (by simp [hd, DeclKind.generic?])
    rw [List.append_nil] at hpush
    refine ⟨hpush.once, hpush.parent, hpush.method, fun id hid => ?_, hpush.generic⟩
    rw [bindings, List.filterMap_append, List.mem_append] at hid
    rcases hid with hid | hid
    · exact hpush.binding id hid
    · simp only [List.filterMap_cons, hnode, List.filterMap_nil, List.mem_singleton] at hid
      rw [hid]
      exact ⟨d, decl?_push_next src d, by rw [hd]; rfl⟩

theorem Built.anchored (h : src.Built) : src.Anchored :=
  (h.induction anchored_empty fun _ _ hchange hwell hanchored => hanchored.change hchange hwell).2

/-! ### Units whose declarations refer to each other as they should -/

/-- The references to declarations and to generic parameters lead where they should. -/
structure Coherent (src : Source) : Prop where
  generic : ∀ id d, src.decl? id = some d → ∀ (k : Nat) g, d.generics[k]? = some g →
    ∃ p pd, src.generic? g = some p ∧ p.index = k ∧ p.owner = id ∧ src.decl? p.decl = some pd ∧
      pd.kind = .genericParam g ∧ pd.name = p.name
  declared : ∀ id d g, src.decl? id = some d → d.kind = .genericParam g →
    ∃ p, src.generic? g = some p ∧ p.decl = id ∧ src.HasDecl p.owner
  param : ∀ id d f, src.decl? id = some d → d.kind = .function f →
    ∀ q ∈ f.params, ∃ qd p, src.decl? q = some qd ∧ qd.kind = .parameter p
  method : ∀ id d i, src.decl? id = some d → d.kind = .interface i →
    ∀ m ∈ i.methods, ∃ md f, src.decl? m = some md ∧ md.kind = .function f
  binding : ∀ node ∈ src.stmts, ∀ id init, node.shape = .binding id init →
    ∃ d v, src.decl? id = some d ∧ d.kind = .var v
  item : ∀ id ∈ src.items, src.HasDecl id
  once : src.items.Nodup
  parent : ∀ id d, src.decl? id = some d → ∀ p ∈ d.parent, src.HasDecl p
  member : ∀ id d members, src.decl? id = some d → d.kind = .space members → ∀ m ∈ members, src.HasDecl m

theorem Built.coherent (h : src.Built) : src.Coherent where
  generic id d hd k g hg := by
    obtain ⟨p, pd, hp, hindex, howner, hpd, hkind⟩ := h.wellBuilt.generic id d hd k g hg
    obtain ⟨p', hp', -, hname, -⟩ := h.anchored.generic p.decl pd g hpd hkind
    obtain rfl := Option.some.inj (hp.symm.trans hp')
    exact ⟨p, pd, hp, hindex, howner, hpd, DeclKind.generic?_eq_some.1 hkind, hname.symm⟩
  declared id d g hd hkind := by
    obtain ⟨p, hp, hdecl, -, howner⟩ := h.anchored.generic id d g hd (DeclKind.generic?_eq_some.2 hkind)
    exact ⟨p, hp, hdecl, howner⟩
  param id d f hd hf q hq := by
    obtain ⟨qd, hqd, hkind⟩ := h.wellBuilt.param id d hd q (by rw [hf]; exact hq)
    obtain ⟨p, hp⟩ := DeclKind.isParameter_iff.1 hkind
    exact ⟨qd, p, hqd, hp⟩
  method id d i hd hi m hm := by
    obtain ⟨md, hmd, hkind⟩ := h.anchored.method id d hd m (by rw [hi]; exact hm)
    obtain ⟨f, hf⟩ := DeclKind.isFunction_iff.1 hkind
    exact ⟨md, f, hmd, hf⟩
  binding node hnode id init hshape := by
    have hid : id ∈ src.bindings := List.mem_filterMap.2 ⟨node, hnode, by rw [hshape]; rfl⟩
    obtain ⟨d, hd, hkind⟩ := h.anchored.binding id hid
    obtain ⟨v, hv⟩ := DeclKind.isVariable_iff.1 hkind
    exact ⟨d, v, hd, hv⟩
  item id hid := by
    obtain ⟨d, hd, -⟩ := h.wellBuilt.item id hid
    exact hasDecl_of_eq_some hd
  once := h.anchored.once
  parent := h.anchored.parent
  member id d members hd hmembers m hm := by
    obtain ⟨md, -, -, hmd, -⟩ := h.wellBuilt.member id d hd m (by rw [hmembers]; exact hm)
    exact hasDecl_of_eq_some hmd

end Source

/-! ### What is left for validation -/

/-- An identifier that no step looks at leads nowhere, or a path has no segments. -/
def Malformed.isLoose : Malformed → Bool
  | .missingTypeExpr _ | .missingBlock _ | .missingStmt _ | .missingExpr _ | .emptyPath => true
  | _ => false

namespace Check

variable {α : Type}

/-- If the check fails, then on an identifier that no step looks at. -/
def FindsLoose (c : Check) : Prop := ∀ fault, c = .error fault → fault.isLoose = true

theorem FindsLoose.of_ok {c : Check} (h : c = .ok ()) : c.FindsLoose := by
  intro fault hfault
  rw [h] at hfault
  simp at hfault

theorem findsLoose_require (holds : Bool) (h : fault.isLoose = true) : (require holds fault).FindsLoose := by
  intro fault' hfault
  cases holds with
  | true => simp [require] at hfault
  | false =>
    obtain rfl := Except.error.inj hfault
    exact h

theorem FindsLoose.bind {first : Check} {rest : Unit → Check} (hfirst : first.FindsLoose)
    (hrest : (rest ()).FindsLoose) : FindsLoose (first >>= rest) := by
  intro fault hfault
  cases first with
  | error e => exact hfirst fault hfault
  | ok _ => exact hrest fault hfault

theorem FindsLoose.forM {l : List α} {f : α → Check} (h : ∀ a ∈ l, (f a).FindsLoose) : FindsLoose (l.forM f) := by
  induction l with
  | nil => exact of_ok rfl
  | cons a l ih =>
    rw [List.forall_mem_cons] at h
    exact h.1.bind (ih h.2)

theorem FindsLoose.option_forM {o : Option α} {f : α → Check} (h : ∀ a ∈ o, (f a).FindsLoose) :
    FindsLoose (o.forM f) := by
  cases o with
  | none => exact of_ok rfl
  | some a => exact h a rfl

end Check

namespace Source

open Check

variable {src : Source}

theorem findsLoose_checkExpr (src : Source) (id : ExprId) : (src.checkExpr id).FindsLoose := findsLoose_require _ rfl

theorem findsLoose_checkTypeExpr (src : Source) (id : TypeExprId) : (src.checkTypeExpr id).FindsLoose :=
  findsLoose_require _ rfl

theorem findsLoose_checkBlock (src : Source) (id : BlockId) : (src.checkBlock id).FindsLoose := by
  unfold checkBlock
  split
  · intro fault hfault
    obtain rfl := Except.error.inj hfault
    rfl
  · exact .forM fun stmt _ => findsLoose_require _ rfl

theorem findsLoose_checkGeneric {id : GenericId} {p : GenericParam} (hp : src.generic? id = some p)
    (howner : src.HasDecl p.owner) (hdecl : src.HasDecl p.decl) : (src.checkGeneric id).FindsLoose := by
  unfold checkGeneric
  rw [hp]
  apply (FindsLoose.of_ok (checkDecl_eq_ok.2 howner)).bind
  apply (FindsLoose.of_ok (checkDecl_eq_ok.2 hdecl)).bind
  apply FindsLoose.bind
  · exact .option_forM fun ty _ => findsLoose_checkTypeExpr src ty
  · exact .option_forM fun ty _ => findsLoose_checkTypeExpr src ty

theorem checkKind_eq_ok {role : DeclRole} {test : DeclKind → Bool}
    (hd : src.decl? id = some d) (htest : test d.kind = true) : src.checkKind role test fault id = .ok () := by
  rw [checkKind, bind_eq_ok, checkDecl_eq_ok, require_eq_ok, hd]
  exact ⟨hasDecl_of_eq_some hd, htest⟩

theorem Coherent.findsLoose_checkDeclKind (h : src.Coherent) (hd : src.decl? id = some d) :
    (src.checkDeclKind id d.kind).FindsLoose := by
  have htype := findsLoose_checkTypeExpr src
  cases hkind : d.kind with
  | var v => exact .option_forM fun ty _ => htype ty
  | parameter p => exact htype p.ty
  | function f =>
    apply FindsLoose.bind
    · refine .forM fun q hq => .of_ok ?_
      obtain ⟨qd, p, hqd, hp⟩ := h.param id d f hd hkind q hq
      exact checkKind_eq_ok hqd (by rw [hp])
    apply FindsLoose.bind
    · exact .option_forM fun ty _ => htype ty
    · exact .option_forM fun block _ => findsLoose_checkBlock src block
  | struct s =>
    apply FindsLoose.bind
    · exact .forM fun field _ => htype field.ty
    · exact .forM fun ty _ => htype ty
  | variant v => exact .forM fun c _ => .option_forM fun ty _ => htype ty
  | interface i =>
    refine .forM fun m hm => .of_ok ?_
    obtain ⟨md, f, hmd, hf⟩ := h.method id d i hd hkind m hm
    exact checkKind_eq_ok hmd (by rw [hf]; rfl)
  | union u => exact .forM fun ty _ => htype ty
  | typeAlias a => exact htype a.target
  | genericParam g =>
    obtain ⟨p, hp, hdecl, howner⟩ := h.declared id d g hd hkind
    exact findsLoose_checkGeneric hp howner (hdecl ▸ hasDecl_of_eq_some hd)
  | space members => exact .forM fun m hm => .of_ok (checkDecl_eq_ok.2 (h.member id d members hd hkind m hm))

theorem Coherent.findsLoose_checkDeclNode (h : src.Coherent) (hd : src.decl? id = some d) :
    (src.checkDeclNode id d).FindsLoose := by
  apply FindsLoose.bind
  · exact .option_forM fun p hp => .of_ok (checkDecl_eq_ok.2 (h.parent id d hd p hp))
  apply FindsLoose.bind
  · refine .forM fun g hg => ?_
    obtain ⟨k, hk⟩ := List.mem_iff_getElem?.1 hg
    obtain ⟨p, pd, hp, -, howner, hpd, -⟩ := h.generic id d hd k g hk
    exact findsLoose_checkGeneric hp (howner ▸ hasDecl_of_eq_some hd) (hasDecl_of_eq_some hpd)
  · exact h.findsLoose_checkDeclKind hd

theorem Coherent.findsLoose_checkStmtShape (h : src.Coherent) {node : StmtNode} (hnode : node ∈ src.stmts) :
    (src.checkStmtShape node.shape).FindsLoose := by
  have hexpr := findsLoose_checkExpr src
  have hblock := findsLoose_checkBlock src
  cases hshape : node.shape with
  | binding id init =>
    obtain ⟨d, v, hd, hv⟩ := h.binding node hnode id init hshape
    apply FindsLoose.bind
    · exact .of_ok (checkKind_eq_ok hd (by rw [hv]))
    · exact .option_forM fun e _ => hexpr e
  | assign target value =>
    apply (hexpr target).bind
    exact hexpr value
  | expr e => exact hexpr e
  | ret value => exact .option_forM fun e _ => hexpr e
  | ifChain arms otherwise =>
    apply FindsLoose.bind
    · refine .forM fun arm _ => ?_
      apply (hexpr arm.1).bind
      exact hblock arm.2
    · exact .option_forM fun block _ => hblock block
  | staticIf cond body otherwise =>
    apply (hexpr cond).bind
    apply (hblock body).bind
    exact .option_forM fun block _ => hblock block
  | switch scrutinee cases =>
    apply (hexpr scrutinee).bind
    refine .forM fun c _ => ?_
    apply FindsLoose.bind
    · exact .forM fun e _ => hexpr e
    · exact hblock c.body
  | whileLoop cond body =>
    apply (hexpr cond).bind
    exact hblock body
  | block body => exact hblock body

theorem findsLoose_checkExprShape (src : Source) (shape : ExprShape ExprId TypeExprId) :
    (src.checkExprShape shape).FindsLoose := by
  have hexpr := findsLoose_checkExpr src
  have htype := findsLoose_checkTypeExpr src
  cases shape with
  | intLit _ | floatLit _ | strLit _ | boolLit _ | name _ => exact .of_ok rfl
  | path segments => exact findsLoose_require _ rfl
  | call callee typeArgs args =>
    apply (hexpr callee).bind
    apply FindsLoose.bind
    · exact .forM fun ty _ => htype ty
    · exact .forM fun e _ => hexpr e
  | construct ty fields =>
    apply (htype ty).bind
    exact .forM fun field _ => hexpr field.2
  | member base _ | addressOf base | unary _ base => exact hexpr base
  | binary _ lhs rhs =>
    apply (hexpr lhs).bind
    exact hexpr rhs

/-- Validation goes through all of these, so it finds nothing else. -/
theorem Coherent.findsLoose_validate (h : src.Coherent) : src.validate.FindsLoose := by
  apply FindsLoose.bind
  · exact .forM fun id hid => .of_ok (checkDecl_eq_ok.2 (h.item id hid))
  apply FindsLoose.bind
  · refine .forM fun entry hentry => ?_
    obtain ⟨i, hi, rfl⟩ := List.mem_mapIdx.1 hentry
    exact h.findsLoose_checkDeclNode (List.getElem?_eq_getElem hi)
  apply FindsLoose.bind
  · exact .forM fun node hnode => h.findsLoose_checkStmtShape hnode
  apply FindsLoose.bind
  · exact .forM fun node _ => findsLoose_checkExprShape src node.shape
  · exact .forM fun node _ => .forM fun ty _ => findsLoose_checkTypeExpr src ty

end Source

theorem Malformed.what_of_isLoose (h : fault.isLoose = true) :
    fault.what ∈ ["missing type annotation", "missing block", "missing statement", "missing expression",
      "empty path expression"] := by
  cases fault <;> simp_all [isLoose, what]

/-- However the steps are put together and whatever identifiers they are given, as long as none of them fails the
references between declarations are in order. So validation can find five faults only. -/
theorem Builder.coherent_of_run {steps : List BuildStep} {results : List BuildResult} {b : Builder}
    (h : Builder.run {} steps = .ok (results, b)) :
    b.source.Coherent ∧ ∀ fault, b.source.validate = .error fault →
      fault.what ∈ ["missing type annotation", "missing block", "missing statement", "missing expression",
        "empty path expression"] := by
  have hcoherent : b.source.Coherent := Source.Built.coherent ⟨steps, results, b, h, rfl⟩
  exact ⟨hcoherent, fun fault hfault => fault.what_of_isLoose (hcoherent.findsLoose_validate fault hfault)⟩

/-- A structure is given two generic parameters, one with a bound that is never made, and is put into a namespace
twice. The namespace is then put into itself. -/
def tangledSteps : List BuildStep := [
  .interface "Show", .method ⟨0⟩ "show", .struct "Pair" .copy,
  .generic ⟨2⟩ "First" none none, .generic ⟨2⟩ "Second" (some ⟨9⟩) none,
  .space "util", .nest ⟨5⟩ ⟨2⟩, .nest ⟨5⟩ ⟨2⟩, .nest ⟨5⟩ ⟨5⟩,
  .param ⟨1⟩ "self" ⟨0⟩ false, .binding "pair" none (some ⟨3⟩) false false]

theorem coherent_tangled : ∃ results b, Builder.run {} tangledSteps = .ok (results, b) ∧
    b.source.items = [⟨0⟩] ∧ b.source.validate = .error (.missingTypeExpr ⟨9⟩) ∧ b.source.Coherent ∧
    ∀ fault, b.source.validate = .error fault →
      fault.what ∈ ["missing type annotation", "missing block", "missing statement", "missing expression",
        "empty path expression"] := by
  obtain ⟨results, b, hrun, hitems, hfault⟩ : ∃ results b, Builder.run {} tangledSteps = .ok (results, b) ∧
      b.source.items = [⟨0⟩] ∧ b.source.validate = .error (.missingTypeExpr ⟨9⟩) :=
    ⟨_, _, rfl, rfl, rfl⟩
  exact ⟨results, b, hrun, hitems, hfault, Builder.coherent_of_run hrun⟩

end Linkage
