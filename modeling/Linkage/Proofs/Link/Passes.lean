import Linkage.Proofs.Link.Signatures

/-!
# What the passes are made of

The passes over declarations do few things that show in the state: they link annotations, report what is wrong with a
declaration, write tables of the signatures, and note functions that have bodies. A relation between states that
allows for these holds across every pass. The last pass writes only tables that annotations do not look at, so a
relation may ask that the other tables stay as they are.
-/

namespace Linkage

namespace Link

variable {fixed : Prop} {ρ : LinkState → LinkState → Prop}

/-- The relation allows for what passes do. Where `fixed` holds, the tables that annotations look at have to stay
as they are. -/
structure Passable (fixed : Prop) (ρ : LinkState → LinkState → Prop) : Prop where
  linkTypeAt : ∀ host usage id, Framed ρ (linkTypeAt host usage id)
  report : ∀ span (p : Problem), p.phase ≠ .typeChecking → p.kind ≠ .structuralAmbiguity → Framed ρ (report span p)
  write : ∀ f, (fixed → ∀ sigs, (f sigs).tables = sigs.tables) → Framed ρ (onSignatures f)
  note : ∀ decl, Framed ρ (modify fun s => { s with bodies := s.bodies ++ [decl] })

variable [Sequential ρ]

/-! ### Names -/

theorem framed_declareName (hdeclare : ∀ space name decl, Framed ρ (declareIn space name decl))
    (space : Option DeclId) (id : DeclId) : Framed ρ (declareName space id) := by
  refine .bind (looks_declOf id).framed fun d => .bind Looks.get.framed fun s => ?_
  refine .bind (hdeclare space d.name id) fun _ => ?_
  dsimp only
  split
  · exact .pure _
  · exact .bind (looks_declOf _).framed fun _ => .pure _

theorem framed_declareItems (hdeclare : ∀ space name decl, Framed ρ (declareIn space name decl))
    (space : Option DeclId) (items : List Item) : Framed ρ (declareItems space items) := by
  rw [declareItems_eq]
  exact .bind (.mapM fun x _ => framed_declareName hdeclare x.space x.id) fun _ => .pure _

theorem framed_settleRedeclaration (hdeclare : ∀ space name decl, Framed ρ (declareIn space name decl))
    (hreport : ∀ span name, Framed ρ (report span (.duplicateFunction name)))
    (hignore : ∀ decl, Framed ρ (modify fun s => { s with ignored := s.ignored ++ [decl] }))
    (kept : Table DeclId DeclId) (r : Redeclaration) : Framed ρ (settleRedeclaration kept r) := by
  refine .bind (looks_mentionedParams _).framed fun _ => .bind (looks_mentionedParams _).framed fun _ => ?_
  refine .bind looks_typeEnv.framed fun _ => ?_
  split
  · refine .bind (looks_declOf _).framed fun d => .bind (hreport _ _) fun _ => .bind (hignore _) fun _ => ?_
    exact .bind (hdeclare r.space d.name _) fun _ => .pure _
  · exact .pure _

variable [Enclosed ρ]

/-! ### Types -/

namespace Passable

omit [Enclosed ρ] in
theorem linkOwnership (h : Passable fixed ρ) (decl : DeclId) (ownership : Ownership) :
    Framed ρ (linkOwnership decl ownership) :=
  compound_framed.linkOwnership (·.looks.framed) (fun name => (looks_functionNamed? name).framed)
    (fun span _ _ => h.report span _ nofun nofun) (fun _ => h.write _ fun _ _ => rfl) ownership

section Growing

variable (hgrows : ¬fixed)
include hgrows

omit [Enclosed ρ] in
theorem recordGenerics (h : Passable fixed ρ) (decl : DeclId) : Framed ρ (recordGenerics decl) := by
  refine .bind (looks_declOf decl).framed fun d => ?_
  dsimp only
  split
  · exact .pure _
  · refine .bind (.forM fun g _ => .bind (looks_genericOf g).framed fun _ => ?_) fun _ => ?_
    · exact h.write _ (absurd · hgrows)
    · exact h.write _ (absurd · hgrows)

theorem linkGenericParams (h : Passable fixed ρ) (decl : DeclId) : Framed ρ (linkGenericParams decl) := by
  apply framed_linkGenericParams fun host id => h.linkTypeAt host .mention id
  · exact fun g ty => h.write _ (absurd · hgrows)
  · exact fun g ty => h.write _ (absurd · hgrows)

theorem linkAlias (h : Passable fixed ρ) (decl : DeclId) : Framed ρ (linkAlias decl) := by
  apply framed_linkAlias fun host id => h.linkTypeAt host .mention id
  exact fun ty => h.write _ (absurd · hgrows)

theorem linkTypeFacts (h : Passable fixed ρ) (decl : DeclId) : Framed ρ (linkTypeFacts decl) := by
  refine framed_inGenerics fun host => .bind (looks_declOf decl).framed fun d => ?_
  split
  · refine .bind (.mapM fun id _ => h.linkTypeAt host .use id) fun members => ?_
    exact h.write _ (absurd · hgrows)
  · have hinterface : ∀ id, Framed ρ (linkInterface host id) := fun id =>
      compound_framed.linkInterface (·.looks.framed) (h.linkTypeAt host .mention id) fun span _ => h.report span _ nofun nofun
    refine .bind (.mapM fun id _ => hinterface id) fun interfaces => ?_
    dsimp only
    split
    · exact h.linkOwnership decl _
    · exact .bind (h.write _ (absurd · hgrows)) fun _ => h.linkOwnership decl _
  · exact .pure _

end Growing

/-! ### Signatures -/

theorem linkSignature (h : Passable fixed ρ) (decl : DeclId) : Framed ρ (linkSignature decl) := by
  refine .bind (looks_declOf decl).framed fun d => ?_
  refine .bind (framed_inGenerics fun host => ?_) fun _ => ?_
  · exact compound_framed.linkSignatureKind (·.looks.framed) (h.linkTypeAt host .use) .throw
      (fun f hf => h.write f fun _ => hf) decl d.kind
  · split
    · exact h.note decl
    · exact .pure _

theorem linkSignatures (h : Passable fixed ρ) : Framed ρ linkSignatures := by
  refine .bind looks_source.framed fun src => .forM fun d _ => .bind Looks.get.framed fun s => ?_
  split
  · exact .pure _
  · exact framed_inNamespaces (h.linkSignature d)

end Passable

def linkTypePasses (owners : List DeclId) : LinkM Unit := do
  owners.forM recordGenerics
  owners.forM fun decl => inNamespaces decl (linkGenericParams decl)
  owners.forM fun decl => inNamespaces decl (linkAlias decl)
  owners.forM fun decl => inNamespaces decl (linkTypeFacts decl)

theorem Passable.linkTypePasses (h : Passable fixed ρ) (hgrows : ¬fixed) (owners : List DeclId) :
    Framed ρ (linkTypePasses owners) := by
  refine .bind (.forM fun d _ => h.recordGenerics hgrows d) fun _ => ?_
  refine .bind (.forM fun d _ => framed_inNamespaces (h.linkGenericParams hgrows d)) fun _ => ?_
  refine .bind (.forM fun d _ => framed_inNamespaces (h.linkAlias hgrows d)) fun _ => ?_
  exact .forM fun d _ => framed_inNamespaces (h.linkTypeFacts hgrows d)

theorem declareTypes_eq : declareTypes = (do
    let src ← source
    let redeclared ← declareItems none src.itemTrees
    linkTypePasses (Item.ownersAll src src.itemTrees)
    let _ ← redeclared.foldlM settleRedeclaration {}) := by
  simp only [declareTypes, linkTypePasses, bind_assoc]

theorem Passable.declareAll (h : Passable fixed ρ) (hgrows : ¬fixed)
    (hdeclare : ∀ space name decl, Framed ρ (declareIn space name decl))
    (hreport : ∀ span name, Framed ρ (Link.report span (.duplicateFunction name)))
    (hignore : ∀ decl, Framed ρ (modify fun s => { s with ignored := s.ignored ++ [decl] })) :
    Framed ρ Link.declareAll := by
  refine .bind ?_ fun _ => h.linkSignatures
  rw [declareTypes_eq]
  refine .bind looks_source.framed fun src => .bind (framed_declareItems hdeclare none _) fun redeclared => ?_
  refine .bind (h.linkTypePasses hgrows _) fun _ => .bind (.foldlM (fun kept r _ => ?_) _) fun _ => .pure _
  exact framed_settleRedeclaration hdeclare hreport hignore kept r

end Link

end Linkage
