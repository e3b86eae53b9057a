import Linkage.Source.Builder

/-!
# What a build step can do

There are few things that a step can do to the declarations of a unit: append one, alone or together with its entry in
a list or with the statement that binds it, change the kind of one that is there, or move one into a namespace.
`Change` lists these possibilities, with what the step has looked at, and `Builder.change_step` says that there are no
others. An invariant of building is then a property that every change keeps (`Builder.run_induction`).
-/

namespace Linkage

variable {d e : Decl} {id other : DeclId} {src : Source} {name : String} {β ε : Type}

def StmtShape.binding? {ε β : Type} : StmtShape ε β → Option DeclId
  | .binding decl _ => some decl
  | _ => none

theorem StmtShape.binding?_map {ε' β' : Type} (f : ε → ε') (g : β → β') (shape : StmtShape ε β) :
    (shape.map f g).binding? = shape.binding? := by
  cases shape <;> rfl

namespace DeclKind

/-- The declaration can stand at the top level or in a namespace. -/
def isItem : DeclKind → Bool
  | .function _ | .struct _ | .variant _ | .interface _ | .union _ | .typeAlias _ | .space _ => true
  | .var _ | .parameter _ | .genericParam _ => false

def isVariable : DeclKind → Bool
  | .var _ => true
  | _ => false

def isParameter : DeclKind → Bool
  | .parameter _ => true
  | _ => false

def generic? : DeclKind → Option GenericId
  | .genericParam g => some g
  | _ => none

def params : DeclKind → List DeclId
  | .function f => f.params
  | _ => []

def methods : DeclKind → List DeclId
  | .interface i => i.methods
  | _ => []

def members : DeclKind → List DeclId
  | .space members => members
  | _ => []

/-- What stays the same when a declaration is changed. -/
structure SameSort (k k' : DeclKind) : Prop where
  isItem : k'.isItem = k.isItem
  isSpace : k'.isSpace = k.isSpace
  isParameter : k'.isParameter = k.isParameter
  generic? : k'.generic? = k.generic?

/-- The declaration lists nothing yet. -/
structure Bare (k : DeclKind) : Prop where
  generics : k.generics = []
  params : k.params = []
  methods : k.methods = []
  members : k.members = []

/-- A kind with the same constructor, and for a generic parameter with the same identifier. -/
structure SameForm (k k' : DeclKind) : Prop extends SameSort k k' where
  isFunction : k'.isFunction = k.isFunction
  isVariable : k'.isVariable = k.isVariable

/-- A kind of the same form with the same lists of declarations and generic parameters. -/
structure Kept (k k' : DeclKind) : Prop extends SameForm k k' where
  generics : k'.generics = k.generics
  params : k'.params = k.params
  methods : k'.methods = k.methods
  members : k'.members = k.members

theorem SameForm.refl (k : DeclKind) : k.SameForm k := ⟨⟨rfl, rfl, rfl, rfl⟩, rfl, rfl⟩

theorem sameForm_of_addGeneric? {g : GenericId} {k k' : DeclKind} (h : k.addGeneric? g = some k') :
    k.SameForm k' ∧ k'.params = k.params ∧ k'.methods = k.methods ∧ k'.members = k.members := by
  cases k <;> simp only [addGeneric?, Option.some.injEq, reduceCtorEq] at h <;> subst h <;>
    exact ⟨⟨⟨rfl, rfl, rfl, rfl⟩, rfl, rfl⟩, rfl, rfl, rfl⟩

end DeclKind

namespace Source

def bindings (src : Source) : List DeclId := src.stmts.filterMap (·.shape.binding?)

/-! ### Appending a declaration -/

def push (src : Source) (d : Decl) : Source := { src with decls := src.decls ++ [d] }

theorem decl?_push_of_some (h : src.decl? id = some e) : (src.push d).decl? id = some e :=
  NodeId.get?_append_of_some h [d]

theorem decl?_push_next (src : Source) (d : Decl) :
    (src.push d).decl? (NodeId.next src.decls) = some d :=
  NodeId.get?_next src.decls d

theorem decl?_next (src : Source) : src.decl? (NodeId.next src.decls) = none := by
  simp [decl?, NodeId.get?, NodeId.next]

theorem decl?_push_cases (h : (src.push d).decl? id = some e) :
    src.decl? id = some e ∨ id = NodeId.next src.decls ∧ e = d := by
  have hlt : id.index < (src.decls ++ [d]).length := (List.getElem?_eq_some_iff.1 h).1
  rw [List.length_append, List.length_singleton] at hlt
  by_cases hid : id.index < src.decls.length
  · rw [decl?, NodeId.get?, push, List.getElem?_append_left hid] at h
    exact .inl h
  · have hindex : id.index = src.decls.length := by omega
    have hnext : id = NodeId.next src.decls := by
      cases id
      exact congrArg NodeId.mk hindex
    subst hnext
    rw [decl?_push_next] at h
    exact .inr ⟨rfl, (Option.some.inj h).symm⟩

/-! ### Changing a declaration -/

/-- The unit with another declaration in the place of one that is there. -/
def put (src : Source) (id : DeclId) (d : Decl) : Source := { src with decls := src.decls.set id.index d }

theorem decl?_put_self (h : src.decl? id = some e) : (src.put id d).decl? id = some d :=
  List.getElem?_set_self (List.getElem?_eq_some_iff.1 h).1

theorem decl?_put_of_ne (src : Source) (d : Decl) (h : id ≠ other) : (src.put id d).decl? other = src.decl? other := by
  refine List.getElem?_set_ne fun hindex => h ?_
  cases id
  cases other
  exact congrArg NodeId.mk hindex

theorem decl?_put_cases (h : (src.put id d).decl? other = some e) :
    other = id ∧ e = d ∨ other ≠ id ∧ src.decl? other = some e := by
  by_cases hid : id = other
  · subst hid
    obtain ⟨hlt, hget⟩ := List.getElem?_eq_some_iff.1 h
    rw [put, List.length_set] at hlt
    have hold : src.decl? id = some (src.decls[id.index]) := List.getElem?_eq_getElem hlt
    rw [decl?_put_self hold] at h
    exact .inl ⟨rfl, (Option.some.inj h).symm⟩
  · rw [decl?_put_of_ne src d hid] at h
    exact .inr ⟨Ne.symm hid, h⟩

/-- What is there before is there afterwards, with the same form. -/
theorem decl?_put_of_some {d' : Decl} (hid : src.decl? id = some d)
    (hform : d.kind.SameForm d'.kind) (h : src.decl? other = some e) :
    ∃ e', (src.put id d').decl? other = some e' ∧ e.kind.SameForm e'.kind ∧
      (other ≠ id ∨ d'.parent = d.parent → e'.parent = e.parent) := by
  by_cases hne : id = other
  · subst hne
    obtain rfl := Option.some.inj (hid.symm.trans h)
    exact ⟨d', decl?_put_self hid, hform, fun hp => hp.resolve_left fun hne => hne rfl⟩
  · exact ⟨e, by rwa [decl?_put_of_ne src d' hne], .refl _, fun _ => rfl⟩

/-! ### Changes -/

/-- What a build step can do to a unit. -/
inductive Change (src : Source) : Source → Prop
  /-- The declarations, the generic parameters and the items stay as they are, and nothing is bound. -/
  | other {src' : Source} (hdecls : src'.decls = src.decls) (hgenerics : src'.generics = src.generics)
      (hitems : src'.items = src.items) (hbindings : src'.bindings = src.bindings) : Change src src'
  | item (d : Decl) (hparent : d.parent = none) (hitem : d.kind.isItem = true) (hbare : d.kind.Bare) :
      Change src { src.push d with items := src.items ++ [NodeId.next src.decls] }
  | edit {id : DeclId} {d : Decl} {kind : DeclKind} (hd : src.decl? id = some d) (hkept : d.kind.Kept kind) :
      Change src (src.put id { d with kind })
  | generic (gd : Decl) (param : GenericParam) {d : Decl} {kind : DeclKind}
      (hgd : gd.kind = .genericParam (NodeId.next src.generics)) (hparent : gd.parent = some param.owner)
      (hname : param.name = gd.name) (hdecl : param.decl = NodeId.next src.decls)
      (hd : (src.push gd).decl? param.owner = some d) (hindex : param.index = d.generics.length)
      (hkind : d.kind.addGeneric? (NodeId.next src.generics) = some kind) :
      Change src { (src.push gd).put param.owner { d with kind } with generics := src.generics ++ [param] }
  | param (pd : Decl) {d : Decl} {p : ParameterDecl} {func : DeclId} {f : FunctionDecl}
      (hpd : pd.kind = .parameter p) (hparent : pd.parent = some func)
      (hd : (src.push pd).decl? func = some d) (hf : d.kind = .function f) :
      Change src ((src.push pd).put func
        { d with kind := .function { f with params := f.params ++ [NodeId.next src.decls] } })
  | method (md : Decl) {d : Decl} {interface : DeclId} {i : InterfaceDecl} (hmd : md.kind = .function {})
      (hparent : md.parent = some interface) (hd : (src.push md).decl? interface = some d)
      (hi : d.kind = .interface i) :
      Change src ((src.push md).put interface
        { d with kind := .interface { i with methods := i.methods ++ [NodeId.next src.decls] } })
  | nest {item space : DeclId} {d e : Decl} {members : List DeclId} (hd : src.decl? item = some d)
      (he : (src.put item { d with parent := some space }).decl? space = some e) (hmembers : e.kind = .space members) :
      Change src { (src.put item { d with parent := some space }).put space
        { e with kind := .space (members ++ [item]) } with items := src.items.filter (· ≠ item) }
  | binding (d : Decl) {v : VariableDecl} {node : StmtNode} (hparent : d.parent = none) (hd : d.kind = .var v)
      (hnode : node.shape.binding? = some (NodeId.next src.decls)) :
      Change src { src.push d with stmts := src.stmts ++ [node] }

end Source

namespace Builder

open Source

variable {b b' : Builder}

theorem editKind_cases {b b' : Builder} {fault : BuildFault}
    {edit : DeclKind → Option DeclKind} (h : b.editKind id fault edit = .ok b') :
    ∃ d kind, b.source.decl? id = some d ∧ edit d.kind = some kind ∧
      b' = { b with source := b.source.put id { d with kind } } := by
  unfold editKind openDecl at h
  cases hd : b.source.decl? id with
  | none => simp [hd, bind, Except.bind] at h
  | some d =>
    cases hkind : edit d.kind with
    | none => simp [hd, hkind, bind, Except.bind] at h
    | some kind =>
      refine ⟨d, kind, rfl, hkind, ?_⟩
      simpa [hd, hkind, bind, Except.bind, setDecl, Source.put] using h.symm

theorem ok_of_bind {α : Type} {x : Except ε α} {f : α → Except ε β} {b : β} (h : x >>= f = .ok b) :
    ∃ a, x = .ok a ∧ f a = .ok b := by
  cases x with
  | error e => simp [bind, Except.bind] at h
  | ok a => exact ⟨a, rfl, h⟩

theorem ok_of_map {α : Type} {x : Except ε α} {f : α → β} {b : β} (h : f <$> x = .ok b) :
    ∃ a, x = .ok a ∧ b = f a := by
  cases x with
  | error e => simp [Functor.map, Except.map] at h
  | ok a => exact ⟨a, rfl, (Except.ok.inj h).symm⟩

theorem decl?_of_openDecl {b : Builder} (h : b.openDecl id = .ok d) : b.source.decl? id = some d := by
  unfold openDecl at h
  cases hd : b.source.decl? id with
  | none => simp [hd] at h
  | some e =>
    rw [hd] at h
    rw [Except.ok.inj h]

theorem source_makeArms (b : Builder) (arms : List ArmSpec) : (b.makeArms arms).2.source = b.source := by
  induction arms generalizing b with
  | nil => rfl
  | cons arm arms ih => exact ih _

/-! ### The changes that steps make -/

theorem change_addItem (b : Builder) (name : String) {kind : DeclKind} (hitem : kind.isItem = true)
    (hbare : kind.Bare) : Change b.source (b.addItem name kind).2.source :=
  .item _ rfl hitem hbare

theorem change_addPlainStmt (b : Builder) {shape : StmtShape ExprId BlockId} (hshape : shape.binding? = none) :
    Change b.source (b.addPlainStmt shape).2.source := by
  refine .other rfl rfl rfl ?_
  simp [addPlainStmt, addStmt, bindings, List.filterMap_append, hshape]

theorem change_editKind {fault : BuildFault} {edit : DeclKind → Option DeclKind}
    (hedit : ∀ k k', edit k = some k' → k.Kept k') (h : b.editKind id fault edit = .ok b') :
    Change b.source b'.source := by
  obtain ⟨d, kind, hd, hkind, rfl⟩ := editKind_cases h
  exact .edit hd (hedit d.kind kind hkind)

theorem change_addGeneric {owner : DeclId} {bound default : Option TypeExprId}
    {result : BuildResult} (h : b.addGeneric owner name bound default = .ok (result, b')) :
    Change b.source b'.source := by
  unfold addGeneric at h
  dsimp only at h
  obtain ⟨d, hd, h⟩ := ok_of_bind h
  obtain ⟨c, hc, h⟩ := ok_of_bind h
  obtain ⟨e, kind, he, hkind, rfl⟩ := editKind_cases hc
  obtain rfl := (Prod.mk.inj (Except.ok.inj h)).2
  obtain rfl := Option.some.inj ((decl?_of_openDecl hd).symm.trans he)
  exact .generic ⟨name, b.span, some owner, .genericParam (NodeId.next b.source.generics)⟩
    ⟨name, b.span, bound, default, d.generics.length, owner, b.nextDecl⟩ rfl rfl rfl rfl he rfl hkind

theorem change_addParam {func : DeclId} {param : ParameterDecl}
    (h : (b.addDecl name (some func) (.parameter param)).editFunction func
      (fun f => { f with params := f.params ++ [b.nextDecl] }) = .ok b') : Change b.source b'.source := by
  obtain ⟨d, kind, hd, hkind, rfl⟩ := editKind_cases h
  split at hkind
  · rename_i f hf
    obtain rfl := Option.some.inj hkind
    exact .param ⟨name, b.span, some func, .parameter param⟩ rfl rfl hd hf
  · simp at hkind

theorem change_addMethod {interface : DeclId}
    (h : (b.addDecl name (some interface) (.function {})).editInterface interface
      (fun i => { i with methods := i.methods ++ [b.nextDecl] }) = .ok b') : Change b.source b'.source := by
  obtain ⟨d, kind, hd, hkind, rfl⟩ := editKind_cases h
  split at hkind
  · rename_i i hi
    obtain rfl := Option.some.inj hkind
    exact .method ⟨name, b.span, some interface, .function {}⟩ rfl rfl hd hi
  · simp at hkind

theorem change_nest {space item : DeclId} (h : b.nest space item = .ok b') : Change b.source b'.source := by
  unfold nest at h
  dsimp only at h
  obtain ⟨d, hd, h⟩ := ok_of_bind h
  obtain ⟨e, kind, he, hkind, rfl⟩ := editKind_cases h
  split at hkind
  · rename_i members hmembers
    obtain rfl := Option.some.inj hkind
    exact .nest (decl?_of_openDecl hd) he hmembers
  · simp at hkind

theorem change_step {step : BuildStep} {result : BuildResult} (h : b.step step = .ok (result, b')) :
    Change b.source b'.source := by
  cases step with
  | function name | variant name | interface name | union name | space name | typeAlias name target
  | struct name ownership =>
    obtain rfl := (Prod.mk.inj (Except.ok.inj h)).2
    exact change_addItem b name rfl ⟨rfl, rfl, rfl, rfl⟩
  | generic owner name bound default => exact change_addGeneric h
  | param func name ty implicit =>
    obtain ⟨c, hc, h⟩ := ok_of_bind h
    obtain rfl := (Prod.mk.inj (Except.ok.inj h)).2
    exact change_addParam hc
  | method interface name =>
    obtain ⟨c, hc, h⟩ := ok_of_bind h
    obtain rfl := (Prod.mk.inj (Except.ok.inj h)).2
    exact change_addMethod hc
  | returns func ty | body func block | field struct name ty | implements struct interface
  | variantCase variant name payload | member union ty =>
    obtain ⟨c, hc, h⟩ := ok_of_map h
    obtain rfl := (Prod.mk.inj h).2
    refine change_editKind (fun k k' hk => ?_) hc
    split at hk
    · obtain rfl := Option.some.inj hk
      exact ⟨⟨⟨rfl, rfl, rfl, rfl⟩, rfl, rfl⟩, rfl, rfl, rfl, rfl⟩
    · simp at hk
  | nest space item =>
    obtain ⟨c, hc, h⟩ := ok_of_map h
    obtain rfl := (Prod.mk.inj h).2
    exact change_nest hc
  | binding name ty init isMutable comptime =>
    obtain rfl := (Prod.mk.inj (Except.ok.inj h)).2
    exact .binding ⟨name, b.span, none, .var { ty, isMutable, comptime }⟩ rfl rfl rfl
  | assign target value | exprStmt e | ret value | ifChain arms otherwise | staticIf cond body otherwise
  | whileLoop cond body | blockStmt body =>
    obtain rfl := (Prod.mk.inj (Except.ok.inj h)).2
    exact change_addPlainStmt b rfl
  | switch scrutinee arms =>
    obtain rfl := (Prod.mk.inj (Except.ok.inj h)).2
    have harms := source_makeArms b arms
    rw [← harms]
    exact change_addPlainStmt _ rfl
  | setSpan span | typeExpr shape | expr shape | callName name typeArgs args | block stmts =>
    obtain rfl := (Prod.mk.inj (Except.ok.inj h)).2
    exact .other rfl rfl rfl rfl

theorem run_induction {P : Source → Prop} (hchange : ∀ src src', Change src src' → P src → P src')
    (hb : P b.source) {steps : List BuildStep} {results : List BuildResult} (h : b.run steps = .ok (results, b')) :
    P b'.source := by
  induction steps generalizing b results with
  | nil =>
    obtain rfl := (Prod.mk.inj (Except.ok.inj h)).2
    exact hb
  | cons step steps ih =>
    unfold run at h
    split at h
    · simp at h
    · rename_i result c hstep
      split at h
      · simp at h
      · rename_i results' c' hrun
        obtain rfl := (Prod.mk.inj (Except.ok.inj h)).2
        exact ih (hchange _ _ (change_step hstep) hb) hrun

end Builder

end Linkage
