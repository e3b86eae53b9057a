/-!
# Node identifiers

A source unit keeps its nodes in numbered stores, one per kind of node, and the linked program
numbers iterations and subscriptions the same way. An identifier is an index tagged with the kind of
store it points into, so that an index into one store is never taken for an index into another.
-/

namespace Linkage

inductive NodeKind where
  | decl
  | expr
  | stmt
  | block
  | typeExpr
  | generic
  | iteration
  | subscription
  deriving DecidableEq, Repr, Inhabited

/-- The word that stands before the index when an identifier is written out. -/
def NodeKind.label : NodeKind → String
  | .decl => "decl"
  | .expr => "expr"
  | .stmt => "stmt"
  | .block => "block"
  | .typeExpr => "tyexpr"
  | .generic => "generic"
  | .iteration => "iter"
  | .subscription => "sub"

structure NodeId (kind : NodeKind) where
  index : Nat
  deriving DecidableEq, Repr, Inhabited

abbrev DeclId := NodeId .decl
abbrev ExprId := NodeId .expr
abbrev StmtId := NodeId .stmt
abbrev BlockId := NodeId .block
abbrev TypeExprId := NodeId .typeExpr
abbrev GenericId := NodeId .generic
abbrev IterationId := NodeId .iteration
abbrev SubscriptionId := NodeId .subscription

structure NodeRef where
  kind : NodeKind
  index : Nat
  deriving DecidableEq, Repr, Inhabited

namespace NodeId

variable {kind : NodeKind}

def ref (id : NodeId kind) : NodeRef := ⟨kind, id.index⟩

def text (id : NodeId kind) : String := kind.label ++ id.index.repr

def get? {α : Type} (id : NodeId kind) (store : List α) : Option α := store[id.index]?

/-- The identifier that the next node appended to the store receives. -/
def next {α : Type} (store : List α) : NodeId kind := ⟨store.length⟩

@[simp] theorem get?_next {α : Type} (store : List α) (a : α) :
    (next store : NodeId kind).get? (store ++ [a]) = some a := by
  simp [get?, next]

theorem get?_append_of_some {α : Type} {id : NodeId kind} {store : List α} {a : α}
    (h : id.get? store = some a) (more : List α) : id.get? (store ++ more) = some a := by
  obtain ⟨hlt, rfl⟩ := List.getElem?_eq_some_iff.1 h
  simp [get?, List.getElem?_append_left hlt]

end NodeId

end Linkage
