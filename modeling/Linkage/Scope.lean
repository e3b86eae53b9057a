import Linkage.NodeId
import Linkage.Table

/-!
# Lexical scopes

A scope stack is a root frame that is never closed and the frames opened inside it, innermost first.
A name is bound in the innermost frame, where it replaces an earlier binding of that frame, and is
looked up from the innermost frame outward. Members of a namespace are kept apart from the stack,
one frame per namespace, and become visible by opening that frame.
-/

namespace Linkage

abbrev Frame := Table String DeclId

structure ScopeStack where
  root : Frame := {}
  inner : List Frame := []
  deriving Repr, Inhabited

namespace ScopeStack

def frames (s : ScopeStack) : List Frame := s.inner ++ [s.root]

/-- The number of open frames, the root included. -/
def depth (s : ScopeStack) : Nat := s.inner.length + 1

def innermost (s : ScopeStack) : Frame := s.inner.headD s.root

def find? (s : ScopeStack) (name : String) : Option DeclId := s.frames.findSome? (·.get? name)

def findInnermost? (s : ScopeStack) (name : String) : Option DeclId := s.innermost.get? name

def declare (s : ScopeStack) (name : String) (decl : DeclId) : ScopeStack :=
  match s.inner with
  | [] => { s with root := s.root.insert name decl }
  | frame :: outer => { s with inner := frame.insert name decl :: outer }

def push (s : ScopeStack) (frame : Frame) : ScopeStack := { s with inner := frame :: s.inner }

/-- Close the innermost frame. The root stays. -/
def pop (s : ScopeStack) : ScopeStack := { s with inner := s.inner.tail }

@[simp] theorem pop_push (s : ScopeStack) (frame : Frame) : (s.push frame).pop = s := rfl

@[simp] theorem depth_push (s : ScopeStack) (frame : Frame) : (s.push frame).depth = s.depth + 1 := rfl

@[simp] theorem depth_declare (s : ScopeStack) (name : String) (decl : DeclId) :
    (s.declare name decl).depth = s.depth := by
  cases h : s.inner <;> simp [declare, depth, h]

theorem find?_push (s : ScopeStack) (frame : Frame) (name : String) :
    (s.push frame).find? name = (frame.get? name).or (s.find? name) := by
  cases h : frame.get? name <;> simp [find?, frames, push, h]

theorem find?_declare_self (s : ScopeStack) (name : String) (decl : DeclId) :
    (s.declare name decl).find? name = some decl := by
  cases h : s.inner <;> simp [find?, frames, declare, h]

theorem find?_declare_of_ne (s : ScopeStack) {name other : String} (decl : DeclId) (h : name ≠ other) :
    (s.declare name decl).find? other = s.find? other := by
  cases hs : s.inner <;>
    simp [find?, frames, declare, hs, List.findSome?_cons, Table.get?_insert_of_ne _ _ h]

end ScopeStack

structure Namespaces where
  members : Table DeclId Frame := {}
  deriving Repr, Inhabited

namespace Namespaces

def frame? (n : Namespaces) (space : DeclId) : Option Frame := n.members.get? space

def find? (n : Namespaces) (space : DeclId) (name : String) : Option DeclId :=
  (n.frame? space).bind (·.get? name)

def declare (n : Namespaces) (space : DeclId) (name : String) (decl : DeclId) : Namespaces :=
  ⟨n.members.insert space (((n.frame? space).getD {}).insert name decl)⟩

theorem find?_declare_self (n : Namespaces) (space : DeclId) (name : String) (decl : DeclId) :
    (n.declare space name decl).find? space name = some decl := by
  simp [find?, frame?, declare]

end Namespaces

end Linkage
