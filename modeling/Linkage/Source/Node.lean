import Linkage.Binary64
import Linkage.NodeId
import Linkage.Span

/-!
# Shapes of nodes

The shape of a node says what it is and which parts it has. Shapes leave open what stands for a
part: in the stores of a source unit it is an identifier, in a tree it is the part itself. The
functions that map a shape's parts turn one into the other.
-/

namespace Linkage

inductive UnaryOp where
  | neg
  | not
  deriving DecidableEq, Repr, Inhabited

inductive BinaryOp where
  | add
  | sub
  | mul
  | div
  | rem
  | eq
  | ne
  | lt
  | le
  | gt
  | ge
  | and
  | or
  deriving DecidableEq, Repr, Inhabited

namespace BinaryOp

def isComparison : BinaryOp → Bool
  | .eq | .ne | .lt | .le | .gt | .ge => true
  | _ => false

def isLogical : BinaryOp → Bool
  | .and | .or => true
  | _ => false

/-- How the operator is written in source code. -/
def symbol : BinaryOp → String
  | .add => "+"
  | .sub => "-"
  | .mul => "*"
  | .div => "/"
  | .rem => "%"
  | .eq => "=="
  | .ne => "!="
  | .lt => "<"
  | .le => "<="
  | .gt => ">"
  | .ge => ">="
  | .and => "&&"
  | .or => "||"

end BinaryOp

/-- A type annotation as written, with parts `τ`. -/
inductive TypeShape (τ : Type) where
  /-- A possibly qualified name with generic arguments. -/
  | named (path : List String) (args : List τ)
  | pointer (inner : τ)
  | reference (inner : τ)
  | array (elem : τ) (len : Option Nat)
  | function (params : List τ) (ret : τ)
  deriving DecidableEq, Repr, Inhabited

def TypeShape.map {τ τ' : Type} (f : τ → τ') : TypeShape τ → TypeShape τ'
  | .named path args => .named path (args.map f)
  | .pointer inner => .pointer (f inner)
  | .reference inner => .reference (f inner)
  | .array elem len => .array (f elem) len
  | .function params ret => .function (params.map f) (f ret)

/-- The parts of an annotation, from left to right. -/
def TypeShape.parts {τ : Type} : TypeShape τ → List τ
  | .named _ args => args
  | .pointer inner => [inner]
  | .reference inner => [inner]
  | .array elem _ => [elem]
  | .function params ret => params ++ [ret]

theorem TypeShape.map_congr {τ τ' : Type} {f g : τ → τ'} {shape : TypeShape τ}
    (h : ∀ t ∈ shape.parts, f t = g t) : shape.map f = shape.map g := by
  cases shape with
  | named path args => simpa [map, parts] using h
  | pointer inner => simpa [map, parts] using h
  | reference inner => simpa [map, parts] using h
  | array elem len => simpa [map, parts] using h
  | function params ret =>
    simp only [parts, List.mem_append, List.mem_singleton] at h
    simp only [map, function.injEq]
    exact ⟨List.map_congr_left fun t ht => h t (.inl ht), h ret (.inr rfl)⟩

/-- An expression with parts `ε` and annotations `τ`. -/
inductive ExprShape (ε τ : Type) where
  | intLit (value : Int)
  | floatLit (value : Binary64)
  | strLit (value : String)
  | boolLit (value : Bool)
  | name (text : String)
  | path (segments : List String)
  | call (callee : ε) (typeArgs : List τ) (args : List ε)
  /-- A struct literal: an annotation that names the struct, and its fields. -/
  | construct (ty : τ) (fields : List (String × ε))
  | member (base : ε) (field : String)
  | addressOf (place : ε)
  | unary (op : UnaryOp) (operand : ε)
  | binary (op : BinaryOp) (lhs rhs : ε)
  deriving DecidableEq, Repr, Inhabited

def ExprShape.map {ε ε' τ τ' : Type} (f : ε → ε') (g : τ → τ') : ExprShape ε τ → ExprShape ε' τ'
  | .intLit value => .intLit value
  | .floatLit value => .floatLit value
  | .strLit value => .strLit value
  | .boolLit value => .boolLit value
  | .name text => .name text
  | .path segments => .path segments
  | .call callee typeArgs args => .call (f callee) (typeArgs.map g) (args.map f)
  | .construct ty fields => .construct (g ty) (fields.map fun (label, value) => (label, f value))
  | .member base field => .member (f base) field
  | .addressOf place => .addressOf (f place)
  | .unary op operand => .unary op (f operand)
  | .binary op lhs rhs => .binary op (f lhs) (f rhs)

/-- The expressions that an expression is made of, from left to right. -/
def ExprShape.parts {ε τ : Type} : ExprShape ε τ → List ε
  | .call callee _ args => callee :: args
  | .construct _ fields => fields.map (·.2)
  | .member base _ => [base]
  | .addressOf place => [place]
  | .unary _ operand => [operand]
  | .binary _ lhs rhs => [lhs, rhs]
  | .intLit _ | .floatLit _ | .strLit _ | .boolLit _ | .name _ | .path _ => []

theorem ExprShape.map_congr {ε ε' τ τ' : Type} {f f' : ε → ε'} {g : τ → τ'} {shape : ExprShape ε τ}
    (h : ∀ e ∈ shape.parts, f e = f' e) : shape.map f g = shape.map f' g := by
  cases shape with
  | call callee typeArgs args =>
    simp only [parts, List.mem_cons] at h
    simp only [map, call.injEq, true_and]
    exact ⟨h callee (.inl rfl), List.map_congr_left fun e he => h e (.inr he)⟩
  | construct ty fields =>
    simp only [map, construct.injEq, true_and]
    refine List.map_congr_left fun field hfield => ?_
    rw [h field.2 (List.mem_map_of_mem hfield)]
  | member base field => simp [map, h base (by simp [parts])]
  | addressOf place => simp [map, h place (by simp [parts])]
  | unary op operand => simp [map, h operand (by simp [parts])]
  | binary op lhs rhs => simp [map, h lhs (by simp [parts]), h rhs (by simp [parts])]
  | _ => rfl

/-- An arm of a switch, with parts `ε` and blocks `β`. -/
structure SwitchCase (ε β : Type) where
  span : Span
  values : List ε
  body : β
  isDefault : Bool
  deriving DecidableEq, Repr, Inhabited

def SwitchCase.map {ε ε' β β' : Type} (f : ε → ε') (g : β → β') (c : SwitchCase ε β) : SwitchCase ε' β' :=
  { span := c.span, values := c.values.map f, body := g c.body, isDefault := c.isDefault }

/-- A statement with expressions `ε` and blocks `β`. -/
inductive StmtShape (ε β : Type) where
  /-- A local binding. The declaration it introduces is a variable. -/
  | binding (decl : DeclId) (init : Option ε)
  | assign (target value : ε)
  | expr (e : ε)
  | ret (value : Option ε)
  /-- Conditions with their blocks, tried in order, and the block for when none holds. -/
  | ifChain (arms : List (ε × β)) (otherwise : Option β)
  /-- A condition that is evaluated while linking where that is possible. -/
  | staticIf (cond : ε) (body : β) (otherwise : Option β)
  | switch (scrutinee : ε) (cases : List (SwitchCase ε β))
  | whileLoop (cond : ε) (body : β)
  | block (body : β)
  deriving DecidableEq, Repr, Inhabited

def StmtShape.map {ε ε' β β' : Type} (f : ε → ε') (g : β → β') : StmtShape ε β → StmtShape ε' β'
  | .binding decl init => .binding decl (init.map f)
  | .assign target value => .assign (f target) (f value)
  | .expr e => .expr (f e)
  | .ret value => .ret (value.map f)
  | .ifChain arms otherwise => .ifChain (arms.map fun (cond, body) => (f cond, g body)) (otherwise.map g)
  | .staticIf cond body otherwise => .staticIf (f cond) (g body) (otherwise.map g)
  | .switch scrutinee cases => .switch (f scrutinee) (cases.map (·.map f g))
  | .whileLoop cond body => .whileLoop (f cond) (g body)
  | .block body => .block (g body)

def StmtShape.blocks {ε β : Type} : StmtShape ε β → List β
  | .ifChain arms otherwise => arms.map (·.2) ++ otherwise.toList
  | .staticIf _ body otherwise => body :: otherwise.toList
  | .switch _ cases => cases.map (·.body)
  | .whileLoop _ body => [body]
  | .block body => [body]
  | .binding _ _ | .assign _ _ | .expr _ | .ret _ => []

theorem StmtShape.map_congr {ε ε' β β' : Type} {f : ε → ε'} {g g' : β → β'} {shape : StmtShape ε β}
    (h : ∀ b ∈ shape.blocks, g b = g' b) : shape.map f g = shape.map f g' := by
  have option : ∀ {o : Option β}, (∀ b ∈ o.toList, g b = g' b) → o.map g = o.map g' := by
    intro o ho
    cases o with
    | none => rfl
    | some b => simp [ho b (by simp)]
  cases shape with
  | ifChain arms otherwise =>
    simp only [blocks, List.mem_append] at h
    simp only [map, ifChain.injEq]
    refine ⟨List.map_congr_left fun arm harm => ?_, option fun b hb => h b (.inr hb)⟩
    rw [h arm.2 (.inl (List.mem_map_of_mem harm))]
  | staticIf cond body otherwise =>
    simp only [blocks, List.mem_cons] at h
    simp only [map, staticIf.injEq, true_and]
    exact ⟨h body (.inl rfl), option fun b hb => h b (.inr hb)⟩
  | switch scrutinee cases =>
    simp only [map, switch.injEq, true_and]
    refine List.map_congr_left fun c hc => ?_
    rw [SwitchCase.map, SwitchCase.map, h c.body (List.mem_map_of_mem hc)]
  | whileLoop cond body => simp [map, h body (by simp [blocks])]
  | block body => simp [map, h body (by simp [blocks])]
  | _ => rfl

end Linkage
