import Linkage.Diagnostic

/-!
# Problems found while linking

Every mistake in source code that linking can find, with what is needed to word it. The wording, the
kind and the phase of each are fixed here.
-/

namespace Linkage

inductive Problem where
  | notInterface (ty : String)
  | noDestructor (name owner : String)
  | duplicateFunction (name : String)
  | builtinApplied (path : String)
  | unresolvedType (path : String)
  | parameterApplied (path : String)
  | notType (path : String)
  /-- More generic arguments than parameters in an annotation. -/
  | annotationTypeArgs (name : String) (taken supplied : Nat)
  | missingTypeArg (param owner : String)
  | boundViolated (arg bound param : String)
  | unresolvedName (path : String)
  | genericValue (path : String)
  | namespaceValue (path : String)
  | typeValue (path : String)
  | movedValue (place movedAt : String)
  | unknownMember (field ty : String)
  | noMembers (ty field : String)
  | unaryOperand (symbol ty : String)
  | logicalOperand (symbol ty : String)
  | binaryOperands (symbol lhs rhs : String)
  | argumentCount (name : String) (taken supplied : Nat)
  | valueArgumentCount (ty : String) (taken supplied : Nat)
  | notCallable (ty : String)
  | notGeneric (name : String)
  | literalOfNoName
  | notStruct (path : String)
  | unknownField (field struct : String)
  | missingField (field struct : String)
  /-- More generic arguments than parameters in a call or a struct literal. -/
  | callTypeArgs (name : String) (taken supplied : Nat)
  | notInferred (param owner : String)
  | undroppable (name ty : String)
  | untypedVariable (name : String)
  | missingResult (ty : String)
  | wrongResult (expected found : String)
  | staticCondition (found : String)
  | secondDefault
  | wrongCase (found expected : String)
  | wrongCondition (found : String)
  | mismatch (expected found : String)
  deriving DecidableEq, Repr, Inhabited

namespace Problem

def kind : Problem → DiagnosticKind
  | .noDestructor _ _ | .unresolvedType _ | .notType _ | .unresolvedName _ | .unknownMember _ _
  | .unknownField _ _ => .unresolvedSymbol
  | .missingTypeArg _ _ | .genericValue _ | .notInferred _ _ | .untypedVariable _ => .inferenceFailure
  | .movedValue _ _ => .useAfterMove
  | .duplicateFunction _ | .secondDefault => .structuralAmbiguity
  | .undroppable _ _ => .missingDestructor
  | .notInterface _ | .builtinApplied _ | .parameterApplied _ | .annotationTypeArgs _ _ _
  | .boundViolated _ _ _ | .namespaceValue _ | .typeValue _ | .noMembers _ _ | .unaryOperand _ _
  | .logicalOperand _ _ | .binaryOperands _ _ _ | .argumentCount _ _ _ | .valueArgumentCount _ _ _
  | .notCallable _ | .notGeneric _ | .literalOfNoName | .notStruct _ | .missingField _ _
  | .callTypeArgs _ _ _ | .missingResult _ | .wrongResult _ _ | .staticCondition _ | .wrongCase _ _
  | .wrongCondition _ | .mismatch _ _ => .typeMismatch

def phase : Problem → Phase
  | .notInterface _ | .noDestructor _ _ | .duplicateFunction _ => .declaration
  | .builtinApplied _ | .unresolvedType _ | .parameterApplied _ | .notType _
  | .annotationTypeArgs _ _ _ | .unresolvedName _ | .unknownMember _ _ | .notStruct _
  | .unknownField _ _ => .nameResolution
  | .missingTypeArg _ _ | .genericValue _ | .callTypeArgs _ _ _ | .notInferred _ _
  | .untypedVariable _ => .inference
  | .movedValue _ _ | .undroppable _ _ => .moveChecking
  | .boundViolated _ _ _ | .namespaceValue _ | .typeValue _ | .noMembers _ _ | .unaryOperand _ _
  | .logicalOperand _ _ | .binaryOperands _ _ _ | .argumentCount _ _ _ | .valueArgumentCount _ _ _
  | .notCallable _ | .notGeneric _ | .literalOfNoName | .missingField _ _ | .missingResult _
  | .wrongResult _ _ | .staticCondition _ | .secondDefault | .wrongCase _ _ | .wrongCondition _
  | .mismatch _ _ => .typeChecking

/-- A piece of source code inside a message. -/
def code (s : String) : String := "`" ++ s ++ "`"

/-- A number of things. -/
def counted (n : Nat) (thing : String) : String := n.repr ++ " " ++ thing ++ if n = 1 then "" else "s"

def supplied (taken : String) (n : Nat) : String := taken ++ " but " ++ n.repr ++ " were supplied"

def message : Problem → String
  | .notInterface ty => code ty ++ " is not an interface"
  | .noDestructor name owner =>
    "destructor " ++ code name ++ " of " ++ code owner ++ " is not a function in scope"
  | .duplicateFunction name => "duplicate definition of " ++ code name ++ " with the same parameter types"
  | .builtinApplied path => "builtin type " ++ code path ++ " takes no generic arguments"
  | .unresolvedType path => "unresolved type " ++ code path
  | .parameterApplied path => "type parameter " ++ code path ++ " takes no generic arguments"
  | .notType path => code path ++ " does not name a type"
  | .annotationTypeArgs name taken n => supplied (code name ++ " takes " ++ counted taken "generic argument") n
  | .missingTypeArg param owner =>
    "missing generic argument for parameter " ++ code param ++ " of " ++ code owner
  | .boundViolated arg bound param =>
    code arg ++ " does not satisfy the bound " ++ code bound ++ " of " ++ code param
  | .unresolvedName path => "unresolved name " ++ code path
  | .genericValue path => "cannot infer generic arguments of " ++ code path ++ " used as a value"
  | .namespaceValue path => code path ++ " is a namespace, not a value"
  | .typeValue path => code path ++ " is a type, not a value"
  | .movedValue place movedAt => "use of moved value " ++ code place ++ " (moved at " ++ movedAt ++ ")"
  | .unknownMember field ty => "no field " ++ code field ++ " on " ++ code ty
  | .noMembers ty field => "type " ++ code ty ++ " has no field " ++ code field
  | .unaryOperand symbol ty => "cannot apply " ++ code symbol ++ " to " ++ code ty
  | .logicalOperand symbol ty => "operand of " ++ code symbol ++ " must be `bool`, found " ++ code ty
  | .binaryOperands symbol lhs rhs =>
    "cannot apply " ++ code symbol ++ " to " ++ code lhs ++ " and " ++ code rhs
  | .argumentCount name taken n => supplied (code name ++ " takes " ++ counted taken "argument") n
  | .valueArgumentCount ty taken n => supplied (code ty ++ " takes " ++ taken.repr ++ " arguments") n
  | .notCallable ty => "expression of type " ++ code ty ++ " is not callable"
  | .notGeneric name => code name ++ " is not generic"
  | .literalOfNoName => "struct literal must name a struct"
  | .notStruct path => code path ++ " is not a struct"
  | .unknownField field struct => "no field " ++ code field ++ " in struct " ++ code struct
  | .missingField field struct => "missing field " ++ code field ++ " in " ++ code struct ++ " literal"
  | .callTypeArgs name taken n => supplied (code name ++ " takes " ++ counted taken "generic argument") n
  | .notInferred param owner =>
    "could not infer generic argument for parameter " ++ code param ++ " of " ++ code owner
  | .undroppable name ty =>
    code name ++ " of owned type " ++ code ty ++ " leaves scope but " ++ code ty ++ " has no destructor"
  | .untypedVariable name => "cannot infer the type of " ++ code name ++ " without a type or initializer"
  | .missingResult ty => "missing return value of type " ++ code ty
  | .wrongResult expected found => "expected return type " ++ code expected ++ ", found " ++ code found
  | .staticCondition found => "`static if` condition must evaluate to a `bool`, found " ++ code found
  | .secondDefault => "multiple `default` cases in switch"
  | .wrongCase found expected =>
    "case value of type " ++ code found ++ " does not match switch type " ++ code expected
  | .wrongCondition found => "condition must be `bool`, found " ++ code found
  | .mismatch expected found => "expected " ++ code expected ++ ", found " ++ code found

def diagnostic (p : Problem) (span : Span) : Diagnostic :=
  { kind := p.kind, phase := p.phase, severity := .error, span, message := p.message }

end Problem

end Linkage
