import Linkage.Span

/-!
# Diagnostics

What is told to the user about a source unit. A diagnostic never stops the work: it is written down
in the order in which it was found. Its text names the severity, the phase of work that found it,
the span it belongs to and the message.
-/

namespace Linkage

inductive Severity where
  | error
  | warning
  | info
  deriving DecidableEq, Repr, Inhabited

def Severity.text : Severity → String
  | .error => "ERROR"
  | .warning => "WARNING"
  | .info => "INFO"

inductive Phase where
  | declaration
  | nameResolution
  | instantiation
  | inference
  | typeChecking
  | moveChecking
  deriving DecidableEq, Repr, Inhabited

def Phase.text : Phase → String
  | .declaration => "Declaration"
  | .nameResolution => "NameResolution"
  | .instantiation => "Instantiation"
  | .inference => "Inference"
  | .typeChecking => "TypeChecking"
  | .moveChecking => "MoveChecking"

inductive DiagnosticKind where
  | unresolvedSymbol
  | inferenceFailure
  | typeMismatch
  | useAfterMove
  | structuralAmbiguity
  | instantiationLimit
  | missingDestructor
  deriving DecidableEq, Repr, Inhabited

def DiagnosticKind.text : DiagnosticKind → String
  | .unresolvedSymbol => "UnresolvedSymbol"
  | .inferenceFailure => "InferenceFailure"
  | .typeMismatch => "TypeMismatch"
  | .useAfterMove => "UseAfterMove"
  | .structuralAmbiguity => "StructuralAmbiguity"
  | .instantiationLimit => "InstantiationLimit"
  | .missingDestructor => "MissingDestructor"

structure Diagnostic where
  kind : DiagnosticKind
  phase : Phase
  severity : Severity
  span : Span
  message : String
  deriving DecidableEq, Repr, Inhabited

namespace Diagnostic

def isError (d : Diagnostic) : Bool := d.severity == .error

def text (d : Diagnostic) : String :=
  d.severity.text ++ " [" ++ d.phase.text ++ "] " ++ d.span.text ++ ": " ++ d.message

end Diagnostic

end Linkage
