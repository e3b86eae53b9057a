import Linkage.Source.Basic
import Linkage.Ty.Basic

/-!
# Types in source notation

A type is shown the way source code would write it, with the names of the declarations and generic
parameters that it refers to. A reference that leads nowhere cannot be shown.
-/

namespace Linkage

namespace Source

def declName (src : Source) (id : DeclId) : Except NodeRef String :=
  match src.decl? id with
  | some d => .ok d.name
  | none => .error id.ref

def genericName (src : Source) (id : GenericId) : Except NodeRef String :=
  match src.generic? id with
  | some g => .ok g.name
  | none => .error id.ref

mutual
def showTy (src : Source) : Ty → Except NodeRef String
  | .prim p => .ok p.text
  | .literal .int => .ok "\x7binteger\x7d"
  | .literal .float => .ok "\x7bfloat\x7d"
  | .literal .str => .ok "\x7bstring\x7d"
  | .param g => src.genericName g
  | .linked decl [] => src.declName decl
  | .linked decl (arg :: args) => do
    let name ← src.declName decl
    let arg ← src.showTy arg
    let args ← src.showTys args
    return name ++ "<" ++ ", ".intercalate (arg :: args) ++ ">"
  | .pointer inner => do return "*" ++ (← src.showTy inner)
  | .reference inner => do return "&" ++ (← src.showTy inner)
  | .array elem none => do return "[" ++ (← src.showTy elem) ++ "]"
  | .array elem (some len) => do return "[" ++ (← src.showTy elem) ++ "; " ++ len.repr ++ "]"
  | .function params ret => do
    let params ← src.showTys params
    let ret ← src.showTy ret
    return "fn(" ++ ", ".intercalate params ++ ") -> " ++ ret
  | .unknown => .ok "?"
def showTys (src : Source) : List Ty → Except NodeRef (List String)
  | [] => .ok []
  | t :: ts => do
    let t ← src.showTy t
    let ts ← src.showTys ts
    return t :: ts
end

end Source

end Linkage
