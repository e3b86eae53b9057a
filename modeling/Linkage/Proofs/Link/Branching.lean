import Linkage.Proofs.Link.Run
import Linkage.Proofs.Source.Trees

/-!
# What linking a statement is made of

A statement is linked part by part: its conditions and values, then its blocks, with the start and the end of every
arm noted in between. So a property of actions that carries over to actions one after the other holds of a statement
if it holds of the parts.
-/

namespace Linkage

def StmtShape.isSimple {ε β : Type} : StmtShape ε β → Bool
  | .binding _ _ | .assign _ _ | .expr _ | .ret _ => true
  | _ => false

namespace Link

/-- The property carries over to actions one after the other, and what is noted between the arms of a branch has it. -/
structure Branching (T : (α : Type) → LinkM α → Prop) : Prop extends Compound T where
  report : ∀ span p, T Unit (report span p)
  mark : ∀ m, T Unit (mark m)
  beginBranch : T Branch beginBranch
  endArm : ∀ branch, T Branch (endArm branch)
  endBranch : ∀ branch exhaustive, T Unit (endBranch branch exhaustive)
  decided : ∀ (id : StmtId) taken,
    T Unit (modify fun s => { s with program.branches := s.program.branches.insert id taken })

namespace Branching

variable {T : (α : Type) → LinkM α → Prop} (h : Branching T) {body : Body}

include h

theorem linkStmts {stmts : List Stmt} (hstmts : ∀ s ∈ stmts, T Unit (linkStmt body s)) :
    T Unit (linkStmts body stmts) := by
  induction stmts with
  | nil =>
    rw [Link.linkStmts]
    exact h.pure _
  | cons stmt stmts ih =>
    obtain ⟨hfirst, hrest⟩ := List.forall_mem_cons.1 hstmts
    rw [Link.linkStmts]
    exact h.bind hfirst fun _ => ih hrest

theorem linkArms {arms : List (Expr × Block)} (harms : ∀ b ∈ arms.map (·.2), T Unit (linkBlock body b))
    (branch : Branch) : T Branch (linkArms body branch arms) := by
  induction arms generalizing branch with
  | nil =>
    rw [Link.linkArms]
    exact h.pure _
  | cons arm arms ih =>
    obtain ⟨hfirst, hrest⟩ := List.forall_mem_cons.1 harms
    rw [Link.linkArms]
    exact h.bind hfirst fun _ => h.bind (h.endArm branch) fun branch => ih hrest branch

theorem linkOtherwise {otherwise : Option Block} (hblock : ∀ b ∈ otherwise.toList, T Unit (linkBlock body b))
    (branch : Branch) : T Branch (linkOtherwise body branch otherwise) := by
  cases otherwise with
  | none =>
    rw [Link.linkOtherwise]
    exact h.pure _
  | some b =>
    rw [Link.linkOtherwise]
    exact h.bind (hblock b (by simp)) fun _ => h.endArm branch

theorem linkElse {otherwise : Option Block} (hblock : ∀ b ∈ otherwise.toList, T Unit (linkBlock body b)) :
    T Unit (linkElse body otherwise) := by
  cases otherwise with
  | none =>
    rw [Link.linkElse]
    exact h.pure _
  | some b =>
    rw [Link.linkElse]
    exact hblock b (by simp)

theorem linkCases {cases : List (SwitchCase Expr Block)} (hcases : ∀ b ∈ cases.map (·.body), T Unit (linkBlock body b))
    (branch : Branch) (hasDefault : Bool) : T Branch (linkCases body branch hasDefault cases) := by
  induction cases generalizing branch hasDefault with
  | nil =>
    rw [Link.linkCases]
    exact h.pure _
  | cons c cases ih =>
    obtain ⟨hfirst, hrest⟩ := List.forall_mem_cons.1 hcases
    rw [Link.linkCases]
    split
    · exact ih hrest branch hasDefault
    · exact h.bind hfirst fun _ => h.bind (h.endArm branch) fun branch => ih hrest branch _

theorem linkTest {cond : Expr} (hcond : T Unit (linkCond body cond)) : T Unit (linkTest body cond) :=
  h.bind hcond fun _ => h.mark _

theorem linkBoth {first : LinkM Unit} {other : Branch → LinkM Branch} (hfirst : T Unit first)
    (hother : ∀ branch, T Branch (other branch)) (exhaustive : Bool) : T Unit (linkBoth first other exhaustive) := by
  refine h.bind (h.mark _) fun _ => h.bind h.beginBranch fun branch => h.bind hfirst fun _ => ?_
  refine h.bind (h.endArm branch) fun branch => h.bind (hother branch) fun branch => ?_
  exact h.endBranch branch exhaustive

theorem linkStmtShape {id : StmtId} {span : Span} {shape : StmtShape Expr Block}
    (hsimple : shape.isSimple = true → T Unit (linkStmtShape body id span shape))
    (hcond : ∀ e ∈ shape.exprs, T Unit (linkCond body e)) (hvalue : ∀ e ∈ shape.exprs, T (Option Constant) (evaluate e))
    (hvalues : ∀ scrutinee cases, shape = .switch scrutinee cases → T Bool (do
      let ty ← linkExpr body none .read scrutinee
      linkCaseValues body ty.concrete false cases))
    (hblocks : ∀ b ∈ shape.blocks, T Unit (linkBlock body b)) : T Unit (linkStmtShape body id span shape) := by
  cases shape with
  | binding | assign | expr | ret => exact hsimple rfl
  | ifChain arms otherwise =>
    obtain ⟨harms, hotherwise⟩ := List.forall_mem_append.1 hblocks
    rw [Link.linkStmtShape]
    refine h.bind (h.mark _) fun _ => h.bind (h.forM fun arm harm => ?_) fun _ => ?_
    · exact h.linkTest (hcond arm.1 (List.mem_map_of_mem harm))
    refine h.bind h.beginBranch fun branch => h.bind (h.linkArms harms branch) fun branch => ?_
    exact h.bind (h.linkOtherwise hotherwise branch) fun branch => h.endBranch branch _
  | staticIf cond first otherwise =>
    obtain ⟨hfirst, hotherwise⟩ := List.forall_mem_cons.1 hblocks
    rw [Link.linkStmtShape]
    refine h.bind (hcond cond List.mem_cons_self) fun _ => h.bind (hvalue cond List.mem_cons_self) fun value => ?_
    split
    · refine h.bind (h.decided id _) fun _ => ?_
      split
      · exact hfirst
      · exact h.linkElse hotherwise
    · dsimp only
      split
      · exact h.bind (h.report _ _) fun _ => h.linkBoth hfirst (h.linkOtherwise hotherwise) _
      · exact h.linkBoth hfirst (h.linkOtherwise hotherwise) _
  | switch scrutinee cases =>
    have hcases := h.bind (hvalues scrutinee cases rfl) fun hasDefault => h.bind (h.mark .fork) fun _ =>
      h.bind h.beginBranch fun branch => h.bind (h.linkCases hblocks branch false) fun branch =>
        h.endBranch branch hasDefault
    rw [Link.linkStmtShape]
    simpa only [bind_assoc] using hcases
  | whileLoop cond inner =>
    rw [Link.linkStmtShape]
    refine h.bind (h.mark _) fun _ => h.bind (h.linkTest (hcond cond List.mem_cons_self)) fun _ => ?_
    refine h.bind h.beginBranch fun branch => h.bind (hblocks inner List.mem_cons_self) fun _ => ?_
    exact h.bind (h.endArm branch) fun branch => h.endBranch branch _
  | block inner =>
    rw [Link.linkStmtShape]
    exact hblocks inner List.mem_cons_self

end Branching

end Link

end Linkage
