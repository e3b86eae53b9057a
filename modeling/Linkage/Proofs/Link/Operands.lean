import Linkage.Proofs.Link.Outcome
import Linkage.Proofs.Link.Surroundings
import Linkage.Proofs.Ty.Satisfaction

/-!
# Operands and the result of arithmetic

An operation is accepted if one of its operands fits the other. The type of the result goes by another rule: it is the
type of the second operand if the first is a literal, and the type of the first operand in all other cases. So the
first operand always fits the result. The second one does if it fits the first, or if the first is a literal: a
literal accepts nothing that does not accept it in turn.
-/

namespace Linkage

def BinaryOp.isArithmetic : BinaryOp → Bool
  | .add | .sub | .mul | .div | .rem => true
  | _ => false

theorem BinaryOp.not_logical_of_arithmetic {op : BinaryOp} (h : op.isArithmetic = true) :
    op.isLogical = false ∧ op.isComparison = false := by
  cases op <;> first | exact ⟨rfl, rfl⟩ | simp [isArithmetic] at h

namespace TypeEnv

variable {env : TypeEnv} {n : Nat} {a b e : Ty}

theorem lenient_symm (h : env.sameWithin true n a b = some true) : env.sameWithin true n b a = some true := by
  induction n generalizing a b with
  | zero => simp [sameWithin] at h
  | succ n ih =>
    rw [lenient_succ_iff] at h ⊢
    rcases h with heq | hunknown | hparts
    · exact .inl heq.symm
    · exact .inr (.inl hunknown.symm)
    · exact .inr (.inr (hparts.symm fun _ _ => ih))

theorem satisfies_of_lenient (h : env.sameWithin true (env.reach + 1) e a = some true) :
    env.satisfies e a = true := by
  rw [satisfies, satisfiesWithin_succ, h]
  rfl

theorem satisfies_self (env : TypeEnv) (t : Ty) : env.satisfies t t = true :=
  satisfies_of_lenient (by simp [sameWithin])

theorem satisfies_literal {kind : LiteralKind} (h : env.satisfies (.literal kind) a = true) :
    env.satisfies a (.literal kind) = true := by
  refine satisfies_of_lenient (lenient_symm ?_)
  have hexpand : env.expand (.literal kind) = .literal kind := rfl
  rw [satisfies, beq_iff_eq, satisfiesWithin_succ, hexpand] at h
  obtain ⟨same, hsame, h⟩ := Option.bind_eq_some_iff.1 h
  cases same with
  | true => exact hsame
  | false =>
    -- a literal has no alternatives, so only an unknown type is accepted beyond what agrees with it
    have hunknown : env.expand a = .unknown := by
      cases hhead : env.expand a with
      | unknown => rfl
      | _ => simp [hhead, Ty.accepts, tries, Ty.isReference, alternatives] at h
    exact lenient_succ_iff.2 (.inr (.inl (.inr hunknown)))

end TypeEnv

namespace Link

variable {env : LinkEnv} {s s' : LinkState} {op : BinaryOp} {span : Span} {lhs rhs : Expr} {left right ty : Ty}

theorem settleLiteral_reports {e : Expr} {actual expected : Ty} {u : Unit}
    (h : Runs env (settleLiteral e actual expected) s u s') :
    s'.reports = s.reports ∧ s'.signatures = s.signatures := by
  unfold settleLiteral at h
  split at h
  · simp only [runs_bind, runs_typeEnv] at h
    obtain ⟨_, _, ⟨rfl, rfl⟩, h⟩ := h
    split at h
    · obtain rfl := runs_modify.1 h
      exact ⟨rfl, rfl⟩
    · obtain ⟨-, rfl⟩ := runs_pure.1 h
      exact ⟨rfl, rfl⟩
  · obtain ⟨-, rfl⟩ := runs_pure.1 h
    exact ⟨rfl, rfl⟩

/-- An operation whose operands do not fit is reported and has no type. Otherwise nothing is reported, and the result
has the type of one of the operands. -/
theorem checkBinary_cases (hop : op.isArithmetic = true) (hloud : s.quiet = false)
    (h : Runs env (checkBinary op span lhs rhs left right) s ty s') :
    s'.signatures = s.signatures ∧
      ((∃ d : Diagnostic, d.kind = .typeMismatch ∧ d.span = span ∧ s'.reports = s.reports ++ [d]) ∧ ty = .unknown ∨
        s'.reports = s.reports ∧ (s.env.satisfies left right = true ∨ s.env.satisfies right left = true) ∧
          ty = if left.isLiteral then right else left) := by
  obtain ⟨-, hcomparison⟩ := BinaryOp.not_logical_of_arithmetic hop
  simp only [checkBinary, runs_bind, runs_satisfies, hcomparison, Bool.false_eq_true, if_false] at h
  obtain ⟨_, _, ⟨rfl, rfl⟩, _, _, ⟨rfl, rfl⟩, h⟩ := h
  split at h
  · simp only [runs_bind, runs_pure] at h
    obtain ⟨_, s₁, hshow, _, s₂, hshow', _, s₃, hreport, rfl, rfl⟩ := h
    obtain rfl := (looks_showTy left).of_runs hshow
    obtain rfl := (looks_showTy right).of_runs hshow'
    obtain rfl := runs_modify.1 hreport
    rw [hloud, if_neg Bool.false_ne_true]
    exact ⟨rfl, .inl ⟨⟨_, rfl, rfl, rfl⟩, rfl⟩⟩
  · rename_i hfits
    rw [Bool.not_eq_true, Bool.not_eq_false', Bool.or_eq_true] at hfits
    split at h
    · simp only [runs_bind, runs_pure] at h
      obtain ⟨_, s₁, hsettle, rfl, rfl⟩ := h
      obtain ⟨hreports, hsignatures⟩ := settleLiteral_reports hsettle
      exact ⟨hsignatures, .inr ⟨hreports, hfits, rfl⟩⟩
    · simp only [runs_bind, runs_pure] at h
      obtain ⟨_, s₁, hsettle, rfl, rfl⟩ := h
      obtain ⟨hreports, hsignatures⟩ := settleLiteral_reports hsettle
      exact ⟨hsignatures, .inr ⟨hreports, hfits, rfl⟩⟩
    · obtain ⟨rfl, rfl⟩ := runs_pure.1 h
      exact ⟨rfl, .inr ⟨rfl, hfits, rfl⟩⟩

end Link

namespace TypeEnv

/-- Of two operands one of which fits the other, the first fits the type of the result. The second does just if it is
the one that fits, or if the first is a literal. -/
theorem operands_fit {env : TypeEnv} {left right : Ty}
    (h : env.satisfies left right = true ∨ env.satisfies right left = true) :
    env.satisfies (if left.isLiteral then right else left) left = true ∧
      (env.satisfies (if left.isLiteral then right else left) right = true ↔
        left.isLiteral = true ∨ env.satisfies left right = true) := by
  cases hliteral : left.isLiteral with
  | false => simp [env.satisfies_self]
  | true =>
    obtain ⟨kind, rfl⟩ : ∃ kind, left = .literal kind := by
      cases left <;> simp_all [Ty.isLiteral]
    simpa [env.satisfies_self] using h.elim satisfies_literal id

end TypeEnv

open Link

variable {env : LinkEnv} {s s' : LinkState} {op : BinaryOp} {id : ExprId} {span : Span} {lhs rhs : Expr} {ty : Ty}
  {body : Body} {hint : Option Ty} {access : Access}

/-- The result of an arithmetic operation that is not reported has a type that the first operand fits. The second
operand fits it just if it fits the first, or the first is a literal. -/
theorem linkExpr_arithmetic (hop : op.isArithmetic = true) (hloud : s.quiet = false)
    (h : Runs env (linkExpr body hint access (.node id span (.binary op lhs rhs))) s ty s') :
    ∃ left right s₁ s₂, Runs env (linkExpr body hint .read lhs) s left s₁ ∧
      Runs env (linkExpr body (operandHint left) .read rhs) s₁ right s₂ ∧
      ((∃ d : Diagnostic, d.kind = .typeMismatch ∧ d.span = span ∧ s'.reports = s₂.reports ++ [d]) ∧ ty = .unknown ∨
        s'.reports = s₂.reports ∧ s'.env.satisfies ty left = true ∧
          (s'.env.satisfies ty right = true ↔ left.isLiteral = true ∨ s'.env.satisfies left right = true)) := by
  obtain ⟨hlogical, hcomparison⟩ := BinaryOp.not_logical_of_arithmetic hop
  simp only [linkExpr, linkShape, hlogical, hcomparison, Bool.false_eq_true, if_false, recordLinked, recordType,
    runs_bind, runs_pure, runs_modify] at h
  obtain ⟨_, s₃, ⟨left, s₁, hlhs, right, s₂, hrhs, hcheck⟩, _, _, ⟨_, _, rfl, rfl⟩, rfl, rfl⟩ := h
  have hquiet : s₂.quiet = false := by
    rw [((restored_linkExpr _ _ _ _).of_runs hrhs).quiet, ((restored_linkExpr _ _ _ _).of_runs hlhs).quiet, hloud]
  refine ⟨left, right, s₁, s₂, hlhs, hrhs, ?_⟩
  obtain ⟨hsignatures, hrejected | ⟨hreports, hfits, rfl⟩⟩ := checkBinary_cases hop hquiet hcheck
  · exact .inl hrejected
  · have henv : s₃.env = s₂.env := congrArg Signatures.env hsignatures
    refine .inr ⟨hreports, ?_⟩
    show s₃.env.satisfies _ _ = true ∧ (s₃.env.satisfies _ _ = true ↔ _ ∨ s₃.env.satisfies _ _ = true)
    rw [henv]
    exact TypeEnv.operands_fit hfits

/-- `fn main(a: i8, b: int) { a + b; }`. -/
def mixedSum : Setup where
  source := .ofSteps [
    .function "main",
    .typeExpr (.named ["i8"] []),
    .param ⟨0⟩ "a" ⟨0⟩ false,
    .typeExpr (.named ["int"] []),
    .param ⟨0⟩ "b" ⟨1⟩ false,
    .expr (.name "a"),
    .expr (.name "b"),
    .expr (.binary .add ⟨0⟩ ⟨1⟩),
    .exprStmt ⟨2⟩,
    .block [⟨0⟩],
    .body ⟨0⟩ ⟨0⟩]

/-- The other way round, both operands of `b + a` fit the result. -/
theorem arithmetic_mixedSum :
    let s := { mixedSum.declared with scopes := (mixedSum.declared.scopes.declare "a" ⟨1⟩).declare "b" ⟨2⟩ }
    let b : Expr := .node ⟨0⟩ {} (.name "b")
    let a : Expr := .node ⟨1⟩ {} (.name "a")
    let body : Body := { host := none, ret := .void }
    ∃ ty s', Runs mixedSum.linkEnv (linkExpr body none .read (.node ⟨2⟩ {} (.binary .add b a))) s ty s' ∧
      s'.reports = [] ∧ ∃ left right s₁ s₂, Runs mixedSum.linkEnv (linkExpr body none .read b) s left s₁ ∧
        Runs mixedSum.linkEnv (linkExpr body (operandHint left) .read a) s₁ right s₂ ∧
        s'.env.satisfies ty left = true ∧ s'.env.satisfies ty right = true := by
  intro s b a body
  obtain ⟨ty, s', hrun, hreports, hfits⟩ : ∃ ty s',
      Runs mixedSum.linkEnv (linkExpr body none .read (.node ⟨2⟩ {} (.binary .add b a))) s ty s' ∧
        s'.reports = [] ∧ s'.env.satisfies .int (.prim (.int 8 true)) = true :=
    exists_result_of_run (by decide +kernel)
  let operands : LinkM (Ty × Ty) := do
    let left ← linkExpr body none .read b
    let right ← linkExpr body (operandHint left) .read a
    return (left, right)
  obtain ⟨types, t, hoperands, htypes⟩ : ∃ types t, Runs mixedSum.linkEnv operands s types t ∧
      types = (.int, .prim (.int 8 true)) := exists_result_of_run (by decide +kernel)
  obtain ⟨left, right, s₁, s₂, hleft, hright, hcases⟩ := linkExpr_arithmetic rfl (by decide +kernel) hrun
  have hboth : Runs mixedSum.linkEnv operands s (left, right) s₂ :=
    runs_bind.2 ⟨left, s₁, hleft, runs_bind.2 ⟨right, s₂, hright, runs_pure.2 ⟨rfl, rfl⟩⟩⟩
  obtain ⟨rfl, rfl⟩ := Prod.mk.inj ((hboth.unique hoperands).1.trans htypes)
  obtain ⟨⟨d, -, -, hd⟩, -⟩ | ⟨-, hleftFits, hrightFits⟩ := hcases
  · simp [hreports] at hd
  · exact ⟨ty, s', hrun, hreports, _, _, s₁, s₂, hleft, hright, hleftFits, hrightFits.2 (.inr hfits)⟩

/-- The sum `a + b` has the type of `a`, and `b` does not fit it. -/
theorem mixedSum_narrowed : mixedSum.link.reports = [] ∧ ∃ p, mixedSum.link.result = .ok p ∧
    p.exprTypes.get? ⟨0⟩ = some (.prim (.int 8 true)) ∧ p.exprTypes.get? ⟨1⟩ = some .int ∧
      p.exprTypes.get? ⟨2⟩ = some (.prim (.int 8 true)) ∧
        p.signatures.env.satisfies (.prim (.int 8 true)) .int = false :=
  ⟨by decide +kernel, exists_of_result (by decide +kernel)⟩

end Linkage
