import Linkage.Proofs.Source.Wholeness

/-!
# Folding is exact

The value of an expression over whole numbers and truth values can be said without any bound on the numbers.
`Evaluates` says so for the nodes of a unit, and it says where the evaluation fails: at a result that has more than 64
bits, at a divisor that is zero, at the remainder of the least number by `-1`, at operands that the operator does not
take, and at a name that stands for no constant. Folding computes in 64 bits, and finds the value whenever there is
one and nothing whenever the evaluation fails.
-/

namespace Linkage

variable {v : Constant} {t : Expr} {x : ExprId} {n : Int} {op : UnaryOp}

inductive Failure where
  | outOfRange
  | zeroDivisor
  | leastRemainder
  | operandKinds
  | noConstant
  deriving DecidableEq, Repr

/-- A whole number of 64 bits or a truth value. -/
def Constant.Scalar : Constant → Prop
  | .int n => minInt ≤ n ∧ n ≤ maxInt
  | .bool _ => True
  | .float _ | .str _ => False

instance : DecidablePred Constant.Scalar
  | .int n => inferInstanceAs (Decidable (Constant.minInt ≤ n ∧ n ≤ Constant.maxInt))
  | .bool _ => inferInstanceAs (Decidable True)
  | .float _ | .str _ => inferInstanceAs (Decidable False)

/-! ### Operators -/

namespace UnaryOp

/-- The result of an operation, whatever its size. -/
inductive Yields : UnaryOp → Constant → Constant → Prop
  | not (b : Bool) : Yields .not (.bool b) (.bool !b)
  | neg (n : Int) : Yields .neg (.int n) (.int (-n))

def takes : UnaryOp → Constant → Bool
  | .not, .bool _ => true
  | .neg, .int _ => true
  | _, _ => false

inductive Outcome (op : UnaryOp) (a : Constant) : Except Failure Constant → Prop
  | value {v : Constant} (hv : op.Yields a v) (hscalar : v.Scalar) : Outcome op a (.ok v)
  | outOfRange {n : Int} (hn : op.Yields a (.int n)) (hrange : ¬(Constant.minInt ≤ n ∧ n ≤ Constant.maxInt)) :
      Outcome op a (.error .outOfRange)
  | operandKinds (h : op.takes a = false) : Outcome op a (.error .operandKinds)

theorem exists_outcome (op : UnaryOp) (a : Constant) : ∃ r, op.Outcome a r := by
  by_cases htakes : op.takes a = false
  · exact ⟨_, .operandKinds htakes⟩
  cases op with
  | not =>
    cases a with
    | bool b => exact ⟨_, .value (.not b) trivial⟩
    | int _ | float _ | str _ => exact absurd rfl htakes
  | neg =>
    cases a with
    | int n =>
      by_cases hrange : Constant.minInt ≤ -n ∧ -n ≤ Constant.maxInt
      · exact ⟨_, .value (.neg n) hrange⟩
      · exact ⟨_, .outOfRange (.neg n) hrange⟩
    | bool _ | float _ | str _ => exact absurd rfl htakes

theorem fold?_of_outcome {a : Constant} {r : Except Failure Constant} (ha : a.Scalar)
    (h : op.Outcome a r) : op.fold? a = r.toOption := by
  cases h with
  | value hv hscalar =>
    cases hv with
    | not b => rfl
    | neg n => exact if_pos hscalar
  | outOfRange hn hrange =>
    cases hn with
    | neg n => exact if_neg hrange
  | operandKinds htakes => cases op <;> cases a <;> simp_all [takes, fold?, Constant.Scalar, Except.toOption]

theorem Outcome.scalar {a : Constant} (h : op.Outcome a (.ok v)) : v.Scalar := by
  cases h with
  | value _ hscalar => exact hscalar

end UnaryOp

namespace BinaryOp

def compares? : BinaryOp → Int → Int → Option Bool
  | .eq, a, b => some (decide (a = b))
  | .ne, a, b => some (decide (a ≠ b))
  | .lt, a, b => some (decide (a < b))
  | .le, a, b => some (decide (a ≤ b))
  | .gt, a, b => some (decide (b < a))
  | .ge, a, b => some (decide (b ≤ a))
  | _, _, _ => none

/-- The result of an operation, whatever its size. Division truncates, and `false` comes before `true`. -/
inductive Yields : BinaryOp → Constant → Constant → Constant → Prop
  | add (a b : Int) : Yields .add (.int a) (.int b) (.int (a + b))
  | sub (a b : Int) : Yields .sub (.int a) (.int b) (.int (a - b))
  | mul (a b : Int) : Yields .mul (.int a) (.int b) (.int (a * b))
  | div (a : Int) {b : Int} (hb : b ≠ 0) : Yields .div (.int a) (.int b) (.int (a.tdiv b))
  | rem {a b : Int} (hb : b ≠ 0) (hleast : ¬(a = Constant.minInt ∧ b = -1)) :
      Yields .rem (.int a) (.int b) (.int (a.tmod b))
  | compareInts {op : BinaryOp} {a b : Int} {c : Bool} (hc : op.compares? a b = some c) :
      Yields op (.int a) (.int b) (.bool c)
  | compareBools {op : BinaryOp} {a b c : Bool} (hc : op.compares? a.toInt b.toInt = some c) :
      Yields op (.bool a) (.bool b) (.bool c)
  | and (a b : Bool) : Yields .and (.bool a) (.bool b) (.bool (a && b))
  | or (a b : Bool) : Yields .or (.bool a) (.bool b) (.bool (a || b))

def takes (op : BinaryOp) : Constant → Constant → Bool
  | .int _, .int _ => !op.isLogical
  | .bool _, .bool _ => op.isLogical || op.isComparison
  | _, _ => false

inductive Decides : BinaryOp → Constant → Constant → Prop
  | and : Decides .and (.bool false) (.bool false)
  | or : Decides .or (.bool true) (.bool true)

inductive Outcome : BinaryOp → Constant → Constant → Except Failure Constant → Prop
  | value {op : BinaryOp} {a b v : Constant} (hv : op.Yields a b v) (hscalar : v.Scalar) : Outcome op a b (.ok v)
  | outOfRange {op : BinaryOp} {a b : Constant} {n : Int} (hn : op.Yields a b (.int n))
      (hrange : ¬(Constant.minInt ≤ n ∧ n ≤ Constant.maxInt)) : Outcome op a b (.error .outOfRange)
  | zeroDivisor {op : BinaryOp} (a : Int) (hop : op = .div ∨ op = .rem) :
      Outcome op (.int a) (.int 0) (.error .zeroDivisor)
  | leastRemainder : Outcome .rem (.int Constant.minInt) (.int (-1)) (.error .leastRemainder)
  | operandKinds {op : BinaryOp} {a b : Constant} (h : op.takes a b = false) :
      Outcome op a b (.error .operandKinds)

variable {op : BinaryOp} {a b : Constant}

theorem Yields.exists_outcome (h : op.Yields a b (.int n)) : ∃ r, op.Outcome a b r := by
  by_cases hrange : Constant.minInt ≤ n ∧ n ≤ Constant.maxInt
  · exact ⟨_, .value h hrange⟩
  · exact ⟨_, .outOfRange h hrange⟩

theorem exists_outcome_ints (op : BinaryOp) (a b : Int) : ∃ r, op.Outcome (.int a) (.int b) r := by
  cases op with
  | add => exact (Yields.add a b).exists_outcome
  | sub => exact (Yields.sub a b).exists_outcome
  | mul => exact (Yields.mul a b).exists_outcome
  | div =>
    by_cases hb : b = 0
    · subst hb
      exact ⟨_, .zeroDivisor a (.inl rfl)⟩
    · exact (Yields.div a hb).exists_outcome
  | rem =>
    by_cases hb : b = 0
    · subst hb
      exact ⟨_, .zeroDivisor a (.inr rfl)⟩
    by_cases hleast : a = Constant.minInt ∧ b = -1
    · obtain ⟨rfl, rfl⟩ := hleast
      exact ⟨_, .leastRemainder⟩
    · exact (Yields.rem hb hleast).exists_outcome
  | eq | ne | lt | le | gt | ge => exact ⟨_, .value (.compareInts rfl) trivial⟩
  | and | or => exact ⟨_, .operandKinds rfl⟩

theorem exists_outcome_bools (op : BinaryOp) (a b : Bool) : ∃ r, op.Outcome (.bool a) (.bool b) r := by
  cases op with
  | and => exact ⟨_, .value (.and a b) trivial⟩
  | or => exact ⟨_, .value (.or a b) trivial⟩
  | eq | ne | lt | le | gt | ge => exact ⟨_, .value (.compareBools rfl) trivial⟩
  | add | sub | mul | div | rem => exact ⟨_, .operandKinds rfl⟩

theorem exists_outcome (op : BinaryOp) (a b : Constant) : ∃ r, op.Outcome a b r := by
  by_cases htakes : op.takes a b = false
  · exact ⟨_, .operandKinds htakes⟩
  cases a <;> cases b
  case int.int a b => exact exists_outcome_ints op a b
  case bool.bool a b => exact exists_outcome_bools op a b
  all_goals exact absurd rfl htakes

theorem holds_compare {x y : Int} {c : Bool} (h : op.compares? x y = some c) :
    op.isComparison = true ∧ op.holds (compare x y) = c := by
  have hsplit : compare x y = .lt ∧ x < y ∨ compare x y = .eq ∧ x = y ∨ compare x y = .gt ∧ y < x := by
    rcases Int.lt_trichotomy x y with hlt | heq | hgt
    · exact .inl ⟨Int.compare_eq_lt.2 hlt, hlt⟩
    · exact .inr (.inl ⟨Int.compare_eq_eq.2 heq, heq⟩)
    · exact .inr (.inr ⟨Int.compare_eq_gt.2 hgt, hgt⟩)
  rcases hsplit with ⟨horder, hlt⟩ | ⟨horder, heq⟩ | ⟨horder, hgt⟩ <;> rw [horder] <;>
    cases op <;> simp only [compares?, Option.some.injEq, reduceCtorEq] at h <;> subst h <;>
    refine ⟨rfl, ?_⟩ <;> simp [holds] <;> omega

theorem compare_toInt (x y : Bool) : compare x y = compare x.toInt y.toInt := by
  cases x <;> cases y <;> rfl

theorem fold?_of_compares {x y : Int} {c : Bool} (hc : op.compares? x y = some c)
    (horder : a.order? b = some (compare x y)) : op.fold? a b = some (.bool c) := by
  obtain ⟨hop, hholds⟩ := holds_compare hc
  unfold fold?
  rw [if_pos hop, horder, Option.map_some, hholds]

theorem fold?_of_yields (h : op.Yields a b v) (hv : v.Scalar) : op.fold? a b = some v := by
  cases h with
  | add a b | sub a b | mul a b => exact if_pos hv
  | div a hb =>
    show Constant.divInt? _ _ = _
    rw [Constant.divInt?, if_neg hb]
    exact if_pos hv
  | rem hb hleast =>
    show Constant.remInt? _ _ = _
    rw [Constant.remInt?, if_neg (not_or.2 ⟨hb, hleast⟩)]
    exact if_pos hv
  | compareInts hc => exact fold?_of_compares hc rfl
  | compareBools hc => exact fold?_of_compares hc (congrArg some (compare_toInt _ _))
  | and a b | or a b => rfl

theorem fold?_of_large (h : op.Yields a b (.int n))
    (hn : ¬(Constant.minInt ≤ n ∧ n ≤ Constant.maxInt)) : op.fold? a b = none := by
  cases h with
  | add a b | sub a b | mul a b => exact if_neg hn
  | div a hb =>
    show Constant.divInt? _ _ = _
    rw [Constant.divInt?, if_neg hb]
    exact if_neg hn
  | rem hb hleast =>
    show Constant.remInt? _ _ = _
    rw [Constant.remInt?, if_neg (not_or.2 ⟨hb, hleast⟩)]
    exact if_neg hn

theorem fold?_of_takes (ha : a.Scalar) (hb : b.Scalar) (h : op.takes a b = false) : op.fold? a b = none := by
  cases a <;> cases b <;> simp only [Constant.Scalar] at ha hb
  case int.int x y => cases op <;> simp [takes, isLogical] at h <;> rfl
  case bool.bool x y => cases op <;> simp [takes, isLogical, isComparison] at h <;> rfl
  all_goals cases op <;> rfl

theorem fold?_of_outcome {r : Except Failure Constant} (ha : a.Scalar) (hb : b.Scalar) (h : op.Outcome a b r) :
    op.fold? a b = r.toOption := by
  cases h with
  | value hv hscalar => exact fold?_of_yields hv hscalar
  | outOfRange hn hrange => exact fold?_of_large hn hrange
  | zeroDivisor a hop =>
    rcases hop with rfl | rfl
    · show Constant.divInt? a 0 = none
      exact if_pos rfl
    · show Constant.remInt? a 0 = none
      exact if_pos (.inl rfl)
  | leastRemainder =>
    show Constant.remInt? Constant.minInt (-1) = none
    exact if_pos (.inr ⟨rfl, rfl⟩)
  | operandKinds htakes => exact fold?_of_takes ha hb htakes

theorem Outcome.scalar (h : op.Outcome a b (.ok v)) : v.Scalar := by
  cases h with
  | value _ hscalar => exact hscalar

theorem decides_iff : op.Decides a v ↔ op.shortCircuit? a = some v := by
  constructor
  · rintro (_ | _) <;> rfl
  · intro h
    unfold shortCircuit? at h
    split at h
    · obtain rfl := Option.some.inj h
      exact .and
    · obtain rfl := Option.some.inj h
      exact .or
    · simp at h

end BinaryOp

/-! ### Expressions -/

namespace Expr

variable {env : FoldEnv} {id : ExprId} {span : Span} {s t : Expr} {a : Constant}

theorem fold_unary {v : Option Constant} (ht : t.fold env = .ok v) :
    (node id span (.unary op t)).fold env = .ok (v.bind op.fold?) := by
  rw [fold, ht]
  cases v <;> rfl

theorem fold_binary_of_none {op : BinaryOp} (hs : s.fold env = .ok none) :
    (node id span (.binary op s t)).fold env = .ok none := by
  rw [fold, hs]
  rfl

theorem fold_binary_of_decided {op : BinaryOp} (hs : s.fold env = .ok (some a))
    (hv : op.shortCircuit? a = some v) : (node id span (.binary op s t)).fold env = .ok (some v) := by
  simp only [fold, hs, bind, Except.bind, hv]
  rfl

theorem fold_binary_of_open {op : BinaryOp} {v : Option Constant} (hs : s.fold env = .ok (some a))
    (hopen : op.shortCircuit? a = none) (ht : t.fold env = .ok v) :
    (node id span (.binary op s t)).fold env = .ok (v.bind (op.fold? a)) := by
  simp only [fold, hs, bind, Except.bind, hopen, ht]
  cases v <;> rfl

end Expr

def ExprShape.isNamed {ε τ : Type} : ExprShape ε τ → Bool
  | .name _ | .path _ => true
  | _ => false

/-- The node belongs to an expression over whole numbers and truth values, if it stands for this constant. -/
def ExprShape.isPlain {ε τ : Type} (known : Option Constant) : ExprShape ε τ → Bool
  | .intLit n => decide (Constant.int n).Scalar
  | .boolLit _ | .unary _ _ | .binary _ _ _ => true
  | .name _ | .path _ => known.all fun v => decide v.Scalar
  | _ => false

namespace Source

def shape? (src : Source) (e : ExprId) : Option (ExprShape ExprId TypeExprId) := (src.expr? e).map (·.shape)

/-- How the evaluation of an expression ends, over numbers of any size. -/
inductive Evaluates (src : Source) (env : FoldEnv) : ExprId → Except Failure Constant → Prop
  | intLit {e : ExprId} {n : Int} (h : src.shape? e = some (.intLit n)) : Evaluates src env e (.ok (.int n))
  | boolLit {e : ExprId} {b : Bool} (h : src.shape? e = some (.boolLit b)) : Evaluates src env e (.ok (.bool b))
  | constant {e : ExprId} {shape : ExprShape ExprId TypeExprId} {v : Constant} (h : src.shape? e = some shape)
      (hnamed : shape.isNamed = true) (hv : env.lookup? e = some v) : Evaluates src env e (.ok v)
  | noConstant {e : ExprId} {shape : ExprShape ExprId TypeExprId} (h : src.shape? e = some shape)
      (hnamed : shape.isNamed = true) (hnone : env.lookup? e = none) : Evaluates src env e (.error .noConstant)
  | unary {e x : ExprId} {op : UnaryOp} {a : Constant} {r : Except Failure Constant}
      (h : src.shape? e = some (.unary op x)) (hx : Evaluates src env x (.ok a)) (hr : op.Outcome a r) :
      Evaluates src env e r
  | operand {e x : ExprId} {op : UnaryOp} {why : Failure} (h : src.shape? e = some (.unary op x))
      (hx : Evaluates src env x (.error why)) : Evaluates src env e (.error why)
  | decided {e x y : ExprId} {op : BinaryOp} {a v : Constant} (h : src.shape? e = some (.binary op x y))
      (hx : Evaluates src env x (.ok a)) (hv : op.Decides a v) : Evaluates src env e (.ok v)
  | binary {e x y : ExprId} {op : BinaryOp} {a b : Constant} {r : Except Failure Constant}
      (h : src.shape? e = some (.binary op x y)) (hx : Evaluates src env x (.ok a)) (hopen : ∀ v, ¬op.Decides a v)
      (hy : Evaluates src env y (.ok b)) (hr : op.Outcome a b r) : Evaluates src env e r
  | left {e x y : ExprId} {op : BinaryOp} {why : Failure} (h : src.shape? e = some (.binary op x y))
      (hx : Evaluates src env x (.error why)) : Evaluates src env e (.error why)
  | right {e x y : ExprId} {op : BinaryOp} {a : Constant} {why : Failure} (h : src.shape? e = some (.binary op x y))
      (hx : Evaluates src env x (.ok a)) (hopen : ∀ v, ¬op.Decides a v)
      (hy : Evaluates src env y (.error why)) : Evaluates src env e (.error why)

/-- An acyclic expression built from whole numbers, truth values, names of such constants and operators. -/
structure Plain (src : Source) (env : FoldEnv) (e : ExprId) : Prop where
  shape : ∀ x, Relation.ReflTransGen src.ExprBelow e x →
    ∃ shape, src.shape? x = some shape ∧ shape.isPlain (env.lookup? x) = true
  acyclic : ∀ x, Relation.ReflTransGen src.ExprBelow e x → ¬Relation.TransGen src.ExprBelow x x

variable {src : Source} {env : FoldEnv} {e : ExprId}

theorem Plain.part (h : src.Plain env e) (hx : src.ExprBelow e x) : src.Plain env x where
  shape y hy := h.shape y (.head hx hy)
  acyclic y hy := h.acyclic y (.head hx hy)

/-- The tree folds to what the evaluation of the expression says, and the evaluation says something. -/
structure Exact (src : Source) (env : FoldEnv) (e : ExprId) (t : Expr) : Prop where
  exists_evaluates : ∃ r, src.Evaluates env e r
  fold : ∀ r, src.Evaluates env e r → t.fold env = .ok r.toOption
  scalar : ∀ v, src.Evaluates env e (.ok v) → v.Scalar

theorem exact_literal (hv : src.Evaluates env e (.ok v)) (honly : ∀ r, src.Evaluates env e r → r = .ok v)
    (ht : t.fold env = .ok (some v)) (hscalar : v.Scalar) : src.Exact env e t where
  exists_evaluates := ⟨_, hv⟩
  fold r hr := by rw [ht, honly r hr, Except.toOption]
  scalar w hw := by rwa [Except.ok.inj (honly _ hw)]

theorem exact_intLit (h : src.shape? e = some (.intLit n)) (hn : (Constant.int n).Scalar)
    (span : Span) : src.Exact env e (.node e span (.intLit n)) := by
  refine exact_literal (.intLit h) (fun r hr => ?_) (by rw [Expr.fold]) hn
  cases hr <;> simp_all [ExprShape.isNamed]

theorem exact_boolLit {b : Bool} (h : src.shape? e = some (.boolLit b)) (span : Span) :
    src.Exact env e (.node e span (.boolLit b)) := by
  refine exact_literal (.boolLit h) (fun r hr => ?_) (by rw [Expr.fold]) trivial
  cases hr <;> simp_all [ExprShape.isNamed]

theorem exact_named {shape : ExprShape ExprId TypeExprId} (h : src.shape? e = some shape)
    (hnamed : shape.isNamed = true) (hscalar : ∀ v, env.lookup? e = some v → v.Scalar)
    (ht : t.fold env = .ok (env.lookup? e)) : src.Exact env e t := by
  have honly : ∀ r, src.Evaluates env e r → r.toOption = env.lookup? e := by
    intro r hr
    cases hr with
    | constant _ _ hv => exact hv.symm
    | noConstant _ _ hnone => exact hnone.symm
    | intLit h' | boolLit h' | unary h' _ _ | operand h' _ | decided h' _ _ | binary h' _ _ _ _ | left h' _
    | right h' _ _ _ =>
      obtain rfl := Option.some.inj (h.symm.trans h')
      simp [ExprShape.isNamed] at hnamed
  refine ⟨?_, fun r hr => by rw [ht, honly r hr], fun v hv => hscalar v (honly _ hv).symm⟩
  cases hv : env.lookup? e with
  | none => exact ⟨_, .noConstant h hnamed hv⟩
  | some v => exact ⟨_, .constant h hnamed hv⟩

theorem evaluates_unary (h : src.shape? e = some (.unary op x))
    {r : Except Failure Constant} (hr : src.Evaluates env e r) : (∃ a, src.Evaluates env x (.ok a) ∧ op.Outcome a r) ∨
      ∃ why, src.Evaluates env x (.error why) ∧ r = .error why := by
  cases hr with
  | unary h' hx houtcome =>
    obtain ⟨rfl, rfl⟩ := ExprShape.unary.inj (Option.some.inj (h.symm.trans h'))
    exact .inl ⟨_, hx, houtcome⟩
  | operand h' hx =>
    obtain ⟨rfl, rfl⟩ := ExprShape.unary.inj (Option.some.inj (h.symm.trans h'))
    exact .inr ⟨_, hx, rfl⟩
  | _ => simp_all [ExprShape.isNamed]

theorem exact_unary (h : src.shape? e = some (.unary op x))
    (hx : src.Exact env x t) (span : Span) : src.Exact env e (.node e span (.unary op t)) where
  exists_evaluates := by
    obtain ⟨r, hr⟩ := hx.exists_evaluates
    cases r with
    | error why => exact ⟨_, .operand h hr⟩
    | ok a =>
      obtain ⟨r, houtcome⟩ := op.exists_outcome a
      exact ⟨r, .unary h hr houtcome⟩
  fold r hr := by
    rcases evaluates_unary h hr with ⟨a, ha, houtcome⟩ | ⟨why, hwhy, rfl⟩
    · rw [← UnaryOp.fold?_of_outcome (hx.scalar a ha) houtcome]
      exact Expr.fold_unary (hx.fold _ ha)
    · exact Expr.fold_unary (hx.fold _ hwhy)
  scalar v hv := by
    rcases evaluates_unary h hv with ⟨a, -, houtcome⟩ | ⟨why, -, hwhy⟩
    · exact houtcome.scalar
    · simp at hwhy

theorem evaluates_binary {op : BinaryOp} {y : ExprId} (h : src.shape? e = some (.binary op x y))
    {r : Except Failure Constant} (hr : src.Evaluates env e r) :
    (∃ why, src.Evaluates env x (.error why) ∧ r = .error why) ∨
      ∃ a, src.Evaluates env x (.ok a) ∧
        ((∃ v, op.Decides a v ∧ r = .ok v) ∨
          (∀ v, ¬op.Decides a v) ∧
            ((∃ why, src.Evaluates env y (.error why) ∧ r = .error why) ∨
              ∃ b, src.Evaluates env y (.ok b) ∧ op.Outcome a b r)) := by
  cases hr with
  | decided h' hx hv =>
    obtain ⟨rfl, rfl, rfl⟩ := ExprShape.binary.inj (Option.some.inj (h.symm.trans h'))
    exact .inr ⟨_, hx, .inl ⟨_, hv, rfl⟩⟩
  | binary h' hx hopen hy houtcome =>
    obtain ⟨rfl, rfl, rfl⟩ := ExprShape.binary.inj (Option.some.inj (h.symm.trans h'))
    exact .inr ⟨_, hx, .inr ⟨hopen, .inr ⟨_, hy, houtcome⟩⟩⟩
  | left h' hx =>
    obtain ⟨rfl, rfl, rfl⟩ := ExprShape.binary.inj (Option.some.inj (h.symm.trans h'))
    exact .inl ⟨_, hx, rfl⟩
  | right h' hx hopen hy =>
    obtain ⟨rfl, rfl, rfl⟩ := ExprShape.binary.inj (Option.some.inj (h.symm.trans h'))
    exact .inr ⟨_, hx, .inr ⟨hopen, .inl ⟨_, hy, rfl⟩⟩⟩
  | _ => simp_all [ExprShape.isNamed]

theorem exact_binary {op : BinaryOp} {y : ExprId} {s : Expr} (h : src.shape? e = some (.binary op x y))
    (hx : src.Exact env x s) (hy : src.Exact env y t) (span : Span) :
    src.Exact env e (.node e span (.binary op s t)) where
  exists_evaluates := by
    obtain ⟨r, hr⟩ := hx.exists_evaluates
    cases r with
    | error why => exact ⟨_, .left h hr⟩
    | ok a =>
      by_cases hdecides : ∃ v, op.Decides a v
      · obtain ⟨v, hv⟩ := hdecides
        exact ⟨_, .decided h hr hv⟩
      have hopen : ∀ v, ¬op.Decides a v := fun v hv => hdecides ⟨v, hv⟩
      obtain ⟨r', hr'⟩ := hy.exists_evaluates
      cases r' with
      | error why => exact ⟨_, .right h hr hopen hr'⟩
      | ok b =>
        obtain ⟨r, houtcome⟩ := op.exists_outcome a b
        exact ⟨r, .binary h hr hopen hr' houtcome⟩
  fold r hr := by
    rcases evaluates_binary h hr with ⟨why, hwhy, rfl⟩ | ⟨a, ha, hrest⟩
    · exact Expr.fold_binary_of_none (hx.fold _ hwhy)
    rcases hrest with ⟨v, hv, rfl⟩ | ⟨hopen, hrest⟩
    · exact Expr.fold_binary_of_decided (hx.fold _ ha) (BinaryOp.decides_iff.1 hv)
    have hnone : op.shortCircuit? a = none := by
      rw [Option.eq_none_iff_forall_ne_some]
      exact fun v hv => hopen v (BinaryOp.decides_iff.2 hv)
    rcases hrest with ⟨why, hwhy, rfl⟩ | ⟨b, hb, houtcome⟩
    · exact Expr.fold_binary_of_open (hx.fold _ ha) hnone (hy.fold _ hwhy)
    · rw [← BinaryOp.fold?_of_outcome (hx.scalar a ha) (hy.scalar b hb) houtcome]
      exact Expr.fold_binary_of_open (hx.fold _ ha) hnone (hy.fold _ hb)
  scalar v hv := by
    rcases evaluates_binary h hv with ⟨why, -, hwhy⟩ | ⟨a, -, ⟨w, hdecides, hw⟩ | ⟨-, ⟨why, -, hwhy⟩ | ⟨b, -, houtcome⟩⟩⟩
    · simp at hwhy
    · obtain rfl := Except.ok.inj hw
      cases hdecides <;> trivial
    · simp at hwhy
    · exact houtcome.scalar

theorem exact_node {shape : ExprShape ExprId TypeExprId} (h : src.shape? e = some shape)
    (hplain : shape.isPlain (env.lookup? e) = true) {part : ExprId → Expr}
    (hpart : ∀ x ∈ shape.parts, src.Exact env x (part x)) (typeExpr : TypeExprId → TypeExpr) (span : Span) :
    src.Exact env e (.node e span (shape.map part typeExpr)) := by
  cases shape with
  | intLit n => exact exact_intLit h (of_decide_eq_true hplain) span
  | boolLit b => exact exact_boolLit h span
  | name text | path segments =>
    refine exact_named h rfl (fun v hv => ?_) (by rw [ExprShape.map, Expr.fold])
    rw [ExprShape.isPlain, hv] at hplain
    exact of_decide_eq_true hplain
  | unary op x => exact exact_unary h (hpart x (by simp [ExprShape.parts])) span
  | binary op x y =>
    exact exact_binary h (hpart x (by simp [ExprShape.parts])) (hpart y (by simp [ExprShape.parts])) span
  | _ => simp [ExprShape.isPlain] at hplain

theorem Plain.exact (h : src.Plain env e) : src.Exact env e (src.trees.expr e) := by
  rw [expr_trees]
  refine Unfolding.tree_of_acyclic (P := src.Exact env) (fun _ _ => below_exprUnfolding.1)
    (fun a (ha : src.Plain env a) => ha.acyclic a .refl) (fun a ha => ?_) h
  obtain ⟨shape, hshape, hplain⟩ := ha.shape a .refl
  obtain ⟨node, hnode, rfl⟩ := Option.map_eq_some_iff.1 hshape
  refine ⟨node, node.shape.parts, List.getElem?_toArray.trans hnode, rfl, fun x hx => ha.part ⟨node, hnode, hx⟩,
    fun part hpart => ?_⟩
  exact exact_node hshape hplain hpart src.trees.typeExpr node.span

/-- Where all nodes are plain and come after their parts, all expressions are plain. -/
theorem plain_of_inOrder (horder : (src.exprUnfolding .missing).inOrder = true)
    (hplain : (src.exprs.zipIdx.all fun (node, i) => node.shape.isPlain (env.lookup? ⟨i⟩)) = true)
    (he : src.HasExpr e) : src.Plain env e := by
  have hless : ∀ a b, src.ExprBelow a b → b.index < a.index := fun a b hab =>
    Unfolding.lt_of_below horder (below_exprUnfolding.2 hab)
  refine ⟨fun x hx => ?_, fun x _ => NodeId.not_transGen_self hless x⟩
  have hfound : x.index < src.exprs.length := by
    induction hx with
    | refl =>
      obtain ⟨node, hnode⟩ := Option.isSome_iff_exists.1 he
      exact (List.getElem?_eq_some_iff.1 hnode).1
    | @tail a b _ hab ih => exact Nat.lt_trans (hless a b hab) ih
  have hnode : src.expr? x = some src.exprs[x.index] := List.getElem?_eq_getElem hfound
  refine ⟨_, by rw [shape?, hnode, Option.map_some], ?_⟩
  exact List.all_eq_true.1 hplain (src.exprs[x.index], x.index) (List.mk_mem_zipIdx_iff_getElem?.2 hnode)

/-- Folding an expression of whole numbers and truth values finds the value that it has over the unbounded numbers,
and finds nothing exactly where the evaluation fails. -/
theorem fold_iff_evaluates (h : src.Plain env e) :
    (∃ r, src.Evaluates env e r) ∧
      (∀ v, (src.trees.expr e).fold env = .ok (some v) ↔ src.Evaluates env e (.ok v)) ∧
      ((src.trees.expr e).fold env = .ok none ↔ ∃ why, src.Evaluates env e (.error why)) ∧
      ∀ n, (src.trees.expr e).fold env = .ok (some (.int n)) → Constant.minInt ≤ n ∧ n ≤ Constant.maxInt := by
  have hexact := h.exact
  obtain ⟨r, hr⟩ := hexact.exists_evaluates
  have hsome : ∀ v, (src.trees.expr e).fold env = .ok (some v) → src.Evaluates env e (.ok v) := by
    intro v hv
    rw [hexact.fold r hr, Except.ok.injEq] at hv
    cases r with
    | error why => simp [Except.toOption] at hv
    | ok w =>
      obtain rfl : w = v := Option.some.inj hv
      exact hr
  refine ⟨⟨r, hr⟩, fun v => ⟨hsome v, hexact.fold _⟩, ⟨fun hnone => ?_, ?_⟩, fun n hn => hexact.scalar _ (hsome _ hn)⟩
  · rw [hexact.fold r hr, Except.ok.injEq] at hnone
    cases r with
    | error why => exact ⟨why, hr⟩
    | ok w => simp [Except.toOption] at hnone
  · rintro ⟨why, hwhy⟩
    exact hexact.fold _ hwhy

/-- The least number divided by `-1`, once by itself and once behind `false &&`. -/
def quotientUnit : Source := .ofSteps [
  .expr (.name "LEAST"), .expr (.intLit (-1)), .expr (.binary .div ⟨0⟩ ⟨1⟩), .expr (.binary .eq ⟨2⟩ ⟨0⟩),
  .expr (.boolLit false), .expr (.binary .and ⟨4⟩ ⟨3⟩)]

def leastEnv : FoldEnv where
  resolved := ⟨[(⟨0⟩, ⟨0⟩)]⟩
  constants := ⟨[(⟨0⟩, .int Constant.minInt)]⟩

theorem fold_quotient : quotientUnit.Plain leastEnv ⟨5⟩ ∧ quotientUnit.Plain leastEnv ⟨3⟩ ∧
    quotientUnit.Evaluates leastEnv ⟨5⟩ (.ok (.bool false)) ∧
    ∃ why, quotientUnit.Evaluates leastEnv ⟨3⟩ (.error why) := by
  have hand : quotientUnit.Plain leastEnv ⟨5⟩ := plain_of_inOrder rfl rfl rfl
  have heq : quotientUnit.Plain leastEnv ⟨3⟩ := plain_of_inOrder rfl rfl rfl
  exact ⟨hand, heq, ((fold_iff_evaluates hand).2.1 _).1 rfl, (fold_iff_evaluates heq).2.2.1.1 rfl⟩

end Source

/-! ### Knowing more -/

namespace FoldEnv

/-- Whatever a name is known to stand for is known in the larger environment too. -/
structure Extends (env' env : FoldEnv) : Prop where
  resolved : ∀ e d, env.resolved.get? e = some d → env'.resolved.get? e = some d
  constants : ∀ d v, env.constants.get? d = some v → env'.constants.get? d = some v

theorem Extends.lookup? {env' env : FoldEnv} (h : env'.Extends env) {e : ExprId}
    (hv : env.lookup? e = some v) : env'.lookup? e = some v := by
  obtain ⟨d, hd, hv⟩ := Option.bind_eq_some_iff.1 hv
  exact Option.bind_eq_some_iff.2 ⟨d, h.resolved e d hd, h.constants d v hv⟩

theorem extends_insert {env : FoldEnv} {e : ExprId} {d : DeclId} (v : Constant)
    (he : env.resolved.get? e = none) (hd : env.constants.get? d = none) :
    FoldEnv.Extends ⟨env.resolved.insert e d, env.constants.insert d v⟩ env where
  resolved e' d' h := by
    rw [Table.get?_insert_of_ne, h]
    rintro rfl
    simp [he] at h
  constants d' v' h := by
    rw [Table.get?_insert_of_ne, h]
    rintro rfl
    simp [hd] at h

end FoldEnv

namespace Expr

variable {env env' : FoldEnv} {id : ExprId} {span : Span} {s t : Expr} {v : Constant}

theorem fold_unary_eq_some : (node id span (.unary op t)).fold env = .ok (some v) ↔
    ∃ a, t.fold env = .ok (some a) ∧ op.fold? a = some v := by
  cases ht : t.fold env with
  | error missing => simp [fold, ht, bind, Except.bind]
  | ok a => simp [fold_unary ht, Option.bind_eq_some_iff]

theorem fold_binary_eq_some {op : BinaryOp} : (node id span (.binary op s t)).fold env = .ok (some v) ↔
    ∃ a, s.fold env = .ok (some a) ∧ (op.shortCircuit? a = some v ∨
      op.shortCircuit? a = none ∧ ∃ b, t.fold env = .ok (some b) ∧ op.fold? a b = some v) := by
  cases hs : s.fold env with
  | error missing => simp [fold, hs, bind, Except.bind]
  | ok a =>
    cases a with
    | none => simp [fold_binary_of_none hs]
    | some a =>
      cases hopen : op.shortCircuit? a with
      | some w => simp [fold_binary_of_decided hs hopen, hopen]
      | none =>
        cases ht : t.fold env with
        | error missing => simp [fold, hs, ht, hopen, bind, Except.bind]
        | ok b => simp [fold_binary_of_open hs hopen ht, hopen, Option.bind_eq_some_iff]

/-- A value that was found did not depend on anything being unknown. -/
theorem fold_of_extends (hext : env'.Extends env) (t : Expr) (h : t.fold env = .ok (some v)) :
    t.fold env' = .ok (some v) := by
  induction t using fold.induct generalizing v with
  | case2 | case3 | case4 | case5 => exact h
  | case6 id | case7 id =>
    rw [fold] at h ⊢
    exact congrArg Except.ok (hext.lookup? (Except.ok.inj h))
  | case8 id span op t ih =>
    obtain ⟨a, ha, hv⟩ := fold_unary_eq_some.1 h
    exact fold_unary_eq_some.2 ⟨a, ih ha, hv⟩
  | case9 id span op s t ihs iht =>
    obtain ⟨a, ha, hv⟩ := fold_binary_eq_some.1 h
    refine fold_binary_eq_some.2 ⟨a, ihs ha, ?_⟩
    rcases hv with hdecided | ⟨hopen, b, hb, hv⟩
    · exact .inl hdecided
    · exact .inr ⟨hopen, b, iht hb, hv⟩
  | case1 | case10 | case11 | case12 | case13 =>
    rw [fold] at h
    simp at h

end Expr

/-- A decided constant stays decided. -/
theorem Source.fold_stable (src : Source) (e : ExprId) {env env' : FoldEnv} {v : Constant}
    (hext : env'.Extends env) (h : (src.trees.expr e).fold env = .ok (some v)) :
    (src.trees.expr e).fold env' = .ok (some v) :=
  Expr.fold_of_extends hext (src.trees.expr e) h

/-- `WIDTH >= 8 || debug` -/
def thresholdUnit : Source := .ofSteps [
  .expr (.name "WIDTH"), .expr (.intLit 8), .expr (.binary .ge ⟨0⟩ ⟨1⟩), .expr (.name "debug"),
  .expr (.binary .or ⟨2⟩ ⟨3⟩)]

def widthEnv : FoldEnv where
  resolved := ⟨[(⟨0⟩, ⟨0⟩)]⟩
  constants := ⟨[(⟨0⟩, .int 16)]⟩

/-- Learning that `debug` is off changes nothing. -/
theorem fold_threshold :
    FoldEnv.Extends ⟨widthEnv.resolved.insert ⟨3⟩ ⟨1⟩, widthEnv.constants.insert ⟨1⟩ (.bool false)⟩ widthEnv ∧
    (thresholdUnit.trees.expr ⟨4⟩).fold widthEnv = .ok (some (.bool true)) ∧
    (thresholdUnit.trees.expr ⟨4⟩).fold
      ⟨widthEnv.resolved.insert ⟨3⟩ ⟨1⟩, widthEnv.constants.insert ⟨1⟩ (.bool false)⟩ = .ok (some (.bool true)) := by
  have hext := FoldEnv.extends_insert (d := ⟨1⟩) (.bool false) (show widthEnv.resolved.get? ⟨3⟩ = none from rfl) rfl
  have hfold : (thresholdUnit.trees.expr ⟨4⟩).fold widthEnv = .ok (some (.bool true)) := rfl
  exact ⟨hext, hfold, thresholdUnit.fold_stable ⟨4⟩ hext hfold⟩

end Linkage
