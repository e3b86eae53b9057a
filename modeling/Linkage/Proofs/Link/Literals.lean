import Linkage.Proofs.Link.Outcome
import Linkage.Proofs.Link.Restoring

/-!
# The fields of a struct literal

One loop goes over the fields that are supplied and reports those that the struct does not have, another goes over the
fields of the struct and reports those that are not supplied. Neither loop counts: a field that is supplied twice is
found by both, and its two values are both passed on. So the names that are supplied are the declared ones in some
order just if none of them is repeated.
-/

namespace Linkage

def TypeExpr.namedPath? : TypeExpr → Option (List String)
  | .node _ _ (.named path _) => some path
  | _ => none

namespace Link

variable {env : LinkEnv} {s s₁ s' : LinkState} {body : Body} {span : Span}

/-! ### Reports are only added -/

structure Accrues (s s' : LinkState) : Prop extends Walked s s' where
  reports : s.reports <+: s'.reports

instance : Sequential Accrues where
  refl s := ⟨Sequential.refl s, List.prefix_refl _⟩
  trans h h' := ⟨Sequential.trans h.toWalked h'.toWalked, h.reports.trans h'.reports⟩

theorem checkable_accrues : Checkable Accrues :=
  .of_idle (fun h => ⟨checkable_walked.steps h, (checkable_unmarked.steps h).reports⟩)
    (fun span p s => ⟨checkable_walked.report span p s, (checkable_unmarked.report span p s).reports⟩)
    fun h => ⟨checkable_walked.idle h, (checkable_unmarked.idle h).reports⟩

theorem accrues_recordResolved (e : ExprId) (decl : DeclId) : FramedIn env Accrues (recordResolved e decl) :=
  fun s => ⟨walked_recordResolved e decl s, List.prefix_refl _⟩

theorem accrues_recordLinked (e : ExprId) (ty : Ty) : FramedIn env Accrues (recordLinked e ty) :=
  fun s => ⟨walked_recordLinked e ty s, List.prefix_refl _⟩

theorem walkable_accrues (env : LinkEnv) : Walkable env (fun _ => True) Accrues := by
  refine walkable_of_records checkable_accrues (fun decl index _ h s => ?_) accrues_recordResolved
    accrues_recordLinked fun h => h.retains
  exact ⟨(walkable_walked env).withActive decl index (fun s => (h s).toWalked) s,
    (h { s with program := (s.program.activate decl index).2 }).reports⟩

theorem accrues_linkExpr (body : Body) (hint : Option Ty) (access : Access) (e : Expr) :
    FramedIn env Accrues (linkExpr body hint access e) :=
  (walkable_accrues env).linkExpr body e (fun _ _ => trivial) hint access

theorem accrues_linkFields (body : Body) (plan : FieldPlan) (fields : List (String × Expr)) :
    FramedIn env Accrues (linkFields body plan fields) :=
  (walkable_accrues env).linkFields body fields (fun _ _ => trivial) plan

theorem accrues_linkValues (body : Body) (fields : List (String × Expr)) :
    FramedIn env Accrues (linkValues body fields) :=
  (walkable_accrues env).linkValues body fields fun _ _ => trivial

/-- Reports are on, and none comes between the states. -/
structure Unreported (s s' : LinkState) : Prop extends Accrues s s' where
  loud : s.quiet = false
  none : s'.reports = s.reports

/-- If nothing is reported on the whole way, nothing is reported on either part of it. -/
theorem Unreported.parts (h : Unreported s s') (hfirst : Accrues s s₁) (hrest : Accrues s₁ s') :
    Unreported s s₁ ∧ Unreported s₁ s' := by
  have hlength : s₁.reports.length = s.reports.length :=
    Nat.le_antisymm (h.none ▸ hrest.reports.length_le) hfirst.reports.length_le
  have hnone : s₁.reports = s.reports := (hfirst.reports.eq_of_length hlength.symm).symm
  exact ⟨⟨hfirst, h.loud, hnone⟩, hrest, hfirst.quiet.trans h.loud, h.none.trans hnone.symm⟩

theorem Unreported.not_report {p : Problem} {u : Unit} (h : Unreported s s')
    (hrun : Runs env (report span p) s u s') : False := by
  obtain rfl := runs_modify.1 hrun
  have hnone := h.none
  simp [h.loud] at hnone

theorem Unreported.bind {α β : Type} {x : LinkM α} {f : α → LinkM β} {b : β} (h : Unreported s s')
    (hx : FramedIn env Accrues x) (hf : ∀ a, FramedIn env Accrues (f a)) (hrun : Runs env (x >>= f) s b s') :
    ∃ a s₁, Runs env x s a s₁ ∧ Runs env (f a) s₁ b s' ∧ Unreported s s₁ ∧ Unreported s₁ s' := by
  obtain ⟨a, s₁, hfirst, hrest⟩ := runs_bind.1 hrun
  exact ⟨a, s₁, hfirst, hrest, h.parts (hx.of_runs hfirst) ((hf a).of_runs hrest)⟩

/-! ### The two loops -/

theorem linkFields_declared {plan : FieldPlan} {fields : List (String × Expr)} {args : List Argument}
    (h : Unreported s s') (hrun : Runs env (linkFields body plan fields) s args s') :
    ∀ f ∈ fields, (plan.formal? f.1).isSome = true := by
  induction fields generalizing s args with
  | nil => simp
  | cons field fields ih =>
    obtain ⟨name, value⟩ := field
    rw [linkFields] at hrun
    split at hrun
    · obtain ⟨_, s₁, hreport, -, hfirst, -⟩ := h.bind (checkable_accrues.report _ _)
        (fun _ => .bind (accrues_linkExpr _ _ _ _) fun _ => accrues_linkFields _ _ _) hrun
      exact (hfirst.not_report hreport).elim
    · rename_i formal hformal
      obtain ⟨ty, s₁, -, hrest, -, hlater⟩ := h.bind (accrues_linkExpr _ _ _ _)
        (fun _ => .bind (accrues_linkFields _ _ _) fun _ => .pure _) hrun
      obtain ⟨rest, s₂, hfields, hend⟩ := runs_bind.1 hrest
      obtain ⟨-, rfl⟩ := runs_pure.1 hend
      exact List.forall_mem_cons.2 ⟨by rw [hformal]; rfl, ih hlater hfields⟩

def reportMissing (span : Span) (shown : String) (supplied : List String) (declared : List (String × Ty)) : LinkM Unit :=
  declared.forM fun (field, _) => unless supplied.contains field do report span (.missingField field shown)

theorem accrues_reportMissing (span : Span) (shown : String) (supplied : List String) (declared : List (String × Ty)) :
    FramedIn env Accrues (reportMissing span shown supplied declared) := by
  refine .forM fun f _ => ?_
  dsimp only
  split
  · exact .pure _
  · exact checkable_accrues.report _ _

theorem reportMissing_supplied {shown : String} {supplied : List String} {declared : List (String × Ty)} {u : Unit}
    (h : Unreported s s') (hrun : Runs env (reportMissing span shown supplied declared) s u s') :
    ∀ f ∈ declared, f.1 ∈ supplied := by
  induction declared generalizing s with
  | nil => simp
  | cons field declared ih =>
    obtain ⟨s₁, hfirst, hrest⟩ := runs_forM_cons.1 hrun
    have hone : FramedIn env Accrues (reportMissing span shown supplied [field]) := accrues_reportMissing _ _ _ _
    have hsingle : Runs env (reportMissing span shown supplied [field]) s () s₁ :=
      runs_forM_cons.2 ⟨s₁, hfirst, runs_forM_nil.2 rfl⟩
    obtain ⟨hhere, hlater⟩ := h.parts (hone.of_runs hsingle) ((accrues_reportMissing _ _ _ _).of_runs hrest)
    refine List.forall_mem_cons.2 ⟨?_, ih hlater hrest⟩
    dsimp only at hfirst
    split at hfirst
    · rename_i hsupplied
      exact List.contains_iff_mem.1 hsupplied
    · exact (hhere.not_report hfirst).elim

/-! ### Literals -/

variable {expected : Option Ty} {id : ExprId} {struct : DeclId} {shown : String} {declared : List (String × Ty)}
  {typeArgs : List TypeExpr} {fields : List (String × Expr)} {ty : Ty}

theorem linkStructLiteral_fields (h : Unreported s s')
    (hrun : Runs env (linkStructLiteral body expected id span struct shown declared typeArgs (fields.map (·.1))
      fun plan => linkFields body plan fields) s ty s') :
    (∃ args, ty = .linked struct args) ∧ ∀ name, name ∈ fields.map (·.1) ↔ name ∈ declared.map (·.1) := by
  have hwalk := walkable_accrues env
  simp only [linkStructLiteral, runs_bind, runs_signatures] at hrun
  obtain ⟨_, _, ⟨rfl, rfl⟩, written, s₁, htypes, taken, s₂, hlimit, args, s₃, hfields, _, s₄, hmissing, hend⟩ := hrun
  have hbefore : Accrues s s₂ :=
    Sequential.trans ((hwalk.linkTypes _ _).of_runs htypes) ((hwalk.limitTypeArgs _ _ _ _).of_runs hlimit)
  have hloop₁ : Accrues s₂ s₃ := (accrues_linkFields _ _ _).of_runs hfields
  have hloop₂ : Accrues s₃ s₄ := (accrues_reportMissing span shown _ declared).of_runs hmissing
  have hafter : Accrues s₄ s' ∧ ∃ args, ty = .linked struct args := by
    split at hend
    · simp only [runs_bind, runs_pure] at hend
      obtain ⟨_, s₅, husage, _, _, hbind, rfl, rfl⟩ := hend
      exact ⟨Sequential.trans ((hwalk.recordUsage _ _ _).of_runs husage) ((hwalk.bindArgs _).of_runs hbind), _, rfl⟩
    · simp only [runs_bind, runs_signatures, runs_pure] at hend
      obtain ⟨_, _, ⟨rfl, rfl⟩, _, _, huse, rfl, rfl⟩ := hend
      exact ⟨(hwalk.useInExpr _ _ _ _ _ _ _ _).of_runs huse, _, rfl⟩
  obtain ⟨-, hrest⟩ := h.parts hbefore (Sequential.trans hloop₁ (Sequential.trans hloop₂ hafter.1))
  obtain ⟨hnone₁, hrest⟩ := hrest.parts hloop₁ (Sequential.trans hloop₂ hafter.1)
  obtain ⟨hnone₂, -⟩ := hrest.parts hloop₂ hafter.1
  refine ⟨hafter.2, fun name => ⟨fun hname => ?_, fun hname => ?_⟩⟩
  · obtain ⟨field, hfield, rfl⟩ := List.mem_map.1 hname
    obtain ⟨formal, hformal⟩ := Option.isSome_iff_exists.1 (linkFields_declared hnone₁ hfields field hfield)
    obtain ⟨before, after, hdeclared, -⟩ := List.lookup_eq_some_iff.1 hformal
    exact List.mem_map.2 ⟨(field.1, formal), by simp [hdeclared], rfl⟩
  · obtain ⟨field, hfield, rfl⟩ := List.mem_map.1 hname
    exact reportMissing_supplied hnone₂ hmissing field hfield

theorem Unreported.not_linkNoStruct {p : Problem} {linkValues : LinkM Unit} (h : Unreported s s')
    (hvalues : FramedIn env Accrues linkValues) (hrun : Runs env (linkNoStruct span p linkValues) s ty s') : False := by
  obtain ⟨_, s₁, hreport, -, hfirst, -⟩ := h.bind (checkable_accrues.report _ _)
    (fun _ => .bind hvalues fun _ => .pure _) hrun
  exact hfirst.not_report hreport

theorem linkConstruct_fields {name : TypeExpr} (h : Unreported s s')
    (hrun : Runs env (linkConstruct body expected id span name (fields.map (·.1)) (linkValues body fields)
      fun plan => linkFields body plan fields) s ty s') :
    ∃ path struct args declared, name.namedPath? = some path ∧
      s.resolve? env.source path = .ok (some struct) ∧ ty = .linked struct args ∧
      s.signatures.fields.get? struct = some declared ∧
      ∀ name, name ∈ fields.map (·.1) ↔ name ∈ declared.map (·.1) := by
  have hvalues : FramedIn env Accrues (linkValues body fields) := accrues_linkValues body fields
  unfold linkConstruct at hrun
  split at hrun
  · exact absurd hrun not_runs_throw
  · rename_i path _
    simp only [runs_bind, runs_resolve?] at hrun
    obtain ⟨target, _, ⟨htarget, rfl⟩, hrun⟩ := hrun
    split at hrun
    · exact (h.not_linkNoStruct hvalues hrun).elim
    · rename_i struct
      simp only [runs_bind, runs_signatures] at hrun
      obtain ⟨_, _, ⟨rfl, rfl⟩, hrun⟩ := hrun
      split at hrun
      · exact (h.not_linkNoStruct hvalues hrun).elim
      · rename_i declared hdeclared
        obtain ⟨_, s₁, -, hliteral, -, hrest⟩ := h.bind (accrues_recordResolved _ _)
          (fun _ => (walkable_accrues env).linkStructLiteral (accrues_linkFields body · fields) _ _ _ _ _) hrun
        obtain ⟨⟨args, rfl⟩, hnames⟩ := linkStructLiteral_fields hrest hliteral
        exact ⟨path, struct, args, declared, rfl, htarget, rfl, hdeclared, hnames⟩
  · exact (h.not_linkNoStruct hvalues hrun).elim

end Link

open Link

variable {env : LinkEnv} {s s' : LinkState} {body : Body} {hint : Option Ty} {access : Access} {id : ExprId}
  {span : Span} {name : TypeExpr} {fields : List (String × Expr)} {ty : Ty}

/-- A struct literal that nothing is reported about names a struct and supplies the fields of this struct and no others.
If the struct has no two fields of one name, the supplied names are a permutation of the declared ones just if no field
is supplied twice. -/
theorem linkExpr_construct_fields (hloud : s.quiet = false)
    (h : Runs env (linkExpr body hint access (.node id span (.construct name fields))) s ty s')
    (hsilent : s'.reports = s.reports) :
    ∃ path struct args declared, name.namedPath? = some path ∧
      s.resolve? env.source path = .ok (some struct) ∧ ty = .linked struct args ∧
      s.signatures.fields.get? struct = some declared ∧
      (∀ field, field ∈ fields.map (·.1) ↔ field ∈ declared.map (·.1)) ∧
      ((declared.map (·.1)).Nodup →
        ((fields.map (·.1)).Perm (declared.map (·.1)) ↔ (fields.map (·.1)).Nodup)) := by
  have hnone : Unreported s s' := ⟨(accrues_linkExpr _ _ _ _).of_runs h, hloud, hsilent⟩
  have hshape : FramedIn env Accrues (linkShape body hint access id span (.construct name fields)) :=
    ((walkable_accrues env).linkShape body (.construct name fields) rfl (fun _ _ => trivial) hint access).1
  rw [linkExpr] at h
  obtain ⟨_, s₁, hliteral, hrest, hnone, -⟩ := hnone.bind hshape
    (fun _ => .bind (accrues_recordLinked _ _) fun _ => .pure _) h
  rw [linkShape] at hliteral
  obtain ⟨_, _, -, hend⟩ := runs_bind.1 hrest
  obtain ⟨rfl, -⟩ := runs_pure.1 hend
  obtain ⟨path, struct, args, declared, hname, htarget, hty, hdeclared, hnames⟩ :=
    linkConstruct_fields hnone hliteral
  refine ⟨path, struct, args, declared, hname, htarget, hty, hdeclared, hnames, fun hnodup => ?_⟩
  constructor
  · intro hperm
    exact hperm.nodup_iff.2 hnodup
  · intro hsupplied
    exact (List.perm_ext_iff_of_nodup hsupplied hnodup).2 hnames

/-- `fn main() { P { … }; }` for a struct `P` with the fields `x` and `y`. Three numbers are there to supply them with. -/
def pointLiteral (fields : List (String × ExprId)) : Setup where
  source := .ofSteps [
    .struct "P" .copy,
    .typeExpr (.named ["int"] []),
    .field ⟨0⟩ "x" ⟨0⟩,
    .field ⟨0⟩ "y" ⟨0⟩,
    .function "main",
    .typeExpr (.named ["P"] []),
    .expr (.intLit 1),
    .expr (.intLit 2),
    .expr (.intLit 3),
    .expr (.construct ⟨1⟩ fields),
    .exprStmt ⟨3⟩,
    .block [⟨0⟩],
    .body ⟨1⟩ ⟨0⟩]

/-- The fields may come in another order. -/
theorem construct_fields_pointLiteral :
    let setup := pointLiteral [("y", ⟨0⟩), ("x", ⟨1⟩)]
    let fields : List (String × Expr) := [("y", .node ⟨0⟩ {} (.intLit 1)), ("x", .node ⟨1⟩ {} (.intLit 2))]
    let literal : Expr := .node ⟨3⟩ {} (.construct (.node ⟨1⟩ {} (.named ["P"] [])) fields)
    ∃ ty s', Runs setup.linkEnv (linkExpr { host := none, ret := .void } none .read literal) setup.declared ty s' ∧
      s'.reports = [] ∧ ∃ declared, setup.declared.signatures.fields.get? ⟨0⟩ = some declared ∧
        (fields.map (·.1)).Perm (declared.map (·.1)) := by
  intro setup fields literal
  obtain ⟨ty, s', hrun, hreports, hsilent⟩ : ∃ ty s',
      Runs setup.linkEnv (linkExpr { host := none, ret := .void } none .read literal) setup.declared ty s' ∧
        s'.reports = [] ∧ s'.reports = setup.declared.reports := exists_result_of_run (by decide +kernel)
  have hdeclared : setup.declared.signatures.fields.get? ⟨0⟩ = some [("x", .int), ("y", .int)] := by decide +kernel
  have hresolved : setup.declared.resolve? setup.source ["P"] = .ok (some ⟨0⟩) := by decide +kernel
  obtain ⟨path, struct, args, declared, hpath, htarget, -, hfields, -, hperm⟩ :=
    linkExpr_construct_fields (by decide +kernel) hrun hsilent
  obtain rfl := Option.some.inj hpath
  obtain rfl := Option.some.inj (Except.ok.inj (hresolved.symm.trans htarget))
  obtain rfl := Option.some.inj (hdeclared.symm.trans hfields)
  exact ⟨ty, s', hrun, hreports, _, hdeclared, (hperm (by decide)).2 (by decide)⟩

/-- A field that is supplied twice is not reported. -/
theorem repeated_pointLiteral :
    let fields : List (String × ExprId) := [("x", ⟨0⟩), ("x", ⟨1⟩), ("y", ⟨2⟩)]
    (pointLiteral fields).link.reports = [] ∧ ∃ p, (pointLiteral fields).link.result = .ok p ∧
      p.exprTypes.get? ⟨3⟩ = some (.linked ⟨0⟩ []) ∧ ∃ declared, p.signatures.fields.get? ⟨0⟩ = some declared ∧
        (declared.map (·.1)).Nodup ∧ ¬(fields.map (·.1)).Perm (declared.map (·.1)) := by
  intro fields
  obtain ⟨p, hlink, hty, hdeclared⟩ : ∃ p, (pointLiteral fields).link.result = .ok p ∧
      p.exprTypes.get? ⟨3⟩ = some (.linked ⟨0⟩ []) ∧
        p.signatures.fields.get? ⟨0⟩ = some [("x", .int), ("y", .int)] := exists_of_result (by decide +kernel)
  exact ⟨by decide +kernel, p, hlink, hty, _, hdeclared, by decide, by decide⟩

end Linkage
