import Linkage.Proofs.Link.Checks
import Linkage.Proofs.Link.Types
import Linkage.Proofs.Registry.Cursors

/-!
# Passing values on leaves the facts alone

Places are moved out and put back, a literal takes the scalar type of what it is passed to, and an iteration is active
for a while. Which copy a use refers to, and the types of struct literals, stay as they were recorded.
-/

namespace Linkage

namespace Link

open Relation

variable {α : Type} {env : LinkEnv} {r : Regime} {src : Source} {cur : DeclId} {busy : List ExprId}
  {s s' : LinkState} {P : Prop}

/-! ### Actions without lasting effects -/

theorem trackable_minor : Trackable Minor where
  report span p := minor_report span p _
  places _ _ _ _ := minor_of_eq rfl rfl rfl rfl

theorem minor_recordResolved (e : ExprId) (decl : DeclId) : Framed Minor (recordResolved e decl) :=
  .modify fun _ => minor_of_eq rfl rfl rfl rfl

/-! ### Passing steps -/

/-- What passing values on may do. Types are recorded for the expressions in `ok` only. -/
inductive PassStep (ok : ExprId → Prop) : LinkState → LinkState → Prop
  | minor {s s' : LinkState} (h : Minor s s') : PassStep ok s s'
  | literal (s : LinkState) {e : ExprId} (h : ok e) (p : Primitive) :
      PassStep ok s { s with program.exprTypes := s.program.exprTypes.insert e (.prim p) }
  | active (s : LinkState) (active : Table DeclId IterationId) :
      PassStep ok s { s with program.registry.active := active }

abbrev Passes (ok : ExprId → Prop) : LinkState → LinkState → Prop := ReflTransGen (PassStep ok)

instance (ok : ExprId → Prop) : Sequential (Passes ok) where
  refl _ := .refl
  trans h h' := h.trans h'

variable {ok : ExprId → Prop}

theorem passes_of_minor {act : LinkM α} (h : FramedIn env Minor act) : FramedIn env (Passes ok) act :=
  fun s => .single (.minor (h s))

theorem passes_settleLiteral (e : Expr) (actual expected : Ty) (h : actual.isLiteral = true → ok e.id) :
    FramedIn env (Passes ok) (settleLiteral e actual expected) := by
  unfold settleLiteral
  split
  · rename_i hliteral
    refine .bind looks_typeEnv.framedIn fun tenv => ?_
    have hscalar : ∀ ty t, scalar? ty = some t → ∃ p, t = .prim p := by
      intro ty t ht
      unfold scalar? at ht
      split at ht
      · exact ⟨_, (Option.some.inj ht).symm⟩
      · exact ⟨_, (Option.some.inj ht).symm⟩
      · simp at ht
    split
    · rename_i t ht
      obtain ⟨p, rfl⟩ := hscalar _ t ht
      exact .modify fun s => .single (.literal s (h hliteral) p)
    · exact .pure _
  · exact .pure _

theorem passes_bindArg (a : Argument) (place : Option Place) (left : List Place)
    (h : a.ty.isLiteral = true → ok a.value.id) : FramedIn env (Passes ok) (bindArg a place left) := by
  refine .bind (passes_of_minor (trackable_minor.expectType _ _ _)) fun _ => ?_
  refine .bind (passes_settleLiteral _ _ _ h) fun _ => ?_
  exact .bind (passes_of_minor (trackable_minor.checkLeft _ _ _)) fun _ => passes_of_minor (trackable_minor.moveArg _ _)

def LiteralAmong (args : List Argument) (e : ExprId) : Prop :=
  ∃ a ∈ args, a.ty.isLiteral = true ∧ a.value.id = e

theorem passes_bindArgs (args : List Argument) : FramedIn env (Passes (LiteralAmong args)) (bindArgs args) := by
  refine .bind looks_source.framedIn fun src => .bind Looks.get.framedIn fun s => ?_
  refine .bind (passes_of_minor (trackable_minor.note _)) fun _ => ?_
  refine .bind (.foldlM (fun left a ha => ?_) _) fun _ => .pure _
  exact passes_bindArg a _ left fun hliteral => ⟨a, ha, hliteral, rfl⟩

/-! ### Cursors -/

theorem passStep_of_cursors {registry : Registry}
    (h : ∃ active, registry = { s.program.registry with active := active }) :
    PassStep ok s { s with program.registry := registry } := by
  obtain ⟨active, rfl⟩ := h
  exact .active s active

theorem passes_withActive (decl : DeclId) (index : IterationId) {act : LinkM α}
    (h : FramedIn env (Passes ok) act) : FramedIn env (Passes ok) (withActive decl index act) := by
  intro s
  have hstart : PassStep ok s { s with program := (s.program.activate decl index).2 } :=
    passStep_of_cursors (s.program.registry.setCursors_eq _)
  exact (ReflTransGen.single hstart).trans ((h _).tail (passStep_of_cursors (Registry.release_eq _ _)))

theorem passes_bindToInstance (decl : DeclId) (copy : Instance) (args : List Argument) :
    FramedIn env (Passes (LiteralAmong args)) (bindToInstance decl copy args) := by
  cases copy with
  | iteration index => exact passes_withActive decl index (passes_bindArgs args)
  | plain => exact passes_bindArgs args
  | dependent _ => exact passes_bindArgs args
  | unresolved => exact passes_bindArgs args

/-! ### What the steps come to -/

theorem PassStep.keeps (h : PassStep ok s s') :
    Keeps r src cur busy s (P ∧ ∀ e, ok e → ¬src.IsConstruct e) s'
      (P ∧ ∀ e, ok e → ¬src.IsConstruct e) := by
  cases h with
  | minor h => exact h.keeps
  | literal he p =>
    refine ⟨LinkState.later_of_eq rfl, fun hP hat _ => ⟨⟨?_, ?_, hat.loud⟩, hP⟩⟩
    · exact hat.facts.recordType (.prim p) fun hconstruct => absurd hconstruct (hP.2 _ he)
    · exact ⟨hat.sees.spaces, hat.sees.frames⟩
  | active active =>
    refine ⟨?_, fun hP hat _ => ⟨⟨hat.facts.active active, ?_, hat.loud⟩, hP⟩⟩
    · exact { LinkState.Later.refl _ with registry := .of_eq rfl rfl }
    · exact ⟨hat.sees.spaces, hat.sees.frames⟩

theorem passes_keeps (h : Passes ok s s') :
    Keeps r src cur busy s (P ∧ ∀ e, ok e → ¬src.IsConstruct e) s' P := by
  have hsteps : Keeps r src cur busy s (P ∧ ∀ e, ok e → ¬src.IsConstruct e) s'
      (P ∧ ∀ e, ok e → ¬src.IsConstruct e) := by
    induction h with
    | refl => exact .refl fun hP _ => hP
    | tail _ hstep ih => exact ih.trans hstep.keeps
  exact hsteps.imp id fun _ => And.left

structure Undisturbed (s s' : LinkState) : Prop where
  usages : s'.program.usages = s.program.usages
  linked : s'.linked = s.linked
  signatures : s'.program.signatures = s.program.signatures
  registry : s.program.registry.Extends s'.program.registry

theorem undisturbed_of_passes (h : Passes ok s s') : Undisturbed s s' := by
  induction h with
  | refl => exact ⟨rfl, rfl, rfl, .refl _⟩
  | tail _ hstep ih =>
    cases hstep with
    | minor h =>
      have hlater : LinkState.Later True _ _ := h.later
      refine ⟨?_, ?_, ?_, ih.registry.trans hlater.registry⟩
      · exact (congrArg Known.usages h.known).trans ih.usages
      · exact (congrArg Known.linked h.known).trans ih.linked
      · exact (congrArg Known.signatures h.known).trans ih.signatures
    | literal => exact ⟨ih.usages, ih.linked, ih.signatures, ih.registry⟩
    | active => exact ⟨ih.usages, ih.linked, ih.signatures, ih.registry.trans (.of_eq rfl rfl)⟩

theorem Undisturbed.selects (h : Undisturbed s s') {u : Usage} {args : List Ty}
    (hselects : s.known.Selects u args) : s'.known.Selects u args := by
  refine hselects.mono h.registry ?_
  show s'.program.signatures.env.allSame = s.program.signatures.env.allSame
  rw [h.signatures]

end Link

end Linkage
