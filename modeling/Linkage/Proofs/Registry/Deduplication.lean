import Linkage.Proofs.Registry.Closure

/-!
# One iteration for one list of arguments

However an iteration was asked for, the index that is answered names an iteration with the same
arguments, and it goes on naming that iteration. As no two iterations of a declaration have the same
arguments, two answers are equal exactly if the arguments asked for are the same.
-/

namespace Linkage

variable {x : Instances} {env : TypeEnv}

inductive Request where
  | getOrCreate (decl : DeclId) (args : List Ty) (depth : Nat)
  | call (c : Call)
  deriving DecidableEq, Repr, Inhabited

namespace Instances

def request (x : Instances) (env : TypeEnv) (limits : Limits) : Request → Instances
  | .getOrCreate decl args depth => { x with registry := (x.registry.getOrCreate env decl args depth).2 }
  | .call c => x.call env limits c

def requests (x : Instances) (env : TypeEnv) (limits : Limits) (rs : List Request) : Instances :=
  rs.foldl (fun x r => x.request env limits r) x

def Answers (x : Instances) (env : TypeEnv) (limits : Limits) (decl : DeclId) (args : List Ty)
    (i : IterationId) : Request → Prop
  | .getOrCreate decl' args' depth =>
    decl' = decl ∧ args' = args ∧ (x.registry.getOrCreate env decl args depth).1.1 = i
  | .call (.instantiate decl' args' span) =>
    decl' = decl ∧ args' = args ∧ (x.instantiate env limits decl args span).1 = some i
  | .call (.subscribe _) => False

/-- In the course of the requests on a fresh registry, an iteration of the declaration with the
arguments was asked for and `i` was found or made for it. -/
inductive Served (env : TypeEnv) (limits : Limits) (rs : List Request) :
    DeclId → List Ty → IterationId → Prop
  | directly {before : List Request} {r : Request} {decl : DeclId} {args : List Ty} {i : IterationId}
      (hbegins : before ++ [r] <+: rs)
      (hanswer : (({} : Instances).requests env limits before).Answers env limits decl args i r) :
      Served env limits rs decl args i
  | byPropagation {before : List Request} {id : SubscriptionId} {s : Subscription} {h i : IterationId}
      {host : Iteration} (hbegins : before <+: rs)
      (hs : (({} : Instances).requests env limits before).registry.subscription? id = some s)
      (hhost : (({} : Instances).requests env limits before).registry.iteration? s.host h = some host)
      (hmapped : (({} : Instances).requests env limits before).registry.mapped? id h = some i) :
      Served env limits rs s.target (s.targetArgs host.args) i

theorem requests_append (x : Instances) (env : TypeEnv) (limits : Limits) (before after : List Request) :
    x.requests env limits (before ++ after) = (x.requests env limits before).requests env limits after :=
  List.foldl_append

/-! ### A run of requests -/

theorem extends_request (x : Instances) (env : TypeEnv) (limits : Limits) (r : Request) :
    x.registry.Extends (x.request env limits r).registry := by
  cases r with
  | getOrCreate decl args depth => exact Registry.extends_getOrCreate x.registry env decl args depth
  | call c =>
    cases c with
    | instantiate decl args span => exact follows_extends.instantiate x env limits decl args span
    | subscribe s => exact follows_extends.subscribe x env limits s

theorem extends_requests (x : Instances) (env : TypeEnv) (limits : Limits) (rs : List Request) :
    x.registry.Extends (x.requests env limits rs).registry := by
  induction rs generalizing x with
  | nil => exact .refl _
  | cons r rs ih => exact (extends_request x env limits r).trans (ih _)

theorem sound_request (hx : x.registry.Sound env) (limits : Limits)
    (r : Request) : (x.request env limits r).registry.Sound env := by
  cases r with
  | getOrCreate decl args depth => exact hx.getOrCreate decl args depth
  | call c =>
    cases c with
    | instantiate decl args span => exact sound_instantiate hx limits decl args span
    | subscribe s => exact sound_subscribe hx limits s

theorem sound_requests (hx : x.registry.Sound env) (limits : Limits)
    (rs : List Request) : (x.requests env limits rs).registry.Sound env := by
  induction rs generalizing x with
  | nil => exact hx
  | cons r rs ih => exact ih (sound_request hx limits r)

theorem extends_of_begins (env : TypeEnv) (limits : Limits) {before rs : List Request} (h : before <+: rs) :
    (({} : Instances).requests env limits before).registry.Extends
      (({} : Instances).requests env limits rs).registry := by
  obtain ⟨after, rfl⟩ := h
  rw [requests_append]
  exact extends_requests _ env limits after

/-! ### Answers -/

theorem iteration?_of_answers (hx : x.registry.Sound env) {limits : Limits}
    {decl : DeclId} {args : List Ty} {i : IterationId} {r : Request} (h : x.Answers env limits decl args i r) :
    ∃ it, (x.request env limits r).registry.iteration? decl i = some it ∧
      env.allSame it.args args = true := by
  match r, h with
  | .getOrCreate _ _ depth, ⟨rfl, rfl, hi⟩ =>
    rw [← hi]
    exact hx.iteration?_getOrCreate _ _ depth
  | .call (.instantiate _ _ span), ⟨rfl, rfl, hi⟩ => exact iteration?_instantiate hx (Prod.ext hi rfl)

theorem Served.iteration? {limits : Limits} {rs : List Request} {decl : DeclId}
    {args : List Ty} {i : IterationId} (h : Served env limits rs decl args i) :
    ∃ it, (({} : Instances).requests env limits rs).registry.iteration? decl i = some it ∧
      env.allSame it.args args = true := by
  have hsound (before : List Request) : (({} : Instances).requests env limits before).registry.Sound env :=
    sound_requests (Registry.sound_empty env) limits before
  cases h with
  | @directly before r _ _ _ hbegins hanswer =>
    obtain ⟨it, hit, hsame⟩ := iteration?_of_answers (hsound before) hanswer
    have hext := extends_of_begins env limits hbegins
    rw [requests_append] at hext
    exact ⟨it, hext.iteration? hit, hsame⟩
  | @byPropagation before id s h _ host hbegins hs hhost hmapped =>
    obtain ⟨s', host', it, hs', hhost', hit, hsame⟩ := (hsound before).mapped id h i hmapped
    obtain rfl := Option.some.inj (hs'.symm.trans hs)
    obtain rfl := Option.some.inj (hhost'.symm.trans hhost)
    exact ⟨it, (extends_of_begins env limits hbegins).iteration? hit, hsame⟩

/-- After any requests on a fresh registry the index of an iteration is its position, the iterations
are those that were there at any earlier time and perhaps more behind them, different iterations of a
declaration have different arguments, and equal indices were given for the same arguments only, and
always. -/
theorem requests_deduplicated (env : TypeEnv) (limits : Limits) (before after : List Request) :
    let x := ({} : Instances).requests env limits before
    let y := ({} : Instances).requests env limits (before ++ after)
    (∀ decl i it, y.registry.iteration? decl i = some it → it.index = i) ∧
      (∀ decl, x.registry.iterationsOf decl <+: y.registry.iterationsOf decl) ∧
      (∀ decl i j a b, y.registry.iteration? decl i = some a → y.registry.iteration? decl j = some b →
        i ≠ j → env.allSame a.args b.args = false) ∧
      ∀ decl as bs i j, Served env limits (before ++ after) decl as i →
        Served env limits (before ++ after) decl bs j → (i = j ↔ env.allSame as bs = true) := by
  intro x y
  have hy : y.registry.Sound env := sound_requests (Registry.sound_empty env) limits _
  have hext : x.registry.Extends y.registry := extends_of_begins env limits (List.prefix_append _ _)
  refine ⟨hy.numbered, hext.iterationsOf, ?_, ?_⟩
  · intro decl i j a b ha hb hne
    rw [Bool.eq_false_iff]
    intro hsame
    exact hne (hy.eq_of_allSame ha hb hsame)
  · intro decl as bs i j has hbs
    obtain ⟨a, ha, hasame⟩ := has.iteration?
    obtain ⟨b, hb, hbsame⟩ := hbs.iteration?
    constructor
    · rintro rfl
      obtain rfl := Option.some.inj (ha.symm.trans hb)
      exact TypeEnv.allSame_trans (TypeEnv.allSame_symm hasame) hbsame
    · intro hsame
      refine hy.eq_of_allSame ha hb ?_
      exact TypeEnv.allSame_trans hasame (TypeEnv.allSame_trans hsame (TypeEnv.allSame_symm hbsame))

end Instances

end Linkage
