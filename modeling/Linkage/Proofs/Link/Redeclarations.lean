import Linkage.Proofs.Link.Mentions

/-!
# How redeclarations are settled

The declarations of one name in one frame form a list, in the order in which they are bound. A function that follows
another in this list is compared, when its turn comes, with the last function before it that is still kept, and if
their parameters agree it is set aside and its name is bound to that function again. What this comes to is told for
the declarations treated so far: which of them are set aside, what is kept in their place, and what the name is bound
to.
-/

namespace Linkage

variable {d : Decl} {f g : DeclId} {ds ignored : List DeclId} {found : List Redeclaration}

namespace Source

variable {src : Source} {before listings : List Listing} {x : Listing} {space : Option DeclId} {name : String}

/-! ### Declarations of one name -/

/-- The listed declarations that are bound to the name in the frame, in order. -/
def declaredAmong (src : Source) (listings : List Listing) (space : Option DeclId) (name : String) : List DeclId :=
  (listings.filter fun x => src.bindingOf x = (space, some name)).map (·.id)

def declared (src : Source) (space : Option DeclId) (name : String) : List DeclId :=
  src.declaredAmong src.listings space name

theorem mem_ids_of_declaredAmong {d : DeclId} (h : d ∈ src.declaredAmong listings space name) :
    d ∈ listings.map (·.id) := by
  obtain ⟨x, hx, rfl⟩ := List.mem_map.1 h
  exact List.mem_map_of_mem (List.mem_filter.1 hx).1

theorem declaredAmong_concat_of_eq (h : src.bindingOf x = (space, some name)) :
    src.declaredAmong (before ++ [x]) space name = src.declaredAmong before space name ++ [x.id] := by
  rw [declaredAmong, List.filter_append, List.map_append, List.filter_cons_of_pos (by simpa using h)]
  rfl

theorem declaredAmong_concat_of_ne (h : src.bindingOf x ≠ (space, some name)) :
    src.declaredAmong (before ++ [x]) space name = src.declaredAmong before space name := by
  rw [declaredAmong, List.filter_append, List.filter_cons_of_neg (by simpa using h), List.filter_nil,
    List.append_nil]
  rfl

/-- No function is listed more than once. -/
def FunctionsOnce (src : Source) (listings : List Listing) : Prop :=
  ((listings.map (·.id)).filter src.isFunction).Nodup

theorem FunctionsOnce.fresh (h : src.FunctionsOnce (before ++ x :: listings)) (hx : src.isFunction x.id = true) :
    x.id ∉ before.map (·.id) := by
  rw [FunctionsOnce, List.map_append, List.filter_append, List.nodup_append] at h
  intro hmem
  refine h.2.2 x.id (List.mem_filter.2 ⟨hmem, hx⟩) x.id (List.mem_filter.2 ⟨?_, hx⟩) rfl
  exact List.mem_map_of_mem List.mem_cons_self

theorem FunctionsOnce.not_mem_later (h : src.FunctionsOnce src.listings) {pre post : List DeclId}
    (heq : src.declared space name = pre ++ g :: post) (hf : src.isFunction f = true) (hmem : f ∈ pre) : f ∉ post := by
  have hsub : (src.declared space name).Sublist (src.listings.map (·.id)) := List.filter_sublist.map _
  have hnodup := (hsub.filter src.isFunction).nodup h
  rw [heq, List.filter_append, List.nodup_append] at hnodup
  intro hpost
  refine hnodup.2.2 f (List.mem_filter.2 ⟨hmem, hf⟩) f (List.mem_filter.2 ⟨?_, hf⟩) rfl
  exact List.mem_cons_of_mem _ hpost

/-! ### Redeclarations -/

/-- What a listing redeclares, if it is a function and so is the declaration that has its name. -/
def redeclaration? (src : Source) (before : List Listing) (x : Listing) : Option Redeclaration := do
  let d ← src.decl? x.id
  let first ← (src.declaredAmong before x.space d.name).getLast?
  if src.isFunction first && src.isFunction x.id then some { space := x.space, first, second := x.id } else none

def redeclared (src : Source) (before : List Listing) : List Listing → List Redeclaration
  | [] => []
  | x :: listings => (src.redeclaration? before x).toList ++ src.redeclared (before ++ [x]) listings

end Source

namespace Link

variable {env : LinkEnv} {ref s s' : LinkState} {before listings : List Listing} {x : Listing}
  {kept kept' : Table DeclId DeclId}

/-- Every name is bound to the last of the declarations that were treated. -/
def LastBound (src : Source) (before : List Listing) (s : LinkState) : Prop :=
  ∀ space name, s.bound? space name = (src.declaredAmong before space name).getLast?

theorem LastBound.bind (h : LastBound env.source before s) (hd : env.source.decl? x.id = some d) :
    LastBound env.source (before ++ [x]) (s.bind x.space d.name x.id) := by
  have hbinding : env.source.bindingOf x = (x.space, some d.name) := by rw [Source.bindingOf, hd]; rfl
  intro space name
  by_cases heq : (x.space, d.name) = (space, name)
  · obtain ⟨rfl, rfl⟩ := Prod.mk.inj heq
    rw [LinkState.bound?_bind_self, Source.declaredAmong_concat_of_eq hbinding, List.getLast?_concat]
  · rw [LinkState.bound?_bind_of_ne s _ heq, Source.declaredAmong_concat_of_ne, h]
    rw [hbinding]
    exact fun hsame => heq (by obtain ⟨rfl, hname⟩ := Prod.mk.inj hsame; rw [Option.some.inj hname])

theorem runs_declareIn {space : Option DeclId} {name : String} {id : DeclId} {u : Unit}
    (h : Runs env (declareIn space name id) s u s') : s' = s.bind space name id := by
  cases space with
  | none => exact (runs_modify.1 h).symm
  | some space => exact (runs_modify.1 h).symm

theorem findInnermost?_eq_bound? (hinner : s.scopes.inner = []) (name : String) :
    s.scopes.findInnermost? name = s.bound? none name := by
  simp [LinkState.bound?, ScopeStack.find?, ScopeStack.findInnermost?, ScopeStack.frames, ScopeStack.innermost, hinner]

theorem redeclared_of_runs (hd : env.source.decl? x.id = some d) {previous : Option DeclId}
    (h : Runs env (match previous with
      | none => pure []
      | some first => do
        let overloads := (← declOf first).kind.isFunction && d.kind.isFunction
        return if overloads then [{ space := x.space, first, second := x.id : Redeclaration }] else []) s found s') :
    s' = s ∧ found = (previous.bind fun first => if env.source.isFunction first && env.source.isFunction x.id then
      some { space := x.space, first, second := x.id : Redeclaration } else none).toList := by
  cases previous with
  | none =>
    obtain ⟨rfl, rfl⟩ := runs_pure.1 h
    exact ⟨rfl, rfl⟩
  | some first =>
    simp only [runs_bind, runs_declOf, runs_pure] at h
    obtain ⟨fd, _, ⟨hfd, rfl⟩, rfl, rfl⟩ := h
    refine ⟨rfl, ?_⟩
    rw [Option.bind_some, Source.isFunction, Source.isFunction, hfd, hd, Option.any_some, Option.any_some]
    split <;> rfl

theorem declareName_redeclares (hinner : s.scopes.inner = []) (h : Runs env (declareName x.space x.id) s found s') :
    ∃ d, env.source.decl? x.id = some d ∧ s' = s.bind x.space d.name x.id ∧
      found = ((s.bound? x.space d.name).bind fun first =>
        if env.source.isFunction first && env.source.isFunction x.id then
          some { space := x.space, first, second := x.id : Redeclaration } else none).toList := by
  simp only [declareName, runs_bind, runs_declOf, runs_get] at h
  obtain ⟨d, _, ⟨hd, rfl⟩, _, _, ⟨rfl, rfl⟩, _, s₁, hdeclare, h⟩ := h
  obtain rfl := runs_declareIn hdeclare
  refine ⟨d, hd, redeclared_of_runs hd ?_⟩
  cases hspace : x.space with
  | none =>
    rw [hspace] at h
    rw [← findInnermost?_eq_bound? hinner]
    exact h
  | some space =>
    rw [hspace] at h
    exact h

theorem declareNames_redeclares (hinner : s.scopes.inner = []) (hbound : LastBound env.source before s)
    (h : Runs env (declareNames listings) s found s') :
    found = env.source.redeclared before listings ∧ s'.scopes.inner = [] ∧
      LastBound env.source (before ++ listings) s' ∧ s' = { s with scopes := s'.scopes, spaces := s'.spaces } := by
  induction listings generalizing before s found with
  | nil =>
    obtain ⟨rfl, rfl⟩ := runs_pure.1 h
    exact ⟨rfl, hinner, by rwa [List.append_nil], rfl⟩
  | cons x listings ih =>
    simp only [declareNames_cons, runs_bind, runs_pure] at h
    obtain ⟨first, s₁, hname, more, _, hrest, rfl, rfl⟩ := h
    obtain ⟨d, hd, rfl, rfl⟩ := declareName_redeclares hinner hname
    have hinner₁ : (s.bind x.space d.name x.id).scopes.inner = [] := by
      cases x.space with
      | none => simp [LinkState.bind, ScopeStack.declare, hinner]
      | some space => exact hinner
    obtain ⟨rfl, hinner', hbound', heq⟩ := ih hinner₁ (hbound.bind hd) hrest
    refine ⟨?_, hinner', by rwa [List.append_assoc] at hbound', ?_⟩
    · rw [Source.redeclared, Source.redeclaration?, hd, hbound]
      rfl
    · rw [heq]
      cases x.space <;> rfl

/-! ### Settling one redeclaration -/

/-- The explicit parameters of two functions have the same types, one by one. -/
def ParamsAgree (env : LinkEnv) (s : LinkState) (f g : DeclId) : Prop :=
  ∃ ts us, Runs env (mentionedParams f) s ts s ∧ Runs env (mentionedParams g) s us s ∧ s.env.allSame ts us = true

theorem Alike.paramsAgree (h : Alike env.source env.paramNames s s') (hagree : ParamsAgree env s f g) :
    ParamsAgree env s' f g := by
  obtain ⟨ts, us, hf, hg, hsame⟩ := hagree
  have henv : s.env = s'.env := env_of_tables h.tables
  exact ⟨ts, us, h.mentionedParams hf, h.mentionedParams hg, henv ▸ hsame⟩

theorem paramsAgree_iff : ParamsAgree env s f g ↔ (match (mentionedParams f env s).1, (mentionedParams g env s).1 with
    | .ok ts, .ok us => s.env.allSame ts us | _, _ => false) = true := by
  have hruns : ∀ d ts, Runs env (mentionedParams d) s ts s ↔ (mentionedParams d env s).1 = .ok ts :=
    fun d ts => ⟨fun h => congrArg Prod.fst h, fun h => Prod.ext h (looks_mentionedParams d env s)⟩
  simp only [ParamsAgree, hruns]
  constructor
  · rintro ⟨ts, us, hf, hg, hsame⟩
    rw [hf, hg]
    exact hsame
  · split
    · rename_i ts us hf hg
      exact fun hsame => ⟨ts, us, hf, hg, hsame⟩
    · exact nofun

instance (f g : DeclId) : Decidable (ParamsAgree env s f g) :=
  decidable_of_iff' _ paramsAgree_iff

def duplicateReport (d : Decl) : Diagnostic := (Problem.duplicateFunction d.name).diagnostic d.span

def setAside (s : LinkState) (id : DeclId) (d : Decl) : LinkState :=
  { s with reports := s.reports ++ [duplicateReport d], ignored := s.ignored ++ [id] }

theorem settleRedeclaration_cases (hloud : s.quiet = false) {r : Redeclaration}
    (h : Runs env (settleRedeclaration kept r) s kept' s') :
    ParamsAgree env s ((kept.get? r.first).getD r.first) r.second ∧
        (∃ d, env.source.decl? r.second = some d ∧ kept' = kept.insert r.second ((kept.get? r.first).getD r.first) ∧
          s' = (setAside s r.second d).bind r.space d.name ((kept.get? r.first).getD r.first)) ∨
      ¬ParamsAgree env s ((kept.get? r.first).getD r.first) r.second ∧ kept' = kept ∧ s' = s := by
  simp only [settleRedeclaration, runs_bind, runs_typeEnv] at h
  obtain ⟨ts, s₁, hfirst, us, s₂, hsecond, _, _, ⟨rfl, rfl⟩, h⟩ := h
  obtain rfl := (looks_mentionedParams _).of_runs hfirst
  obtain rfl := (looks_mentionedParams _).of_runs hsecond
  split at h
  · rename_i hsame
    simp only [runs_bind, runs_declOf] at h
    obtain ⟨d, _, ⟨hd, rfl⟩, _, s₃, hreport, _, s₄, hignore, _, s₅, hdeclare, h⟩ := h
    obtain ⟨rfl, rfl⟩ := runs_pure.1 h
    obtain rfl := runs_declareIn hdeclare
    have hs₃ : s₃ = { s with reports := s.reports ++ [duplicateReport d] } := by
      rw [← runs_modify.1 hreport, if_neg (by simp [hloud])]
      rfl
    have hs₄ : s₄ = setAside s r.second d := by
      rw [← runs_modify.1 hignore, hs₃]
      rfl
    exact .inl ⟨⟨ts, us, hfirst, hsecond, hsame⟩, d, hd, rfl, by rw [hs₄]⟩
  · rename_i hdiffer
    obtain ⟨rfl, rfl⟩ := runs_pure.1 h
    refine .inr ⟨?_, rfl, rfl⟩
    rintro ⟨ts', us', hfirst', hsecond', hsame⟩
    obtain ⟨rfl, -⟩ := hfirst.unique hfirst'
    obtain ⟨rfl, -⟩ := hsecond.unique hsecond'
    exact hdiffer hsame

/-! ### The declarations of one name -/

def survivors (ignored ds : List DeclId) : List DeclId := ds.filter (!ignored.contains ·)

theorem survivors_concat_of_mem (h : g ∈ ignored) : survivors ignored (ds ++ [g]) = survivors ignored ds := by
  rw [survivors, List.filter_append, List.filter_cons_of_neg (by simpa using h), List.filter_nil, List.append_nil]
  rfl

theorem survivors_concat_of_not_mem (h : g ∉ ignored) :
    survivors ignored (ds ++ [g]) = survivors ignored ds ++ [g] := by
  rw [survivors, List.filter_append, List.filter_cons_of_pos (by simpa using h), List.filter_nil]
  rfl

theorem survivors_congr {ignored' : List DeclId} (h : ∀ g ∈ ds, g ∈ ignored' ↔ g ∈ ignored) :
    survivors ignored' ds = survivors ignored ds := by
  refine List.filter_congr fun g hg => ?_
  rw [List.contains_eq_mem, List.contains_eq_mem, decide_eq_decide.2 (h g hg)]

theorem concat_eq_append_cons {α : Type} {c pre post : List α} {a b : α} (h : c ++ [a] = pre ++ b :: post) :
    post = [] ∧ b = a ∧ pre = c ∨ ∃ post', post = post' ++ [a] ∧ c = pre ++ b :: post' := by
  rcases List.eq_nil_or_concat' post with rfl | ⟨post', last, rfl⟩
  · obtain ⟨rfl, hlast⟩ := List.append_inj' h rfl
    exact .inl ⟨rfl, (List.cons.inj hlast).1.symm, rfl⟩
  · have hsplit : c ++ [a] = (pre ++ b :: post') ++ [last] := by rw [h, List.append_assoc]; rfl
    obtain ⟨rfl, hlast⟩ := List.append_inj' hsplit rfl
    obtain rfl := (List.cons.inj hlast).1
    exact .inr ⟨post', rfl, rfl⟩

/-- The declarations `ds` of one name were treated, and the name, which was bound to `original`, is now bound to
`bound`. -/
structure Treated (kept : Table DeclId DeclId) (ignored ds : List DeclId) (original bound : Option DeclId) :
    Prop where
  /-- In place of a duplicate the last survivor before it is kept. -/
  inPlace : ∀ pre g post, ds = pre ++ g :: post → g ∈ ignored → kept.get? g = (survivors ignored pre).getLast?
  untouched : (∀ g ∈ ds, g ∉ ignored) → bound = original
  /-- The name is bound to what is kept in place of the last duplicate. -/
  rebound : ∀ pre g post, ds = pre ++ g :: post → g ∈ ignored → (∀ e ∈ post, e ∉ ignored) → bound = kept.get? g

namespace Treated

variable {ignored ignored' ds : List DeclId} {original bound : Option DeclId} {a : DeclId}

theorem congr (h : Treated kept ignored ds original bound) (hignored : ∀ g ∈ ds, g ∈ ignored' ↔ g ∈ ignored)
    (hkept : ∀ g ∈ ds, kept'.get? g = kept.get? g) : Treated kept' ignored' ds original bound := by
  refine ⟨fun pre g post heq hg => ?_, fun hnone => ?_, fun pre g post heq hg hpost => ?_⟩
  · have hmem : g ∈ ds := heq ▸ List.mem_append_right _ List.mem_cons_self
    have hpre : survivors ignored' pre = survivors ignored pre :=
      survivors_congr fun e he => hignored e (heq ▸ List.mem_append_left _ he)
    rw [hkept g hmem, hpre]
    exact h.inPlace pre g post heq ((hignored g hmem).1 hg)
  · exact h.untouched fun g hg hmem => hnone g hg ((hignored g hg).2 hmem)
  · have hmem : g ∈ ds := heq ▸ List.mem_append_right _ List.mem_cons_self
    rw [hkept g hmem]
    refine h.rebound pre g post heq ((hignored g hmem).1 hg) fun e he hmem' => hpost e he ?_
    exact (hignored e (heq ▸ List.mem_append_right _ (List.mem_cons_of_mem _ he))).2 hmem'

theorem concat (h : Treated kept ignored ds original bound) (ha : a ∉ ignored) :
    Treated kept ignored (ds ++ [a]) original bound := by
  refine ⟨fun pre g post heq hg => ?_, fun hnone => ?_, fun pre g post heq hg hpost => ?_⟩
  · rcases concat_eq_append_cons heq with ⟨-, rfl, -⟩ | ⟨post', -, heq'⟩
    · exact absurd hg ha
    · exact h.inPlace pre g post' heq' hg
  · exact h.untouched fun g hg => hnone g (List.mem_append_left _ hg)
  · rcases concat_eq_append_cons heq with ⟨-, rfl, -⟩ | ⟨post', rfl, heq'⟩
    · exact absurd hg ha
    · exact h.rebound pre g post' heq' hg fun e he => hpost e (List.mem_append_left _ he)

theorem concat_duplicate (h : Treated kept ignored ds original bound) (ha : a ∈ ignored)
    (hkept : kept.get? a = (survivors ignored ds).getLast?) :
    Treated kept ignored (ds ++ [a]) original (kept.get? a) := by
  refine ⟨fun pre g post heq hg => ?_, fun hnone => ?_, fun pre g post heq hg hpost => ?_⟩
  · rcases concat_eq_append_cons heq with ⟨-, rfl, rfl⟩ | ⟨post', -, heq'⟩
    · exact hkept
    · exact h.inPlace pre g post' heq' hg
  · exact absurd ha (hnone a (by simp))
  · rcases concat_eq_append_cons heq with ⟨-, rfl, -⟩ | ⟨post', rfl, -⟩
    · rfl
    · exact absurd ha (hpost a (by simp))

theorem last_survivor (h : Treated kept ignored ds original bound)
    (hkeys : ∀ g, (kept.get? g).isSome = true ↔ g ∈ ignored) {last : DeclId} (hlast : ds.getLast? = some last) :
    (survivors ignored ds).getLast? = some ((kept.get? last).getD last) := by
  obtain ⟨pre, rfl⟩ := List.getLast?_eq_some_iff.1 hlast
  by_cases hmem : last ∈ ignored
  · obtain ⟨f, hf⟩ := Option.isSome_iff_exists.1 ((hkeys last).2 hmem)
    rw [survivors_concat_of_mem hmem, ← h.inPlace pre last [] rfl hmem, hf]
    rfl
  · have hnone : kept.get? last = none := by
      rw [← Option.not_isSome_iff_eq_none, hkeys]
      exact hmem
    rw [survivors_concat_of_not_mem hmem, List.getLast?_concat, hnone]
    rfl

end Treated

/-! ### Settling all redeclarations -/

/-- The listings treated so far, where `ref` is the state before any of them was. -/
structure Settling (env : LinkEnv) (ref : LinkState) (before : List Listing) (kept : Table DeclId DeclId)
    (s : LinkState) : Prop where
  inner : s.scopes.inner = []
  loud : s.quiet = false
  reports : s.reports = ref.reports ++ s.ignored.filterMap fun g => (env.source.decl? g).map duplicateReport
  listed : ∀ g ∈ s.ignored, g ∈ before.map (·.id)
  nodup : s.ignored.Nodup
  keys : ∀ g, (kept.get? g).isSome = true ↔ g ∈ s.ignored
  functions : ∀ g f, kept.get? g = some f → env.source.isFunction g = true ∧ env.source.isFunction f = true
  treated : ∀ space name, Treated kept s.ignored (env.source.declaredAmong before space name)
    (ref.bound? space name) (s.bound? space name)

namespace Settling

theorem isFunction_ignored (h : Settling env ref before kept s) (hg : g ∈ s.ignored) :
    env.source.isFunction g = true := by
  obtain ⟨f, hf⟩ := Option.isSome_iff_exists.1 ((h.keys g).2 hg)
  exact (h.functions g f hf).1

theorem not_mem_ignored (h : Settling env ref before kept s)
    (hfresh : env.source.isFunction x.id = true → x.id ∉ before.map (·.id)) : x.id ∉ s.ignored :=
  fun hmem => hfresh (h.isFunction_ignored hmem) (h.listed _ hmem)

theorem skip (h : Settling env ref before kept s)
    (hfresh : env.source.isFunction x.id = true → x.id ∉ before.map (·.id)) :
    Settling env ref (before ++ [x]) kept s := by
  refine { h with listed := fun g hg => ?_, treated := fun space name => ?_ }
  · rw [List.map_append]
    exact List.mem_append_left _ (h.listed g hg)
  · by_cases hhere : env.source.bindingOf x = (space, some name)
    · rw [Source.declaredAmong_concat_of_eq hhere]
      exact (h.treated space name).concat (h.not_mem_ignored hfresh)
    · rw [Source.declaredAmong_concat_of_ne hhere]
      exact h.treated space name

theorem isFunction_kept (h : Settling env ref before kept s) {d : DeclId} (hd : env.source.isFunction d = true) :
    env.source.isFunction ((kept.get? d).getD d) = true := by
  cases hget : kept.get? d with
  | none => exact hd
  | some f => exact (h.functions d f hget).2

theorem setAside (h : Settling env ref before kept s) (hfresh : x.id ∉ before.map (·.id))
    (hd : env.source.decl? x.id = some d) {last : DeclId}
    (hlast : (env.source.declaredAmong before x.space d.name).getLast? = some last)
    (hfirst : env.source.isFunction last = true) (hsecond : env.source.isFunction x.id = true) :
    Settling env ref (before ++ [x]) (kept.insert x.id ((kept.get? last).getD last))
      ((setAside s x.id d).bind x.space d.name ((kept.get? last).getD last)) := by
  have hbinding : env.source.bindingOf x = (x.space, some d.name) := by rw [Source.bindingOf, hd]; rfl
  have hx : x.id ∉ s.ignored := fun hmem => hfresh (h.listed _ hmem)
  have hkept : ∀ {g}, g ≠ x.id → (kept.insert x.id ((kept.get? last).getD last)).get? g = kept.get? g :=
    fun hg => Table.get?_insert_of_ne _ _ hg.symm
  have hmem : ∀ {g}, g ∈ s.ignored ++ [x.id] ↔ g ∈ s.ignored ∨ g = x.id := by
    intro g
    rw [List.mem_append, List.mem_singleton]
  -- of the declarations treated before nothing changes
  have hbefore : ∀ space name, Treated (kept.insert x.id ((kept.get? last).getD last)) (s.ignored ++ [x.id])
      (env.source.declaredAmong before space name) (ref.bound? space name) (s.bound? space name) := by
    intro space name
    have hne : ∀ g ∈ env.source.declaredAmong before space name, g ≠ x.id := by
      rintro g hg rfl
      exact hfresh (Source.mem_ids_of_declaredAmong hg)
    exact (h.treated space name).congr (fun g hg => hmem.trans (or_iff_left (hne g hg))) fun g hg => hkept (hne g hg)
  have hignored : ((Link.setAside s x.id d).bind x.space d.name ((kept.get? last).getD last)).ignored =
      s.ignored ++ [x.id] := by
    cases x.space <;> rfl
  refine { inner := ?_, loud := ?_, reports := ?_, listed := ?_, nodup := ?_, keys := ?_, functions := ?_, treated := ?_ }
  · cases x.space with
    | none => simp [LinkState.bind, ScopeStack.declare, Link.setAside, h.inner]
    | some space => exact h.inner
  · cases x.space <;> exact h.loud
  · rw [hignored, List.filterMap_append, ← List.append_assoc, ← h.reports]
    cases x.space <;> simp [LinkState.bind, Link.setAside, hd]
  · intro g hg
    rw [hignored, hmem] at hg
    rw [List.map_append, List.mem_append]
    exact hg.imp (h.listed g) fun heq => List.mem_singleton.2 heq
  · rw [hignored, List.nodup_append]
    refine ⟨h.nodup, by simp, fun a ha b hb hab => hx ?_⟩
    rwa [← List.mem_singleton.1 hb, ← hab]
  · intro g
    rw [hignored, hmem]
    by_cases hg : g = x.id
    · rw [hg, Table.get?_insert_self]
      simp
    · rw [hkept hg, h.keys, or_iff_left hg]
  · exact Table.forall_insert h.functions ⟨hsecond, h.isFunction_kept hfirst⟩
  · intro space name
    rw [hignored]
    by_cases hhere : env.source.bindingOf x = (space, some name)
    · obtain ⟨rfl, hname⟩ := Prod.mk.inj (hbinding.symm.trans hhere)
      obtain rfl := Option.some.inj hname
      have hself := kept.get?_insert_self x.id ((kept.get? last).getD last)
      have hsurvivor := (h.treated x.space d.name).last_survivor h.keys hlast
      rw [Source.declaredAmong_concat_of_eq hbinding, LinkState.bound?_bind_self, ← hself]
      refine (hbefore x.space d.name).concat_duplicate (hmem.2 (.inr rfl)) ?_
      rw [hself, ← hsurvivor]
      refine congrArg List.getLast? (survivors_congr fun g hg => hmem.trans (or_iff_left ?_)).symm
      rintro rfl
      exact hfresh (Source.mem_ids_of_declaredAmong hg)
    · rw [Source.declaredAmong_concat_of_ne hhere, LinkState.bound?_bind_of_ne]
      · exact hbefore space name
      · intro heq
        obtain ⟨rfl, rfl⟩ := Prod.mk.inj heq
        exact hhere hbinding

end Settling

/-- The listing redeclares a function that is kept and whose parameters agree. -/
def IsDuplicate (env : LinkEnv) (s : LinkState) (before : List Listing) (kept : Table DeclId DeclId) (x : Listing)
    (d : Decl) : Prop :=
  ∃ last, (env.source.declaredAmong before x.space d.name).getLast? = some last ∧
    env.source.isFunction last = true ∧ env.source.isFunction x.id = true ∧
      ParamsAgree env s ((kept.get? last).getD last) x.id

theorem settle_cases (hloud : s.quiet = false) (hd : env.source.decl? x.id = some d)
    (h : Runs env ((env.source.redeclaration? before x).toList.foldlM settleRedeclaration kept) s kept' s') :
    (∃ last, (env.source.declaredAmong before x.space d.name).getLast? = some last ∧
      env.source.isFunction last = true ∧ env.source.isFunction x.id = true ∧
        IsDuplicate env s before kept x d ∧ kept' = kept.insert x.id ((kept.get? last).getD last) ∧
          s' = (setAside s x.id d).bind x.space d.name ((kept.get? last).getD last)) ∨
      ¬IsDuplicate env s before kept x d ∧ kept' = kept ∧ s' = s := by
  have hnot : env.source.redeclaration? before x = none → ¬IsDuplicate env s before kept x d := by
    rintro hnone ⟨last, hlast, hfirst, hsecond, -⟩
    simp [Source.redeclaration?, hd, hlast, hfirst, hsecond] at hnone
  cases hr : env.source.redeclaration? before x with
  | none =>
    rw [hr] at h
    obtain ⟨rfl, rfl⟩ := runs_foldlM_nil.1 h
    exact .inr ⟨hnot hr, rfl, rfl⟩
  | some r =>
    rw [hr] at h
    obtain ⟨_, _, hsettle, hrest⟩ := runs_foldlM_cons.1 h
    obtain ⟨rfl, rfl⟩ := runs_foldlM_nil.1 hrest
    obtain ⟨last, hlast, hfirst, hsecond, rfl⟩ : ∃ last,
        (env.source.declaredAmong before x.space d.name).getLast? = some last ∧ env.source.isFunction last = true ∧
          env.source.isFunction x.id = true ∧ { space := x.space, first := last, second := x.id } = r := by
      simp only [Source.redeclaration?, hd, Option.bind_eq_bind, Option.bind_some, Option.bind_eq_some_iff] at hr
      obtain ⟨last, hlast, hr⟩ := hr
      split at hr
      · rename_i hboth
        obtain ⟨hfirst, hsecond⟩ := Bool.and_eq_true_iff.1 hboth
        exact ⟨last, hlast, hfirst, hsecond, Option.some.inj hr⟩
      · exact nomatch hr
    rcases settleRedeclaration_cases hloud hsettle with ⟨hagree, d', hd', hkept, hs'⟩ | ⟨hdiffer, hkept, hs'⟩
    · obtain rfl := Option.some.inj (hd.symm.trans hd')
      exact .inl ⟨last, hlast, hfirst, hsecond, ⟨last, hlast, hfirst, hsecond, hagree⟩, hkept, hs'⟩
    · refine .inr ⟨fun ⟨last', hlast', _, _, hagree⟩ => hdiffer ?_, hkept, hs'⟩
      obtain rfl := Option.some.inj (hlast.symm.trans hlast')
      exact hagree

/-- All redeclarations are settled, one after the other. What each of them keeps up holds in the end. -/
theorem Settling.foldlM {P : List Listing → LinkState → Prop} (h : Settling env ref before kept s)
    (hP : P before s) (honce : env.source.FunctionsOnce (before ++ listings))
    (hdecls : ∀ x ∈ listings, (env.source.decl? x.id).isSome = true)
    (hstep : ∀ before x d kept s kept' s', x ∈ listings → Settling env ref before kept s →
      (env.source.isFunction x.id = true → x.id ∉ before.map (·.id)) → env.source.decl? x.id = some d →
        Runs env ((env.source.redeclaration? before x).toList.foldlM settleRedeclaration kept) s kept' s' →
          P before s → P (before ++ [x]) s')
    (hrun : Runs env ((env.source.redeclared before listings).foldlM settleRedeclaration kept) s kept' s') :
    Settling env ref (before ++ listings) kept' s' ∧ P (before ++ listings) s' := by
  induction listings generalizing before kept s with
  | nil =>
    obtain ⟨rfl, rfl⟩ := runs_foldlM_nil.1 hrun
    rw [List.append_nil]
    exact ⟨h, hP⟩
  | cons x listings ih =>
    obtain ⟨d, hd⟩ := Option.isSome_iff_exists.1 (hdecls x List.mem_cons_self)
    rw [Source.redeclared, List.foldlM_append, runs_bind] at hrun
    obtain ⟨kept₁, s₁, hfirst, hrest⟩ := hrun
    have hfresh := honce.fresh
    rw [List.append_cons] at honce ⊢
    have h₁ : Settling env ref (before ++ [x]) kept₁ s₁ := by
      rcases settle_cases h.loud hd hfirst with ⟨last, hlast, hfn, hfn', -, rfl, rfl⟩ | ⟨-, rfl, rfl⟩
      · exact h.setAside (hfresh hfn') hd hlast hfn hfn'
      · exact h.skip hfresh
    refine ih h₁ (hstep _ x d _ _ _ _ List.mem_cons_self h hfresh hd hfirst hP) honce
      (fun y hy => hdecls y (List.mem_cons_of_mem _ hy)) (fun b y e k t k' t' hy => ?_) hrest
    exact hstep b y e k t k' t' (List.mem_cons_of_mem _ hy)

end Link

end Linkage
