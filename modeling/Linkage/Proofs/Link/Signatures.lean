import Linkage.Proofs.Link.Declarations

/-!
# Duplicates and signatures

Of two functions of one name whose parameters agree the second is set aside. To compare them their parameters are
mentioned, which leaves no trace. After that the signatures are linked. All functions that were not set aside have one
in the end, and a function whose body is still to be linked is among them.
-/

namespace Linkage

variable {decl : DeclId} {u : Unit}

theorem Facts.ignore {r : Regime} {src : Source} {busy : List ExprId} {k : Known} (h : Facts r src busy k)
    (d : DeclId) : Facts r src busy { k with ignored := k.ignored ++ [d] } :=
  { h with whole := fun hwhole d' hd' hnot => h.whole hwhole d' hd' fun hmem => hnot (List.mem_append_left _ hmem) }

/-- The state with more frames open, the last of them innermost. -/
def LinkState.opened (s : LinkState) (frames : List Frame) : LinkState :=
  { s with scopes := frames.foldl .push s.scopes }

namespace Link

variable {α : Type} {env : LinkEnv} {r : Regime} {cur : DeclId} {busy : List ExprId} {s s' : LinkState}
  {host : Option DeclId}

/-! ### Duplicates -/

instance : Sequential Eq := ⟨fun _ => rfl, Eq.trans⟩

instance : Enclosed Eq := ⟨fun _ h => h ▸ rfl⟩

theorem looks_of_eq {act : LinkM α} (h : Framed Eq act) : Looks act := fun env s => (h env s).symm

theorem looks_quietly {act : LinkM α} (h : Framed (TypeSteps .mention) act) : Looks (quietly act) := by
  intro env s
  obtain ⟨checks, reports, hs, hquiet⟩ := eq_of_mention_steps (h env { s with quiet := true })
  obtain ⟨rfl, rfl⟩ := hquiet rfl
  exact congrArg (fun t : LinkState => { t with quiet := s.quiet }) hs

theorem looks_mentionedParams (decl : DeclId) : Looks (mentionedParams decl) := by
  refine .bind (looks_declOf decl) fun d => ?_
  split
  · refine looks_of_eq (framed_inNamespaces (framed_inGenerics fun host => Looks.framed ?_))
    refine looks_quietly (.bind (.mapM fun param _ => ?_) fun _ => .pure _)
    refine .bind (looks_declOf param).framed fun pd => ?_
    split
    · split
      · exact .pure _
      · exact .bind (steps_linkTypeAt host .mention _) fun _ => .pure _
    · exact .pure _
  · exact .pure _

theorem Binds.later {src : Source} {fixed : Prop} (h : Binds src s s') : s.Later fixed s' := by
  have hknown := h.known
  simp only [LinkState.known, Known.mk.injEq] at hknown
  obtain ⟨hsignatures, hregistry, -, -, -, hreports, -, hignored, hbodies⟩ := hknown
  have heq : s'.watched = { s with scopes := s'.scopes }.watched := by
    simp only [LinkState.watched, LinkState.signatures, hsignatures, hregistry, hreports, hignored, hbodies, h.quiet]
  refine LinkState.Later.trans ?_ (LinkState.later_of_eq heq)
  exact { LinkState.Later.refl s with outer := h.outer }

def KeptReachable (src : Source) (kept : Table DeclId DeclId) : Prop :=
  ∀ d first, kept.get? d = some first → src.Reachable first

theorem settleRedeclaration_keeps {kept kept' : Table DeclId DeclId} {x : Redeclaration}
    (hx : x.Reachable env.source) (hkept : KeptReachable env.source kept)
    (h : Runs env (settleRedeclaration kept x) s kept' s') :
    s.Later r.settled s' ∧ KeptReachable env.source kept' ∧
      (Outside r env.source s → r.Quiet s' → Outside r env.source s') := by
  simp only [settleRedeclaration, runs_bind, runs_typeEnv] at h
  obtain ⟨firstParams, s₁, hrun₁, secondParams, s₂, hrun₂, _, _, ⟨-, rfl⟩, h⟩ := h
  obtain rfl := (looks_mentionedParams _).of_runs hrun₁
  obtain rfl := (looks_mentionedParams _).of_runs hrun₂
  split at h
  · simp only [runs_bind, runs_declOf] at h
    obtain ⟨d, _, ⟨-, rfl⟩, _, s₃, hreport, _, s₄, hignore, _, s₅, hdeclare, h⟩ := h
    obtain ⟨rfl, rfl⟩ := runs_pure.1 h
    obtain rfl := runs_modify.1 hignore
    have hfirst : env.source.Reachable ((kept.get? x.first).getD x.first) := by
      cases hget : kept.get? x.first with
      | none => exact hx.1
      | some first => exact hkept x.first first hget
    have hminor : Minor s s₃ := (minor_report _ _).of_runs hreport
    have hbinds := binds_declareIn hfirst hdeclare
    have hignored : s₃.Later r.settled { s₃ with ignored := s₃.ignored ++ [x.second] } :=
      { LinkState.Later.refl s₃ with ignored := List.prefix_append _ _ }
    have hlater := hignored.trans hbinds.later
    refine ⟨hminor.later.trans hlater, Table.forall_insert hkept hfirst, fun hout hquiet => ?_⟩
    have hkeeps : Keeps r env.source x.second [] s True s₃ True := hminor.keeps
    obtain ⟨hout₃, -⟩ := hout.leave hkeeps hminor.scopes trivial (hquiet.of_later hlater)
    refine ⟨?_, hbinds.sees ⟨hout₃.sees.spaces, hout₃.sees.frames⟩, hbinds.quiet.trans hout₃.loud⟩
    rw [hbinds.known]
    exact hout₃.facts.ignore x.second
  · obtain ⟨rfl, rfl⟩ := runs_pure.1 h
    exact ⟨.refl s, hkept, fun hout _ => hout⟩

theorem settleRedeclarations_keeps {found : List Redeclaration} (hfound : ∀ x ∈ found, x.Reachable env.source)
    {kept kept' : Table DeclId DeclId} (hkept : KeptReachable env.source kept)
    (h : Runs env (found.foldlM settleRedeclaration kept) s kept' s') :
    s.Later r.settled s' ∧ (Outside r env.source s → r.Quiet s' → Outside r env.source s') := by
  induction found generalizing s kept with
  | nil =>
    obtain ⟨-, rfl⟩ := runs_foldlM_nil.1 h
    exact ⟨.refl s, fun hout _ => hout⟩
  | cons x found ih =>
    obtain ⟨kept₁, s₁, hfirst, hrest⟩ := runs_foldlM_cons.1 h
    obtain ⟨hlater, hkept₁, hstep⟩ := settleRedeclaration_keeps (hfound x List.mem_cons_self) hkept hfirst
    obtain ⟨hlater', hsteps⟩ := ih (fun y hy => hfound y (List.mem_cons_of_mem _ hy)) hkept₁ hrest
    exact ⟨hlater.trans hlater', fun hout hquiet => hsteps (hstep hout (hquiet.of_later hlater')) hquiet⟩

/-! ### Functions -/

def ParamsTyped (r : Regime) (src : Source) (cur : DeclId) (sigs : Signatures) (params : List DeclId) : Prop :=
  ∀ p ∈ params, ∃ t, sigs.declTypes.get? p = some t ∧ r.Fits src cur t

variable {d : Decl}

theorem linkParam_keeps (hbuilt : env.source.WellBuilt) (hhost : Hosts env.source cur host)
    (hd : env.source.decl? cur = some d) {param : DeclId} (hparam : param ∈ d.kind.params) {done : List DeclId}
    {sig : ParamSig} (h : Runs env (linkParam host param) s sig s') :
    Keeps r env.source cur busy s (ParamsTyped r env.source cur s.signatures done) s'
      (r.Fits env.source cur sig.ty ∧ ParamsTyped r env.source cur s'.signatures (param :: done)) := by
  simp only [linkParam, runs_bind, runs_declOf] at h
  obtain ⟨pd, _, ⟨hpd, rfl⟩, h⟩ := h
  split at h
  · rename_i p hkind
    simp only [runs_bind, runs_pure] at h
    obtain ⟨ty, s₁, hlink, _, s₂, hrecord, rfl, rfl⟩ := h
    obtain ⟨hsignatures, -, -⟩ := signatures_of_steps ((steps_linkTypeAt host .use p.ty).of_runs hlink)
    have hvalue : pd.kind.isValueBinding = true := by rw [hkind]; rfl
    have howner : ∀ f fd, env.source.decl? f = some fd → param ∈ fd.kind.params → f = cur :=
      fun f fd hfd hmem => hbuilt.paramOwner f fd cur d hfd hd param hmem hparam
    have krecord : Keeps r env.source cur busy s₁ (r.Fits env.source cur ty) s₂
        (Visible r env.source cur s₂.signatures param) := recordDeclType_keeps hpd hvalue howner hrecord
    refine (linkTypeAt_keeps hhost hlink).imp (fun _ => trivial) (fun htyped hfits => And.intro htyped hfits) |>.trans ?_
    refine krecord.imp And.right ?_
    rintro ⟨htyped, hfits⟩ -
    refine ⟨hfits, fun q hq => ?_⟩
    obtain rfl := runs_modify.1 hrecord
    show ∃ t, (s₁.program.signatures.declTypes.insert param ty).get? q = some t ∧ _
    rw [hsignatures, Table.get?_insert]
    split
    · exact ⟨ty, rfl, hfits⟩
    · rename_i hne
      exact htyped q ((List.mem_cons.1 hq).resolve_left fun heq => hne heq.symm)
  · exact absurd h not_runs_throw

theorem linkParams_keeps (hbuilt : env.source.WellBuilt) (hhost : Hosts env.source cur host)
    (hd : env.source.decl? cur = some d) {params : List DeclId} (hparams : params ⊆ d.kind.params)
    {done : List DeclId} {sigs : List ParamSig} (h : Runs env (params.mapM (linkParam host)) s sigs s') :
    Keeps r env.source cur busy s (ParamsTyped r env.source cur s.signatures done) s'
      ((∀ p ∈ sigs, r.Fits env.source cur p.ty) ∧
        ParamsTyped r env.source cur s'.signatures (params.reverse ++ done)) := by
  induction params generalizing s sigs done with
  | nil =>
    obtain ⟨rfl, rfl⟩ := runs_mapM_nil.1 h
    exact .refl fun htyped _ => ⟨nofun, htyped⟩
  | cons param params ih =>
    obtain ⟨sig, rest, s₁, hfirst, hrest, rfl⟩ := runs_mapM_cons.1 h
    obtain ⟨hparam, hparams⟩ := List.cons_subset.1 hparams
    refine (linkParam_keeps hbuilt hhost hd hparam hfirst).trans ?_
    refine (ih hparams hrest).imp And.right fun ⟨hfits, _⟩ ⟨hall, htyped⟩ => ⟨?_, ?_⟩
    · intro p hp
      rcases List.mem_cons.1 hp with rfl | hp
      · exact hfits
      · exact hall p hp
    · rw [List.reverse_cons, List.append_assoc]
      exact htyped

theorem yields_linkOptional (hhost : Hosts env.source cur host) {absent : Ty}
    (habsent : r.Fits env.source cur absent) (id : Option TypeExprId) :
    Yields r env cur busy True (linkOptional host absent id) (r.Fits env.source cur) := by
  cases id with
  | none => exact .pure fun _ => habsent
  | some id => exact yields_linkTypeAt hhost .use id

theorem recordFunction_keeps (hd : env.source.decl? cur = some d) {sig : FunctionSig}
    (h : Runs env (onSignatures fun sigs => { sigs with functions := sigs.functions.insert cur sig }) s u s') :
    Keeps r env.source cur busy s ((∀ p ∈ sig.params, r.Fits env.source cur p.ty) ∧
      r.Fits env.source cur sig.ret ∧ ParamsTyped r env.source cur s.signatures d.kind.params) s' True := by
  obtain rfl := runs_modify.1 h
  have hcontains : ∀ d', s.signatures.functions.contains d' = true →
      (s.signatures.functions.insert cur sig).contains d' = true := by
    intro d' hd'
    rw [Table.contains, Table.get?_insert]
    split
    · rfl
    · exact hd'
  have hlater : s.Later r.settled s := .refl s
  refine ⟨{ hlater with functions := hcontains }, ?_⟩
  rintro ⟨hparams, hret, htyped⟩ hat _
  refine ⟨⟨?_, ⟨hat.sees.spaces, fun frame hframe name d' hd' => ?_⟩, hat.loud⟩, trivial⟩
  · refine hat.facts.withSignatures ?_ hcontains ?_ (hat.facts.sound.congr rfl) fun v args hv =>
      hv.mono (.refl _) rfl
    · exact { hat.facts.signatures with
        functions := Table.forall_insert hat.facts.signatures.functions ⟨hparams, hret⟩ }
    · refine Table.forall_insert hat.facts.paramTypes fun decl hdecl => ?_
      obtain rfl := Option.some.inj (hd.symm.trans hdecl)
      exact htyped
  · exact (hat.sees.frames frame hframe name d' hd').congr rfl

theorem linkFunctionSig_keeps (hbuilt : env.source.WellBuilt) (hhost : Hosts env.source cur host)
    (hd : env.source.decl? cur = some d) {f : FunctionDecl} (hkind : d.kind = .function f)
    (h : Runs env (linkSignatureKind cur host (.function f)) s u s') : Keeps r env.source cur busy s True s' True := by
  simp only [linkSignatureKind, runs_bind] at h
  obtain ⟨sigs, s₁, hparams, ret, s₂, hret, hrecord⟩ := h
  have hsubset : f.params ⊆ d.kind.params := by
    rw [hkind]
    exact List.Subset.refl _
  have ktyped : Keeps r env.source cur busy s True s₁ ((∀ p ∈ sigs, r.Fits env.source cur p.ty) ∧
      ParamsTyped r env.source cur s₁.signatures (f.params.reverse ++ [])) :=
    (linkParams_keeps hbuilt hhost hd hsubset hparams).imp (fun _ p hp => absurd hp List.not_mem_nil) fun _ h => h
  have kret : Keeps r env.source cur busy s₁ True s₂ (r.Fits env.source cur ret) :=
    yields_linkOptional hhost (.prim .void) f.ret s₁ ret s₂ hret
  have hsignatures : s₂.signatures = s₁.signatures := by
    have hsteps : TypeSteps .use s₁ s₂ := by
      cases hid : f.ret with
      | none =>
        rw [hid] at hret
        obtain ⟨-, rfl⟩ := runs_pure.1 hret
        exact .refl
      | some id =>
        rw [hid] at hret
        exact (steps_linkTypeAt host .use id).of_runs hret
    exact (signatures_of_steps hsteps).1
  refine ktyped.trans ((kret.imp (fun _ => trivial) ?_).trans (recordFunction_keeps hd hrecord))
  rintro ⟨hall, htyped⟩ hfits
  refine ⟨hall, hfits, ?_⟩
  rw [hsignatures, hkind]
  exact fun p hp => htyped p (List.mem_append_left _ (List.mem_reverse.2 hp))

/-! ### Signatures -/

theorem yields_linkFields (hhost : Hosts env.source cur host) (hd : env.source.decl? cur = some d)
    {st : StructDecl} (hkind : d.kind = .struct st) :
    Yields r env cur busy True (linkSignatureKind cur host (.struct st)) fun _ => True := by
  have hfield : ∀ f : FieldDecl, Yields r env cur busy True (do return (f.name, ← linkTypeAt host .use f.ty))
      fun p : String × Ty => r.Fits env.source cur p.2 :=
    fun f => .bind (yields_linkTypeAt hhost .use f.ty) fun ty => .pure fun hfits => hfits
  refine .bind (.mapM fun f _ => hfield f) fun fields => ?_
  refine yields_onSignatures (fun _ => rfl) (fun _ _ => rfl) fun sigs hall hfit => ?_
  exact { hfit with fields := Table.forall_insert hfit.fields ⟨⟨d, st, hd, hkind⟩, hall⟩ }

theorem yields_linkPayloads (hhost : Hosts env.source cur host) (v : VariantDecl) :
    Yields r env cur busy True (linkSignatureKind cur host (.variant v)) fun _ => True := by
  have hcase : ∀ c : VariantCase, Yields r env cur busy True
      (do return (c.name, ← c.payload.mapM (linkTypeAt host .use)))
      fun c : String × Option Ty => ∀ t, c.2 = some t → t.Obeys (r.rules env.source) := by
    intro c
    cases c.payload with
    | none => exact .pure fun _ => nofun
    | some id =>
      rw [Option.mapM_some, bind_map_left]
      refine .bind (yields_linkTypeAt hhost .use id) fun ty => .pure fun hfits t ht => ?_
      exact Option.some.inj ht ▸ hfits.obeys
  refine .bind (.mapM fun c _ => hcase c) fun cases => ?_
  refine yields_onSignatures (fun _ => rfl) (fun _ _ => rfl) fun sigs hall hfit => ?_
  exact { hfit with cases := Table.forall_insert hfit.cases hall }

theorem linkSignatureKind_keeps (hbuilt : env.source.WellBuilt) (hhost : Hosts env.source cur host)
    (hd : env.source.decl? cur = some d) (hitem : d.kind.isItem = true)
    (h : Runs env (linkSignatureKind cur host d.kind) s u s') : Keeps r env.source cur busy s True s' True := by
  cases hkind : d.kind with
  | function f => exact linkFunctionSig_keeps hbuilt hhost hd hkind (hkind ▸ h)
  | struct st => exact yields_linkFields hhost hd hkind s u s' (hkind ▸ h)
  | variant v => exact yields_linkPayloads hhost v s u s' (hkind ▸ h)
  | var v => simp [hkind, DeclKind.isItem] at hitem
  | parameter p => simp [hkind, DeclKind.isItem] at hitem
  | interface _ | union _ | typeAlias _ | genericParam _ | space _ =>
    rw [hkind, linkSignatureKind] at h
    obtain ⟨-, rfl⟩ := runs_pure.1 h
    exact .refl fun h _ => h

/-! ### Which functions have a signature -/

theorem runs_withFrames {frames : List Frame} {act : LinkM α} {a : α} (h : Runs env (withFrames frames act) s a s') :
    ∃ s₁, Runs env act (s.opened frames) a s₁ ∧ s' = { s₁ with scopes := s'.scopes } := by
  induction frames generalizing s s' with
  | nil => exact ⟨s', h, rfl⟩
  | cons frame frames ih =>
    obtain ⟨s₁, hrun, rfl⟩ := runs_withFrame.1 h
    obtain ⟨s₂, hact, hs₁⟩ := ih hrun
    refine ⟨s₂, hact, ?_⟩
    rw [hs₁]

theorem runs_inNamespaces {act : LinkM α} {a : α} (h : Runs env (inNamespaces decl act) s a s') :
    ∃ s₁, s' = { s₁ with scopes := s'.scopes } ∧
      Runs env act
        (s.opened ((env.source.spacesAround decl).reverse.map fun d => (s.spaces.frame? d).getD {})) a s₁ := by
  simp only [inNamespaces, runs_bind, runs_get] at h
  obtain ⟨around, _, haround, _, _, ⟨rfl, rfl⟩, h⟩ := h
  obtain ⟨-, rfl, rfl⟩ := runs_spacesAround.1 haround
  obtain ⟨s₁, hact, hclosed⟩ := runs_withFrames h
  exact ⟨s₁, hclosed, hact⟩

theorem runs_inGenerics {act : Option DeclId → LinkM α} {a : α} (h : Runs env (inGenerics decl act) s a s') :
    ∃ host scopes s₁, Runs env (act host) { s with scopes := scopes } a s₁ ∧ s'.known = s₁.known := by
  simp only [inGenerics, runs_bind] at h
  obtain ⟨host, _, hhost, frame, _, hframe, h⟩ := h
  obtain rfl := (consults_genericHost decl).looks.of_runs hhost
  obtain rfl := (consults_genericFrame decl).looks.of_runs hframe
  obtain ⟨s₁, hrun, rfl⟩ := runs_withFrame.1 h
  exact ⟨host, _, s₁, hrun, rfl⟩

theorem contains_of_linkSignatureKind {f : FunctionDecl}
    (h : Runs env (inGenerics cur fun host => linkSignatureKind cur host (.function f)) s u s') :
    s'.signatures.functions.contains cur = true := by
  obtain ⟨host, scopes, s₁, hrun, hknown⟩ := runs_inGenerics h
  simp only [linkSignatureKind, runs_bind] at hrun
  obtain ⟨params, _, _, ret, s₂, _, hrecord⟩ := hrun
  obtain rfl := runs_modify.1 hrecord
  have hfunctions : s'.signatures.functions = s₂.signatures.functions.insert cur ⟨params, ret⟩ :=
    congrArg (·.signatures.functions) hknown
  rw [hfunctions, Table.contains, Table.get?_insert_self]
  rfl

theorem linkSignature_keeps (hbuilt : env.source.WellBuilt) (hd : env.source.decl? cur = some d)
    (hitem : d.kind.isItem = true) (h : Runs env (linkSignature cur) s u s') :
    s'.scopes = s.scopes ∧ (d.kind.isFunction = true → s'.signatures.functions.contains cur = true) ∧
      Keeps r env.source cur busy s True s' True := by
  simp only [linkSignature, runs_bind, runs_declOf] at h
  obtain ⟨d', _, ⟨hd', rfl⟩, _, s₁, hkind, h⟩ := h
  obtain rfl := Option.some.inj (hd.symm.trans hd')
  have hcontains : d.kind.isFunction = true → s₁.signatures.functions.contains cur = true := by
    intro hfunction
    obtain ⟨f, hf⟩ := Option.isSome_iff_exists.1 hfunction
    have hf : d.kind = .function f := by
      cases hk : d.kind <;> simp_all [DeclKind.function?]
    exact contains_of_linkSignatureKind (hf ▸ hkind)
  obtain ⟨hscopes, hkeeps⟩ : _ ∧ Keeps r env.source cur busy s True s₁ True :=
    inGenerics_keeps hbuilt hkind fun host hhost scopes s' => linkSignatureKind_keeps hbuilt hhost hd hitem
  split at h
  · rename_i hbody
    obtain rfl := runs_modify.1 h
    have hfunction : d.kind.isFunction = true := by
      obtain ⟨block, hblock⟩ := Option.isSome_iff_exists.1 hbody
      obtain ⟨f, hf, -⟩ := Option.bind_eq_some_iff.1 hblock
      rw [DeclKind.isFunction, hf]
      rfl
    have hlater : s₁.Later r.settled s₁ := .refl s₁
    refine ⟨hscopes, hcontains, hkeeps.trans ⟨{ hlater with bodies := List.prefix_append _ _ }, fun _ hat _ => ?_⟩⟩
    refine ⟨⟨{ hat.facts with bodies := fun d' hd' => ?_ }, ⟨hat.sees.spaces, hat.sees.frames⟩, hat.loud⟩, trivial⟩
    rcases List.mem_append.1 hd' with hd' | hd'
    · exact hat.facts.bodies d' hd'
    · rw [List.mem_singleton.1 hd']
      exact hcontains hfunction
  · obtain ⟨-, rfl⟩ := runs_pure.1 h
    exact ⟨hscopes, hcontains, hkeeps⟩

section Owners

variable (hbuilt : env.source.WellBuilt) {owners : List DeclId}
  (howners : ∀ d ∈ owners, ∀ decl, env.source.decl? d = some decl → decl.kind.isItem = true)
include hbuilt howners

theorem linkUnlessIgnored_keeps (hdecl : decl ∈ owners) (h : Runs env (do
      unless (← get).ignored.contains decl do
        inNamespaces decl (linkSignature decl)) s u s') :
    s.Later r.settled s' ∧ (Outside r env.source s → r.Quiet s' → Outside r env.source s') ∧
      ∀ d, env.source.decl? decl = some d → d.kind.isFunction = true → decl ∉ s'.ignored →
        s'.signatures.functions.contains decl = true := by
  simp only [runs_bind, runs_get] at h
  obtain ⟨_, _, ⟨rfl, rfl⟩, h⟩ := h
  split at h
  · rename_i hignored
    obtain ⟨-, rfl⟩ := runs_pure.1 h
    refine ⟨.refl s, fun hout _ => hout, fun d _ _ hnot => absurd (List.contains_iff_mem.1 hignored) hnot⟩
  · obtain ⟨s₁, hclosed, hrun⟩ := runs_inNamespaces h
    obtain ⟨d, _, hd, -⟩ := runs_bind.1 hrun
    obtain ⟨hd, -⟩ := runs_declOf.1 hd
    have hlink : ∀ {s s₁ : LinkState}, Runs env (linkSignature decl) s u s₁ → s₁.scopes = s.scopes ∧
        (d.kind.isFunction = true → s₁.signatures.functions.contains decl = true) ∧
          Keeps r env.source decl [] s True s₁ True :=
      linkSignature_keeps hbuilt hd (howners decl hdecl d hd)
    obtain ⟨hscopes, hkeeps⟩ : _ ∧ Keeps r env.source decl [] s True s' True :=
      inNamespaces_keeps h fun scopes s' h => ⟨(hlink h).1, (hlink h).2.2⟩
    refine ⟨hkeeps.later, fun hout hquiet => (hout.leave hkeeps hscopes trivial hquiet).1, fun d' hd' hfunction _ => ?_⟩
    obtain rfl := Option.some.inj (hd.symm.trans hd')
    have hsignatures : s'.signatures = s₁.signatures := by rw [hclosed]; rfl
    rw [hsignatures]
    exact (hlink hrun).2.1 hfunction

theorem linkSignatures_keeps (h : Runs env (owners.forM fun decl => do
      unless (← get).ignored.contains decl do
        inNamespaces decl (linkSignature decl)) s u s') :
    s.Later r.settled s' ∧ (Outside r env.source s → r.Quiet s' → Outside r env.source s') ∧
      ∀ decl ∈ owners, ∀ d, env.source.decl? decl = some d → d.kind.isFunction = true → decl ∉ s'.ignored →
        s'.signatures.functions.contains decl = true := by
  induction owners generalizing s with
  | nil =>
    obtain rfl := runs_forM_nil.1 h
    exact ⟨.refl s, fun hout _ => hout, nofun⟩
  | cons decl owners ih =>
    obtain ⟨s₁, hfirst, hrest⟩ := runs_forM_cons.1 h
    obtain ⟨hlater, hstep, hcontains⟩ := linkUnlessIgnored_keeps hbuilt howners List.mem_cons_self hfirst
    obtain ⟨hlater', hsteps, hall⟩ := ih (fun d hd => howners d (List.mem_cons_of_mem _ hd)) hrest
    refine ⟨hlater.trans hlater', fun hout hquiet => hsteps (hstep hout (hquiet.of_later hlater')) hquiet, ?_⟩
    intro decl' hdecl' d hd hfunction hnot
    rcases List.mem_cons.1 hdecl' with rfl | hdecl'
    · exact hlater'.functions _ (hcontains d hd hfunction fun hmem => hnot (hlater'.ignored.subset hmem))
    · exact hall decl' hdecl' d hd hfunction hnot

end Owners

end Link

end Linkage
