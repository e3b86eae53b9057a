import Linkage.Proofs.Link.Facts

/-!
# Linking inside a declaration

Inside a declaration a name leads to a declaration that can be reached from the top level, to a generic parameter that
is visible there, or to a local or a parameter whose type fits. Linking keeps this, and the facts with it, as long as
no report spoils a silent run. `Keeps` says so of a single run. The order matters: whether the first of two runs was
quiet is read off the state after the second.
-/

namespace Linkage

variable {d decl : DeclId} {frame : Frame} {path : List String} {scopes : ScopeStack} {t : Ty} {β : Type}

variable {r : Regime} {src : Source} {cur : DeclId} {busy : List ExprId}

/-- A declaration that a name may lead to inside `cur`. -/
inductive Visible (r : Regime) (src : Source) (cur : DeclId) (sigs : Signatures) (d : DeclId) : Prop
  | reachable (h : src.Reachable d)
  | generic {decl : Decl} {g : GenericId} (hdecl : src.decl? d = some decl)
      (hkind : decl.kind = .genericParam g) (hg : g ∈ src.visible cur)
  | value {decl : Decl} {t : Ty} (hdecl : src.decl? d = some decl)
      (hkind : decl.kind.isValueBinding = true) (ht : sigs.declTypes.get? d = some t)
      (hfits : r.Fits src cur t)

structure Sees (src : Source) (ok : DeclId → Prop) (s : LinkState) : Prop where
  spaces : ∀ space name d, s.spaces.find? space name = some d → src.Reachable d
  frames : ∀ frame ∈ s.scopes.frames, ∀ name d, frame.get? name = some d → ok d

/-- Linking is inside the declaration `cur`, and all is in order. -/
structure At (r : Regime) (src : Source) (cur : DeclId) (busy : List ExprId) (s : LinkState) : Prop where
  facts : Facts r src busy s.known
  sees : Sees src (Visible r src cur s.signatures) s
  loud : s.quiet = false

/-- A run from `s` to `s'` inside `cur`, which leads from `P` to `Q`. -/
structure Keeps (r : Regime) (src : Source) (cur : DeclId) (busy : List ExprId) (s : LinkState) (P : Prop)
    (s' : LinkState) (Q : Prop) : Prop where
  later : s.Later r.settled s'
  holds : P → At r src cur busy s → r.Quiet s' → At r src cur busy s' ∧ Q

namespace Keeps

variable {s s₁ s' : LinkState} {P P' Q Q' R : Prop}

theorem refl (h : P → At r src cur busy s → Q) : Keeps r src cur busy s P s Q :=
  ⟨.refl s, fun hP hat _ => ⟨hat, h hP hat⟩⟩

theorem trans (h : Keeps r src cur busy s P s₁ Q) (h' : Keeps r src cur busy s₁ Q s' R) :
    Keeps r src cur busy s P s' R := by
  refine ⟨h.later.trans h'.later, fun hP hat hquiet => ?_⟩
  obtain ⟨hat₁, hQ⟩ := h.holds hP hat (hquiet.of_later h'.later)
  exact h'.holds hQ hat₁ hquiet

theorem imp (h : Keeps r src cur busy s P s' Q) (hpre : P' → P) (hpost : P' → Q → Q') :
    Keeps r src cur busy s P' s' Q' := by
  refine ⟨h.later, fun hP' hat hquiet => ?_⟩
  obtain ⟨hat', hQ⟩ := h.holds (hpre hP') hat hquiet
  exact ⟨hat', hpost hP' hQ⟩

theorem pre (h : Keeps r src cur busy s P s' Q) (hpre : P' → At r src cur busy s → P) :
    Keeps r src cur busy s P' s' Q :=
  ⟨h.later, fun hP' hat hquiet => h.holds (hpre hP' hat) hat hquiet⟩

theorem carry (h : Keeps r src cur busy s P s' Q) : Keeps r src cur busy s P s' (P ∧ Q) :=
  h.imp id fun hP hQ => ⟨hP, hQ⟩

end Keeps

/-! ### Signatures -/

theorem fits_subst (ht : r.Fits src d t) {args : List Ty}
    (hd : (r.rules src).arity d args.length) (hargs : r.AllFit src cur args) :
    r.Fits src cur (t.subst (src.genericsOf d) args) := by
  obtain ⟨hnamed, -, hlength⟩ := hd
  refine ht.subst (fun g hg => ?_) hlength hargs
  by_cases hstrict : r.Strict src g
  · have hvisible := hg hstrict
    rw [hnamed.visible_eq] at hvisible
    exact .inl hvisible
  · exact .inr fun hs => absurd hs hstrict

namespace SignaturesFit

variable {sigs : Signatures}

theorem aliasesFit (h : SignaturesFit r src sigs) :
    sigs.env.AliasesFit (r.rules src) fun g => r.Strict src g → g ∈ src.visible cur := by
  intro decl args t hfits htarget
  obtain ⟨target, hget, rfl⟩ := Option.map_eq_some_iff.1 htarget
  rw [h.generics decl hfits.arity.2.1]
  exact fits_subst (h.aliases decl target hget) hfits.arity fun a ha => hfits.of_mem_args ha

theorem of_default (h : SignaturesFit r src sigs) (hd : src.Owner d) {g k : GenericId}
    (hstrict : r.Strict src k) (hg : g ∈ src.genericsOf d) (ht : sigs.defaults.get? g = some t)
    (hk : k ∈ t.occurrences) : r.silent ∧ k ∈ src.genericsOf d ∧ sigs.defaults.get? k = none := by
  obtain ⟨hsilent, hvisible, hdefault⟩ := h.mentions g t ht d hd.2 hg k hk hstrict
  rw [hd.1.visible_eq] at hvisible
  refine ⟨hsilent, hvisible, Option.eq_none_iff_forall_ne_some.2 fun u hu => ?_⟩
  exact absurd (h.declared k u hu) (Bool.eq_false_iff.1 hdefault)

end SignaturesFit

theorem Ty.Fits.of_closed {rules : TyRules} {inner outer : GenericId → Prop}
    (h : t.Fits rules inner) (hclosed : t.isOpen = false) : t.Fits rules outer :=
  ⟨h.obeys, fun g hg => absurd hg (Ty.isOpen_eq_false_iff.1 hclosed g)⟩

/-! ### Names -/

theorem Source.Reachable.owner_of_not_space (h : src.Reachable d) {decl : Decl}
    (hdecl : src.decl? d = some decl) (hspace : decl.kind.isSpace = false) : d ∈ src.owners := by
  rcases h.owner with ⟨decl', hdecl', hspace'⟩ | h
  · rw [hdecl] at hdecl'
    obtain rfl := Option.some.inj hdecl'
    rw [hspace] at hspace'
    exact absurd hspace' Bool.false_ne_true
  · exact h

theorem Visible.owner {sigs : Signatures} (h : Visible r src cur sigs d) {decl : Decl}
    (hdecl : src.decl? d = some decl) (hitem : decl.kind.isItem = true) (hspace : decl.kind.isSpace = false) :
    src.Owner d := by
  cases h with
  | reachable h => exact ⟨h.named, h.owner_of_not_space hdecl hspace⟩
  | generic hdecl' hkind _ =>
    rw [hdecl] at hdecl'
    obtain rfl := Option.some.inj hdecl'
    simp [hkind, DeclKind.isItem] at hitem
  | value hdecl' hkind _ _ =>
    rw [hdecl] at hdecl'
    obtain rfl := Option.some.inj hdecl'
    cases hk : decl.kind <;> simp_all [DeclKind.isItem, DeclKind.isValueBinding]

theorem Visible.congr {sigs sigs' : Signatures} (h : Visible r src cur sigs d)
    (hlocals : sigs'.declTypes = sigs.declTypes) : Visible r src cur sigs' d := by
  cases h with
  | reachable h => exact .reachable h
  | generic hdecl hkind hg => exact .generic hdecl hkind hg
  | value hdecl hkind ht hfits => exact .value hdecl hkind (hlocals ▸ ht) hfits

namespace Sees

variable {ok : DeclId → Prop} {s : LinkState}

theorem descend (h : Sees src ok s) (hok : ∀ d, src.Reachable d → ok d) {d' : DeclId}
    (hd : ok d) (hpath : s.spaces.descend src d path = .ok (some d')) : ok d' := by
  induction path generalizing d with
  | nil =>
    rw [Namespaces.descend] at hpath
    exact Option.some.inj (Except.ok.inj hpath) ▸ hd
  | cons segment path ih =>
    rw [Namespaces.descend] at hpath
    split at hpath
    · simp at hpath
    · split at hpath
      · split at hpath
        · rename_i member hmember
          exact ih (hok member (h.spaces d segment member hmember)) hpath
        · simp at hpath
      · simp at hpath

theorem resolve? (h : Sees src ok s) (hok : ∀ d, src.Reachable d → ok d)
    (hpath : s.resolve? src path = .ok (some d)) : ok d := by
  cases path with
  | nil => simp [LinkState.resolve?] at hpath
  | cons first rest =>
    rw [LinkState.resolve?] at hpath
    split at hpath
    · simp at hpath
    · rename_i start hstart
      obtain ⟨frame, hframe, hname⟩ := List.exists_of_findSome?_eq_some hstart
      exact h.descend hok (h.frames frame hframe first start hname) hpath

theorem imp {ok' : DeclId → Prop} (h : Sees src ok s) (hok : ∀ d, ok d → ok' d) : Sees src ok' s :=
  ⟨h.spaces, fun frame hframe name d hd => hok d (h.frames frame hframe name d hd)⟩

end Sees

namespace At

variable {s : LinkState}

theorem resolve? (h : At r src cur busy s)
    (hpath : s.resolve? src path = .ok (some d)) : Visible r src cur s.signatures d :=
  h.sees.resolve? (fun _ => .reachable) hpath

theorem busyWith (h : At r src cur busy s) (e : ExprId) : At r src cur (e :: busy) s :=
  ⟨h.facts.busyWith e, h.sees, h.loud⟩

theorem genericsOf (h : At r src cur busy s) (hd : d ∈ src.owners) : s.signatures.genericsOf d = src.genericsOf d :=
  h.facts.signatures.generics d hd

theorem expand (h : At r src cur busy s) (ht : r.Fits src cur t) : r.Fits src cur (s.env.expand t) :=
  ht.expand h.facts.signatures.aliasesFit

end At

/-- Linking is between two declarations, and all is in order. -/
structure Outside (r : Regime) (src : Source) (s : LinkState) : Prop where
  facts : Facts r src [] s.known
  sees : Sees src src.Reachable s
  loud : s.quiet = false

theorem Outside.enter {s : LinkState} (h : Outside r src s) (cur : DeclId) : At r src cur [] s :=
  ⟨h.facts, h.sees.imp fun _ => .reachable, h.loud⟩

theorem Outside.leave {s s' : LinkState} {P Q : Prop} (h : Outside r src s) (hkeeps : Keeps r src cur [] s P s' Q)
    (hscopes : s'.scopes = s.scopes) (hP : P) (hquiet : r.Quiet s') : Outside r src s' ∧ Q := by
  obtain ⟨hat, hQ⟩ := hkeeps.holds hP (h.enter cur) hquiet
  refine ⟨⟨hat.facts, ⟨hat.sees.spaces, fun frame hframe => ?_⟩, hat.loud⟩, hQ⟩
  rw [hscopes] at hframe
  exact h.sees.frames frame hframe

namespace Link

variable {α : Type} {env : LinkEnv} {s s' : LinkState} {P Q : Prop}

/-- Nothing that the facts are about has changed, but for reports. -/
structure Minor (s s' : LinkState) : Prop where
  known : s'.known = { s.known with reports := s'.reports }
  reports : s.reports <+: s'.reports
  scopes : s'.scopes = s.scopes
  spaces : s'.spaces = s.spaces
  quiet : s'.quiet = s.quiet

instance : Sequential Minor where
  refl _ := ⟨rfl, List.prefix_refl _, rfl, rfl, rfl⟩
  trans h h' := ⟨by rw [h'.known, h.known], h.reports.trans h'.reports, h'.scopes.trans h.scopes,
    h'.spaces.trans h.spaces, h'.quiet.trans h.quiet⟩

theorem minor_of_eq (hknown : s'.known = s.known) (hscopes : s'.scopes = s.scopes)
    (hspaces : s'.spaces = s.spaces) (hquiet : s'.quiet = s.quiet) : Minor s s' := by
  have hreports : s'.reports = s.reports := congrArg Known.reports hknown
  exact ⟨by rw [hknown, hreports]; rfl, hreports ▸ List.prefix_refl _, hscopes, hspaces, hquiet⟩

theorem Minor.later {fixed : Prop} (h : Minor s s') : s.Later fixed s' := by
  -- but for reports, nothing that counts has changed
  have heq : s'.watched = { s with reports := s'.reports }.watched := by
    have hknown := h.known
    simp only [LinkState.known, Known.mk.injEq] at hknown
    obtain ⟨hsignatures, hregistry, -, -, -, -, -, hignored, hbodies⟩ := hknown
    simp only [LinkState.watched, LinkState.signatures, hsignatures, hregistry, hignored, hbodies, h.scopes, h.quiet]
  refine LinkState.Later.trans ?_ (LinkState.later_of_eq heq)
  exact { LinkState.Later.refl s with reports := h.reports }

theorem Minor.keeps (h : Minor s s') : Keeps r src cur busy s P s' P := by
  refine ⟨h.later, fun hP hat _ => ⟨⟨?_, ?_, h.quiet.trans hat.loud⟩, hP⟩⟩
  · rw [h.known]
    exact hat.facts.reports h.reports
  · have hsignatures : s'.signatures = s.signatures := congrArg Known.signatures h.known
    refine ⟨fun space name d hd => hat.sees.spaces space name d ?_, fun frame hframe name d hd => ?_⟩
    · rwa [← h.spaces]
    · rw [h.scopes] at hframe
      rw [hsignatures]
      exact hat.sees.frames frame hframe name d hd

theorem minor_report (span : Span) (p : Problem) : Framed Minor (report span p) :=
  fun _ => .report fun _ _ => ⟨rfl, List.prefix_append _ _, rfl, rfl, rfl⟩

theorem minor_of_steps (h : TypeSteps .mention s s') : Minor s s' := by
  induction h with
  | refl => exact Sequential.refl s
  | tail _ hstep ih =>
    refine Sequential.trans ih ?_
    cases hstep with
    | report => exact ⟨rfl, List.prefix_append _ _, rfl, rfl, rfl⟩
    | check => exact ⟨rfl, List.prefix_append _ _, rfl, rfl, rfl⟩

theorem minor_of_mention {act : LinkM α} (h : Framed (TypeSteps .mention) act) : Framed Minor act :=
  fun env s => minor_of_steps (h env s)

theorem report_keeps {span : Span} {p : Problem} {u : Unit} (h : Runs env (report span p) s u s') :
    Keeps r src cur busy s P s' (P ∧ ¬r.silent) := by
  have hminor : Keeps r src cur busy s P s' P := ((minor_report span p).of_runs h).keeps
  refine ⟨hminor.later, fun hP hat hquiet => ?_⟩
  obtain ⟨hat', -⟩ := hminor.holds hP hat hquiet
  refine ⟨hat', hP, fun hsilent => ?_⟩
  have hreports := hquiet hsilent
  obtain rfl := runs_modify.1 h
  rw [if_neg (by simp [hat.loud])] at hreports
  exact List.append_ne_nil_of_right_ne_nil _ (List.cons_ne_nil _ []) hreports

/-! ### Sequences -/

/-- Under the condition `P` the action keeps all in order, and its result satisfies `Q`. -/
def Yields (r : Regime) (env : LinkEnv) (cur : DeclId) (busy : List ExprId) (P : Prop) (act : LinkM α)
    (Q : α → Prop) : Prop :=
  ∀ s a s', Runs env act s a s' → Keeps r env.source cur busy s P s' (Q a)

namespace Yields

theorem bind {Q : α → Prop} {R : β → Prop} {x : LinkM α} {f : α → LinkM β} (hx : Yields r env cur busy P x Q)
    (hf : ∀ a, Yields r env cur busy (Q a) (f a) R) : Yields r env cur busy P (x >>= f) R := by
  intro s b s' h
  obtain ⟨a, s₁, ha, hb⟩ := runs_bind.1 h
  exact (hx s a s₁ ha).trans (hf a s₁ b s' hb)

theorem pure {Q : α → Prop} {a : α} (h : P → Q a) : Yields r env cur busy P (pure a) Q := by
  intro s b s' hrun
  obtain ⟨rfl, rfl⟩ := runs_pure.1 hrun
  exact .refl fun hP _ => h hP

theorem imp {P' : Prop} {Q Q' : α → Prop} {act : LinkM α} (h : Yields r env cur busy P act Q)
    (hpre : P' → P) (hpost : ∀ a, P' → Q a → Q' a) : Yields r env cur busy P' act Q' :=
  fun s a s' hrun => (h s a s' hrun).imp hpre (hpost a)

theorem carry {Q : α → Prop} {act : LinkM α} (h : Yields r env cur busy P act Q) :
    Yields r env cur busy P act fun a => P ∧ Q a :=
  h.imp (fun hP => hP) fun _ hP hQ => ⟨hP, hQ⟩

theorem minor {act : LinkM α} (h : FramedIn env Minor act) : Yields r env cur busy P act fun _ => P :=
  fun _ _ _ hrun => (h.of_runs hrun).keeps

theorem looks {act : LinkM α} (h : Looks act) : Yields r env cur busy P act fun _ => P := minor h.framedIn

theorem forM {l : List α} {f : α → LinkM PUnit} (h : ∀ a ∈ l, Yields r env cur busy P (f a) fun _ => P) :
    Yields r env cur busy P (l.forM f) fun _ => P := by
  induction l with
  | nil => exact pure fun hP => hP
  | cons a l ih =>
    refine bind (h a List.mem_cons_self) fun _ => ih fun b hb => ?_
    exact h b (List.mem_cons_of_mem _ hb)

theorem mapM {Q : β → Prop} {l : List α} {f : α → LinkM β} (h : ∀ a ∈ l, Yields r env cur busy P (f a) Q) :
    Yields r env cur busy P (l.mapM f) fun bs => ∀ b ∈ bs, Q b := by
  induction l with
  | nil =>
    rw [List.mapM_nil]
    exact pure fun _ => nofun
  | cons a l ih =>
    rw [List.mapM_cons]
    refine bind (h a List.mem_cons_self).carry fun b => ?_
    have hrest := ih fun c hc => h c (List.mem_cons_of_mem _ hc)
    refine bind (hrest.imp And.left fun bs ⟨_, hb⟩ hbs => And.intro hb hbs) fun bs => pure fun ⟨hb, hbs⟩ => ?_
    intro c hc
    rcases List.mem_cons.1 hc with rfl | hc
    · exact hb
    · exact hbs c hc

end Yields

/-! ### Frames -/

theorem frames_pop {scopes' : ScopeStack}
    (h : scopes'.frames.tail = (scopes.push frame).frames.tail) : scopes'.pop = scopes := by
  obtain ⟨root, inner⟩ := scopes
  obtain ⟨root', inner'⟩ := scopes'
  cases inner' with
  | nil => simp [ScopeStack.frames, ScopeStack.push] at h
  | cons first inner' =>
    obtain ⟨rfl, hroot⟩ := List.append_inj' (h : inner' ++ [root'] = inner ++ [root]) rfl
    obtain rfl := List.singleton_inj.1 hroot
    rfl

theorem mem_frames_of_pop (h : frame ∈ scopes.pop.frames) : frame ∈ scopes.frames := by
  rcases List.mem_append.1 h with h | h
  · exact List.mem_append_left _ (List.mem_of_mem_tail h)
  · exact List.mem_append_right _ h

theorem frames_declare {name : String} :
    ∃ frame outer, scopes.frames = frame :: outer ∧
      (scopes.declare name decl).frames = frame.insert name decl :: outer := by
  obtain ⟨root, inner⟩ := scopes
  cases inner with
  | nil => exact ⟨root, [], rfl, rfl⟩
  | cons frame outer => exact ⟨frame, outer ++ [root], rfl, rfl⟩

def FrameVisible (r : Regime) (src : Source) (cur : DeclId) (sigs : Signatures) (frame : Frame) : Prop :=
  ∀ name d, frame.get? name = some d → Visible r src cur sigs d

/-- An action inside a frame of its own leaves the open frames as they were. It starts where the frame was
opened, with other frames around it. -/
theorem withFrame_keeps {act : LinkM α} {a : α} (h : Runs env (withFrame frame act) s a s')
    (hact : ∀ scopes s', Runs env act { s with scopes := scopes } a s' →
      Keeps r src cur busy { s with scopes := scopes } P s' Q) :
    s'.scopes = s.scopes ∧
      Keeps r src cur busy s (P ∧ FrameVisible r src cur s.signatures frame) s' Q := by
  obtain ⟨s₁, hrun, rfl⟩ := runs_withFrame.1 h
  obtain ⟨hlater, hholds⟩ := hact _ _ hrun
  have hscopes : s₁.scopes.pop = s.scopes := frames_pop hlater.outer
  refine ⟨hscopes, ⟨?_, fun ⟨hP, hframe⟩ hat hquiet => ?_⟩⟩
  · refine { hlater with outer := ?_ }
    show s₁.scopes.pop.frames.tail = _
    rw [hscopes]
  · have hin : At r src cur busy { s with scopes := s.scopes.push frame } := by
      refine ⟨hat.facts, ⟨hat.sees.spaces, fun f hf => ?_⟩, hat.loud⟩
      rcases List.mem_cons.1 hf with rfl | hf
      · exact hframe
      · exact hat.sees.frames f hf
    obtain ⟨hout, hQ⟩ := hholds hP hin hquiet
    refine ⟨⟨hout.facts, ⟨hout.sees.spaces, fun f hf => ?_⟩, hout.loud⟩, hQ⟩
    exact hout.sees.frames f (mem_frames_of_pop hf)

theorem withFrames_keeps {frames : List Frame} {act : LinkM α} {a : α}
    (h : Runs env (withFrames frames act) s a s')
    (hact : ∀ scopes s', Runs env act { s with scopes := scopes } a s' →
      s'.scopes = scopes ∧ Keeps r src cur busy { s with scopes := scopes } P s' Q) :
    s'.scopes = s.scopes ∧ Keeps r src cur busy s
      (P ∧ ∀ frame ∈ frames, ∀ name d, frame.get? name = some d → src.Reachable d) s' Q := by
  induction frames generalizing s s' with
  | nil =>
    obtain ⟨hscopes, hkeeps⟩ := hact s.scopes s' h
    exact ⟨hscopes, hkeeps.imp And.left fun _ => id⟩
  | cons frame frames ih =>
    obtain ⟨hscopes, hkeeps⟩ := withFrame_keeps h fun scopes s' h => (ih h hact).2
    refine ⟨hscopes, hkeeps.imp (fun ⟨hP, hframes⟩ => ⟨⟨hP, ?_⟩, ?_⟩) fun _ => id⟩
    · exact fun f hf => hframes f (List.mem_cons_of_mem _ hf)
    · exact fun name d hd => .reachable (hframes frame List.mem_cons_self name d hd)

theorem inNamespaces_keeps {act : LinkM α} {a : α} (h : Runs env (inNamespaces decl act) s a s')
    (hact : ∀ scopes s', Runs env act { s with scopes := scopes } a s' →
      s'.scopes = scopes ∧ Keeps r src cur busy { s with scopes := scopes } P s' Q) :
    s'.scopes = s.scopes ∧ Keeps r src cur busy s P s' Q := by
  simp only [inNamespaces, runs_bind, runs_get] at h
  obtain ⟨around, _, haround, _, _, ⟨rfl, rfl⟩, h⟩ := h
  obtain rfl := (consults_spacesAround decl).looks.of_runs haround
  obtain ⟨hscopes, hkeeps⟩ := withFrames_keeps h hact
  refine ⟨hscopes, hkeeps.pre fun hP hat => ⟨hP, fun frame hframe name d hd => ?_⟩⟩
  obtain ⟨space, -, rfl⟩ := List.mem_map.1 hframe
  refine hat.sees.spaces space name d ?_
  rw [Namespaces.find?]
  cases hspace : Namespaces.frame? _ space with
  | none => simp [hspace, Table.get?] at hd
  | some members => simpa [hspace] using hd

/-! ### Generic parameters in scope -/

/-- `host` is the generic declaration that uses inside `cur` depend on. -/
structure Hosts (src : Source) (cur : DeclId) (host : Option DeclId) : Prop where
  none : host = none → src.visible cur = []
  some : ∀ h, host = some h → src.Named h → ∀ g ∈ src.visible cur, g ∈ src.genericsOf h

theorem runs_interfaceOf {d : Decl} {interface : Option DeclId}
    (h : Runs env (interfaceOf d) s interface s') :
    s = s' ∧ (interface = none → env.source.interfaceGenerics d = []) ∧
      ∀ p, interface = some p →
        ∃ pd, env.source.decl? p = some pd ∧ env.source.interfaceGenerics d = pd.generics := by
  unfold interfaceOf at h
  split at h
  · rename_i hparent
    obtain ⟨rfl, rfl⟩ := runs_pure.1 h
    exact ⟨rfl, fun _ => by simp [Source.interfaceGenerics, hparent], nofun⟩
  · rename_i p hparent
    simp only [runs_bind, runs_declOf, runs_pure] at h
    obtain ⟨pd, _, ⟨hpd, rfl⟩, rfl, rfl⟩ := h
    refine ⟨rfl, fun hnone => ?_, fun q hq => ?_⟩
    · have hnot : pd.kind.isInterface = false := by simpa using hnone
      simp [Source.interfaceGenerics, hparent, hpd, hnot]
    · obtain ⟨hinterface, rfl⟩ : pd.kind.isInterface = true ∧ p = q := by simpa using hq
      exact ⟨pd, hpd, by simp [Source.interfaceGenerics, hparent, hpd, hinterface]⟩

theorem hosts_of_genericHost {host : Option DeclId}
    (h : Runs env (genericHost decl) s host s') : s = s' ∧ Hosts env.source decl host := by
  simp only [genericHost, runs_bind, runs_declOf] at h
  obtain ⟨d, _, ⟨hd, rfl⟩, h⟩ := h
  split at h
  · obtain ⟨rfl, rfl⟩ := runs_pure.1 h
    refine ⟨rfl, by simp, fun h heq hnamed g hg => ?_⟩
    obtain rfl := Option.some.inj heq
    rwa [← hnamed.visible_eq]
  · rename_i hgeneric
    have hempty : d.generics = [] := by simpa [Decl.isGeneric] using hgeneric
    have hvisible : env.source.visible decl = env.source.interfaceGenerics d := by
      rw [Source.visible_eq hd, hempty, List.append_nil]
    simp only [runs_bind] at h
    obtain ⟨interface, s₁, hinterface, h⟩ := h
    obtain ⟨rfl, hnone, hsome⟩ := runs_interfaceOf hinterface
    cases interface with
    | none =>
      obtain ⟨rfl, rfl⟩ := runs_pure.1 h
      exact ⟨rfl, fun _ => hvisible.trans (hnone rfl), by simp⟩
    | some p =>
      obtain ⟨pd, hpd, hgenerics⟩ := hsome p rfl
      simp only [runs_bind, runs_declOf, runs_pure] at h
      obtain ⟨pd', _, ⟨hpd', rfl⟩, rfl, rfl⟩ := h
      obtain rfl := Option.some.inj (hpd.symm.trans hpd')
      rw [hgenerics] at hvisible
      refine ⟨rfl, fun hnot => ?_, fun h heq _ g hg => ?_⟩
      · have hnot : pd.isGeneric = false := by simpa using hnot
        rw [hvisible]
        simpa [Decl.isGeneric] using hnot
      · obtain ⟨-, rfl⟩ : pd.isGeneric = true ∧ p = h := by simpa using heq
        rw [Source.genericsOf_eq hpd]
        rwa [← hvisible]

theorem get?_foldl_insert (name : β → String) (decl : β → DeclId) (l : List β) {key : String}
    (h : (l.foldl (fun frame b => frame.insert (name b) (decl b)) frame).get? key = some d) :
    frame.get? key = some d ∨ ∃ b ∈ l, decl b = d := by
  induction l generalizing frame with
  | nil => exact .inl h
  | cons b l ih =>
    rcases ih h with h | ⟨b', hb', hd⟩
    · rw [Table.get?_insert] at h
      split at h
      · exact .inr ⟨b, List.mem_cons_self, Option.some.inj h⟩
      · exact .inl h
    · exact .inr ⟨b', List.mem_cons_of_mem _ hb', hd⟩

theorem runs_genericFrame (h : Runs env (genericFrame cur) s frame s') :
    s = s' ∧ frame = ((env.source.visible cur).filterMap env.source.generic?).foldl
      (fun frame g => frame.insert g.name g.decl) {} := by
  simp only [genericFrame, runs_bind, runs_declOf] at h
  obtain ⟨d, _, ⟨hd, rfl⟩, interface, s₁, hinterface, h⟩ := h
  obtain ⟨rfl, hnone, hsome⟩ := runs_interfaceOf hinterface
  -- whichever way the outer parameters are found, they are those of the interface
  have hparams : ∃ params, Runs env ((env.source.visible cur).mapM genericOf) s params s' ∧
      frame = params.foldl (fun frame g => frame.insert g.name g.decl) {} := by
    rw [Source.visible_eq hd]
    cases interface with
    | none =>
      rw [hnone rfl]
      simp only [runs_bind, runs_pure] at h
      obtain ⟨_, _, ⟨rfl, rfl⟩, params, s₂, hparams, rfl, rfl⟩ := h
      exact ⟨params, hparams, rfl⟩
    | some p =>
      obtain ⟨pd, hpd, hgenerics⟩ := hsome p rfl
      rw [hgenerics]
      simp only [runs_bind, runs_declOf, runs_pure] at h
      obtain ⟨pd', _, ⟨hpd', rfl⟩, _, _, ⟨rfl, rfl⟩, params, s₂, hparams, rfl, rfl⟩ := h
      obtain rfl := Option.some.inj (hpd.symm.trans hpd')
      exact ⟨params, hparams, rfl⟩
  obtain ⟨params, hrun, rfl⟩ := hparams
  obtain ⟨rfl, rfl⟩ := runs_mapM_filterMap (fun _ _ _ _ hg => (runs_genericOf.1 hg).symm) hrun
  exact ⟨rfl, rfl⟩

theorem generics_of_genericFrame (h : Runs env (genericFrame cur) s frame s') :
    s = s' ∧ ∀ name d, frame.get? name = some d →
      ∃ g ∈ env.source.visible cur, ∃ p, env.source.generic? g = some p ∧ p.decl = d := by
  obtain ⟨rfl, rfl⟩ := runs_genericFrame h
  refine ⟨rfl, fun name d hd => ?_⟩
  rcases get?_foldl_insert _ _ _ hd with hd | ⟨p, hp, rfl⟩
  · simp [Table.get?] at hd
  · obtain ⟨g, hg, hgp⟩ := List.mem_filterMap.1 hp
    exact ⟨g, hg, p, hgp, rfl⟩

theorem visible_genericFrame (hbuilt : env.source.WellBuilt) (h : Runs env (genericFrame cur) s frame s') :
    s = s' ∧ ∀ sigs, FrameVisible r env.source cur sigs frame := by
  obtain ⟨rfl, hframe⟩ := generics_of_genericFrame h
  refine ⟨rfl, fun sigs name d hd => ?_⟩
  obtain ⟨g, hg, p, hgp, rfl⟩ := hframe name d hd
  obtain ⟨q, pd, hq, hpd, hkind⟩ := hbuilt.generic_of_visible hg
  obtain rfl := Option.some.inj (hgp.symm.trans hq)
  exact .generic hpd hkind hg

theorem inGenerics_keeps (hbuilt : env.source.WellBuilt) {act : Option DeclId → LinkM α} {a : α}
    (h : Runs env (inGenerics cur act) s a s')
    (hact : ∀ host, Hosts env.source cur host → ∀ scopes s', Runs env (act host) { s with scopes := scopes } a s' →
      Keeps r env.source cur busy { s with scopes := scopes } P s' Q) :
    s'.scopes = s.scopes ∧ Keeps r env.source cur busy s P s' Q := by
  simp only [inGenerics, runs_bind] at h
  obtain ⟨host, s₁, hhost, frame, s₂, hframe, h⟩ := h
  obtain ⟨rfl, hhosts⟩ := hosts_of_genericHost hhost
  obtain ⟨rfl, hvisible⟩ := visible_genericFrame hbuilt hframe
  obtain ⟨hscopes, hkeeps⟩ := withFrame_keeps h (hact host hhosts)
  exact ⟨hscopes, hkeeps.imp (fun hP => ⟨hP, hvisible _⟩) fun _ => id⟩

/-! ### From declaration to declaration -/

/-- Between declarations the action moves the state on and keeps the invariant, unless a report spoils a
silent run. -/
def Advances (r : Regime) (env : LinkEnv) (inv : LinkState → Prop) (act : LinkM α) : Prop :=
  ∀ s a s', Runs env act s a s' → s.Later r.settled s' ∧ (inv s → r.Quiet s' → inv s')

theorem Advances.forM {inv : LinkState → Prop} {l : List α} {f : α → LinkM PUnit}
    (h : ∀ a ∈ l, Advances r env inv (f a)) : Advances r env inv (l.forM f) := by
  intro s u s' hrun
  induction l generalizing s with
  | nil =>
    obtain rfl := runs_forM_nil.1 hrun
    exact ⟨.refl s, fun hinv _ => hinv⟩
  | cons a l ih =>
    obtain ⟨s₁, hfirst, hrest⟩ := runs_forM_cons.1 hrun
    obtain ⟨hlater, hstep⟩ := h a List.mem_cons_self s () s₁ hfirst
    obtain ⟨hlater', hsteps⟩ := ih (fun b hb => h b (List.mem_cons_of_mem _ hb)) s₁ hrest
    exact ⟨hlater.trans hlater', fun hinv hquiet => hsteps (hstep hinv (hquiet.of_later hlater')) hquiet⟩

end Link

end Linkage
