import LiveMarkup.Proofs.Component.Commitment
import LiveMarkup.Proofs.Component.Trace

/-!
# Flushes leave traces

Every flush that ends well leaves the trace of rounds and of a replay, whatever
component code does meanwhile. The queue, the connections and the commitments of
the page follow the ledger of its events all the way.
-/

namespace LiveMarkup.Page

variable {σ ρ : Type} {p p' q : Page σ ρ} {k : ComponentId} {es es' : List Event}

/-- The ledger of a page. -/
def ledger (p : Page σ ρ) : Ledger :=
  ⟨p.pending, p.isConnected, p.committed⟩

/-- Events lead from a page to another: the journal has gained them, and the
ledger has followed them. -/
structure Leads (p : Page σ ρ) (es : List Event) (p' : Page σ ρ) : Prop where
  journal : p'.journal = es.reverse ++ p.journal
  ledger : p'.ledger = p.ledger.afterAll es

namespace Leads

theorem refl (p : Page σ ρ) : Leads p [] p :=
  ⟨rfl, rfl⟩

theorem trans (h : Leads p es q) (h' : Leads q es' p') : Leads p (es ++ es') p' where
  journal := by
    rw [h'.journal, h.journal, List.reverse_append, List.append_assoc]
  ledger := by
    rw [h'.ledger, h.ledger, Ledger.afterAll_append]

theorem note (p : Page σ ρ) {e : Event} (he : ∀ l : Ledger, l.after e = l) :
    Leads p [e] (p.note e) :=
  ⟨rfl, (he p.ledger).symm⟩

theorem modify (p : Page σ ρ) (k : ComponentId) (g : Element → Element)
    (hconnected : ∀ e, (g e).connected = e.connected)
    (hcommitted : ∀ e, (g e).committed = e.committed) : Leads p [] (p.modify k g) where
  journal := rfl
  ledger := by
    show Ledger.mk _ _ _ = Ledger.mk _ _ _
    congr 1
    · ext1 j
      rw [isConnected_eq, isConnected_eq]
      exact view_modify p k g Element.connected false hconnected j
    · ext1 j
      exact committed_modify p k g hcommitted j

theorem create (p : Page σ ρ) (schema : Schema) (mount : NodeId) :
    Leads p [] (p.create schema mount).2 where
  journal := rfl
  ledger := by
    show Ledger.mk _ _ _ = Ledger.mk _ _ _
    congr 1
    · ext1 j
      rw [isConnected_eq, isConnected_eq]
      exact element_create p schema mount j Element.connected
    · ext1 j
      exact element_create p schema mount j Element.committed

theorem request (hq : QueueKnown p) (k : ComponentId) :
    Leads p [.requested k] (p.request k) where
  journal := journal_request p k
  ledger := by
    show Ledger.mk _ _ _ = Ledger.mk (if k ∈ p.pending then p.pending else p.pending ++ [k]) _ _
    congr 1
    · rw [pending_request]
      exact if_congr (hq k) rfl rfl
    · ext1 j
      rw [isConnected_eq, elements_request, ← isConnected_eq]
      rfl
    · ext1 j
      unfold committed
      rw [elements_request]
      rfl

theorem isConnected_modify (he : p.exists? k = true) (b : Bool) :
    (p.modify k fun e => { e with connected := b }).isConnected =
      Function.update p.isConnected k b := by
  obtain ⟨e, he⟩ := Option.isSome_iff_exists.mp he
  ext1 j
  rw [isConnected_eq, element_modify]
  rcases eq_or_ne j k with rfl | hjk
  · rw [if_pos rfl, he, Function.update_self]
    rfl
  · rw [if_neg hjk, ← isConnected_eq, Function.update_of_ne hjk]

theorem connection (he : p.exists? k = true) (b : Bool) {event : Event}
    (hevent : ∀ l : Ledger,
      l.after event = { l with connected := Function.update l.connected k b }) :
    Leads p [event] ((p.note event).modify k fun e => { e with connected := b }) where
  journal := rfl
  ledger := by
    have hcommitted : ((p.note event).modify k fun e => { e with connected := b }).committed =
        p.committed := by
      ext1 j
      refine committed_modify (p.note event) k _ ?_ j
      intro e
      rfl
    unfold Page.ledger
    rw [isConnected_modify (p := p.note event) he b, hcommitted]
    exact (hevent p.ledger).symm

theorem commit (he : p.exists? k = true) (next : Inputs) :
    Leads p [.render k next] (p.commit k next) where
  journal := rfl
  ledger := by
    show Ledger.mk _ _ _ = Ledger.mk _ _ _
    congr 1
    · ext1 j
      show (p.commit k next).isConnected j = p.isConnected j
      rw [isConnected_eq, isConnected_eq]
      refine view_modify p k _ Element.connected false ?_ j
      intro e
      rfl
    · ext1 j
      show (p.commit k next).committed j = Function.update p.committed k next j
      rcases eq_or_ne j k with rfl | hjk
      · rw [committed_commit he, Function.update_self]
      · rw [Function.update_of_ne hjk]
        exact committed_modify_other p _ hjk

end Leads

/-! ## Steps -/

theorem Step.leads (h : Step p p') (hq : QueueKnown p) : ∃ es, Calls es ∧ Leads p es p' := by
  cases h with
  | world => exact ⟨[], by simp [Calls], rfl, rfl⟩
  | create schema mount => exact ⟨[], by simp [Calls], .create p schema mount⟩
  | request k => exact ⟨[.requested k], by simp [Calls, Event.isCall], .request hq k⟩
  | @writeProp k name value _ =>
      refine ⟨[.propWritten k name value, .requested k], by simp [Calls, Event.isCall], ?_⟩
      refine ((Leads.note p fun _ => rfl).trans (.modify _ k _ ?_ ?_)).trans (.request ?_ k)
      · intro e
        rfl
      · intro e
        rfl
      · exact hq
  | @writeAttr k name value _ =>
      refine ⟨[.attrWritten k name value, .requested k], by simp [Calls, Event.isCall], ?_⟩
      refine ((Leads.note p fun _ => rfl).trans (.modify _ k _ ?_ ?_)).trans (.request ?_ k)
      · intro e
        rfl
      · intro e
        rfl
      · exact hq
  | @connect k he =>
      refine ⟨[.connected k, .requested k], by simp [Calls, Event.isCall], ?_⟩
      refine (Leads.connection he true fun _ => rfl).trans (.request ?_ k)
      exact hq
  | @drop k he =>
      exact ⟨[.disconnected k], by simp [Calls, Event.isCall],
        .connection he false fun _ => rfl⟩

theorem Steps.leads (h : Steps p p') (hq : QueueKnown p) :
    ∃ es, Calls es ∧ Leads p es p' := by
  induction h with
  | refl => exact ⟨[], by simp [Calls], .refl p⟩
  | tail hsteps hstep ih =>
      obtain ⟨es, hcalls, hleads⟩ := ih
      obtain ⟨es', hcalls', hleads'⟩ := hstep.leads (Steps.queueKnown hsteps hq)
      refine ⟨es ++ es', ?_, hleads.trans hleads'⟩
      intro e he
      rcases List.mem_append.mp he with he | he
      · exact hcalls e he
      · exact hcalls' e he

/-! ## Updates -/

variable {e : Element}

theorem Prepared.leads (h : Prepared p k e q) (hq : QueueKnown p) :
    ∃ es, Prelude k e.latest e.rendered es ∧ Leads p (.updateStarted k :: es) q := by
  have hstarted : Leads p [.updateStarted k] (p.note (.updateStarted k)) := .note p fun _ => rfl
  cases h with
  | first hrendered =>
      rw [hrendered]
      exact ⟨[], .first, hstarted⟩
  | again hrendered hsteps =>
      rw [hrendered]
      obtain ⟨calls, hcalls, hleads⟩ := hsteps.leads hq
      exact ⟨_, .again hcalls, hstarted.trans ((Leads.note _ fun _ => rfl).trans hleads)⟩

theorem Presented.leads (h : Presented p k q) (hq : QueueKnown p) :
    ∃ es, Display k es ∧ Leads p es q := by
  cases h with
  | hidden => exact ⟨[], .hidden, .refl p⟩
  | shown mount ui hsteps =>
      obtain ⟨calls, hcalls, hleads⟩ := hsteps.leads hq
      exact ⟨_, .shown mount ui hcalls, (Leads.note p fun _ => rfl).trans hleads⟩

theorem Update.leads {previous : Option Inputs} (h : Update p k e (.ok previous) p')
    (he : p.elements[k]? = some e) (hq : QueueKnown p) :
    previous = (if e.rendered then some (p.committed k) else none) ∧
      ∃ es, UpdateTrace k e.latest e.rendered es ∧ Leads p es p' := by
  generalize hresult : Except.ok previous = result at h
  cases h with
  | refused => cases hresult
  | failed => cases hresult
  | unshown => cases hresult
  | @done q₁ q₂ q₃ hprepared hrender hpresented =>
      have hq₁ := hprepared.queueKnown hq
      have hq₂ := hrender.queueKnown hq₁
      obtain ⟨before, hbefore, hleads₁⟩ := hprepared.leads hq
      obtain ⟨calls, hcalls, hleads₂⟩ := hrender.leads hq₁
      obtain ⟨after, hafter, hleads₃⟩ := hpresented.leads hq₂
      have hcommit : Leads q₁ [.render k e.latest] (q₁.commit k e.latest) :=
        .commit (hprepared.exists? he) e.latest
      constructor
      · rw [← hprepared.committed]
        exact Except.ok.inj hresult
      · refine ⟨_, .intro hbefore hcalls hafter, ?_⟩
        have hall := (((hleads₁.trans hcommit).trans hleads₂).trans hleads₃).trans
          (Leads.note q₃ (e := .updated k) fun _ => rfl)
        simpa using hall

/-- No update marks an element as rendered. -/
theorem Update.hasRendered {result : Except UpdateError (Option Inputs)}
    (h : Update p k e result p') : p'.hasRendered = p.hasRendered := by
  refine h.keeps (P := fun q => q.hasRendered = p.hasRendered) ?_ ?_ ?_ rfl
  · intro q q' hstep hq
    exact hstep.hasRendered.trans hq
  · intro q event hq
    exact hq
  · intro q inputs hq
    rw [← hq]
    ext1 j
    refine view_modify q k _ Element.rendered false ?_ j
    intro e
    rfl

/-! ## Rounds -/

variable {backend : Backend σ ρ} {hooks : Hooks σ ρ} {updates updates' : Updates}

theorem runBatch_leads {batch : List ComponentId} {rendered : ComponentId → Bool}
    (hrun : runBatch backend hooks batch updates p = (updates', none, p'))
    (hq : QueueKnown p) (hrendered : p.hasRendered = rendered) :
    QueueKnown p' ∧ p'.hasRendered = rendered ∧
      ∃ us es, updates' = us.reverse ++ updates ∧
        RoundTrace rendered batch p.ledger us es ∧ Leads p es p' := by
  induction batch generalizing updates p with
  | nil =>
      cases hrun
      exact ⟨hq, hrendered, [], [], rfl, .nil, .refl _⟩
  | cons k rest ih =>
      rw [runBatch] at hrun
      split at hrun
      · rename_i hconnected
        obtain ⟨e, he⟩ := Option.isSome_iff_exists.mp (exists?_of_isConnected hconnected)
        have hupdate := updateOne_update backend hooks he
        split at hrun
        · rename_i previous p₁ hresult
          rw [hresult] at hupdate
          obtain ⟨rfl, es, htrace, hleads⟩ := hupdate.leads he hq
          obtain ⟨hq', hrendered', us, es', rfl, hrest, hleads'⟩ :=
            ih hrun (hupdate.queueKnown hq) (hupdate.hasRendered.trans hrendered)
          rw [← hasRendered_of_element he, hrendered] at htrace ⊢
          rw [hleads.ledger] at hrest
          refine ⟨hq', hrendered', _, _, ?_, .updated hconnected htrace hrest,
            hleads.trans hleads'⟩
          simp [Page.ledger]
        · cases hrun
      · rename_i hconnected
        obtain ⟨hq', hrendered', us, es, hupdates, hrest, hleads⟩ :=
          ih (p := p.note (.skipped k)) hrun hq hrendered
        have hskipped : p.ledger.connected k = false := Bool.eq_false_iff.mpr hconnected
        exact ⟨hq', hrendered', us, _, hupdates, .skipped hskipped hrest,
          (Leads.note p fun _ => rfl).trans hleads⟩

/-- The rounds of a flush leave their trace. -/
theorem runRounds_leads {rounds : Nat} {rendered : ComponentId → Bool}
    (hrun : runRounds backend hooks rounds updates p = some (updates', none, p'))
    (hq : QueueKnown p) (hrendered : p.hasRendered = rendered) :
    ∃ us es, updates' = us.reverse ++ updates ∧
      RenderTrace rendered p.ledger us es ∧ Leads p es p' := by
  induction rounds generalizing updates p with
  | zero => simp [runRounds] at hrun
  | succ rounds ih =>
      rw [runRounds] at hrun
      have hstarted : Leads p [.roundStarted p.pending]
          (p.takePending.2.note (.roundStarted p.pending)) := ⟨rfl, rfl⟩
      have hq₁ : QueueKnown p.takePending.2 := invariant_queueKnown.take hq
      have hrendered₁ : p.takePending.2.hasRendered = rendered := hrendered
      have hidle : p.pending = [] → Leads p [] p.takePending.2 := by
        intro hpending
        refine ⟨rfl, ?_⟩
        show Ledger.mk [] p.isConnected p.committed = Ledger.mk p.pending _ _
        rw [hpending]
      split at hrun
      · rename_i p₁ htake
        have hpending : p.pending = [] := congrArg Prod.fst htake
        cases hrun
        rw [htake] at hidle
        exact ⟨[], [], rfl, .settled hpending, hidle hpending⟩
      · rename_i k rest p₁ htake
        have hpending : p.pending = k :: rest := congrArg Prod.fst htake
        rw [htake] at hstarted hq₁ hrendered₁
        simp only at hrun
        rw [← hpending] at hrun
        split at hrun
        · cases hrun
        · rename_i us p₂ hresult
          obtain ⟨hq₂, hrendered₂, us₁, es₁, rfl, hround, hleads₁⟩ :=
            runBatch_leads hresult hq₁ hrendered₁
          obtain ⟨us₂, es₂, rfl, hrest, hleads₂⟩ := ih hrun hq₂ hrendered₂
          rw [hstarted.ledger] at hround
          rw [hleads₁.ledger, hstarted.ledger] at hrest
          refine ⟨us₁ ++ us₂, _, ?_, .round ?_ hround hrest,
            (hstarted.trans hleads₁).trans hleads₂⟩
          · simp
          · show p.pending ≠ []
            rw [hpending]
            exact List.cons_ne_nil k rest

/-! ## The replay -/

/-- Telling the elements of updates leaves its trace. -/
theorem replay_leads (hrun : replay backend hooks updates p = (none, p')) (hq : QueueKnown p) :
    ∃ es, ReplayTrace updates es ∧ Leads p es p' := by
  induction updates generalizing p with
  | nil =>
      cases hrun
      exact ⟨[], .nil, .refl _⟩
  | cons u rest ih =>
      obtain ⟨k, previous⟩ := u
      have hmark : ∀ q : Page σ ρ, Leads q [] (q.markRendered k) := by
        intro q
        refine .modify q k _ ?_ ?_
        · intro e
          rfl
        · intro e
          rfl
      rw [replay] at hrun
      split at hrun
      · cases hrun
      · rename_i p₁ hresult
        cases previous with
        | none =>
            cases hresult
            obtain ⟨es, htrace, hleads⟩ := ih hrun hq
            exact ⟨es, .first htrace, (hmark p).trans hleads⟩
        | some previous =>
            have hsteps : Steps _ (p.runAfter backend hooks k (some previous)).2 :=
              runAfter_steps p k previous
            rw [hresult] at hsteps
            obtain ⟨calls, hcalls, hleads₁⟩ := hsteps.leads hq
            obtain ⟨es, htrace, hleads₂⟩ := ih hrun (hsteps.queueKnown hq)
            have htold := ((Leads.note p fun _ => rfl).trans hleads₁).trans (hmark p₁)
            refine ⟨_, .again hcalls htrace, ?_⟩
            simpa using htold.trans hleads₂

/-! ## Marks -/

theorem invariant_exists (k : ComponentId) :
    Invariant fun p : Page σ ρ => p.exists? k = true where
  step := fun hstep hk => hstep.exists? hk
  update := fun _ hupdate hk => hupdate.keeps (fun hstep hk => hstep.exists? hk) (fun _ hk => hk)
    (fun _ hk => (exists?_modify _ _ _ _).trans hk) hk
  note := fun _ hk => hk
  mark := fun j hk => (exists?_modify _ j _ k).trans hk
  take := fun hk => hk
  flags := fun _ _ hk => hk

theorem runBatch_exists {batch : List ComponentId}
    (hrun : runBatch backend hooks batch updates p = (updates', none, p'))
    (hexists : ∀ u ∈ updates, p.exists? u.1 = true) : ∀ u ∈ updates', p'.exists? u.1 = true := by
  induction batch generalizing updates p with
  | nil =>
      cases hrun
      exact hexists
  | cons k rest ih =>
      rw [runBatch] at hrun
      split at hrun
      · rename_i hconnected
        have hk := exists?_of_isConnected hconnected
        obtain ⟨e, he⟩ := Option.isSome_iff_exists.mp hk
        have hupdate := updateOne_update backend hooks he
        split at hrun
        · rename_i previous p₁ hresult
          rw [hresult] at hupdate
          refine ih hrun ?_
          intro u hu
          refine (invariant_exists u.1).update he hupdate ?_
          rcases List.mem_cons.mp hu with rfl | hu
          · exact hk
          · exact hexists u hu
        · cases hrun
      · exact ih hrun hexists

/-- Whoever is updated exists. -/
theorem runRounds_exists {rounds : Nat}
    (hrun : runRounds backend hooks rounds updates p = some (updates', none, p'))
    (hexists : ∀ u ∈ updates, p.exists? u.1 = true) : ∀ u ∈ updates', p'.exists? u.1 = true := by
  induction rounds generalizing updates p with
  | zero => simp [runRounds] at hrun
  | succ rounds ih =>
      have htaken : ∀ u ∈ updates, p.takePending.2.exists? u.1 = true := hexists
      rw [runRounds] at hrun
      split at hrun
      · rename_i p₁ htake
        rw [htake] at htaken
        cases hrun
        exact htaken
      · rename_i k rest p₁ htake
        rw [htake] at htaken
        simp only at hrun
        split at hrun
        · cases hrun
        · rename_i us p₂ hresult
          exact ih hrun (runBatch_exists hresult htaken)

theorem hasRendered_markRendered (hk : p.exists? k = true) {j : ComponentId}
    (h : p.hasRendered k = true ∨ j = k) : (p.markRendered j).hasRendered k = true := by
  obtain ⟨e, he⟩ := Option.isSome_iff_exists.mp hk
  unfold markRendered hasRendered
  rw [element_modify]
  split
  · rw [he]
    rfl
  · rename_i hjk
    rcases h with h | rfl
    · exact h
    · exact (hjk rfl).elim

/-- Whoever has rendered or is told of an update has rendered in the end. -/
theorem replay_hasRendered (hrun : replay backend hooks updates p = (none, p'))
    (hk : p.exists? k = true) (h : p.hasRendered k = true ∨ ∃ u ∈ updates, u.1 = k) :
    p'.hasRendered k = true := by
  induction updates generalizing p with
  | nil =>
      cases hrun
      simpa using h
  | cons u rest ih =>
      obtain ⟨j, previous⟩ := u
      have hafter : (p.runAfter backend hooks j previous).2.exists? k = true ∧
          (p.runAfter backend hooks j previous).2.hasRendered = p.hasRendered := by
        cases previous with
        | none => exact ⟨hk, rfl⟩
        | some previous =>
            have hsteps : Steps _ (p.runAfter backend hooks j (some previous)).2 :=
              runAfter_steps p j previous
            exact ⟨hsteps.exists? (p := p.note _) hk, hsteps.hasRendered⟩
      rw [replay] at hrun
      split at hrun
      · cases hrun
      · rename_i p₁ hresult
        rw [hresult] at hafter
        obtain ⟨hk₁, hsame⟩ := hafter
        refine ih hrun ((exists?_modify p₁ j _ k).trans hk₁) ?_
        rcases h with h | ⟨u, hu, huk⟩
        · refine Or.inl (hasRendered_markRendered hk₁ (Or.inl ?_))
          rw [hsame]
          exact h
        · rcases List.mem_cons.mp hu with rfl | hu
          · exact Or.inl (hasRendered_markRendered hk₁ (Or.inr huk))
          · exact Or.inr ⟨u, hu, huk⟩

/-! ## Flushes -/

/-- A flush that ends well with a renderer leaves the trace of its rounds, which
serve every request, and of the replay, in the reverse order of the updates.
Then the page is as the ledger says, and whoever was updated has rendered. -/
theorem flush_leaves_trace (hp : Reachable backend hooks p)
    (hrenderer : p.renderer.isSome = true) {rounds : Nat}
    (hflush : p.flush backend hooks rounds = some (none, p')) :
    ∃ us renders replays,
      p'.journal = (renders ++ .replayStarted :: replays).reverse ++ p.journal ∧
      RenderTrace p.hasRendered p.ledger us renders ∧
      Served p.ledger renders ∧
      ReplayTrace us.reverse replays ∧
      (∀ k, Event.updateStarted k ∉ replays) ∧
      p'.ledger = p.ledger.afterAll (renders ++ .replayStarted :: replays) ∧
      ∀ u ∈ us, p'.hasRendered u.1 = true := by
  obtain ⟨updates, q, q', hrun, hreplay, rfl⟩ := flush_ok hp.idle hrenderer hflush
  have hexists := runRounds_exists hrun (by simp)
  have hq : QueueKnown { p with flushing := true, scheduled := false } := hp.queueKnown
  obtain ⟨us, renders, hupdates, hrenders, hleads₁⟩ := runRounds_leads hrun hq rfl
  rw [List.append_nil] at hupdates
  subst hupdates
  have hq₂ : QueueKnown q := invariant_queueKnown.runRounds hrun hq
  obtain ⟨replays, hreplays, hleads₂⟩ := replay_leads hreplay hq₂
  have hall : Leads _ (renders ++ .replayStarted :: replays) q' :=
    hleads₁.trans ((Leads.note q fun _ => rfl).trans hleads₂)
  refine ⟨us, renders, replays, hall.journal, hrenders, hrenders.served, hreplays,
    hreplays.updateStarted_notMem, hall.ledger, ?_⟩
  intro u hu
  have hu' : u ∈ us.reverse := List.mem_reverse.mpr hu
  have hrendered : q'.hasRendered u.1 = true :=
    replay_hasRendered hreplay (hexists u hu') (Or.inr ⟨u, hu', rfl⟩)
  exact hrendered

/-- An element that writes to itself before its update is updated twice. -/
theorem flush_leaves_trace_late :
    Late.page.renderer.isSome = true ∧
    Late.page.flush .blank Late.hooks 3 = some (none, Late.flushed) ∧
    ∃ us renders replays,
      Late.flushed.journal = (renders ++ .replayStarted :: replays).reverse ++ Late.page.journal ∧
      RenderTrace Late.page.hasRendered Late.page.ledger us renders ∧
      Served Late.page.ledger renders ∧
      ReplayTrace us.reverse replays ∧
      (∀ k, Event.updateStarted k ∉ replays) ∧
      Late.flushed.ledger = Late.page.ledger.afterAll (renders ++ .replayStarted :: replays) ∧
      ∀ u ∈ us, Late.flushed.hasRendered u.1 = true :=
  ⟨rfl, Late.flush_page, flush_leaves_trace Late.reachable_page rfl Late.flush_page⟩

end LiveMarkup.Page
