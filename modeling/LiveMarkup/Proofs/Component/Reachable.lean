import LiveMarkup.Proofs.Component.Update

/-!
# Reachable pages

A page is reachable if calls lead to it from a new page, whatever becomes of
the host state meanwhile. Whatever steps, updates and the bookkeeping of a flush
keep, every reachable page has; that no flush is left running is the first such
property.
-/

namespace LiveMarkup

/-- Whether an event marks the progress of a flush, apart from its updates. -/
def Event.isMark : Event → Bool
  | .roundStarted _ | .skipped _ | .replayStarted | .afterUpdate .. => true
  | _ => false

/-- The renderer that shows nothing, over any host state. -/
def Backend.blank {σ : Type} : Backend σ Unit where
  name _ := "blank"
  render r _ _ host := (r, host, [], none)
  unmount r _ host := (r, host)

namespace Page

variable {σ ρ : Type}

variable {P : Page σ ρ → Prop} {backend : Backend σ ρ} {hooks : Hooks σ ρ}

theorem runAfter_steps (p : Page σ ρ) (k : ComponentId) (inputs : Inputs) :
    Steps (p.note (.afterUpdate k inputs)) (p.runAfter backend hooks k (some inputs)).2 := by
  have hrun := run_steps backend (hooks.afterUpdate k inputs) (p.note (.afterUpdate k inputs))
  simp only [runAfter]
  generalize (hooks.afterUpdate k inputs).run backend _ = result at hrun ⊢
  obtain ⟨_ | _, p'⟩ := result <;> exact hrun

/-- A property of pages that telling elements of their updates keeps. -/
structure Told (backend : Backend σ ρ) (hooks : Hooks σ ρ) (P : Page σ ρ → Prop) : Prop where
  runAfter : ∀ {p : Page σ ρ} (k : ComponentId) (inputs : Inputs),
    P p → P (p.runAfter backend hooks k (some inputs)).2
  mark : ∀ {p : Page σ ρ} (k : ComponentId), P p → P (p.markRendered k)

namespace Told

theorem markAll (h : Told backend hooks P) (updates : Updates) {p : Page σ ρ} (hp : P p) :
    P (p.markAll updates) := by
  unfold Page.markAll
  induction updates generalizing p with
  | nil => exact hp
  | cons u updates ih => exact ih (h.mark u.1 hp)

theorem replay (h : Told backend hooks P) (updates : Updates) {p : Page σ ρ} (hp : P p) :
    P (Page.replay backend hooks updates p).2 := by
  induction updates generalizing p with
  | nil => exact hp
  | cons u rest ih =>
      obtain ⟨k, previous⟩ := u
      have hafter : P (p.runAfter backend hooks k previous).2 := by
        cases previous with
        | none => exact hp
        | some inputs => exact h.runAfter k inputs hp
      rw [Page.replay]
      split
      · rename_i e p₁ hresult
        rw [hresult] at hafter
        exact h.markAll rest (h.mark k hafter)
      · rename_i p₁ hresult
        rw [hresult] at hafter
        exact ih (h.mark k hafter)

end Told

/-- A property of pages that every part of a flush keeps. -/
structure Kept (backend : Backend σ ρ) (hooks : Hooks σ ρ) (P : Page σ ρ → Prop) : Prop
    extends Told backend hooks P where
  updateOne : ∀ {p : Page σ ρ} (k : ComponentId), p.isConnected k = true →
    P p → P (p.updateOne backend hooks k).2
  requestAll : ∀ {p : Page σ ρ} (ks : List ComponentId), P p → P (p.requestAll ks)
  note : ∀ {p : Page σ ρ} {e : Event}, e.isMark = true → P p → P (p.note e)
  take : ∀ {p : Page σ ρ}, P p → P p.takePending.2

namespace Kept

theorem runBatch (h : Kept backend hooks P) (batch : List ComponentId) (updates : Updates)
    {p : Page σ ρ} (hp : P p) :
    P (Page.runBatch backend hooks batch updates p).2.2 := by
  -- also if an update fails, since requests for the rest of the batch keep the property
  induction batch generalizing updates p with
  | nil => exact hp
  | cons k rest ih =>
      rw [Page.runBatch]
      split
      · rename_i hconnected
        have hupdated := h.updateOne k hconnected hp
        split
        · rename_i previous p₁ hresult
          rw [hresult] at hupdated
          exact ih _ hupdated
        · rename_i error p₁ hresult
          rw [hresult] at hupdated
          exact h.requestAll rest hupdated
      · exact ih updates (h.note rfl hp)

theorem runRounds (h : Kept backend hooks P) {rounds : Nat} {updates updates' : Updates}
    {p p' : Page σ ρ} {error : Option UpdateError}
    (hrun : Page.runRounds backend hooks rounds updates p = some (updates', error, p'))
    (hp : P p) : P p' := by
  induction rounds generalizing updates p with
  | zero => simp [Page.runRounds] at hrun
  | succ rounds ih =>
      have htaken := h.take hp
      rw [Page.runRounds] at hrun
      split at hrun
      · rename_i p₁ htake
        rw [htake] at htaken
        cases hrun
        exact htaken
      · rename_i k rest p₁ htake
        rw [htake] at htaken
        have hbatch : P (Page.runBatch backend hooks (k :: rest) updates
            (p₁.note (.roundStarted (k :: rest)))).2.2 :=
          h.runBatch (k :: rest) updates (h.note rfl htaken)
        simp only at hrun
        split at hrun
        · rename_i us e p₂ hresult
          rw [hresult] at hbatch
          cases hrun
          exact hbatch
        · rename_i us p₂ hresult
          rw [hresult] at hbatch
          exact ih hrun hbatch

theorem drain (h : Kept backend hooks P) {rounds : Nat} {p p' : Page σ ρ}
    {error : Option UpdateError}
    (hdrain : p.drain backend hooks rounds = some (error, p')) (hp : P p) : P p' := by
  rw [Page.drain] at hdrain
  split at hdrain
  · cases hdrain
  · rename_i updates e q hrun
    cases hdrain
    exact h.toTold.markAll updates (h.runRounds hrun hp)
  · rename_i updates q hrun
    have hreplay : P (Page.replay backend hooks updates (q.note .replayStarted)).2 :=
      h.toTold.replay updates (h.note rfl (h.runRounds hrun hp))
    rw [Option.some.inj hdrain] at hreplay
    exact hreplay

end Kept

/-- A property of pages that whatever happens on a page keeps. -/
structure Invariant (P : Page σ ρ → Prop) : Prop where
  step : ∀ {p p' : Page σ ρ}, Step p p' → P p → P p'
  update : ∀ {p p' : Page σ ρ} {k : ComponentId} {e : Element}
    {result : Except UpdateError (Option Inputs)},
    p.elements[k]? = some e → Update p k e result p' → P p → P p'
  note : ∀ {p : Page σ ρ} {e : Event}, e.isMark = true → P p → P (p.note e)
  mark : ∀ {p : Page σ ρ} (k : ComponentId), P p → P (p.markRendered k)
  take : ∀ {p : Page σ ρ}, P p → P p.takePending.2
  flags : ∀ {p : Page σ ρ} (flushing scheduled : Bool),
    P p → P { p with flushing := flushing, scheduled := scheduled }

namespace Invariant

theorem steps (h : Invariant P) {p p' : Page σ ρ} (hsteps : Steps p p') (hp : P p) :
    P p' := by
  induction hsteps with
  | refl => exact hp
  | tail _ hstep ih => exact h.step hstep ih

theorem kept (h : Invariant P) : Kept backend hooks P where
  updateOne k hconnected hp := by
    obtain ⟨e, he⟩ := Option.isSome_iff_exists.mp (exists?_of_isConnected hconnected)
    exact h.update he (updateOne_update backend hooks he) hp
  runAfter k inputs hp := h.steps (runAfter_steps _ k inputs) (h.note rfl hp)
  requestAll ks hp := h.steps (requestAll_steps ks _) hp
  note := h.note
  mark := h.mark
  take := h.take

theorem runRounds (h : Invariant P) {rounds : Nat} {updates updates' : Updates}
    {p p' : Page σ ρ} {error : Option UpdateError}
    (hrun : Page.runRounds backend hooks rounds updates p = some (updates', error, p'))
    (hp : P p) : P p' :=
  h.kept.runRounds hrun hp

theorem flush (h : Invariant P) {rounds : Nat} {p p' : Page σ ρ} {error : Option UpdateError}
    (hflush : p.flush backend hooks rounds = some (error, p')) (hp : P p) : P p' := by
  rw [Page.flush] at hflush
  split at hflush
  · cases hflush
    exact hp
  · simp only at hflush
    split at hflush
    · obtain ⟨⟨error', p₁⟩, hdrain, hresult⟩ := Option.map_eq_some_iff.mp hflush
      cases hresult
      exact h.flags false _ (h.kept.drain hdrain (h.flags true false hp))
    · cases hflush
      exact h.flags false _ (h.flags true false hp)

end Invariant

/-- A flush that ends well with a renderer has run its rounds and told all
elements. -/
theorem flush_ok {rounds : Nat} {p p' : Page σ ρ} (hidle : p.flushing = false)
    (hrenderer : p.renderer.isSome = true)
    (hflush : p.flush backend hooks rounds = some (none, p')) :
    ∃ updates q q', runRounds backend hooks rounds []
        { p with flushing := true, scheduled := false } = some (updates, none, q) ∧
      replay backend hooks updates (q.note .replayStarted) = (none, q') ∧
      p' = q'.reschedule := by
  rw [flush, hidle] at hflush
  simp only [Bool.false_eq_true, if_false, hrenderer, if_true] at hflush
  obtain ⟨⟨error, q'⟩, hdrain, hresult⟩ := Option.map_eq_some_iff.mp hflush
  cases hresult
  rw [drain] at hdrain
  split at hdrain
  · cases hdrain
  · cases hdrain
  · rename_i updates q hrun
    exact ⟨updates, q, q', hrun, Option.some.inj hdrain, rfl⟩

/-! ## Calls from outside -/

theorem perform_cases {rounds : Nat} {p p' : Page σ ρ} {c : Call ρ} {reply : Reply ρ}
    (h : p.perform backend hooks rounds c = some (reply, p')) :
    ∃ q, Steps p q ∧ (p' = q ∨ ∃ error, q.flush backend hooks rounds = some (error, p')) := by
  have hanswer : p.answer backend c = (reply, p') →
      ∃ q, Steps p q ∧ (p' = q ∨ ∃ error, q.flush backend hooks rounds = some (error, p')) := by
    intro heq
    have hsteps := answer_steps backend p c
    rw [heq] at hsteps
    exact ⟨p', hsteps, Or.inl rfl⟩
  cases c with
  | flush =>
      obtain ⟨⟨error, p₁⟩, hflush, hresult⟩ := Option.map_eq_some_iff.mp h
      cases hresult
      exact ⟨p, .refl, Or.inr ⟨error, hflush⟩⟩
  | tick =>
      obtain ⟨⟨error, p₁⟩, htick, hresult⟩ := Option.map_eq_some_iff.mp h
      cases hresult
      unfold tick at htick
      split at htick
      · -- taking the schedule back is a step
        exact ⟨_, .single (.world p.host p.renderer false), Or.inr ⟨error, htick⟩⟩
      · cases htick
        exact ⟨p, .refl, Or.inl rfl⟩
  | setRenderer r =>
      obtain ⟨⟨error, p₁⟩, hset, hresult⟩ := Option.map_eq_some_iff.mp h
      cases hresult
      have hinstalled : Steps p { p with renderer := some r } :=
        .single (.world p.host (some r) p.scheduled)
      simp only [setRenderer] at hset
      split at hset
      · exact ⟨_, hinstalled, Or.inr ⟨error, hset⟩⟩
      · cases hset
        exact ⟨_, hinstalled, Or.inl rfl⟩
  | _ => exact hanswer (Option.some.inj h)

/-- Pages that calls lead to. The host state, the renderer and the schedule may
change at any time, so that every flush begins at such a page, also one that a
tick or a new renderer sets off. -/
inductive Reachable (backend : Backend σ ρ) (hooks : Hooks σ ρ) : Page σ ρ → Prop
  | new (host : σ) : Reachable backend hooks (.new host)
  | world {p : Page σ ρ} (host : σ) (renderer : Option ρ) (scheduled : Bool)
      (h : Reachable backend hooks p) :
      Reachable backend hooks { p with host := host, renderer := renderer, scheduled := scheduled }
  | call {p p' : Page σ ρ} {rounds : Nat} {c : Call ρ} {reply : Reply ρ}
      (h : Reachable backend hooks p)
      (hperform : p.perform backend hooks rounds c = some (reply, p')) :
      Reachable backend hooks p'

theorem Reachable.start {α : Type} {rounds : Nat} {program : Program σ ρ α} {p p' : Page σ ρ}
    {a : α} (hp : Reachable backend hooks p)
    (hstart : program.start backend hooks rounds p = some (a, p')) :
    Reachable backend hooks p' := by
  induction program generalizing p with
  | done b =>
      cases hstart
      exact hp
  | observe next ih => exact ih p.view hp hstart
  | modifyHost f next ih => exact ih (hp.world (f p.host) p.renderer p.scheduled) hstart
  | call c next ih =>
      rw [Program.start] at hstart
      split at hstart
      · cases hstart
      · rename_i reply q hperform
        exact ih reply (hp.call hperform) hstart

theorem Invariant.reachable (h : Invariant P) (hnew : ∀ host, P (.new host))
    {p : Page σ ρ} (hp : Reachable backend hooks p) : P p := by
  induction hp with
  | new host => exact hnew host
  | world host renderer scheduled _ ih => exact h.step (.world host renderer scheduled) ih
  | call _ hperform ih =>
      obtain ⟨q, hsteps, rfl | ⟨error, hflush⟩⟩ := perform_cases hperform
      · exact h.steps hsteps ih
      · exact h.flush hflush (h.steps hsteps ih)

theorem flushing_flush {rounds : Nat} {p p' : Page σ ρ} {error : Option UpdateError}
    (hflush : p.flush backend hooks rounds = some (error, p')) (hidle : p.flushing = false) :
    p'.flushing = false := by
  rw [flush, hidle] at hflush
  simp only [Bool.false_eq_true, if_false] at hflush
  split at hflush
  · obtain ⟨⟨error', p₁⟩, -, hresult⟩ := Option.map_eq_some_iff.mp hflush
    cases hresult
    rfl
  · cases hflush
    rfl

theorem Reachable.idle {p : Page σ ρ} (hp : Reachable backend hooks p) :
    p.flushing = false := by
  induction hp with
  | new host => rfl
  | world _ _ _ _ ih => exact ih
  | call _ hperform ih =>
      obtain ⟨q, hsteps, rfl | ⟨error, hflush⟩⟩ := perform_cases hperform
      · exact hsteps.flushing.trans ih
      · exact flushing_flush hflush (hsteps.flushing.trans ih)

end Page

end LiveMarkup
