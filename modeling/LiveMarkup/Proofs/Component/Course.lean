import LiveMarkup.Proofs.Component.Reachable

/-!
# The course of a flush

A flush comes by one page after each of its turns, and so does a flush that
never ends. What every turn carries on, together with what is left of the
round, all these pages have, and so has the page that the flush leaves.
-/

namespace LiveMarkup.Page

variable {σ ρ : Type}

/-- The pages between the turns of a flush, each with what is left of its round.
The flush begins at some page with a renderer. -/
inductive Underway (backend : Backend σ ρ) (hooks : Hooks σ ρ) (Start : Page σ ρ → Prop) :
    List ComponentId → Page σ ρ → Prop
  | begun {p : Page σ ρ} (hstart : Start p) (hrenderer : p.renderer.isSome = true) :
      Underway backend hooks Start [] { p with flushing := true, scheduled := false }
  | round {p : Page σ ρ} (h : Underway backend hooks Start [] p) (hqueue : p.pending ≠ []) :
      Underway backend hooks Start p.pending
        (p.takePending.2.note (.roundStarted p.pending))
  | skipped {p : Page σ ρ} {k : ComponentId} {rest : List ComponentId}
      (h : Underway backend hooks Start (k :: rest) p) (hconnected : p.isConnected k = false) :
      Underway backend hooks Start rest (p.note (.skipped k))
  | updated {p p' : Page σ ρ} {k : ComponentId} {rest : List ComponentId}
      {previous : Option Inputs} (h : Underway backend hooks Start (k :: rest) p)
      (hconnected : p.isConnected k = true)
      (hupdate : p.updateOne backend hooks k = (.ok previous, p')) :
      Underway backend hooks Start rest p'

/-- The pages that a run comes by: those where a flush can begin, and those
between the turns of a flush. -/
def Passed (backend : Backend σ ρ) (hooks : Hooks σ ρ) (Start : Page σ ρ → Prop)
    (p : Page σ ρ) : Prop :=
  Start p ∨ ∃ rest, Underway backend hooks Start rest p

variable {backend : Backend σ ρ} {hooks : Hooks σ ρ} {Start : Page σ ρ → Prop}
  {P : List ComponentId → Page σ ρ → Prop} {p p' : Page σ ρ} {updates updates' : Updates}

/-! ## Flushes and their turns -/

/-! ## What a flush carries on -/

/-- What every turn of a flush carries on, together with what is left of its
round. -/
structure Carried (backend : Backend σ ρ) (hooks : Hooks σ ρ)
    (P : List ComponentId → Page σ ρ → Prop) : Prop where
  flags : ∀ {p : Page σ ρ} (flushing scheduled : Bool),
    P [] p → P [] { p with flushing := flushing, scheduled := scheduled }
  round : ∀ {p : Page σ ρ}, P [] p → p.pending ≠ [] →
    P p.pending (p.takePending.2.note (.roundStarted p.pending))
  settled : ∀ {p : Page σ ρ}, P [] p → p.pending = [] → P [] p.takePending.2
  skipped : ∀ {p : Page σ ρ} {k : ComponentId} {rest : List ComponentId},
    P (k :: rest) p → p.isConnected k = false → P rest (p.note (.skipped k))
  updateOne : ∀ {p : Page σ ρ} {k : ComponentId} {rest : List ComponentId},
    P (k :: rest) p → p.isConnected k = true → P rest (p.updateOne backend hooks k).2
  requestAll : ∀ {p : Page σ ρ} {rest : List ComponentId}, P rest p → P [] (p.requestAll rest)
  replayStarted : ∀ {p : Page σ ρ}, P [] p → P [] (p.note .replayStarted)
  runAfter : ∀ {p : Page σ ρ} (k : ComponentId) (inputs : Inputs),
    P [] p → P [] (p.runAfter backend hooks k (some inputs)).2
  mark : ∀ {p : Page σ ρ} (k : ComponentId), P [] p → P [] (p.markRendered k)

namespace Carried

theorem told (h : Carried backend hooks P) : Told backend hooks (P []) :=
  ⟨h.runAfter, h.mark⟩

theorem runBatch (h : Carried backend hooks P) (batch : List ComponentId) (updates : Updates)
    (hp : P batch p) : P [] (Page.runBatch backend hooks batch updates p).2.2 := by
  induction batch generalizing updates p with
  | nil => exact hp
  | cons k rest ih =>
      rw [Page.runBatch]
      split
      · rename_i hconnected
        have hupdated := h.updateOne hp hconnected
        split
        · rename_i previous p₁ hresult
          rw [hresult] at hupdated
          exact ih _ hupdated
        · rename_i error p₁ hresult
          rw [hresult] at hupdated
          exact h.requestAll hupdated
      · rename_i hconnected
        exact ih updates (h.skipped hp (Bool.eq_false_iff.mpr hconnected))

theorem runRounds (h : Carried backend hooks P) {rounds : Nat} {error : Option UpdateError}
    (hrun : Page.runRounds backend hooks rounds updates p = some (updates', error, p'))
    (hp : P [] p) : P [] p' := by
  induction rounds generalizing updates p with
  | zero => simp [Page.runRounds] at hrun
  | succ rounds ih =>
      rw [Page.runRounds] at hrun
      split at hrun
      · rename_i p₁ htake
        obtain ⟨hpending, rfl⟩ := Prod.mk.inj htake
        cases hrun
        exact h.settled hp hpending
      · rename_i k rest p₁ htake
        have hpending : p.pending = k :: rest := congrArg Prod.fst htake
        have hround := h.round hp (hpending ▸ List.cons_ne_nil k rest)
        rw [hpending, htake] at hround
        have hbatch := h.runBatch (k :: rest) updates hround
        simp only at hrun
        split at hrun
        · rename_i us e p₂ hresult
          rw [hresult] at hbatch
          cases hrun
          exact hbatch
        · rename_i us p₂ hresult
          rw [hresult] at hbatch
          exact ih hrun hbatch

theorem drain (h : Carried backend hooks P) {rounds : Nat} {error : Option UpdateError}
    (hdrain : p.drain backend hooks rounds = some (error, p')) (hp : P [] p) : P [] p' := by
  rw [Page.drain] at hdrain
  split at hdrain
  · cases hdrain
  · rename_i updates e q hrun
    cases hdrain
    exact h.told.markAll updates (h.runRounds hrun hp)
  · rename_i updates q hrun
    have hreplay : P [] (Page.replay backend hooks updates (q.note .replayStarted)).2 :=
      h.told.replay updates (h.replayStarted (h.runRounds hrun hp))
    rw [Option.some.inj hdrain] at hreplay
    exact hreplay

theorem flush (h : Carried backend hooks P) {rounds : Nat} {error : Option UpdateError}
    (hflush : p.flush backend hooks rounds = some (error, p')) (hp : P [] p) : P [] p' := by
  rw [Page.flush] at hflush
  split at hflush
  · cases hflush
    exact hp
  · simp only at hflush
    split at hflush
    · obtain ⟨⟨error', p₁⟩, hdrain, hresult⟩ := Option.map_eq_some_iff.mp hflush
      cases hresult
      exact h.flags false _ (h.drain hdrain (h.flags true false hp))
    · cases hflush
      exact h.flags false _ (h.flags true false hp)

/-- What turns carry on and steps keep, every reachable page has. -/
theorem reachable (h : Carried backend hooks P)
    (hstep : ∀ {p p' : Page σ ρ}, Step p p' → P [] p → P [] p')
    (hnew : ∀ host, P [] (.new host)) (hp : Reachable backend hooks p) : P [] p := by
  have hsteps : ∀ {p p' : Page σ ρ}, Steps p p' → P [] p → P [] p' := by
    intro p p' hsteps hp
    induction hsteps with
    | refl => exact hp
    | tail _ hlast ih => exact hstep hlast ih
  induction hp with
  | new host => exact hnew host
  | world host renderer scheduled _ ih => exact hstep (.world host renderer scheduled) ih
  | call _ hperform ih =>
      obtain ⟨q, hcode, rfl | ⟨error, hflush⟩⟩ := perform_cases hperform
      · exact hsteps hcode ih
      · exact h.flush hflush (hsteps hcode ih)

theorem underway (h : Carried backend hooks P) (hstart : ∀ p, Start p → P [] p)
    {rest : List ComponentId} (hp : Underway backend hooks Start rest p) : P rest p := by
  induction hp with
  | begun hbegins _ => exact h.flags true false (hstart _ hbegins)
  | round _ hqueue ih => exact h.round ih hqueue
  | skipped _ hconnected ih => exact h.skipped ih hconnected
  | updated _ hconnected hupdate ih =>
      have hcarried := h.updateOne ih hconnected
      rw [hupdate] at hcarried
      exact hcarried

end Carried

/-- What every part of a flush keeps, whatever is left of a round, its turns carry
on. -/
theorem Kept.carried {Q : Page σ ρ → Prop} (h : Kept backend hooks Q)
    (hflags : ∀ {p : Page σ ρ} (flushing scheduled : Bool),
      Q p → Q { p with flushing := flushing, scheduled := scheduled }) :
    Carried backend hooks fun _ => Q where
  flags := hflags
  round hp _ := h.note rfl (h.take hp)
  settled hp _ := h.take hp
  skipped hp _ := h.note rfl hp
  updateOne hp hconnected := h.updateOne _ hconnected hp
  requestAll hp := h.requestAll _ hp
  replayStarted hp := h.note rfl hp
  runAfter := h.runAfter
  mark := h.mark

theorem Passed.mono {Start' : Page σ ρ → Prop} (h : ∀ p, Start p → Start' p)
    (hp : Passed backend hooks Start p) : Passed backend hooks Start' p := by
  rcases hp with hp | ⟨rest, hp⟩
  · exact Or.inl (h p hp)
  · right
    refine ⟨rest, ?_⟩
    induction hp with
    | begun hstart hrenderer => exact .begun (h _ hstart) hrenderer
    | round _ hqueue ih => exact ih.round hqueue
    | skipped _ hconnected ih => exact ih.skipped hconnected
    | updated _ hconnected hupdate ih => exact ih.updated hconnected hupdate

end LiveMarkup.Page
