import LiveMarkup.Proofs.Component.Conduct
import LiveMarkup.Proofs.Component.Course
import LiveMarkup.Proofs.Component.TraceLaw

/-!
# Updates and the renderer

An update that comes to its end has been shown exactly if a renderer is there
when its element has rendered. Component code that takes the renderer away
during a flush makes the flush use updates up without showing them; if no code
does, everything that a flush updates is shown. While no flush is running and
there is no renderer, requests only wait.
-/

namespace LiveMarkup

/-- A call that does not take the renderer away. -/
def Call.KeepsRenderer {ρ : Type} (c : Call ρ) : Prop :=
  c ≠ .clearRenderer

/-- A call that installs no renderer. -/
def Call.InstallsNone {ρ : Type} (c : Call ρ) : Prop :=
  ∀ r, c ≠ .setRenderer r

namespace Page

variable {σ ρ : Type} {backend : Backend σ ρ} {hooks : Hooks σ ρ} {p p' q : Page σ ρ}
  {k : ComponentId} {previous : Option Inputs}

/-! ## One update -/

/-- What an element rendered was given to the installed renderer, which took it. -/
def Handed (backend : Backend σ ρ) (k : ComponentId) (mount : NodeId) (ui : Value)
    (q p' : Page σ ρ) : Prop :=
  ∃ r r' host dropped, q.renderer = some r ∧
    backend.render r mount ui q.host = (r', host, dropped, none) ∧
    p' = (dropped.foldl drop
      { q.note (.shown k mount ui) with renderer := some r', host := host }).note (.updated k)

/-- An update comes to its end with what its element rendered, which was given to
the renderer if one is there. -/
theorem updateOne_ends (hconnected : p.isConnected k = true)
    (hupdate : p.updateOne backend hooks k = (.ok previous, p')) :
    ∃ ui mount q,
      (p.note (.updateStarted k)).update backend hooks k = (.ok (some (ui, mount, previous)), q) ∧
        (q.renderer = none ∧ p' = q.note (.updated k) ∨ Handed backend k mount ui q p') := by
  obtain ⟨e, he⟩ := Option.isSome_iff_exists.mp (exists?_of_isConnected hconnected)
  have hcases := update_cases backend hooks he
  unfold updateOne at hupdate
  split at hupdate
  · cases hupdate
  · -- the element exists, so its update renders something, or fails
    rename_i q hnone
    simp [hnone] at hcases
  · rename_i ui mount previous' q hq
    split at hupdate
    · cases hupdate
    · rename_i p₁ hpresent
      cases hupdate
      refine ⟨ui, mount, q, hq, ?_⟩
      cases hrenderer : q.renderer with
      | none =>
          simp only [present, hrenderer] at hpresent
          cases hpresent
          exact Or.inl ⟨rfl, rfl⟩
      | some r =>
          simp only [present, hrenderer] at hpresent
          obtain ⟨herror, rfl⟩ := Prod.mk.inj hpresent
          have htaken : backend.render r mount ui q.host =
              ((backend.render r mount ui q.host).1, (backend.render r mount ui q.host).2.1,
                (backend.render r mount ui q.host).2.2.1, none) :=
            Prod.ext rfl (Prod.ext rfl (Prod.ext rfl herror))
          exact Or.inr ⟨r, _, _, _, hrenderer, htaken, rfl⟩

/-! ## Code that leaves the renderer -/

theorem renderer_drops (ks : List ComponentId) (p : Page σ ρ) :
    (ks.foldl drop p).renderer = p.renderer := by
  induction ks generalizing p with
  | nil => rfl
  | cons k ks ih =>
      refine (ih (p.drop k)).trans ?_
      unfold drop
      split <;> rfl

theorem renderer_request (p : Page σ ρ) (k : ComponentId) :
    (p.request k).renderer = p.renderer := by
  simp only [request]
  split <;> rfl

theorem renderer_answer (p : Page σ ρ) {c : Call ρ} (hset : ∀ r, c ≠ .setRenderer r)
    (hclear : c ≠ .clearRenderer) :
    (p.answer backend c).2.renderer.isSome = p.renderer.isSome := by
  have hasking : c.mayAsk = true →
      (p.answer backend c).2.renderer.isSome = p.renderer.isSome := by
    intro hc
    rcases asking_cases backend p hc with heq | ⟨k, event, change, heq, -, -⟩
    · rw [heq]
    · rw [heq, renderer_request]
      rfl
  cases c with
  | create => rfl
  | setProp | setAttribute | connect => exact hasking rfl
  | disconnect k =>
      simp only [answer, disconnect]
      split
      · rfl
      · split
        · have hdrop : (p.drop k).renderer = p.renderer := renderer_drops [k] p
          unfold unmount
          split
          · rw [hdrop]
          · rename_i r hr
            rw [← hdrop, hr]
            rfl
        · rfl
  | setRenderer r => exact absurd rfl (hset r)
  | clearRenderer => exact absurd rfl hclear
  | tick | flush => rfl

theorem conduct_renderer : Conduct backend Call.KeepsRenderer fun p => p.renderer.isSome = true where
  host _ hp := hp
  answer {p c} hc hp := by
    by_cases hset : ∃ r, c = .setRenderer r
    · obtain ⟨r, rfl⟩ := hset
      rfl
    · rw [renderer_answer p (fun r hr => hset ⟨r, hr⟩) hc]
      exact hp
  note _ hp := hp
  inputs _ _ hp := hp

theorem kept_renderer (hhooks : hooks.Use Call.KeepsRenderer) :
    Kept backend hooks fun p => p.renderer.isSome = true := by
  refine conduct_renderer.kept hhooks ?_ ?_ ?_ ?_
  · intro p k mount ui _ hp
    unfold present
    split
    · exact hp
    · rw [renderer_drops]
      rfl
  · intro p k hp
    rw [renderer_request]
    exact hp
  · exact fun _ hp => hp
  · exact fun hp => hp

/-- If no code takes the renderer away, it is there for the whole flush. -/
theorem Underway.renderer {Start : Page σ ρ → Prop} {rest : List ComponentId}
    (hp : Underway backend hooks Start rest p) (hhooks : hooks.Use Call.KeepsRenderer) :
    p.renderer.isSome = true := by
  induction hp with
  | begun _ hrenderer => exact hrenderer
  | round _ _ ih => exact ih
  | skipped _ _ ih => exact ih
  | updated _ hconnected hupdate ih =>
      have hflush : Kept backend hooks fun p => p.renderer.isSome = true := kept_renderer hhooks
      have hkept := hflush.updateOne _ hconnected ih
      rw [hupdate] at hkept
      exact hkept

/-! ## Without a renderer -/

theorem Step.pending (h : Step p p') : p.pending <+: p'.pending := by
  have hrequest : ∀ (q : Page σ ρ) (k : ComponentId), q.pending = p.pending →
      p.pending <+: (q.request k).pending := by
    intro q k hq
    rw [pending_request, hq]
    split
    · exact List.prefix_rfl
    · exact List.prefix_append _ _
  cases h with
  | world | create | drop => exact List.prefix_rfl
  | request | writeProp | writeAttr | connect => exact hrequest _ _ rfl

theorem Steps.pending (h : Steps p p') : p.pending <+: p'.pending := by
  induction h with
  | refl => exact List.prefix_rfl
  | tail _ hstep ih => exact ih.trans hstep.pending

/-- Requests have been made, and nobody was updated. -/
structure Waited (p p' : Page σ ρ) : Prop where
  renderer : p'.renderer = none
  pending : p.pending <+: p'.pending
  calls : ∃ es, p'.journal = es ++ p.journal ∧ Calls es

theorem Waited.refl (hrenderer : p.renderer = none) : Waited p p :=
  ⟨hrenderer, List.prefix_rfl, [], rfl, by simp [Calls]⟩

theorem Waited.trans (h : Waited p q) (h' : Waited q p') : Waited p p' where
  renderer := h'.renderer
  pending := h.pending.trans h'.pending
  calls := by
    obtain ⟨es, hes, hcalls⟩ := h.calls
    obtain ⟨es', hes', hcalls'⟩ := h'.calls
    refine ⟨es' ++ es, by rw [hes', hes, List.append_assoc], ?_⟩
    intro e he
    rcases List.mem_append.mp he with he | he
    · exact hcalls' e he
    · exact hcalls e he

variable (backend hooks) in
theorem flush_waits (hidle : p.flushing = false) (hrenderer : p.renderer = none) (rounds : Nat) :
    ∃ p', p.flush backend hooks rounds = some (none, p') ∧ Waited p p' := by
  refine ⟨{ p with flushing := true, scheduled := false }.reschedule, ?_, ?_⟩
  · unfold flush
    simp only [hidle, hrenderer]
    rfl
  · exact ⟨hrenderer, List.prefix_rfl, [], rfl, by simp [Calls]⟩

/-- Without a renderer every call but the installation of one is answered, and no
flush updates anybody. -/
theorem perform_waits (hp : Reachable backend hooks p) (hrenderer : p.renderer = none)
    {c : Call ρ} (hset : ∀ r, c ≠ .setRenderer r) (rounds : Nat) :
    ∃ reply p', p.perform backend hooks rounds c = some (reply, p') ∧ Waited p p' := by
  have hanswer : Waited p (p.answer backend c).2 := by
    have hsteps := answer_steps backend p c
    obtain ⟨es, hcalls, hleads⟩ := hsteps.leads hp.queueKnown
    refine ⟨?_, hsteps.pending, es.reverse, hleads.journal, ?_⟩
    · by_cases hclear : c = .clearRenderer
      · subst hclear
        rfl
      · have hsome : (p.answer backend c).2.renderer.isSome = p.renderer.isSome :=
          renderer_answer p hset hclear
        rw [hrenderer] at hsome
        exact Option.isNone_iff_eq_none.mp (Option.isSome_eq_false_iff.mp hsome)
    · intro e he
      exact hcalls e (List.mem_reverse.mp he)
  cases c with
  | setRenderer r => exact absurd rfl (hset r)
  | flush =>
      obtain ⟨p', hflush, hwaited⟩ := flush_waits backend hooks hp.idle hrenderer rounds
      exact ⟨.flushed none, p', by simp only [perform, hflush, Option.map_some], hwaited⟩
  | tick =>
      cases hscheduled : p.scheduled with
      | false => exact ⟨.flushed none, p, by simp [perform, tick, hscheduled], .refl hrenderer⟩
      | true =>
          obtain ⟨p', hflush, hwaited⟩ := flush_waits backend hooks
            (p := { p with scheduled := false }) hp.idle hrenderer rounds
          refine ⟨.flushed none, p', ?_, hwaited.renderer, hwaited.pending, hwaited.calls⟩
          simp only [perform, tick, hscheduled, if_true, hflush, Option.map_some]
  | _ => exact ⟨_, _, rfl, hanswer⟩

theorem start_waits {α : Type} {program : Program σ ρ α} (hprogram : program.Uses Call.InstallsNone)
    (hp : Reachable backend hooks p) (hrenderer : p.renderer = none) (rounds : Nat) :
    ∃ a p', program.start backend hooks rounds p = some (a, p') ∧ Waited p p' := by
  induction program generalizing p with
  | done a => exact ⟨a, p, rfl, .refl hrenderer⟩
  | observe next ih => exact ih p.view (hprogram p.view) hp hrenderer
  | modifyHost f next ih =>
      obtain ⟨a, p', hstart, hwaited⟩ := ih hprogram (hp.world (f p.host) p.renderer p.scheduled)
        hrenderer
      exact ⟨a, p', hstart, hwaited.renderer, hwaited.pending, hwaited.calls⟩
  | call c next ih =>
      obtain ⟨reply, q, hperform, hwaited⟩ := perform_waits hp hrenderer hprogram.1 rounds
      obtain ⟨a, p', hstart, hrest⟩ := ih reply (hprogram.2 reply) (hp.call hperform)
        hwaited.renderer
      exact ⟨a, p', by simp only [Program.start, hperform, hstart], hwaited.trans hrest⟩

/-- In every flush, what an update rendered is given to the renderer that is there
then; without one it is dropped. If no component code takes the renderer away, it is
always there. Between flushes, without a renderer, requests wait and nobody is
updated. -/
theorem updates_reach_renderer :
    (∀ {p p' : Page σ ρ} {k : ComponentId} {rest : List ComponentId} {previous : Option Inputs},
      Underway backend hooks (Reachable backend hooks) (k :: rest) p →
      p.isConnected k = true → p.updateOne backend hooks k = (.ok previous, p') →
        ∃ ui mount q,
          (p.note (.updateStarted k)).update backend hooks k =
              (.ok (some (ui, mount, previous)), q) ∧
            (q.renderer.isSome = true → Handed backend k mount ui q p') ∧
            (q.renderer = none → p' = q.note (.updated k)) ∧
            (hooks.Use Call.KeepsRenderer → q.renderer.isSome = true)) ∧
    ∀ {p : Page σ ρ} {α : Type} {program : Program σ ρ α} (rounds : Nat),
      Reachable backend hooks p → p.renderer = none → program.Uses Call.InstallsNone →
        ∃ a p', program.start backend hooks rounds p = some (a, p') ∧ Waited p p' := by
  constructor
  · intro p p' k rest previous hp hconnected hupdate
    obtain ⟨ui, mount, q, hq, hend⟩ := updateOne_ends hconnected hupdate
    refine ⟨ui, mount, q, hq, ?_, ?_, ?_⟩
    · intro hsome
      rcases hend with ⟨hnone, -⟩ | hhanded
      · rw [hnone] at hsome
        cases hsome
      · exact hhanded
    · intro hnone
      rcases hend with ⟨-, hdropped⟩ | ⟨r, r', host, dropped, hsome, -⟩
      · exact hdropped
      · rw [hnone] at hsome
        cases hsome
    · intro hhooks
      have hstill : (p.note (.updateStarted k)).renderer.isSome = true := hp.renderer hhooks
      have hconduct : Conduct backend Call.KeepsRenderer fun p => p.renderer.isSome = true :=
        conduct_renderer
      have hkept := hconduct.update (k := k) hhooks hstill
      rw [hq] at hkept
      exact hkept
  · intro p α program rounds hp hrenderer hprogram
    exact start_waits hprogram hp hrenderer rounds

end Page

/-! ## An element that takes the renderer away -/

namespace Fleeting

def schema : Schema :=
  ⟨"x-fleeting", [], []⟩

/-- Rendering takes the renderer away. -/
def hooks : Hooks Unit Unit where
  beforeUpdate _ _ := .done (.ok ())
  render _ _ := .call .clearRenderer fun _ => .done (.ok (.str "gone"))
  afterUpdate _ _ := .done (.ok ())

/-- An element waits for a renderer. -/
def program : Program Unit Unit Unit :=
  .call (.create schema 0) fun _ =>
  .call (.connect 0) fun _ =>
  .done ()

def page : Page Unit Unit :=
  (program.start .blank hooks 3 (.new ())).elim (.new ()) Prod.snd

/-- The page after the flush that a renderer sets off. -/
def flushed : Page Unit Unit :=
  (page.perform .blank hooks 3 (.setRenderer ())).elim page Prod.snd

end Fleeting

/-- An element that writes to itself is shown, and without a renderer an element
waits. -/
theorem Page.updates_reach_renderer_late :
    (∃ p previous p',
      Underway .blank Late.hooks (Reachable .blank Late.hooks) [0] p ∧
      p.isConnected 0 = true ∧ p.updateOne .blank Late.hooks 0 = (.ok previous, p') ∧
      Late.hooks.Use Call.KeepsRenderer ∧
      ∃ ui mount q, (p.note (.updateStarted 0)).update .blank Late.hooks 0 =
          (.ok (some (ui, mount, previous)), q) ∧ Handed .blank 0 mount ui q p') ∧
    ∃ a p', Fleeting.program.start .blank Fleeting.hooks 3 (.new ()) = some (a, p') ∧
      Waited (.new ()) p' := by
  have hbegun : Underway .blank Late.hooks (Reachable .blank Late.hooks) []
      { Late.page with flushing := true, scheduled := false } := .begun Late.reachable_page rfl
  have hturn := hbegun.round (List.cons_ne_nil 0 [])
  have hhooks : Late.hooks.Use Call.KeepsRenderer := by
    refine ⟨?_, fun _ _ => trivial, fun _ _ => trivial⟩
    intro k inputs view
    dsimp only
    split
    · trivial
    · exact ⟨nofun, fun _ => trivial⟩
  constructor
  · refine ⟨_, _, _, hturn, rfl, rfl, hhooks, ?_⟩
    obtain ⟨ui, mount, q, hq, hhanded, -, hsome⟩ :=
      Page.updates_reach_renderer.1 hturn rfl rfl
    exact ⟨ui, mount, q, hq, hhanded (hsome hhooks)⟩
  · exact Page.updates_reach_renderer.2 3 (.new ()) rfl ⟨nofun, fun _ => ⟨nofun, fun _ => trivial⟩⟩

/-- An update has come to its end and nothing was ever shown; the element is
connected, and nothing waits for the next renderer. -/
theorem Page.flush_shows_nothing :
    Fleeting.page.pending = [0] ∧
    Fleeting.page.perform .blank Fleeting.hooks 3 (.setRenderer ()) =
      some (.flushed none, Fleeting.flushed) ∧
    Event.updated 0 ∈ Fleeting.flushed.journal ∧
    (∀ k mount ui, Event.shown k mount ui ∉ Fleeting.flushed.journal) ∧
    Fleeting.flushed.isConnected 0 = true ∧ Fleeting.flushed.pending = [] := by
  have hjournal : Fleeting.flushed.journal = [.replayStarted, .updated 0,
      .render 0 (Fleeting.flushed.committed 0), .updateStarted 0, .roundStarted [0],
      .requested 0, .connected 0] := rfl
  refine ⟨rfl, rfl, ?_, ?_, rfl, rfl⟩
  · simp [hjournal]
  · simp [hjournal]

end LiveMarkup
