import LiveMarkup.Proofs.Component.Schedule
import Mathlib.Data.List.Nodup

/-!
# No request is stranded

Between flushes, whatever was written to a connected element waits in the queue,
unless the element's own code ended its last update: then nothing asks for
another one. The queue holds nobody twice, and a flush is scheduled exactly
while a renderer is there and the queue is not empty.
-/

namespace LiveMarkup

/-! ## The last update -/

/-- Whether an event tells of an update of an element: that it has begun, or that
what the element rendered was taken. -/
def Event.attempt? (k : ComponentId) : Event → Option Bool
  | .updateStarted j => if j = k then some true else none
  | .shown j _ _ | .updated j => if j = k then some false else none
  | _ => none

theorem Event.attempt?_call (k : ComponentId) {e : Event} (he : e.isCall = true) :
    e.attempt? k = none := by
  cases e with
  | updateStarted | shown | updated => cases he
  | _ => rfl

namespace Page

variable {σ ρ : Type} {p p' q q' : Page σ ρ} {j k : ComponentId} {e : Element}
  {rest : List ComponentId}

/-- How far the last update of an element got: it is still in the element's own
code (`true`), or past it (`false`). -/
def lastAttempt (p : Page σ ρ) (k : ComponentId) : Option Bool :=
  p.journal.findSome? (Event.attempt? k)

/-- The last update of an element ended in the element's own code, before the
update or while it rendered. -/
def Refused (p : Page σ ρ) (k : ComponentId) : Prop :=
  p.lastAttempt k = some true

theorem lastAttempt_note (p : Page σ ρ) (k : ComponentId) (event : Event) :
    (p.note event).lastAttempt k = (event.attempt? k).or (p.lastAttempt k) := by
  unfold lastAttempt
  show (event :: p.journal).findSome? _ = _
  rw [List.findSome?_cons]
  cases event.attempt? k <;> rfl

theorem lastAttempt_note_silent {event : Event} (he : event.attempt? k = none) :
    (p.note event).lastAttempt k = p.lastAttempt k := by
  rw [lastAttempt_note, he, Option.none_or]

theorem lastAttempt_started (p : Page σ ρ) (j k : ComponentId) :
    (p.note (.updateStarted j)).lastAttempt k =
      if j = k then some true else p.lastAttempt k := by
  rw [lastAttempt_note]
  show (if j = k then some true else none).or _ = _
  split <;> rfl

theorem Step.lastAttempt (h : Step p p') (k : ComponentId) :
    p'.lastAttempt k = p.lastAttempt k := by
  obtain ⟨es, hjournal, hcalls⟩ := h.journal
  have hsilent : es.findSome? (Event.attempt? k) = none := by
    rw [List.findSome?_eq_none_iff]
    intro event hevent
    exact Event.attempt?_call k (hcalls event hevent)
  unfold Page.lastAttempt
  rw [hjournal, List.findSome?_append, hsilent, Option.none_or]

theorem Steps.lastAttempt (h : Steps p p') (k : ComponentId) :
    p'.lastAttempt k = p.lastAttempt k := by
  induction h with
  | refl => rfl
  | tail _ hstep ih => rw [hstep.lastAttempt, ih]

theorem Prepared.lastAttempt (h : Prepared p j e q) (k : ComponentId) :
    q.lastAttempt k = if j = k then some true else p.lastAttempt k := by
  cases h with
  | first => exact lastAttempt_started p j k
  | again _ hsteps =>
      rw [hsteps.lastAttempt, lastAttempt_note_silent rfl]
      exact lastAttempt_started p j k

theorem lastAttempt_rendered {next : Inputs} (hrender : Steps (q.commit j next) q')
    (k : ComponentId) : q'.lastAttempt k = q.lastAttempt k := by
  rw [hrender.lastAttempt]
  exact lastAttempt_note_silent (p := q.modify j _) rfl

/-! ## What an update answers -/

section

variable (backend : Backend σ ρ) (hooks : Hooks σ ρ)

theorem before_answers (he : p.elements[k]? = some e) (next : Inputs)
    {before : Option UpdateError × Page σ ρ}
    (hbefore : (if e.rendered then p.runBefore backend hooks k e.schema.tag next
      else (none, p)) = before) :
    (∀ error, before.1 = some error → error.phase? = some .beforeUpdate) ∧
      before.2.lastAttempt k = p.lastAttempt k ∧ before.2.exists? k = true := by
  split at hbefore
  · have hsteps := runBefore_steps backend hooks p k e.schema.tag next
    rw [hbefore] at hsteps
    refine ⟨?_, ?_, ?_⟩
    · intro error herror
      rw [← hbefore] at herror
      simp only [runBefore] at herror
      split at herror
      · cases herror
      · cases herror
        rfl
    · rw [hsteps.lastAttempt, lastAttempt_note_silent rfl]
    · exact hsteps.exists? (exists?_of_element (p := p.note _) he)
  · subst hbefore
    refine ⟨?_, rfl, exists?_of_element he⟩
    intro error herror
    cases herror

theorem commitAndRender_answers (he : p.elements[k]? = some e) (next : Inputs) :
    ((∃ error, (p.commitAndRender backend hooks k e next).1 = .error error ∧
        error.phase? = some .render) ∨
      ∃ ui previous, (p.commitAndRender backend hooks k e next).1 = .ok (ui, previous)) ∧
    (p.commitAndRender backend hooks k e next).2.lastAttempt k = p.lastAttempt k := by
  have hphase : ∀ error, (p.commitAndRender backend hooks k e next).1 = .error error →
      error.phase? = some .render := by
    intro error herror
    simp only [commitAndRender] at herror
    split at herror
    · cases herror
    · cases herror
      rfl
  obtain ⟨q, hrender, ⟨ui, hok⟩ | ⟨error, hfail⟩⟩ :=
    commitAndRender_cases backend hooks he next
  · rw [hok]
    exact ⟨Or.inr ⟨ui, _, rfl⟩, lastAttempt_rendered hrender k⟩
  · rw [hfail] at hphase ⊢
    exact ⟨Or.inl ⟨error, rfl, hphase error rfl⟩, lastAttempt_rendered hrender k⟩

end

/-! ## What waits -/

/-- What is staged for a connected element will be rendered, in the rest of a round
or later, or the element's own code ended its last update. -/
def Settles (rest : List ComponentId) (p : Page σ ρ) (k : ComponentId) : Prop :=
  Waits rest p k ∨ p.Refused k

namespace Settles

theorem steps (hsteps : Steps p p') (hq : QueueKnown p) (h : Settles rest p k) :
    Settles rest p' k := by
  rcases h with h | h
  · exact Or.inl (hsteps.waits hq h)
  · exact Or.inr ((hsteps.lastAttempt k).trans h)

theorem note {event : Event} (he : event.attempt? k = none) (h : Settles rest p k) :
    Settles rest (p.note event) k := by
  rcases h with h | h
  · exact Or.inl h
  · exact Or.inr ((lastAttempt_note_silent he).trans h)

theorem modify_other (g : Element → Element) (hkj : k ≠ j) (h : Settles rest p k) :
    Settles rest (p.modify j g) k := by
  rcases h with h | h
  · exact Or.inl (h.modify_other g hkj)
  · exact Or.inr h

theorem tail (hkj : k ≠ j) (h : Settles (j :: rest) p k) : Settles rest p k := by
  rcases h with h | h
  · left
    intro hconnected
    rcases h hconnected with h | h | h
    · exact Or.inl h
    · exact Or.inr (Or.inl ((List.mem_cons.mp h).resolve_left hkj))
    · exact Or.inr (Or.inr h)
  · exact Or.inr h

end Settles

theorem attempt?_other (hkj : k ≠ j) : (Event.updateStarted j).attempt? k = none ∧
    (∀ mount ui, (Event.shown j mount ui).attempt? k = none) ∧
    (Event.updated j).attempt? k = none := by
  simp [Event.attempt?, Ne.symm hkj]

theorem Update.settles_other {result : Except UpdateError (Option Inputs)}
    (h : Update p j e result p') (hq : QueueKnown p) (hkj : k ≠ j) (hk : Settles rest p k) :
    Settles rest p' k := by
  obtain ⟨hstarted, hshows, hupdated⟩ := attempt?_other hkj
  have hprepared : ∀ {q : Page σ ρ}, Prepared p j e q → Settles rest q k := by
    intro q hprepared
    cases hprepared with
    | first => exact hk.note hstarted
    | again _ hsteps => exact .steps hsteps hq (.note rfl (hk.note hstarted))
  have hrendered : ∀ {q q' : Page σ ρ}, Prepared p j e q → Steps (q.commit j e.latest) q' →
      QueueKnown q' ∧ Settles rest q' k := by
    intro q q' hprep hrender
    have hq₁ : QueueKnown (q.commit j e.latest) := hprep.queueKnown hq
    exact ⟨hrender.queueKnown hq₁,
      .steps hrender hq₁ (.note rfl ((hprepared hprep).modify_other _ hkj))⟩
  cases h with
  | refused _ h₁ => exact hprepared h₁
  | failed _ h₁ hrender => exact (hrendered h₁ hrender).2.modify_other _ hkj
  | unshown _ h₁ hrender mount ui hsteps =>
      obtain ⟨hq₂, hk₂⟩ := hrendered h₁ hrender
      exact .steps hsteps hq₂ (hk₂.note (hshows mount ui))
  | done h₁ hrender hpresented =>
      obtain ⟨hq₂, hk₂⟩ := hrendered h₁ hrender
      apply Settles.note hupdated
      cases hpresented with
      | hidden => exact hk₂
      | shown mount ui hsteps => exact .steps hsteps hq₂ (hk₂.note (hshows mount ui))

/-- The update of an element itself: either its own code ends it, or everything
staged for it is committed. -/
theorem Update.settles_self {result : Except UpdateError (Option Inputs)}
    (h : Update p k e result p') (he : p.elements[k]? = some e) (hq : QueueKnown p) :
    Settles rest p' k := by
  have hstarted : ∀ {q : Page σ ρ}, Prepared p k e q → q.Refused k := by
    intro q hprepared
    unfold Refused
    rw [hprepared.lastAttempt, if_pos rfl]
  have hrendered : ∀ {q q' : Page σ ρ}, Prepared p k e q → Steps (q.commit k e.latest) q' →
      QueueKnown q' ∧ Waits rest q' k := by
    intro q q' hprep hrender
    have hq₁ : QueueKnown (q.commit k e.latest) := hprep.queueKnown hq
    refine ⟨hrender.queueKnown hq₁, hrender.waits hq₁ ?_⟩
    intro _
    exact Or.inl (staged_commit (hprep.exists? he) e.latest)
  cases h with
  | refused _ h₁ => exact Or.inr (hstarted h₁)
  | failed _ h₁ hrender =>
      -- taking the commitment back changes the element alone
      exact Or.inr ((lastAttempt_rendered hrender k).trans (hstarted h₁))
  | @unshown _ q₂ _ _ h₁ hrender mount ui hsteps =>
      obtain ⟨hq₂, hk₂⟩ := hrendered h₁ hrender
      exact Or.inl (hsteps.waits (p := q₂.note _) hq₂ hk₂)
  | done h₁ hrender hpresented =>
      obtain ⟨hq₂, hk₂⟩ := hrendered h₁ hrender
      exact Or.inl (hpresented.waits hq₂ hk₂)

theorem Update.settles {result : Except UpdateError (Option Inputs)}
    (h : Update p j e result p') (he : p.elements[j]? = some e) (hq : QueueKnown p)
    (hs : ∀ k, Settles (j :: rest) p k) (k : ComponentId) : Settles rest p' k := by
  rcases eq_or_ne k j with rfl | hkj
  · exact h.settles_self he hq
  · exact h.settles_other hq hkj ((hs k).tail hkj)

/-! ## Flushes -/

theorem subset_requestAll (ks : List ComponentId) (p : Page σ ρ) :
    p.pending ⊆ (p.requestAll ks).pending := by
  unfold requestAll
  induction ks generalizing p with
  | nil => exact List.Subset.refl _
  | cons k ks ih => exact List.Subset.trans (subset_request p k) (ih (p.request k))

theorem QueueKnown.mem_requestAll (hq : QueueKnown p) (hk : k ∈ rest) :
    k ∈ (p.requestAll rest).pending := by
  induction rest generalizing p with
  | nil => simp at hk
  | cons j rest ih =>
      rcases List.mem_cons.mp hk with rfl | hk
      · exact subset_requestAll rest _ (hq.mem_request k)
      · exact ih (hq.request j) hk

/-- Whoever waits for the rest of a round is in the queue once the rest has asked
again. -/
theorem Settles.requestAll (h : Settles rest p k) (hq : QueueKnown p) :
    Settles [] (p.requestAll rest) k := by
  have hsteps := requestAll_steps rest p
  rcases h with h | h
  · left
    intro hconnected
    rcases hsteps.waits hq h hconnected with h | h | h
    · exact Or.inl h
    · exact Or.inr (Or.inr (hq.mem_requestAll h))
    · exact Or.inr (Or.inr h)
  · exact Or.inr ((hsteps.lastAttempt k).trans h)

theorem Settles.skip (h : Settles (j :: rest) p k) (hj : p.isConnected j = false) :
    Settles rest (p.note (.skipped j)) k := by
  apply Settles.note rfl
  rcases eq_or_ne k j with rfl | hkj
  · -- who is not connected need not wait
    left
    intro hconnected
    rw [hj] at hconnected
    cases hconnected
  · exact h.tail hkj

/-- Every element is settled between updates, and the members of the queue are
known. -/
def Settled (p : Page σ ρ) : Prop :=
  QueueKnown p ∧ ∀ k, Settles [] p k

variable {backend : Backend σ ρ} {hooks : Hooks σ ρ}

theorem runBatch_settled (batch : List ComponentId) (updates : Updates) (hq : QueueKnown p)
    (h : ∀ k, Settles batch p k) : Settled (runBatch backend hooks batch updates p).2.2 := by
  induction batch generalizing updates p with
  | nil => exact ⟨hq, h⟩
  | cons j rest ih =>
      rw [runBatch]
      split
      · rename_i hconnected
        obtain ⟨e, he⟩ := Option.isSome_iff_exists.mp (exists?_of_isConnected hconnected)
        have hupdate := updateOne_update backend hooks he
        have hq₁ := hupdate.queueKnown hq
        have h₁ := hupdate.settles he hq h
        split
        · rename_i heq
          rw [heq] at hq₁ h₁
          exact ih _ hq₁ h₁
        · -- the rest goes back to the queue
          rename_i error p₁ heq
          rw [heq] at hq₁ h₁
          exact ⟨(requestAll_steps rest p₁).queueKnown hq₁, fun k => (h₁ k).requestAll hq₁⟩
      · rename_i hconnected
        apply ih
        · exact hq
        · intro k
          exact (h k).skip (by simpa using hconnected)

theorem Settled.take (h : Settled p) :
    QueueKnown p.takePending.2 ∧ ∀ k, Settles p.takePending.1 p.takePending.2 k := by
  refine ⟨invariant_queueKnown.take h.1, ?_⟩
  intro k
  rcases h.2 k with hk | hk
  · left
    intro hconnected
    rcases hk hconnected with hk | hk | hk
    · exact Or.inl hk
    · simp at hk
    · exact Or.inr (Or.inl hk)
  · exact Or.inr hk

theorem runRounds_settles {rounds : Nat} {updates updates' : Updates}
    {error : Option UpdateError}
    (hrun : runRounds backend hooks rounds updates p = some (updates', error, p'))
    (h : Settled p) : Settled p' := by
  induction rounds generalizing updates p with
  | zero => simp [runRounds] at hrun
  | succ rounds ih =>
      have htaken := h.take
      rw [runRounds] at hrun
      split at hrun
      · rename_i p₁ htake
        rw [htake] at htaken
        cases hrun
        exact htaken
      · rename_i k rest p₁ htake
        rw [htake] at htaken
        have hbatch : Settled (runBatch backend hooks (k :: rest) updates
            (p₁.note (.roundStarted (k :: rest)))).2.2 := by
          apply runBatch_settled
          · exact htaken.1
          · intro j
            exact (htaken.2 j).note rfl
        simp only at hrun
        split at hrun
        · rename_i us e p₂ hresult
          rw [hresult] at hbatch
          cases hrun
          exact hbatch
        · rename_i us p₂ hresult
          rw [hresult] at hbatch
          exact ih hrun hbatch

/-- Marking an element as rendered changes neither what is staged nor who is
connected. -/
theorem Settles.markRendered (h : Settles rest p k) (j : ComponentId) :
    Settles rest (p.markRendered j) k := by
  rcases h with h | h
  · left
    refine h.congr ?_ ?_ (List.Subset.refl _)
    · rw [isConnected_eq, isConnected_eq]
      refine view_modify p j _ Element.connected false ?_ k
      intro e
      rfl
    · refine view_modify p j _ Element.staged .empty ?_ k
      intro e
      rfl
  · exact Or.inr h

theorem told_settled : Told backend hooks (Settled (σ := σ) (ρ := ρ)) where
  runAfter {p} k inputs h := by
    have hsteps : Steps _ (p.runAfter backend hooks k (some inputs)).2 :=
      runAfter_steps p k inputs
    refine ⟨hsteps.queueKnown h.1, ?_⟩
    intro j
    exact .steps hsteps h.1 ((h.2 j).note rfl)
  mark k h := ⟨invariant_queueKnown.mark k h.1, fun j => (h.2 j).markRendered k⟩

theorem Settled.drain {rounds : Nat} {error : Option UpdateError} (h : Settled p)
    (hdrain : p.drain backend hooks rounds = some (error, p')) : Settled p' := by
  rw [Page.drain] at hdrain
  split at hdrain
  · cases hdrain
  · rename_i updates e q hrun
    cases hdrain
    have htold : Told backend hooks (Settled (σ := σ) (ρ := ρ)) := told_settled
    exact htold.markAll updates (runRounds_settles hrun h)
  · rename_i updates q hrun
    obtain ⟨hq, hsettles⟩ := runRounds_settles hrun h
    have hreplay : Settled (Page.replay backend hooks updates (q.note .replayStarted)).2 := by
      apply told_settled.replay
      exact ⟨hq, fun k => (hsettles k).note rfl⟩
    rw [Option.some.inj hdrain] at hreplay
    exact hreplay

theorem Settled.flush {rounds : Nat} {error : Option UpdateError} (h : Settled p)
    (hflush : p.flush backend hooks rounds = some (error, p')) : Settled p' := by
  rw [Page.flush] at hflush
  split at hflush
  · cases hflush
    exact h
  · simp only at hflush
    split at hflush
    · obtain ⟨⟨error', q⟩, hdrain, hresult⟩ := Option.map_eq_some_iff.mp hflush
      cases hresult
      have hbegin : Settled { p with flushing := true, scheduled := false } := h
      have hend : Settled q := hbegin.drain hdrain
      exact hend
    · cases hflush
      exact h

/-! ## Pages that calls lead to -/

theorem Settled.steps (h : Settled p) (hsteps : Steps p p') : Settled p' :=
  ⟨hsteps.queueKnown h.1, fun k => .steps hsteps h.1 (h.2 k)⟩

/-- On a reachable page every element is settled. -/
theorem Reachable.settled (hp : Reachable backend hooks p) : Settled p := by
  induction hp with
  | new host =>
      refine ⟨fun _ => Iff.rfl, ?_⟩
      intro k
      left
      intro hconnected
      cases hconnected
  | world host renderer scheduled _ ih =>
      exact ih.steps (.single (.world host renderer scheduled))
  | call _ hperform ih =>
      obtain ⟨q, hsteps, rfl | ⟨error, hflush⟩⟩ := perform_cases hperform
      · exact ih.steps hsteps
      · exact (ih.steps hsteps).flush hflush

/-- Nobody is in the queue twice. -/
def QueueNodup (p : Page σ ρ) : Prop :=
  QueueKnown p ∧ p.pending.Nodup

theorem QueueNodup.request (h : QueueNodup p) (k : ComponentId) : QueueNodup (p.request k) := by
  refine ⟨h.1.request k, ?_⟩
  rw [pending_request]
  split
  · exact h.2
  · rename_i hk
    have hnot : k ∉ p.pending := fun hmem => hk ((h.1 k).mpr hmem)
    rw [← List.concat_eq_append]
    exact h.2.concat hnot

theorem Step.queueNodup (h : Step p p') (hq : QueueNodup p) : QueueNodup p' := by
  cases h with
  | world | create | drop => exact hq
  | request k => exact hq.request k
  | writeProp | writeAttr | connect =>
      apply QueueNodup.request
      exact hq

theorem invariant_queueNodup : Invariant (QueueNodup (σ := σ) (ρ := ρ)) where
  step := Step.queueNodup
  update _ hupdate hq := hupdate.keeps Step.queueNodup (fun _ hq => hq) (fun _ hq => hq) hq
  note _ hq := hq
  mark _ hq := hq
  take hq := ⟨invariant_queueKnown.take hq.1, List.nodup_nil⟩
  flags _ _ hq := hq

/-- Between flushes no request is stranded: the queue holds nobody twice and its
members are the known ones, a flush is scheduled exactly if a renderer is there and
the queue is not empty, and every connected element with staged writes is in the
queue, unless its own code ended its last update. -/
theorem AtRest.strands_nothing (hp : AtRest backend hooks p) :
    p.pending.Nodup ∧ (∀ k, k ∈ p.pending ↔ k ∈ p.queued) ∧
      (p.scheduled = true ↔ p.renderer.isSome = true ∧ 0 < p.pending.length) ∧
      ∀ k, p.isConnected k = true → p.staged k ≠ .empty → k ∈ p.pending ∨ p.Refused k := by
  have hqueue : QueueNodup p := by
    refine invariant_queueNodup.reachable ?_ hp.reachable
    intro host
    exact ⟨fun _ => Iff.rfl, List.nodup_nil⟩
  refine ⟨hqueue.2, fun k => (hqueue.1 k).symm, ?_, ?_⟩
  · have hschedule := hp.onSchedule
    unfold OnSchedule at hschedule
    rw [hschedule, Bool.and_eq_true, Bool.not_eq_true', List.isEmpty_eq_false_iff,
      List.length_pos_iff]
  · intro k hconnected hstaged
    rcases hp.reachable.settled.2 k with hk | hk
    · rcases hk hconnected with hk | hk | hk
      · exact absurd hk hstaged
      · simp at hk
      · exact Or.inl hk
    · exact Or.inr hk

end Page

/-! ## An element that refuses -/

namespace Reluctant

def schema : Schema :=
  ⟨"x-reluctant", ["label"], []⟩

/-- The first element refuses every update but its first. -/
def hooks : Hooks Unit Unit where
  beforeUpdate k _ := if k = 0 then .done (.error "not now") else .done (.ok ())
  render _ _ := .done (.ok .undefined)
  afterUpdate _ _ := .done (.ok ())

/-- Two elements render, and then the labels of both are written and flushed. -/
def program : Program Unit Unit Unit :=
  .call (.create schema 0) fun _ =>
  .call (.create schema 1) fun _ =>
  .call (.connect 0) fun _ =>
  .call (.connect 1) fun _ =>
  .call (.setRenderer ()) fun _ =>
  .call (.setProp 0 "label" (.str "first")) fun _ =>
  .call (.setProp 1 "label" (.str "second")) fun _ =>
  .call .tick fun _ =>
  .done ()

def page : Page Unit Unit :=
  (program.start .blank hooks 3 (.new ())).elim (.new ()) Prod.snd

theorem atRest_page : Page.AtRest .blank hooks page :=
  Page.AtRest.start (.new ()) (rfl : program.start .blank hooks 3 _ = some ((), page))

end Reluctant

/-- The element that refused keeps its write and does not wait; the other one, whose
turn never came, waits for the next flush. -/
theorem Page.AtRest.strands_nothing_reluctant :
    AtRest .blank Reluctant.hooks Reluctant.page ∧
    Reluctant.page.pending = [1] ∧ Reluctant.page.scheduled = true ∧
    (Reluctant.page.staged 0).props.get? "label" = some (.str "first") ∧
    Reluctant.page.Refused 0 ∧
    Reluctant.page.pending.Nodup ∧
    (∀ k, k ∈ Reluctant.page.pending ↔ k ∈ Reluctant.page.queued) ∧
    (Reluctant.page.scheduled = true ↔
      Reluctant.page.renderer.isSome = true ∧ 0 < Reluctant.page.pending.length) ∧
    ∀ k, Reluctant.page.isConnected k = true → Reluctant.page.staged k ≠ .empty →
      k ∈ Reluctant.page.pending ∨ Reluctant.page.Refused k :=
  ⟨Reluctant.atRest_page, rfl, rfl, rfl, rfl,
    Page.AtRest.strands_nothing Reluctant.atRest_page⟩

end LiveMarkup
