import LiveMarkup.Proofs.Component.Steps
import Mathlib.Logic.Function.Basic

/-!
# The trace of a flush

What a flush notes, told forwards: rounds of updates until the queue stays
empty, and then what the updated elements hear. The ledger holds what decides
how the rounds go on: the queue, who is connected and what is committed. It
follows from the events alone.
-/

namespace LiveMarkup

variable {k : ComponentId}

/-! ## The ledger -/

/-- What decides how the rounds of a flush go on. -/
structure Ledger where
  queue : List ComponentId
  connected : ComponentId → Bool
  committed : ComponentId → Inputs

namespace Ledger

variable {l : Ledger} {es : List Event}

/-- The ledger after one more event. -/
def after (l : Ledger) : Event → Ledger
  | .requested k => { l with queue := if k ∈ l.queue then l.queue else l.queue ++ [k] }
  | .roundStarted _ => { l with queue := [] }
  | .connected k => { l with connected := Function.update l.connected k true }
  | .disconnected k => { l with connected := Function.update l.connected k false }
  | .render k current => { l with committed := Function.update l.committed k current }
  | _ => l

def afterAll (l : Ledger) (es : List Event) : Ledger :=
  es.foldl after l

theorem afterAll_append (l : Ledger) (es es' : List Event) :
    l.afterAll (es ++ es') = (l.afterAll es).afterAll es' :=
  List.foldl_append

theorem connected_afterAll (hk : l.connected k = true) (hstays : Event.disconnected k ∉ es) :
    (l.afterAll es).connected k = true := by
  induction es generalizing l with
  | nil => exact hk
  | cons e es ih =>
      have hne : Event.disconnected k ≠ e := by
        rintro rfl
        exact hstays List.mem_cons_self
      refine ih ?_ fun hrest => hstays (List.mem_cons_of_mem e hrest)
      cases e with
      | connected j =>
          show Function.update l.connected j true k = true
          rcases eq_or_ne k j with rfl | hkj
          · exact Function.update_self k true l.connected
          · rw [Function.update_of_ne hkj]
            exact hk
      | disconnected j =>
          show Function.update l.connected j false k = true
          have hkj : k ≠ j := by
            rintro rfl
            exact hne rfl
          rw [Function.update_of_ne hkj]
          exact hk
      | _ => exact hk

theorem mem_queue_requested (l : Ledger) (k : ComponentId) :
    k ∈ (l.after (.requested k)).queue := by
  show k ∈ if k ∈ l.queue then l.queue else l.queue ++ [k]
  split
  · assumption
  · exact List.mem_append_right _ List.mem_cons_self

theorem mem_queue_afterAll (hk : k ∈ l.queue) (hround : ∀ batch, Event.roundStarted batch ∉ es) :
    k ∈ (l.afterAll es).queue := by
  induction es generalizing l with
  | nil => exact hk
  | cons e es ih =>
      refine ih ?_ fun batch hbatch => hround batch (List.mem_cons_of_mem e hbatch)
      cases e with
      | requested j =>
          show k ∈ if j ∈ l.queue then l.queue else l.queue ++ [j]
          split
          · exact hk
          · exact List.mem_append_left _ hk
      | roundStarted batch => exact (hround batch List.mem_cons_self).elim
      | _ => exact hk

/-- Whoever asks for an update while connected and stays so is in the queue when
the next round starts. -/
theorem carries_request {before later : List Event}
    (hconnected : (l.afterAll before).connected k = true)
    (hround : ∀ batch, Event.roundStarted batch ∉ later)
    (hstays : Event.disconnected k ∉ later) :
    k ∈ (l.afterAll (before ++ .requested k :: later)).queue ∧
      (l.afterAll (before ++ .requested k :: later)).connected k = true := by
  have hsplit : l.afterAll (before ++ .requested k :: later) =
      ((l.afterAll before).after (.requested k)).afterAll later := afterAll_append l before _
  rw [hsplit]
  constructor
  · exact mem_queue_afterAll (mem_queue_requested _ k) hround
  · exact connected_afterAll hconnected hstays

end Ledger

/-! ## Updates -/

/-- Events that component code, or a renderer, alone can note. -/
def Calls (es : List Event) : Prop :=
  ∀ e ∈ es, e.isCall = true

/-- What comes before the commitment of an update: the code before it, exactly
if the element has rendered. -/
inductive Prelude (k : ComponentId) (next : Inputs) : Bool → List Event → Prop
  | first : Prelude k next false []
  | again {calls : List Event} (hcalls : Calls calls) :
      Prelude k next true (.beforeUpdate k next :: calls)

/-- What comes after an element has rendered: it is shown, unless there is no
renderer. -/
inductive Display (k : ComponentId) : List Event → Prop
  | hidden : Display k []
  | shown (mount : NodeId) (ui : Value) {calls : List Event} (hcalls : Calls calls) :
      Display k (.shown k mount ui :: calls)

/-- What one update notes that commits `next`. -/
inductive UpdateTrace (k : ComponentId) (next : Inputs) (rendered : Bool) : List Event → Prop
  | intro {before calls after : List Event} (hbefore : Prelude k next rendered before)
      (hcalls : Calls calls) (hafter : Display k after) :
      UpdateTrace k next rendered
        (.updateStarted k :: before ++ .render k next :: calls ++ after ++ [.updated k])

/-! ## Rounds -/

/-- What one round notes. The elements of the batch have their turns in order;
who is not connected then is skipped. The updates are kept with what was
committed immediately before, if the element had rendered before the flush. -/
inductive RoundTrace (rendered : ComponentId → Bool) :
    List ComponentId → Ledger → List (ComponentId × Option Inputs) → List Event → Prop
  | nil {l : Ledger} : RoundTrace rendered [] l [] []
  | skipped {k : ComponentId} {rest : List ComponentId} {l : Ledger}
      {updates : List (ComponentId × Option Inputs)} {es : List Event}
      (hconnected : l.connected k = false) (hrest : RoundTrace rendered rest l updates es) :
      RoundTrace rendered (k :: rest) l updates (.skipped k :: es)
  | updated {k : ComponentId} {next : Inputs} {rest : List ComponentId} {l : Ledger}
      {updates : List (ComponentId × Option Inputs)} {es es' : List Event}
      (hconnected : l.connected k = true) (hupdate : UpdateTrace k next (rendered k) es)
      (hrest : RoundTrace rendered rest (l.afterAll es) updates es') :
      RoundTrace rendered (k :: rest) l
        ((k, if rendered k then some (l.committed k) else none) :: updates) (es ++ es')

/-- What the rounds of a flush note: each takes the whole queue, and the last
one leaves it empty. -/
inductive RenderTrace (rendered : ComponentId → Bool) :
    Ledger → List (ComponentId × Option Inputs) → List Event → Prop
  | settled {l : Ledger} (hqueue : l.queue = []) : RenderTrace rendered l [] []
  | round {l : Ledger} {updates updates' : List (ComponentId × Option Inputs)}
      {es es' : List Event} (hqueue : l.queue ≠ [])
      (hround : RoundTrace rendered l.queue (l.after (.roundStarted l.queue)) updates es)
      (hrest : RenderTrace rendered ((l.after (.roundStarted l.queue)).afterAll es) updates' es') :
      RenderTrace rendered l (updates ++ updates') (.roundStarted l.queue :: es ++ es')

/-- What is noted while the elements of updates hear of them, in order. -/
inductive ReplayTrace : List (ComponentId × Option Inputs) → List Event → Prop
  | nil : ReplayTrace [] []
  | first {k : ComponentId} {updates : List (ComponentId × Option Inputs)} {es : List Event}
      (hrest : ReplayTrace updates es) : ReplayTrace ((k, none) :: updates) es
  | again {k : ComponentId} {previous : Inputs} {calls es : List Event}
      {updates : List (ComponentId × Option Inputs)} (hcalls : Calls calls)
      (hrest : ReplayTrace updates es) :
      ReplayTrace ((k, some previous) :: updates) (.afterUpdate k previous :: calls ++ es)

/-! ## Requests -/

/-- Every request is followed by an update of its element, if that is connected
and stays so. -/
def Served (l : Ledger) (es : List Event) : Prop :=
  ∀ before k after, es = before ++ .requested k :: after →
    (l.afterAll before).connected k = true → Event.disconnected k ∉ after →
    Event.updateStarted k ∈ after

variable {next : Inputs} {l : Ledger} {es : List Event} {updates : List (ComponentId × Option Inputs)}

theorem Calls.roundStarted_notMem (h : Calls es) (batch : List ComponentId) :
    Event.roundStarted batch ∉ es := by
  intro hmem
  have hcall := h _ hmem
  simp [Event.isCall] at hcall

theorem Calls.updateStarted_notMem (h : Calls es) (k : ComponentId) :
    Event.updateStarted k ∉ es := by
  intro hmem
  have hcall := h _ hmem
  simp [Event.isCall] at hcall

theorem UpdateTrace.updateStarted_mem {rendered : Bool} (h : UpdateTrace k next rendered es) :
    Event.updateStarted k ∈ es := by
  cases h
  simp

theorem Prelude.roundStarted_notMem {rendered : Bool} (h : Prelude k next rendered es)
    (batch : List ComponentId) : Event.roundStarted batch ∉ es := by
  cases h with
  | first => exact List.not_mem_nil
  | again hcalls => simpa using hcalls.roundStarted_notMem batch

theorem Display.roundStarted_notMem (h : Display k es) (batch : List ComponentId) :
    Event.roundStarted batch ∉ es := by
  cases h with
  | hidden => exact List.not_mem_nil
  | shown _ _ hcalls => simpa using hcalls.roundStarted_notMem batch

theorem UpdateTrace.roundStarted_notMem {rendered : Bool} (h : UpdateTrace k next rendered es)
    (batch : List ComponentId) : Event.roundStarted batch ∉ es := by
  obtain ⟨hbefore, hcalls, hafter⟩ := h
  simp [hbefore.roundStarted_notMem batch, hcalls.roundStarted_notMem batch,
    hafter.roundStarted_notMem batch]

theorem RoundTrace.roundStarted_notMem {rendered : ComponentId → Bool}
    {batch : List ComponentId} (h : RoundTrace rendered batch l updates es)
    (batch' : List ComponentId) : Event.roundStarted batch' ∉ es := by
  induction h with
  | nil => exact List.not_mem_nil
  | skipped _ _ ih => simpa using ih
  | updated _ hupdate _ ih => simpa [ih] using hupdate.roundStarted_notMem batch'

theorem RoundTrace.serves {rendered : ComponentId → Bool} {batch : List ComponentId}
    (h : RoundTrace rendered batch l updates es) (hk : k ∈ batch)
    (hconnected : l.connected k = true) (hstays : Event.disconnected k ∉ es) :
    Event.updateStarted k ∈ es := by
  induction h with
  | nil => exact (List.not_mem_nil hk).elim
  | @skipped j rest l updates es hskipped _ ih =>
      rcases List.mem_cons.mp hk with rfl | hk
      · rw [hskipped] at hconnected
        exact (Bool.false_ne_true hconnected).elim
      · have hstays' : Event.disconnected k ∉ es := by simpa using hstays
        exact List.mem_cons_of_mem _ (ih hk hconnected hstays')
  | @updated j next rest l updates es es' _ hupdate _ ih =>
      rcases List.mem_cons.mp hk with rfl | hk
      · exact List.mem_append_left _ hupdate.updateStarted_mem
      · have hstays' : Event.disconnected k ∉ es ∧ Event.disconnected k ∉ es' := by
          simpa using hstays
        exact List.mem_append_right _
          (ih hk (Ledger.connected_afterAll hconnected hstays'.1) hstays'.2)

theorem RenderTrace.serves {rendered : ComponentId → Bool} (h : RenderTrace rendered l updates es)
    (hk : k ∈ l.queue) (hconnected : l.connected k = true)
    (hstays : Event.disconnected k ∉ es) : Event.updateStarted k ∈ es := by
  cases h with
  | settled hqueue =>
      rw [hqueue] at hk
      exact (List.not_mem_nil hk).elim
  | @round _ _ _ es es' _ hround _ =>
      have hstays' : Event.disconnected k ∉ es := by
        intro hmem
        exact hstays (List.mem_append_left _ (List.mem_cons_of_mem _ hmem))
      exact List.mem_append_left _ (List.mem_cons_of_mem _ (hround.serves hk hconnected hstays'))

theorem RenderTrace.served {rendered : ComponentId → Bool} (h : RenderTrace rendered l updates es) :
    Served l es := by
  induction h with
  | settled =>
      intro before k after heq
      simp at heq
  | @round l updates updates' es es' hqueue hround hrest ih =>
      intro before k after heq hconnected hstays
      cases before with
      | nil => simp at heq
      | cons e before =>
          obtain ⟨rfl, hsplit⟩ : .roundStarted l.queue = e ∧
              es ++ es' = before ++ .requested k :: after := List.cons.inj heq
          rcases List.append_eq_append_iff.mp hsplit with
            ⟨between, rfl, rfl⟩ | ⟨between, rfl, hbetween⟩
          · -- the request comes in a later round
            refine ih between k after rfl ?_ hstays
            rw [← Ledger.afterAll_append]
            exact hconnected
          · cases between with
            | nil =>
                rw [List.append_nil] at ih
                exact ih [] k after hbetween.symm hconnected hstays
            | cons e later =>
                -- the request comes in this round, so that its element is in the next batch
                obtain ⟨rfl, rfl⟩ := List.cons.inj hbetween
                have hstays' : Event.disconnected k ∉ later ∧ Event.disconnected k ∉ es' := by
                  simpa using hstays
                have hround' : ∀ batch, Event.roundStarted batch ∉ later := by
                  intro batch hmem
                  apply hround.roundStarted_notMem batch
                  exact List.mem_append_right _ (List.mem_cons_of_mem _ hmem)
                obtain ⟨hqueued, hstill⟩ := Ledger.carries_request hconnected hround' hstays'.1
                exact List.mem_append_right _ (hrest.serves hqueued hstill hstays'.2)

/-- No component is updated while the elements hear of their updates. -/
theorem ReplayTrace.updateStarted_notMem (h : ReplayTrace updates es) (k : ComponentId) :
    Event.updateStarted k ∉ es := by
  induction h with
  | nil => exact List.not_mem_nil
  | first _ ih => exact ih
  | again hcalls _ ih => simpa [ih] using hcalls.updateStarted_notMem k

end LiveMarkup
