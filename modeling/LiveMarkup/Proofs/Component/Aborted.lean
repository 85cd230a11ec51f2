import LiveMarkup.Proofs.Component.Rounds
import LiveMarkup.Proofs.Component.Schedule

/-!
# Flushes that end in an error

When an update fails, the rest of its batch asks again, behind whoever asked
since the round was taken. So nobody who was to be updated is forgotten but the
element that failed: that one waits only if somebody asked for it meanwhile.
When an element fails that hears of its update, the queue holds whoever asked
since the rounds were over. Either way exactly the elements that were updated
count as rendered.
-/

namespace LiveMarkup

variable {k : ComponentId} {es es' : List Event}

/-! ## Reading events -/

/-- Whose update an event asks for. -/
def Event.request? : Event → Option ComponentId
  | .requested k => some k
  | _ => none

/-- Whose turn in a round an event is. -/
def Event.turn? : Event → Option ComponentId
  | .skipped k | .updateStarted k => some k
  | _ => none

/-- What an event begins that can fail; nothing inside stands for showing what an
element rendered. -/
def Event.stage? : Event → Option (Option Phase)
  | .beforeUpdate .. => some (some .beforeUpdate)
  | .render .. => some (some .render)
  | .shown .. => some none
  | .afterUpdate .. => some (some .afterUpdate)
  | _ => none

/-- Whether an update of an element can note an event between its start and its
end. -/
def Event.isPart (k : ComponentId) : Event → Bool
  | .beforeUpdate j _ | .render j _ | .shown j _ _ => j = k
  | e => e.isCall

/-- Whether an event can be noted while the elements of updates hear of them. -/
def Event.isTold : Event → Bool
  | .afterUpdate .. => true
  | e => e.isCall

def requests (es : List Event) : List ComponentId :=
  es.filterMap Event.request?

def turns (es : List Event) : List ComponentId :=
  es.filterMap Event.turn?

theorem Event.isPart_of_isCall {e : Event} (h : e.isCall = true) : e.isPart k = true := by
  cases e <;> first | exact h | cases h

theorem requests_append (es es' : List Event) :
    requests (es ++ es') = requests es ++ requests es' :=
  List.filterMap_append

theorem turns_append (es es' : List Event) : turns (es ++ es') = turns es ++ turns es' :=
  List.filterMap_append

theorem requests_map_requested (ks : List ComponentId) :
    requests (ks.map .requested) = ks := by
  unfold requests
  rw [List.filterMap_map]
  exact List.filterMap_some

theorem mem_requests : k ∈ requests es ↔ .requested k ∈ es := by
  unfold requests
  rw [List.mem_filterMap]
  constructor
  · rintro ⟨e, he, heq⟩
    cases e with
    | requested j =>
        obtain rfl : j = k := Option.some.inj heq
        exact he
    | _ => cases heq
  · intro h
    exact ⟨_, h, rfl⟩

theorem turns_part (h : ∀ e ∈ es, e.isPart k = true) : turns es = [] := by
  unfold turns
  rw [List.filterMap_eq_nil_iff]
  intro e he
  cases e with
  | skipped | updateStarted => cases h _ he
  | _ => rfl

/-- Until the next round, whoever asks goes to the end of the queue, unless already
in it. -/
theorem Ledger.queue_afterAll {l : Ledger} (hqueue : l.queue = [])
    (hround : ∀ batch, .roundStarted batch ∉ es) :
    (l.afterAll es).queue = (requests es).eraseDups := by
  induction es using List.reverseRecOn with
  | nil => exact hqueue
  | append_singleton es e ih =>
      have ih := ih fun batch hbatch => hround batch (List.mem_append_left _ hbatch)
      rw [Ledger.afterAll_append, requests_append, List.eraseDups_append, ← ih]
      change ((l.afterAll es).after e).queue = _
      cases e with
      | requested k =>
          show (if k ∈ (l.afterAll es).queue then (l.afterAll es).queue
            else (l.afterAll es).queue ++ [k]) = _
          have hone : requests [.requested k] = [k] := rfl
          rw [ih, hone]
          by_cases hk : k ∈ requests es <;> simp [hk, List.removeAll, List.eraseDups_cons]
      | roundStarted batch => exact absurd (by simp) (hround batch)
      | _ => exact (List.append_nil _).symm

theorem eraseDups_of_nodup {ks : List ComponentId} (h : ks.Nodup) : ks.eraseDups = ks := by
  induction ks with
  | nil => rfl
  | cons k ks ih =>
      obtain ⟨hk, hrest⟩ := List.nodup_cons.mp h
      have hothers : ks.filter (fun j => !j == k) = ks := by
        rw [List.filter_eq_self]
        intro j hj
        have hjk : j ≠ k := by
          rintro rfl
          exact hk hj
        simpa using hjk
      rw [List.eraseDups_cons, hothers, ih hrest]

namespace Page

variable {σ ρ : Type} {p p' q q' : Page σ ρ} {e : Element} {us us' : Updates}

/-! ## Parts of a flush before the replay -/

/-- Events of rounds lead from a page to another: some elements are updated, and
nobody hears of it yet. -/
structure Ran (p : Page σ ρ) (us : Updates) (es : List Event) (q : Page σ ρ) : Prop where
  journal : q.journal = es.reverse ++ p.journal
  silent : ∀ k inputs, .afterUpdate k inputs ∉ es
  updated : ∀ k, .updated k ∈ es ↔ ∃ u ∈ us, u.1 = k
  rendered : q.hasRendered = p.hasRendered
  keeps : ∀ k, p.exists? k = true → q.exists? k = true
  known : ∀ u ∈ us, q.exists? u.1 = true

namespace Ran

theorem refl (p : Page σ ρ) : Ran p [] [] p where
  journal := rfl
  silent := by simp
  updated := by simp
  rendered := rfl
  keeps _ hk := hk
  known := by simp

theorem trans (h : Ran p us es q) (h' : Ran q us' es' p') : Ran p (us' ++ us) (es ++ es') p' where
  journal := by rw [h'.journal, h.journal, List.reverse_append, List.append_assoc]
  silent k inputs hmem := by
    rcases List.mem_append.mp hmem with hmem | hmem
    · exact h.silent k inputs hmem
    · exact h'.silent k inputs hmem
  updated k := by
    rw [List.mem_append, h.updated, h'.updated, or_comm]
    simp only [List.mem_append, or_and_right, exists_or]
  rendered := h'.rendered.trans h.rendered
  keeps k hk := h'.keeps k (h.keeps k hk)
  known u hu := by
    rcases List.mem_append.mp hu with hu | hu
    · exact h'.known u hu
    · exact h'.keeps u.1 (h.known u hu)

theorem note (p : Page σ ρ) {event : Event} (hafter : ∀ k inputs, .afterUpdate k inputs ≠ event)
    (hupdated : ∀ k, .updated k ≠ event) : Ran p [] [event] (p.note event) where
  journal := rfl
  silent k inputs hmem := hafter k inputs (List.mem_singleton.mp hmem)
  updated k := by simp [hupdated k]
  rendered := rfl
  keeps _ hk := hk
  known := by simp

end Ran

theorem Step.ran (h : Step p p') : ∃ es, Calls es ∧ Ran p [] es p' := by
  obtain ⟨es, hjournal, hcalls⟩ := h.journal
  have hcalls' : Calls es.reverse := fun e he => hcalls e (List.mem_reverse.mp he)
  refine ⟨es.reverse, hcalls', ?_, ?_, ?_, h.hasRendered, fun _ hk => h.exists? hk, by simp⟩
  · rw [List.reverse_reverse]
    exact hjournal
  · intro k inputs hmem
    cases hcalls' _ hmem
  · intro k
    refine iff_of_false ?_ (by simp)
    intro hmem
    cases hcalls' _ hmem

theorem Steps.ran (h : Steps p p') : ∃ es, Calls es ∧ Ran p [] es p' := by
  induction h with
  | refl => exact ⟨[], by simp [Calls], .refl p⟩
  | tail _ hstep ih =>
      obtain ⟨es, hcalls, hran⟩ := ih
      obtain ⟨es', hcalls', hran'⟩ := hstep.ran
      exact ⟨es ++ es', List.forall_mem_append.mpr ⟨hcalls, hcalls'⟩, hran.trans hran'⟩

/-- An update of an element has started and not come to its end. -/
def Updating (p : Page σ ρ) (k : ComponentId) (q : Page σ ρ) : Prop :=
  ∃ own, (∀ event ∈ own, event.isPart k = true) ∧ Ran p [] (.updateStarted k :: own) q

namespace Updating

theorem started (p : Page σ ρ) (k : ComponentId) : Updating p k (p.note (.updateStarted k)) :=
  ⟨[], by simp, .note p (by simp) (by simp)⟩

theorem steps (h : Updating p k q) (hsteps : Steps q q') : Updating p k q' := by
  obtain ⟨own, hown, hran⟩ := h
  obtain ⟨calls, hcalls, hran'⟩ := hsteps.ran
  refine ⟨own ++ calls, List.forall_mem_append.mpr ⟨hown, ?_⟩, hran.trans hran'⟩
  exact fun event hevent => Event.isPart_of_isCall (hcalls event hevent)

theorem note (h : Updating p k q) {event : Event} (hevent : event.isPart k = true) :
    Updating p k (q.note event) := by
  obtain ⟨own, hown, hran⟩ := h
  refine ⟨own ++ [event], List.forall_mem_append.mpr ⟨hown, by simpa using hevent⟩,
    hran.trans (.note q ?_ ?_)⟩
  · rintro j inputs rfl
    cases hevent
  · rintro j rfl
    cases hevent

theorem inputs (h : Updating p k q) (change : Element → Inputs × Inputs) :
    Updating p k (q.modify k fun e =>
      { e with committed := (change e).1, staged := (change e).2 }) := by
  obtain ⟨own, hown, hran⟩ := h
  refine ⟨own, hown, hran.journal, hran.silent, hran.updated, ?_, ?_, by simp⟩
  · rw [← hran.rendered]
    ext1 j
    refine view_modify q k _ Element.rendered false ?_ j
    intro e
    rfl
  · intro j hj
    rw [exists?_modify]
    exact hran.keeps j hj

end Updating

theorem Prepared.updating (h : Prepared p k e q) : Updating p k q := by
  cases h with
  | first => exact .started p k
  | again _ hsteps =>
      refine Updating.steps ?_ hsteps
      exact (Updating.started p k).note (decide_eq_true rfl)

theorem Prepared.updating_render (h : Prepared p k e q) (hrender : Steps (q.commit k e.latest) q') :
    Updating p k q' := by
  refine Updating.steps ?_ hrender
  exact (h.updating.inputs fun _ => (e.latest, .empty)).note (decide_eq_true rfl)

theorem Updating.shown (h : Updating p k q) {mount : NodeId} {ui : Value}
    (hshown : Steps (q.note (.shown k mount ui)) q') : Updating p k q' := by
  refine Updating.steps ?_ hshown
  exact h.note (decide_eq_true rfl)

theorem Update.updating_error {error : UpdateError} (h : Update p k e (.error error) p') :
    Updating p k p' := by
  generalize hresult : Except.error error = result at h
  cases h with
  | refused _ h₁ => exact h₁.updating
  | @failed q₁ _ _ h₁ hrender =>
      exact (h₁.updating_render hrender).inputs fun e =>
        (q₁.committed k, (q₁.staged k).merge e.staged)
  | unshown _ h₁ hrender _ _ hshown =>
      exact (h₁.updating_render hrender).shown hshown
  | done => cases hresult

theorem Update.updating_ok {previous : Option Inputs} (h : Update p k e (.ok previous) p') :
    ∃ q, Updating p k q ∧ p' = q.note (.updated k) := by
  generalize hresult : Except.ok previous = result at h
  cases h with
  | refused => cases hresult
  | failed => cases hresult
  | unshown => cases hresult
  | done h₁ hrender hpresented =>
      refine ⟨_, ?_, rfl⟩
      cases hpresented with
      | hidden => exact h₁.updating_render hrender
      | shown _ _ hshown => exact (h₁.updating_render hrender).shown hshown

/-! ## What failed -/

/-- The last thing begun that can fail. -/
def lastStage (p : Page σ ρ) : Option (Option Phase) :=
  p.journal.findSome? Event.stage?

theorem lastStage_calls {journal : List Event} (hcalls : Calls es)
    (hjournal : q.journal = es.reverse ++ journal) :
    q.lastStage = journal.findSome? Event.stage? := by
  have hsilent : es.reverse.findSome? Event.stage? = none := by
    rw [List.findSome?_eq_none_iff]
    intro event hevent
    have hcall := hcalls event (List.mem_reverse.mp hevent)
    cases event with
    | beforeUpdate | render | shown | afterUpdate => cases hcall
    | _ => rfl
  unfold lastStage
  rw [hjournal, List.findSome?_append, hsilent, Option.none_or]

theorem Steps.lastStage (h : Steps p q) : q.lastStage = p.lastStage := by
  obtain ⟨es, hcalls, hran⟩ := h.ran
  exact lastStage_calls hcalls hran.journal

section

variable (backend : Backend σ ρ) (hooks : Hooks σ ρ)

/-- The error is that of the last thing begun, which is a part of an update. -/
def FailsLast (error : UpdateError) (p : Page σ ρ) : Prop :=
  p.lastStage = some error.phase? ∧ error.phase? ≠ some .afterUpdate

theorem runBefore_failsLast {tag : String} {next : Inputs} {error : UpdateError}
    (h : p.runBefore backend hooks k tag next = (some error, q)) : FailsLast error q := by
  have hsteps := runBefore_steps backend hooks p k tag next
  rw [h] at hsteps
  have hlast : q.lastStage = some (some .beforeUpdate) := hsteps.lastStage
  simp only [runBefore] at h
  split at h
  · cases h
  · cases h
    exact ⟨hlast, by simp [UpdateError.phase?]⟩

theorem commitAndRender_failsLast {next : Inputs} {error : UpdateError}
    (h : p.commitAndRender backend hooks k e next = (.error error, q)) : FailsLast error q := by
  have hsteps := run_steps backend (hooks.render k next) (p.commit k next)
  simp only [commitAndRender] at h
  unfold commit at hsteps
  generalize (hooks.render k next).run backend _ = result at h hsteps
  obtain ⟨_ | ui, q₁⟩ := result
  · have hlast : q₁.lastStage = some (some .render) := hsteps.lastStage
    cases h
    exact ⟨hlast, by simp [UpdateError.phase?]⟩
  · cases h

theorem update_failsLast {error : UpdateError}
    (h : p.update backend hooks k = (.error error, q)) : FailsLast error q := by
  cases he : p.elements[k]? with
  | none =>
      simp only [update, he] at h
      cases h
  | some e =>
      simp only [update, he] at h
      generalize hbefore : (if e.rendered then
        p.runBefore backend hooks k e.schema.tag (e.committed.merge e.staged)
        else (none, p)) = before at h
      obtain ⟨failed, q₁⟩ := before
      split at h
      · -- the code before the update failed, so that it has run
        rename_i hfailed
        obtain rfl : failed = some _ := hfailed
        cases h
        split at hbefore
        · exact runBefore_failsLast backend hooks hbefore
        · cases hbefore
      · cases h
      · split at h
        · rename_i hrender
          cases h
          exact commitAndRender_failsLast backend hooks hrender
        · cases h

theorem updateOne_failsLast {error : UpdateError}
    (h : p.updateOne backend hooks k = (.error error, q)) : FailsLast error q := by
  unfold updateOne at h
  split at h
  · rename_i hupdate
    cases h
    exact update_failsLast backend hooks hupdate
  · cases h
  · rename_i ui mount previous q₁ hupdate
    split at h
    · rename_i cause q₂ hpresent
      cases h
      rcases present_cases backend q₁ k mount ui with hhidden | ⟨shown, q₃, heq, hshown⟩
      · rw [hhidden] at hpresent
        cases hpresent
      · obtain ⟨rfl, rfl⟩ := Prod.mk.inj (heq.symm.trans hpresent)
        exact ⟨hshown.lastStage, by simp [UpdateError.phase?]⟩
    · cases h

end

/-! ## Rounds that fail -/

variable {backend : Backend σ ρ} {hooks : Hooks σ ρ} {updates updates' : Updates}
  {start : List Event}

/-- Elements had their turns in a round, one after another. -/
structure TookTurns (p : Page σ ρ) (done : List ComponentId) (us : Updates) (es : List Event)
    (q : Page σ ρ) : Prop extends Ran p us es q where
  turns : turns es = done
  round : ∀ batch, .roundStarted batch ∉ es

namespace TookTurns

variable {done done' : List ComponentId}

theorem refl (p : Page σ ρ) : TookTurns p [] [] [] p :=
  ⟨.refl p, rfl, by simp⟩

theorem trans (h : TookTurns p done us es q) (h' : TookTurns q done' us' es' p') :
    TookTurns p (done ++ done') (us' ++ us) (es ++ es') p' where
  toRan := h.toRan.trans h'.toRan
  turns := by rw [turns_append, h.turns, h'.turns]
  round batch hmem := by
    rcases List.mem_append.mp hmem with hmem | hmem
    · exact h.round batch hmem
    · exact h'.round batch hmem

theorem skipped (p : Page σ ρ) (k : ComponentId) :
    TookTurns p [k] [] [.skipped k] (p.note (.skipped k)) :=
  ⟨.note p (by simp) (by simp), rfl, by simp⟩

end TookTurns

theorem Updating.turn (h : Updating p k q) :
    ∃ own, (∀ event ∈ own, event.isPart k = true) ∧
      TookTurns p [k] [] (.updateStarted k :: own) q := by
  obtain ⟨own, hown, hran⟩ := h
  refine ⟨own, hown, hran, ?_, ?_⟩
  · show k :: turns own = [k]
    rw [turns_part hown]
  · intro batch hmem
    rcases List.mem_cons.mp hmem with heq | hmem
    · cases heq
    · cases hown _ hmem

theorem Update.turn {previous : Option Inputs} (h : Update p k e (.ok previous) p')
    (he : p.elements[k]? = some e) :
    ∃ es, TookTurns p [k] [(k, previous)] es p' := by
  obtain ⟨q, hupdating, rfl⟩ := h.updating_ok
  obtain ⟨own, hown, hturn⟩ := hupdating.turn
  have hend : TookTurns q [] [(k, previous)] [.updated k] (q.note (.updated k)) := by
    refine ⟨⟨rfl, by simp, by simp [eq_comm], rfl, fun _ hj => hj, ?_⟩, rfl, by simp⟩
    intro u hu
    obtain rfl := List.mem_singleton.mp hu
    exact hturn.keeps k (exists?_of_element he)
  exact ⟨_, hturn.trans hend⟩

theorem runBatch_tookTurns {batch : List ComponentId}
    (hrun : runBatch backend hooks batch updates p = (updates', none, p')) :
    ∃ us es, updates' = us ++ updates ∧ TookTurns p batch us es p' := by
  induction batch generalizing updates p with
  | nil =>
      cases hrun
      exact ⟨[], [], rfl, .refl _⟩
  | cons k rest ih =>
      rw [runBatch] at hrun
      split at hrun
      · rename_i hconnected
        obtain ⟨e, he⟩ := Option.isSome_iff_exists.mp (exists?_of_isConnected hconnected)
        have hupdate := updateOne_update backend hooks he
        split at hrun
        · rename_i previous p₁ hresult
          rw [hresult] at hupdate
          obtain ⟨es, hturn⟩ := hupdate.turn he
          obtain ⟨us, es', rfl, hrest⟩ := ih hrun
          exact ⟨us ++ [(k, previous)], _, by simp, hturn.trans hrest⟩
        · cases hrun
      · obtain ⟨us, es, rfl, hrest⟩ := ih hrun
        exact ⟨us ++ [], _, by simp, (TookTurns.skipped p k).trans hrest⟩

/-- A round fails at one element, after the turns before it, and then the rest of the
batch asks again. -/
theorem runBatch_error {batch : List ComponentId} {error : UpdateError}
    (hrun : runBatch backend hooks batch updates p = (updates', some error, p')) :
    ∃ done f rest q q', batch = done ++ f :: rest ∧
      runBatch backend hooks done updates p = (updates', none, q) ∧ q.isConnected f = true ∧
        q.updateOne backend hooks f = (.error error, q') ∧ p' = q'.requestAll rest := by
  induction batch generalizing updates p with
  | nil => cases hrun
  | cons k rest ih =>
      rw [runBatch] at hrun
      split at hrun
      · rename_i hconnected
        split at hrun
        · rename_i previous p₁ hresult
          obtain ⟨done, f, rest, q, q', rfl, hdone, hf, hupdate, rfl⟩ := ih hrun
          refine ⟨k :: done, f, rest, q, q', rfl, ?_, hf, hupdate, rfl⟩
          simp only [runBatch, hconnected, if_true, hresult, hdone]
        · rename_i error' p₁ hresult
          cases hrun
          exact ⟨[], k, rest, p, p₁, rfl, rfl, hconnected, hresult, rfl⟩
      · rename_i hconnected
        obtain ⟨done, f, rest, q, q', rfl, hdone, hf, hupdate, rfl⟩ := ih hrun
        refine ⟨k :: done, f, rest, q, q', rfl, ?_, hf, hupdate, rfl⟩
        simp only [runBatch, if_neg hconnected, hdone]

theorem Called.updateOne (h : Called start p) (k : ComponentId) :
    Called start (p.updateOne backend hooks k).2 :=
  conduct_called.updateOne hooks.use_all (fun ui _ h => h.present _ _ ui) k h

theorem Called.runBatch {batch : List ComponentId} (h : Called start p)
    (hrun : Page.runBatch backend hooks batch updates p = (updates', none, p')) :
    Called start p' := by
  induction batch generalizing updates p with
  | nil =>
      cases hrun
      exact h
  | cons k rest ih =>
      rw [Page.runBatch] at hrun
      split at hrun
      · have hupdated : Called start (p.updateOne backend hooks k).2 := h.updateOne k
        split at hrun
        · rename_i previous p₁ hresult
          rw [hresult] at hupdated
          exact ih hupdated hrun
        · cases hrun
      · exact ih (h.note (by simp)) hrun

/-- A round that fails, after the turns of some of its batch. -/
structure Fails (error : UpdateError) (p : Page σ ρ) (done : List ComponentId) (f : ComponentId)
    (us : Updates) (earlier own : List Event) (q : Page σ ρ) : Prop extends
    TookTurns p (done ++ [f]) us (earlier ++ .updateStarted f :: own) q where
  parts : ∀ event ∈ own, event.isPart f = true
  last : FailsLast error q
  called : ∀ start, Called start p → Called start q

theorem runBatch_fails {batch : List ComponentId} {error : UpdateError}
    (hrun : runBatch backend hooks batch updates p = (updates', some error, p')) :
    ∃ done f rest us earlier own q, batch = done ++ f :: rest ∧ updates' = us ++ updates ∧
      Fails error p done f us earlier own q ∧ p' = q.requestAll rest := by
  obtain ⟨done, f, rest, q, q', rfl, hdone, hf, hresult, rfl⟩ := runBatch_error hrun
  obtain ⟨us, earlier, rfl, hturns⟩ := runBatch_tookTurns hdone
  obtain ⟨e, he⟩ := Option.isSome_iff_exists.mp (exists?_of_isConnected hf)
  have hupdate := updateOne_update backend hooks he
  rw [hresult] at hupdate
  obtain ⟨own, hown, hturn⟩ := hupdate.updating_error.turn
  refine ⟨done, f, rest, us, earlier, own, q', rfl, rfl,
    ⟨hturns.trans hturn, hown, updateOne_failsLast backend hooks hresult, ?_⟩, rfl⟩
  intro start h
  have hcalled : Called start (q.updateOne backend hooks f).2 := (h.runBatch hdone).updateOne f
  rwa [hresult] at hcalled

theorem Ran.round (p : Page σ ρ) :
    Ran p [] [.roundStarted p.pending] (p.takePending.2.note (.roundStarted p.pending)) where
  journal := rfl
  silent := by simp
  updated := by simp
  rendered := rfl
  keeps _ hk := hk
  known := by simp

theorem runRounds_ran {rounds : Nat}
    (hrun : runRounds backend hooks rounds updates p = some (updates', none, p')) :
    ∃ us es, updates' = us ++ updates ∧ Ran p us es p' ∧ p'.pending = [] := by
  induction rounds generalizing updates p with
  | zero => simp [runRounds] at hrun
  | succ rounds ih =>
      rw [runRounds] at hrun
      split at hrun
      · rename_i p₁ htake
        obtain ⟨-, rfl⟩ := Prod.mk.inj htake
        cases hrun
        exact ⟨[], [], rfl, ⟨rfl, by simp, by simp, rfl, fun _ hk => hk, by simp⟩, rfl⟩
      · rename_i k rest p₁ htake
        obtain ⟨hpending, rfl⟩ := Prod.mk.inj htake
        simp only at hrun
        split at hrun
        · cases hrun
        · rename_i us p₂ hresult
          rw [← hpending] at hresult
          obtain ⟨us₁, es₁, rfl, hturns⟩ := runBatch_tookTurns hresult
          obtain ⟨us₂, es₂, rfl, hrest, hqueue⟩ := ih hrun
          have hall := ((Ran.round p).trans hturns.toRan).trans hrest
          exact ⟨_, _, by simp, hall, hqueue⟩

theorem runRounds_fails {rounds : Nat} {error : UpdateError}
    (hrun : runRounds backend hooks rounds updates p = some (updates', some error, p')) :
    ∃ done f rest us us' before earlier own q q',
      updates' = us' ++ us ++ updates ∧ Ran p us before q ∧ q.pending = done ++ f :: rest ∧
        Fails error (q.takePending.2.note (.roundStarted q.pending)) done f us' earlier own q' ∧
          p' = q'.requestAll rest := by
  induction rounds generalizing updates p with
  | zero => simp [runRounds] at hrun
  | succ rounds ih =>
      rw [runRounds] at hrun
      split at hrun
      · cases hrun
      · rename_i k rest p₁ htake
        obtain ⟨hpending, rfl⟩ := Prod.mk.inj htake
        simp only at hrun
        split at hrun
        · rename_i us error' p₂ hresult
          cases hrun
          rw [← hpending] at hresult
          obtain ⟨done, f, rest', us, earlier, own, q, hbatch, rfl, hfails, rfl⟩ :=
            runBatch_fails hresult
          exact ⟨done, f, rest', [], us, [], earlier, own, p, q, by simp, .refl p, hbatch,
            hfails, rfl⟩
        · rename_i us p₂ hresult
          rw [← hpending] at hresult
          obtain ⟨us₁, es₁, rfl, hturns⟩ := runBatch_tookTurns hresult
          obtain ⟨done, f, rest', us, us', before, earlier, own, q, q', rfl, hrest, hqueue,
            hfails, rfl⟩ := ih hrun
          have hall := ((Ran.round p).trans hturns.toRan).trans hrest
          exact ⟨done, f, rest', _, us', _, earlier, own, q, q', by simp, hall, hqueue, hfails, rfl⟩

/-! ## Marks -/

theorem hasRendered_markRendered_iff {j : ComponentId} (hj : p.exists? j = true) :
    (p.markRendered j).hasRendered k = true ↔ p.hasRendered k = true ∨ j = k := by
  obtain ⟨e, he⟩ := Option.isSome_iff_exists.mp hj
  unfold markRendered hasRendered
  rw [element_modify]
  split
  · rename_i hkj
    subst hkj
    rw [he]
    simp
  · rename_i hkj
    simp [Ne.symm hkj]

theorem hasRendered_markAll (hknown : ∀ u ∈ updates, p.exists? u.1 = true) :
    (p.markAll updates).hasRendered k = true ↔
      p.hasRendered k = true ∨ ∃ u ∈ updates, u.1 = k := by
  induction updates generalizing p with
  | nil => simp [markAll]
  | cons u updates ih =>
      have hrest : ∀ v ∈ updates, (p.markRendered u.1).exists? v.1 = true := by
        intro v hv
        exact (exists?_modify p u.1 _ v.1).trans (hknown v (List.mem_cons_of_mem u hv))
      change ((p.markRendered u.1).markAll updates).hasRendered k = true ↔ _
      rw [ih hrest, hasRendered_markRendered_iff (hknown u List.mem_cons_self)]
      simp [or_assoc]

theorem journal_markAll (updates : Updates) (p : Page σ ρ) :
    (p.markAll updates).journal = p.journal := by
  unfold markAll
  induction updates generalizing p with
  | nil => rfl
  | cons u updates ih => exact ih (p.markRendered u.1)

theorem journal_requestAll (ks : List ComponentId) (p : Page σ ρ) :
    (p.requestAll ks).journal = (ks.map .requested).reverse ++ p.journal := by
  unfold requestAll
  induction ks generalizing p with
  | nil => rfl
  | cons k ks ih =>
      rw [List.foldl_cons, ih, journal_request]
      simp

/-! ## A replay that fails -/

/-- What is noted while an element hears of its update; if it fails then, nothing but
calls comes after the beginning. -/
theorem runAfter_told {previous : Option Inputs} {failed : Option UpdateError}
    (h : p.runAfter backend hooks k previous = (failed, q)) :
    q.hasRendered = p.hasRendered ∧ (∀ j, p.exists? j = true → q.exists? j = true) ∧
      ∃ es, (∀ event ∈ es, event.isTold = true) ∧ q.journal = es.reverse ++ p.journal ∧
        ∀ error, failed = some error → error.phase? = some .afterUpdate ∧
          ∃ inputs calls, es = .afterUpdate k inputs :: calls ∧ Calls calls := by
  cases previous with
  | none =>
      cases h
      exact ⟨rfl, fun _ hj => hj, [], by simp, rfl, by simp⟩
  | some inputs =>
      have hsteps : Steps _ (p.runAfter backend hooks k (some inputs)).2 :=
        runAfter_steps p k inputs
      rw [h] at hsteps
      obtain ⟨calls, hcalls, hran⟩ := hsteps.ran
      refine ⟨hran.rendered, hran.keeps, .afterUpdate k inputs :: calls, ?_, ?_, ?_⟩
      · refine List.forall_mem_cons.mpr ⟨rfl, ?_⟩
        intro event hevent
        have hcall := hcalls event hevent
        cases event <;> first | exact hcall | rfl
      · rw [hran.journal]
        simp [note]
      · rintro error rfl
        refine ⟨?_, inputs, calls, rfl, hcalls⟩
        simp only [runAfter] at h
        split at h
        · cases h
        · cases h
          rfl

/-- A replay fails at one element, which is the last one to hear of its update; all
count as rendered. -/
theorem replay_fails {error : UpdateError}
    (hrun : replay backend hooks updates p = (some error, p'))
    (hknown : ∀ u ∈ updates, p.exists? u.1 = true) :
    error.phase? = some .afterUpdate ∧
      (∀ k, p'.hasRendered k = true ↔ p.hasRendered k = true ∨ ∃ u ∈ updates, u.1 = k) ∧
        ∃ told f previous calls,
          p'.journal = (told ++ .afterUpdate f previous :: calls).reverse ++ p.journal ∧
            (∀ event ∈ told, event.isTold = true) ∧ Calls calls := by
  induction updates generalizing p with
  | nil => cases hrun
  | cons u rest ih =>
      obtain ⟨k, previous⟩ := u
      rw [replay] at hrun
      split at hrun
      · rename_i error' p₁ hresult
        cases hrun
        obtain ⟨hsame, hkeeps, es, -, hjournal, hfailed⟩ := runAfter_told hresult
        obtain ⟨hphase, inputs, calls, rfl, hcalls⟩ := hfailed error rfl
        have hk : p₁.exists? k = true := hkeeps k (hknown _ List.mem_cons_self)
        have hrest : ∀ u ∈ rest, (p₁.markRendered k).exists? u.1 = true := fun u hu =>
          (exists?_modify p₁ k _ u.1).trans (hkeeps u.1 (hknown u (List.mem_cons_of_mem _ hu)))
        refine ⟨hphase, ?_, [], k, inputs, calls, ?_, by simp, hcalls⟩
        · intro j
          rw [hasRendered_markAll hrest, hasRendered_markRendered_iff hk, hsame]
          simp [or_assoc]
        · rw [journal_markAll]
          exact hjournal
      · rename_i p₁ hresult
        obtain ⟨hsame, hkeeps, es, hes, hjournal, -⟩ := runAfter_told hresult
        have hk : p₁.exists? k = true := hkeeps k (hknown _ List.mem_cons_self)
        have hrest : ∀ u ∈ rest, (p₁.markRendered k).exists? u.1 = true := fun u hu =>
          (exists?_modify p₁ k _ u.1).trans (hkeeps u.1 (hknown u (List.mem_cons_of_mem _ hu)))
        obtain ⟨hphase, hrendered, told, f, inputs, calls, hjournal', htold, hcalls⟩ :=
          ih hrun hrest
        refine ⟨hphase, ?_, es ++ told, f, inputs, calls, ?_,
          List.forall_mem_append.mpr ⟨hes, htold⟩, hcalls⟩
        · intro j
          rw [hrendered, hasRendered_markRendered_iff hk, hsame]
          simp [or_assoc]
        · rw [hjournal']
          show _ ++ p₁.journal = _
          rw [hjournal]
          simp

/-! ## Flushes -/

/-- What a flush leaves that ends in the update of an element: `before` was noted in
earlier rounds, and `during` in the round that took the batch. -/
structure AbortedRound (p p' : Page σ ρ) (before : List Event) (done : List ComponentId)
    (f : ComponentId) (rest : List ComponentId) (during : List Event) : Prop where
  /-- The rest of the batch asks again. -/
  journal : p'.journal =
    (before ++ Event.roundStarted (done ++ f :: rest) :: during ++
      rest.map Event.requested).reverse ++ p.journal
  round : ∀ batch, .roundStarted batch ∉ during
  turns : turns during = done ++ [f]
  unfinished : ∃ earlier own, during = earlier ++ .updateStarted f :: own ∧
    ∀ event ∈ own, event.isPart f = true
  silent : ∀ k inputs, .afterUpdate k inputs ∉ before ++ during
  /-- Whoever asked since the round was taken waits before the rest of the batch. -/
  pending : p'.pending = (requests during).eraseDups ++ rest.filter (· ∉ requests during)
  nodup : p'.pending.Nodup
  again : f ∈ p'.pending → .requested f ∈ during ∧ ∃ event ∈ during, event.asks f = true
  rendered : ∀ k, p'.hasRendered k = true ↔
    p.hasRendered k = true ∨ .updated k ∈ before ++ during

/-- What a flush leaves that ends when an element hears of its update: `renders` was
noted in the rounds, `told` while other elements heard of theirs. -/
structure AbortedReplay (p p' : Page σ ρ) (renders told : List Event) (f : ComponentId)
    (previous : Inputs) (calls : List Event) : Prop where
  journal : p'.journal =
    (renders ++ Event.replayStarted :: told ++ .afterUpdate f previous :: calls).reverse ++
      p.journal
  silent : ∀ k inputs, .afterUpdate k inputs ∉ renders
  others : ∀ event ∈ told, event.isTold = true
  /-- Nobody hears of an update any more. -/
  last : Calls calls
  pending : p'.pending = (requests (told ++ calls)).eraseDups
  rendered : ∀ k, p'.hasRendered k = true ↔ p.hasRendered k = true ∨ .updated k ∈ renders

/-- A flush that ends in an error has run rounds up to it, or told elements up to it. -/
theorem flush_error {rounds : Nat} {error : UpdateError} (hidle : p.flushing = false)
    (hflush : p.flush backend hooks rounds = some (some error, p')) :
    ∃ updates q q', p' = q'.reschedule ∧
      ((runRounds backend hooks rounds [] { p with flushing := true, scheduled := false } =
          some (updates, some error, q) ∧ q' = q.markAll updates) ∨
        (runRounds backend hooks rounds [] { p with flushing := true, scheduled := false } =
          some (updates, none, q) ∧
            replay backend hooks updates (q.note .replayStarted) = (some error, q'))) := by
  rw [flush, hidle] at hflush
  simp only [Bool.false_eq_true, if_false] at hflush
  split at hflush
  · obtain ⟨⟨error', q'⟩, hdrain, hresult⟩ := Option.map_eq_some_iff.mp hflush
    cases hresult
    rw [drain] at hdrain
    split at hdrain
    · cases hdrain
    · rename_i updates e q hrun
      cases hdrain
      exact ⟨updates, q, _, rfl, Or.inl ⟨hrun, rfl⟩⟩
    · rename_i updates q hrun
      exact ⟨updates, q, q', rfl, Or.inr ⟨hrun, Option.some.inj hdrain⟩⟩
  · cases hflush

theorem Called.asks {during : List Event} (h : Called start q)
    (hjournal : q.journal = during.reverse ++ start) (hk : .requested k ∈ during) :
    ∃ event ∈ during, event.asks k = true := by
  obtain ⟨during', hjournal', hlaw⟩ := h
  obtain rfl : during' = during.reverse := List.append_cancel_right (hjournal'.symm.trans hjournal)
  obtain ⟨later, before, hsplit⟩ := List.append_of_mem (List.mem_reverse.mpr hk)
  obtain ⟨call, before', rfl, hasks⟩ := always_iff.mp hlaw later _ before hsplit
  refine ⟨call, List.mem_reverse.mp ?_, hasks⟩
  rw [hsplit]
  simp

theorem eraseDups_append_of_nodup {ks js : List ComponentId} (h : js.Nodup) :
    (ks ++ js).eraseDups = ks.eraseDups ++ js.filter (· ∉ ks) := by
  have hrest : js.removeAll ks = js.filter (· ∉ ks) := by
    unfold List.removeAll
    congr 1
    ext1 j
    simp
  rw [List.eraseDups_append, hrest, eraseDups_of_nodup (h.filter _)]

/-- The queue of a page whose journal tells who waits since some event that left
nobody waiting. -/
theorem Recorded.pending {journal : List Event} (h : Recorded p)
    (hjournal : p.journal = es.reverse ++ journal) (hqueue : (Ledger.of journal).queue = [])
    (hround : ∀ batch, .roundStarted batch ∉ es) : p.pending = (requests es).eraseDups := by
  have hof : p.pending = (Ledger.of p.journal).queue := h.2.queue
  rw [hof, hjournal, Ledger.of_append, Ledger.queue_afterAll hqueue hround]

/-- What rounds leave that fail. -/
theorem runRounds_aborts {rounds : Nat} {error : UpdateError} (hp' : Reachable backend hooks p')
    (hrun : runRounds backend hooks rounds [] { p with flushing := true, scheduled := false } =
      some (updates, some error, q)) (hend : p' = (q.markAll updates).reschedule) :
    FailsLast error p' ∧
      ∃ before done f rest during, AbortedRound p p' before done f rest during := by
  obtain ⟨done, f, rest, us, us', before, earlier, own, q₁, q₂, hupdates, hbefore, hbatch, hfails,
    rfl⟩ := runRounds_fails hrun
  rw [List.append_nil] at hupdates
  obtain ⟨during, hduring⟩ : ∃ during, during = earlier ++ .updateStarted f :: own := ⟨_, rfl⟩
  have hturns := hfails.toTookTurns
  rw [← hduring] at hturns
  have hall := (hbefore.trans (Ran.round q₁)).trans hturns.toRan
  have hround : p'.journal = (during ++ rest.map Event.requested).reverse ++
      .roundStarted q₁.pending :: (before.reverse ++ p.journal) := by
    rw [hend]
    show ((q₂.requestAll rest).markAll updates).journal = _
    rw [journal_markAll, journal_requestAll, hturns.journal, List.reverse_append,
      List.append_assoc]
    show _ ++ (_ ++ .roundStarted q₁.pending :: q₁.journal) = _
    rw [hbefore.journal]
  obtain ⟨hrecorded, hlaw⟩ := ruled_rounds.reachable hp'
  have hnodup : (done ++ f :: rest).Nodup := by
    rw [← hbatch, always_iff.mp hlaw _ _ _ hround]
    exact nodup_queue_of _
  have hpending : p'.pending = (requests during).eraseDups ++
      rest.filter (· ∉ requests during) := by
    have hqueue : p'.pending = (requests (during ++ rest.map .requested)).eraseDups := by
      refine hrecorded.pending hround rfl ?_
      intro batch hmem
      rcases List.mem_append.mp hmem with hmem | hmem
      · exact hturns.round batch hmem
      · simp at hmem
    rw [hqueue, requests_append, requests_map_requested]
    exact eraseDups_append_of_nodup (List.nodup_cons.mp (List.nodup_append.mp hnodup).2.1).2
  have hcalled : Called (Event.roundStarted q₁.pending :: q₁.journal) q₂ :=
    hfails.called _ ⟨[], rfl, trivial⟩
  refine ⟨?_, before, done, f, rest, during, ?_, hturns.round, hturns.turns,
    ⟨earlier, own, hduring, hfails.parts⟩, ?_, hpending, ?_, ?_, ?_⟩
  · -- who asks again begins nothing
    refine ⟨?_, hfails.last.2⟩
    rw [hend]
    show ((q₂.requestAll rest).markAll updates).lastStage = _
    unfold lastStage
    rw [journal_markAll]
    exact (requestAll_steps rest q₂).lastStage.trans hfails.last.1
  · rw [hround, hbatch]
    simp
  · intro k inputs hmem
    apply hall.silent k inputs
    simp_all
  · have hof : p'.pending = (Ledger.of p'.journal).queue := hrecorded.2.queue
    rw [hof]
    exact nodup_queue_of _
  · intro hf
    have hrequested : .requested f ∈ during := by
      rw [hpending] at hf
      rcases List.mem_append.mp hf with hf | hf
      · exact mem_requests.mp (List.mem_eraseDups.mp hf)
      · have hnot : f ∉ rest := (List.nodup_cons.mp (List.nodup_append.mp hnodup).2.1).1
        exact absurd (List.mem_of_mem_filter hf) hnot
    exact ⟨hrequested, hcalled.asks hturns.journal hrequested⟩
  · intro k
    have hsteps := requestAll_steps rest q₂
    have hknown : ∀ u ∈ updates, (q₂.requestAll rest).exists? u.1 = true := by
      intro u hu
      apply hsteps.exists?
      apply hall.known u
      simpa [hupdates] using hu
    have hupdated := hall.updated k
    rw [hend]
    show ((q₂.requestAll rest).markAll updates).hasRendered k = true ↔ _
    rw [hasRendered_markAll hknown, hsteps.hasRendered, hall.rendered, hupdates]
    show p.hasRendered k = true ∨ _ ↔ _
    simp_all

/-- What a replay leaves that fails. -/
theorem replay_aborts {rounds : Nat} {error : UpdateError} (hp : Reachable backend hooks p)
    (hp' : Reachable backend hooks p')
    (hrun : runRounds backend hooks rounds [] { p with flushing := true, scheduled := false } =
      some (updates, none, q))
    (hreplay : replay backend hooks updates (q.note .replayStarted) = (some error, q'))
    (hend : p' = q'.reschedule) :
    p'.lastStage = some error.phase? ∧ error.phase? = some .afterUpdate ∧
      ∃ renders told f previous calls, AbortedReplay p p' renders told f previous calls := by
  obtain ⟨us, renders, hupdates, hran, hempty⟩ := runRounds_ran hrun
  rw [List.append_nil] at hupdates
  subst hupdates
  obtain ⟨hphase, hrendered, told, f, previous, calls, hjournal, htold, hcalls⟩ :=
    replay_fails hreplay hran.known
  have hreplays : p'.journal = (.replayStarted :: told ++ .afterUpdate f previous :: calls).reverse
      ++ q.journal := by
    rw [hend]
    show q'.journal = _
    rw [hjournal]
    simp [note]
  refine ⟨?_, hphase, renders, told, f, previous, calls, ?_, hran.silent, htold, hcalls, ?_, ?_⟩
  · have hlast : p'.journal = calls.reverse ++
        .afterUpdate f previous :: ((Event.replayStarted :: told).reverse ++ q.journal) := by
      rw [hreplays]
      simp
    rw [hphase]
    exact lastStage_calls hcalls hlast
  · rw [hreplays, hran.journal]
    simp
  · -- nobody waits when the rounds are over
    have hq : Recorded q := by
      have hcarried : Carried backend hooks _ := ruled_rounds.carried
      have hbegun : Recorded p ∧ Always RoundLaw p.journal := ruled_rounds.reachable hp
      exact (hcarried.runRounds hrun
        (hcarried.flags true false ⟨hbegun, ruled_rounds.done _⟩)).1.1
    have hqueue : (Ledger.of q.journal).queue = [] := hq.2.queue.symm.trans hempty
    have hround : ∀ batch, .roundStarted batch ∉
        Event.replayStarted :: told ++ .afterUpdate f previous :: calls := by
      intro batch hmem
      simp only [List.cons_append, List.mem_cons, List.mem_append, reduceCtorEq, false_or] at hmem
      rcases hmem with hmem | hmem
      · cases htold _ hmem
      · cases hcalls _ hmem
    rw [(ruled_rounds.reachable hp').1.pending hreplays hqueue hround, requests_append,
      requests_append]
    rfl
  · intro k
    rw [hend]
    show q'.hasRendered k = true ↔ _
    rw [hrendered, hran.updated]
    show q.hasRendered k = true ∨ _ ↔ _
    rw [hran.rendered]
    rfl

/-- A flush that ends in an error loses nothing. -/
theorem flush_error_loses_nothing (hp : Reachable backend hooks p) {rounds : Nat}
    {error : UpdateError} (hflush : p.flush backend hooks rounds = some (some error, p')) :
    p'.lastStage = some error.phase? ∧
      (error.phase? ≠ some .afterUpdate →
        ∃ before done f rest during, AbortedRound p p' before done f rest during) ∧
      (error.phase? = some .afterUpdate →
        ∃ renders told f previous calls, AbortedReplay p p' renders told f previous calls) ∧
      (p'.scheduled = true ↔ p'.pending ≠ [] ∧ p'.renderer.isSome = true) := by
  have hperform : p.perform backend hooks rounds .flush = some (.flushed (some error), p') := by
    simp only [perform, hflush, Option.map_some]
  have hp' : Reachable backend hooks p' := hp.call hperform
  have hschedule : p'.scheduled = true ↔ p'.pending ≠ [] ∧ p'.renderer.isSome = true := by
    have honSchedule := flush_onSchedule hp.idle hflush
    unfold OnSchedule at honSchedule
    rw [honSchedule, Bool.and_eq_true, Bool.not_eq_true', List.isEmpty_eq_false_iff, and_comm]
  obtain ⟨updates, q, q', hend, ⟨hrun, rfl⟩ | ⟨hrun, hreplay⟩⟩ := flush_error hp.idle hflush
  · obtain ⟨⟨hlast, hphase⟩, hround⟩ := runRounds_aborts hp' hrun hend
    exact ⟨hlast, fun _ => hround, fun heq => absurd heq hphase, hschedule⟩
  · obtain ⟨hlast, hphase, hreplayed⟩ := replay_aborts hp hp' hrun hreplay hend
    exact ⟨hlast, fun hne => absurd hphase hne, fun _ => hreplayed, hschedule⟩

end Page

/-! ## Elements that fail -/

namespace Faulty

def schema : Schema :=
  ⟨"x-faulty", ["label"], []⟩

/-- The first of three elements writes the labels of the others when it renders, the
last one first. The second one does not render until the host state allows it; when it
hears of its update it writes the label of the first one, and fails. -/
def hooks : Hooks Bool Unit where
  beforeUpdate _ _ := .done (.ok ())
  render k _ := .observe fun view =>
    if k = 0 then
      .call (.setProp 2 "label" (.str "third")) fun _ =>
      .call (.setProp 1 "label" (.str "second")) fun _ => .done (.ok .undefined)
    else if k = 1 ∧ view.host = false then .done (.error "not yet")
    else .done (.ok .undefined)
  afterUpdate k _ :=
    if k = 1 then .call (.setProp 0 "label" (.str "first")) fun _ => .done (.error "no more")
    else .done (.ok ())

/-- Three elements wait, and there is a renderer. -/
def program : Program Bool Unit Unit :=
  .call (.setRenderer ()) fun _ =>
  .call (.create schema 0) fun _ =>
  .call (.create schema 1) fun _ =>
  .call (.create schema 2) fun _ =>
  .call (.connect 0) fun _ =>
  .call (.connect 1) fun _ =>
  .call (.connect 2) fun _ =>
  .done ()

def waiting : Page Bool Unit :=
  (program.start .blank hooks 3 (.new false)).elim (.new false) Prod.snd

/-- The page after a flush, in which the second element does not render. -/
def aborted : Page Bool Unit :=
  (waiting.flush .blank hooks 3).elim waiting Prod.snd

/-- Then the host state allows it; all elements render, and one is written to. -/
def again : Program Bool Unit Unit :=
  .modifyHost (fun _ => true) <|
  .call .flush fun _ =>
  .call (.setProp 1 "label" (.str "new")) fun _ =>
  .done ()

def allowed : Page Bool Unit :=
  (again.start .blank hooks 3 aborted).elim aborted Prod.snd

/-- The page after a flush, in which the second element hears of its update. -/
def told : Page Bool Unit :=
  (allowed.flush .blank hooks 3).elim allowed Prod.snd

/-- The second element does not render. -/
def refusal : UpdateError :=
  .lifecycle "x-faulty" .render "not yet"

/-- The second element fails after its update. -/
def complaint : UpdateError :=
  .lifecycle "x-faulty" .afterUpdate "no more"

theorem reachable_waiting : Page.Reachable .blank hooks waiting :=
  Page.Reachable.start (.new false) (rfl : program.start .blank hooks 3 _ = some ((), waiting))

theorem flush_waiting : waiting.flush .blank hooks 3 = some (some refusal, aborted) :=
  rfl

theorem reachable_allowed : Page.Reachable .blank hooks allowed := by
  have haborted : Page.Reachable .blank hooks aborted := by
    have hperform : waiting.perform .blank hooks 3 .flush =
        some (.flushed (some refusal), aborted) := rfl
    exact reachable_waiting.call hperform
  exact haborted.start (rfl : again.start .blank hooks 3 _ = some ((), allowed))

theorem flush_allowed : allowed.flush .blank hooks 3 = some (some complaint, told) :=
  rfl

end Faulty

/-- The second element waits because the first one wrote to it, behind the third one;
later the first one waits because the second one wrote to it. -/
theorem Page.flush_error_loses_nothing_faulty :
    Faulty.waiting.flush .blank Faulty.hooks 3 = some (some Faulty.refusal, Faulty.aborted) ∧
    Faulty.aborted.pending = [2, 1] ∧ Faulty.aborted.scheduled = true ∧
    (∃ before done f rest during,
      AbortedRound Faulty.waiting Faulty.aborted before done f rest during) ∧
    Faulty.allowed.flush .blank Faulty.hooks 3 = some (some Faulty.complaint, Faulty.told) ∧
    Faulty.told.pending = [0] ∧
    ∃ renders told f previous calls,
      AbortedReplay Faulty.allowed Faulty.told renders told f previous calls :=
  ⟨Faulty.flush_waiting, rfl, rfl,
    (Page.flush_error_loses_nothing Faulty.reachable_waiting Faulty.flush_waiting).2.1 (by decide),
    Faulty.flush_allowed, rfl,
    (Page.flush_error_loses_nothing Faulty.reachable_allowed Faulty.flush_allowed).2.2.1 (by decide)⟩

end LiveMarkup
