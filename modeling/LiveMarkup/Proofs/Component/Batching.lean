import LiveMarkup.Proofs.Component.Aborted
import LiveMarkup.Proofs.Component.Staging
import LiveMarkup.Proofs.Component.Unseen

/-!
# Writes in one block are batched

Between flushes, it does not matter how often or in which order elements are written
to, but for the last value that each of their properties and attributes is given, and
for the order in which the elements are first written to. The next flush does the same
with the same arguments, and in its first round each element that was written to has
one turn.
-/

namespace LiveMarkup

variable {k : ComponentId} {ws ws' : List (ComponentId × Write)}

/-! ## Blocks of writes -/

/-- The writes of a block to one element. -/
def writesTo (k : ComponentId) (ws : List (ComponentId × Write)) : List Write :=
  ws.filterMap fun u => if u.1 = k then some u.2 else none

/-- Two blocks of writes that come to the same. -/
structure SameWrites (ws ws' : List (ComponentId × Write)) : Prop where
  order : (ws.map Prod.fst).eraseDups = (ws'.map Prod.fst).eraseDups
  props : ∀ k name, (Field.prop name).last k (writesTo k ws) =
    (Field.prop name).last k (writesTo k ws')
  attrs : ∀ k name, (Field.attr name).last k (writesTo k ws) =
    (Field.attr name).last k (writesTo k ws')

/-- They stage the same. -/
theorem SameWrites.stageAll (h : SameWrites ws ws') (k : ComponentId) (i : Inputs) :
    Write.stageAll (writesTo k ws) i = Write.stageAll (writesTo k ws') i := by
  have hlook : ∀ {α : Type} {f : Field α}, f.Lawful →
      f.last k (writesTo k ws) = f.last k (writesTo k ws') →
        f.look (Write.stageAll (writesTo k ws) i) = f.look (Write.stageAll (writesTo k ws') i) := by
    intro α f hf hlast
    rw [hf.stageAll k, hf.stageAll k, hlast]
  apply Inputs.ext_get?
  · exact fun name => hlook (Field.lawful_prop name) (h.props k name)
  · exact fun name => hlook (Field.lawful_attr name) (h.attrs k name)

namespace Page

variable {σ ρ : Type} {p q : Page σ ρ} {w : Write}

/-! ## What a block of writes leaves -/

theorem Accepts.write (h : p.Accepts k w) {j : ComponentId} {w' : Write} (h' : p.Accepts j w') :
    (p.write k w).Accepts j w' := by
  unfold Accepts
  rw [schema?_write h]
  exact h'

theorem elements_writeAll (h : ∀ u ∈ ws, p.Accepts u.1 u.2) (k : ComponentId) :
    (p.writeAll ws).elements[k]? = (p.elements[k]?).map fun e =>
      { e with staged := Write.stageAll (writesTo k ws) e.staged } := by
  unfold writeAll
  induction ws generalizing p with
  | nil =>
      show p.elements[k]? = (p.elements[k]?).map id
      rw [Option.map_id_fun, id_eq]
  | cons u ws ih =>
      have hu := h u List.mem_cons_self
      rw [List.foldl_cons, ih fun v hv => hu.write (h v (List.mem_cons_of_mem u hv)),
        write_accepted hu, elements_request, element_modify]
      show Option.map _ (if k = u.1 then (p.elements[k]?).map _ else p.elements[k]?) = _
      split
      · rename_i hk
        have hfirst : writesTo k (u :: ws) = u.2 :: writesTo k ws := by simp [writesTo, hk]
        rw [hfirst, Option.map_map]
        rfl
      · rename_i hk
        have hnone : writesTo k (u :: ws) = writesTo k ws := by simp [writesTo, Ne.symm hk]
        rw [hnone]

/-- A page but for its elements and its journal. -/
def agenda (p : Page σ ρ) : Page σ ρ :=
  { p with elements := [], journal := [] }

theorem silent_ext (hagenda : p.agenda = q.agenda) (helements : p.elements = q.elements) :
    p.silent = q.silent := by
  cases p
  cases q
  simp_all [agenda, silent]

theorem agenda_request (p : Page σ ρ) (k : ComponentId) :
    (p.request k).agenda = (p.agenda.request k).agenda := by
  by_cases h : k ∈ p.queued <;> simp [request, note, agenda, h]

theorem agenda_requestAll (hagenda : p.agenda = q.agenda) (ks : List ComponentId) :
    (p.requestAll ks).agenda = (q.requestAll ks).agenda := by
  unfold requestAll
  induction ks generalizing p q with
  | nil => exact hagenda
  | cons k ks ih =>
      apply ih
      rw [agenda_request, hagenda, ← agenda_request]

theorem mem_queued_requestAll {ks : List ComponentId} (h : k ∈ ks ∨ k ∈ p.queued) :
    k ∈ (p.requestAll ks).queued := by
  unfold requestAll
  induction ks generalizing p with
  | nil => simpa using h
  | cons j ks ih =>
      apply ih
      rw [queued_request]
      rcases h with h | h
      · rcases List.mem_cons.mp h with rfl | h
        · right
          split
          · assumption
          · exact List.mem_cons_self
        · exact Or.inl h
      · right
        split
        · exact h
        · exact List.mem_cons_of_mem j h

theorem agenda_requestAll_eraseDups (p : Page σ ρ) (ks : List ComponentId) :
    (p.requestAll ks).agenda = (p.requestAll ks.eraseDups).agenda := by
  induction ks using List.reverseRecOn with
  | nil => rfl
  | append_singleton ks k ih =>
      have hsnoc : ∀ js : List ComponentId, p.requestAll (js ++ [k]) = (p.requestAll js).request k := by
        intro js
        unfold requestAll
        rw [List.foldl_append]
        rfl
      rw [hsnoc, List.eraseDups_append]
      by_cases hk : k ∈ ks
      · have hqueued : k ∈ (p.requestAll ks).queued := mem_queued_requestAll (Or.inl hk)
        have hknown : ((p.requestAll ks).request k).agenda = (p.requestAll ks).agenda := by
          simp [request, note, agenda, hqueued]
        rw [hknown, ih]
        simp [List.removeAll, hk]
      · have hnew : ([k].removeAll ks).eraseDups = [k] := by
          simp [List.removeAll, hk, List.eraseDups_cons]
        rw [hnew, hsnoc, agenda_request, ih, ← agenda_request]

theorem agenda_writeAll (h : ∀ u ∈ ws, p.Accepts u.1 u.2) :
    (p.writeAll ws).agenda = (p.requestAll (ws.map Prod.fst)).agenda := by
  unfold writeAll
  induction ws generalizing p with
  | nil => rfl
  | cons u ws ih =>
      have hu := h u List.mem_cons_self
      rw [List.foldl_cons, ih fun v hv => hu.write (h v (List.mem_cons_of_mem u hv))]
      apply agenda_requestAll
      rw [write_accepted hu, agenda_request]
      show _ = (p.request u.1).agenda
      rw [agenda_request p]
      rfl

/-- Blocks that come to the same leave the same page, but for the journal. -/
theorem silent_writeAll (h : ∀ u ∈ ws, p.Accepts u.1 u.2) (h' : ∀ u ∈ ws', p.Accepts u.1 u.2)
    (hsame : SameWrites ws ws') : (p.writeAll ws).silent = (p.writeAll ws').silent := by
  apply silent_ext
  · rw [agenda_writeAll h, agenda_writeAll h', agenda_requestAll_eraseDups, hsame.order,
      ← agenda_requestAll_eraseDups]
  · apply List.ext_getElem?
    intro k
    rw [elements_writeAll h, elements_writeAll h']
    simp only [hsame.stageAll]

end Page

/-! ## Turns of a round -/

/-- An element has one turn in a round: it is updated if it is connected then, and
passed over otherwise. -/
def OneTurn (l : Ledger) (k : ComponentId) (es : List Event) : Prop :=
  ∃ before after,
    es = before ++ (if (l.afterAll before).connected k then Event.updateStarted k else .skipped k)
      :: after ∧ k ∉ turns before ∧ k ∉ turns after

/-- How a round ended, and who is left of its batch. -/
inductive RoundEnd (batch : List ComponentId) (es : List Event) :
    Option UpdateError → List ComponentId → Prop
  | over (hturns : turns es = batch) : RoundEnd batch es none []
  | aborted (error : UpdateError) {done : List ComponentId} {f : ComponentId}
      {rest : List ComponentId} (hbatch : batch = done ++ f :: rest)
      (hturns : turns es = done ++ [f]) : RoundEnd batch es (some error) rest

variable {l : Ledger} {es es' : List Event} {batch : List ComponentId} {next : Inputs}
  {updates : List (ComponentId × Option Inputs)}

theorem OneTurn.here (hk : k ∉ turns es) :
    OneTurn l k ((if l.connected k then Event.updateStarted k else .skipped k) :: es) :=
  ⟨[], es, rfl, List.not_mem_nil, hk⟩

theorem OneTurn.later (h : OneTurn (l.afterAll es) k es') (hk : k ∉ turns es) :
    OneTurn l k (es ++ es') := by
  obtain ⟨before, after, rfl, hbefore, hafter⟩ := h
  refine ⟨es ++ before, after, ?_, ?_, hafter⟩
  · rw [Ledger.afterAll_append, List.append_assoc]
  · rw [turns_append]
    simp [hk, hbefore]

theorem OneTurn.append (h : OneTurn l k es) (hk : k ∉ turns es') : OneTurn l k (es ++ es') := by
  obtain ⟨before, after, rfl, hbefore, hafter⟩ := h
  refine ⟨before, after ++ es', by simp, hbefore, ?_⟩
  rw [turns_append]
  simp [hk, hafter]

theorem Calls.turns (h : Calls es) : turns es = [] :=
  turns_part (k := 0) fun e he => Event.isPart_of_isCall (h e he)

theorem UpdateTrace.turns {rendered : Bool} (h : UpdateTrace k next rendered es) :
    ∃ own, es = .updateStarted k :: own ∧ turns own = [] := by
  obtain ⟨hbefore, hcalls, hafter⟩ := h
  rename_i before calls after
  have hbefore' : LiveMarkup.turns before = [] := by
    cases hbefore with
    | first => rfl
    | again hcalls => exact hcalls.turns
  have hafter' : LiveMarkup.turns after = [] := by
    cases hafter with
    | hidden => rfl
    | shown _ _ hcalls => exact hcalls.turns
  refine ⟨before ++ .render k next :: calls ++ after ++ [.updated k], by simp, ?_⟩
  have hrender : LiveMarkup.turns (.render k next :: calls) = [] := hcalls.turns
  rw [turns_append, turns_append, turns_append, hbefore', hrender, hafter']
  rfl

theorem RoundTrace.turns {rendered : ComponentId → Bool}
    (h : RoundTrace rendered batch l updates es) : turns es = batch := by
  induction h with
  | nil => rfl
  | skipped _ _ ih => exact congrArg (_ :: ·) ih
  | updated _ hupdate _ ih =>
      obtain ⟨own, rfl, hown⟩ := hupdate.turns
      rw [turns_append, ih]
      show _ :: LiveMarkup.turns own ++ _ = _
      rw [hown]
      rfl

theorem RoundTrace.oneTurn {rendered : ComponentId → Bool}
    (h : RoundTrace rendered batch l updates es) (hnodup : batch.Nodup) (hk : k ∈ batch) :
    OneTurn l k es := by
  induction h with
  | nil => exact absurd hk List.not_mem_nil
  | @skipped j rest l updates es hskipped hrest ih =>
      obtain ⟨hj, hnodup⟩ := List.nodup_cons.mp hnodup
      rcases List.mem_cons.mp hk with rfl | hin
      · have hturn : OneTurn l k ((if l.connected k then Event.updateStarted k else .skipped k)
            :: es) := .here (by rwa [hrest.turns])
        rwa [hskipped] at hturn
      · have hkj : k ∉ LiveMarkup.turns [.skipped j] := by
          rintro hmem
          obtain rfl := List.mem_singleton.mp hmem
          exact hj hin
        have hturn : OneTurn (l.afterAll [.skipped j]) k es := ih hnodup hin
        exact hturn.later hkj
  | @updated j next rest l updates es es' hconnected hupdate hrest ih =>
      obtain ⟨hj, hnodup⟩ := List.nodup_cons.mp hnodup
      obtain ⟨own, rfl, hown⟩ := hupdate.turns
      rcases List.mem_cons.mp hk with rfl | hin
      · have hturn : OneTurn l k ((if l.connected k then Event.updateStarted k else .skipped k)
            :: (own ++ es')) := .here (by rwa [turns_append, hown, hrest.turns])
        rwa [hconnected] at hturn
      · apply OneTurn.later (ih hnodup hin)
        show k ∉ j :: LiveMarkup.turns own
        rw [hown]
        rintro hmem
        obtain rfl := List.mem_singleton.mp hmem
        exact hj hin

namespace Page

variable {σ ρ : Type} {p p' q : Page σ ρ} {us us' : Updates} {error : Option UpdateError}
  {backend : Backend σ ρ} {hooks : Hooks σ ρ}

/-- In a round each element of the batch has one turn, unless the flush ends before
it. -/
theorem runBatch_oneTurn (hq : QueueKnown p) (hnodup : batch.Nodup)
    (hrun : runBatch backend hooks batch us p = (us', error, p')) :
    ∃ es left, RoundEnd batch es error left ∧
      p'.journal = (es ++ left.map Event.requested).reverse ++ p.journal ∧
        (∀ batch', .roundStarted batch' ∉ es) ∧
          ∀ k ∈ batch, k ∉ left → OneTurn p.ledger k es := by
  cases error with
  | none =>
      obtain ⟨-, -, us₁, es, -, htrace, hleads⟩ := runBatch_leads hrun hq rfl
      refine ⟨es, [], .over htrace.turns, ?_, htrace.roundStarted_notMem, ?_⟩
      · rw [List.map_nil, List.append_nil]
        exact hleads.journal
      · exact fun k hk _ => htrace.oneTurn hnodup hk
  | some error =>
      obtain ⟨done, f, rest, q, q', rfl, hdone, hf, hresult, rfl⟩ := runBatch_error hrun
      obtain ⟨-, -, us₁, es, -, htrace, hleads⟩ := runBatch_leads hdone hq rfl
      obtain ⟨e, he⟩ := Option.isSome_iff_exists.mp (exists?_of_isConnected hf)
      have hupdate := updateOne_update backend hooks he
      rw [hresult] at hupdate
      obtain ⟨own, hown, hturn⟩ := hupdate.updating_error.turn
      obtain ⟨hdone', hfrest, hdisjoint⟩ := List.nodup_append.mp hnodup
      refine ⟨es ++ .updateStarted f :: own, rest, .aborted error rfl ?_, ?_, ?_, ?_⟩
      · rw [turns_append, htrace.turns, hturn.turns]
      · rw [journal_requestAll, hturn.journal, hleads.journal]
        simp
      · intro batch' hmem
        rcases List.mem_append.mp hmem with hmem | hmem
        · exact htrace.roundStarted_notMem batch' hmem
        · exact hturn.round batch' hmem
      · intro k hk hleft
        rcases List.mem_append.mp hk with hin | hin
        · apply (htrace.oneTurn hdone' hin).append
          rw [hturn.turns]
          exact fun hmem => hdisjoint k hin f List.mem_cons_self (List.mem_singleton.mp hmem)
        · obtain rfl := (List.mem_cons.mp hin).resolve_right hleft
          have hconnected : (p.ledger.afterAll es).connected k = true := by
            rw [← hleads.ledger]
            exact hf
          have hlast : OneTurn (p.ledger.afterAll es) k
              ((if (p.ledger.afterAll es).connected k then Event.updateStarted k else .skipped k)
                :: own) := .here (by rw [turns_part hown]; exact List.not_mem_nil)
          rw [hconnected] at hlast
          apply hlast.later
          rw [htrace.turns]
          exact fun hmem => hdisjoint k hmem k List.mem_cons_self rfl

/-! ## The next flush -/

/-- The page on which the first round of a flush begins. -/
def firstRound (p : Page σ ρ) : Page σ ρ :=
  { p with flushing := true, scheduled := false }.takePending.2.note (.roundStarted p.pending)

section

variable (backend : Backend σ ρ) (hooks : Hooks σ ρ)

/-- What is left of a flush after a round. -/
def afterRound (rounds : Nat) :
    Updates × Option UpdateError × Page σ ρ → Option (Option UpdateError × Page σ ρ)
  | (us, some error, q) => some (some error, (q.markAll us).reschedule)
  | (us, none, q) =>
      match runRounds backend hooks rounds us q with
      | none => none
      | some (us, some error, q) => some (some error, (q.markAll us).reschedule)
      | some (us, none, q) =>
          let (error, q) := replay backend hooks us (q.note .replayStarted)
          some (error, q.reschedule)

theorem tick_round (hidle : p.flushing = false) (hscheduled : p.scheduled = true)
    (hrenderer : p.renderer.isSome = true) (hqueue : p.pending ≠ []) (rounds : Nat) :
    p.tick backend hooks (rounds + 1) =
      afterRound backend hooks rounds (runBatch backend hooks p.pending [] p.firstRound) := by
  obtain ⟨k, rest, hpending⟩ := List.exists_cons_of_ne_nil hqueue
  simp only [tick, hscheduled, if_true, flush, hidle, hrenderer, drain, runRounds, takePending,
    hpending, firstRound, Bool.false_eq_true, if_false]
  generalize runBatch backend hooks (k :: rest) [] _ = result
  obtain ⟨us, _ | error, q⟩ := result
  · simp only [afterRound]
    obtain _ | ⟨us', _ | error, q'⟩ := runRounds backend hooks rounds us q <;> rfl
  · rfl

end

/-- Writes lead from pages at rest to pages at rest. -/
theorem AtRest.writeAll (hp : AtRest backend hooks p) (ws : List (ComponentId × Write)) :
    AtRest backend hooks (p.writeAll ws) := by
  unfold Page.writeAll
  induction ws generalizing p with
  | nil => exact hp
  | cons u ws ih =>
      apply ih
      obtain ⟨k, w⟩ := u
      cases w with
      | prop name value =>
          have hperform : p.perform backend hooks 0 (.setProp k name value) =
              some (p.answer backend (.setProp k name value)) := rfl
          exact hp.call hperform
      | attr name value =>
          have hperform : p.perform backend hooks 0 (.setAttribute k name value) =
              some (p.answer backend (.setAttribute k name value)) := rfl
          exact hp.call hperform

theorem pending_writeAll (h : ∀ u ∈ ws, p.Accepts u.1 u.2) :
    (p.writeAll ws).pending = (p.requestAll (ws.map Prod.fst)).pending := by
  have hagenda := congrArg Page.pending (agenda_writeAll h)
  exact hagenda

theorem renderer_writeAll (h : ∀ u ∈ ws, p.Accepts u.1 u.2) :
    (p.writeAll ws).renderer = p.renderer := by
  have hagenda := congrArg Page.renderer (agenda_writeAll h)
  refine Eq.trans hagenda ?_
  show (p.requestAll (ws.map Prod.fst)).renderer = p.renderer
  unfold requestAll
  clear h hagenda
  generalize ws.map Prod.fst = ks
  induction ks generalizing p with
  | nil => rfl
  | cons k ks ih =>
      have hrequest : (p.request k).renderer = p.renderer := by
        simp only [request]
        split <;> rfl
      rw [List.foldl_cons, ih, hrequest]

/-- The first round of the flush that a page has scheduled: what it notes, and who is
left of the batch if the flush ends in it. -/
structure FirstRound (backend : Backend σ ρ) (hooks : Hooks σ ρ) (p q : Page σ ρ) (us : Updates)
    (error : Option UpdateError) (es : List Event) (left : List ComponentId) : Prop where
  run : runBatch backend hooks p.pending [] p.firstRound = (us, error, q)
  tick : ∀ rounds, p.tick backend hooks (rounds + 1) =
    afterRound backend hooks rounds (us, error, q)
  ended : RoundEnd p.pending es error left
  journal : q.journal = (es ++ left.map Event.requested).reverse ++ p.firstRound.journal
  round : ∀ batch, .roundStarted batch ∉ es
  turn : ∀ k ∈ p.pending, k ∉ left → OneTurn p.firstRound.ledger k es

/-- Whoever waits at rest while a renderer is there has one turn in the first round of
the next tick. -/
theorem AtRest.firstRound (hp : AtRest backend hooks p) (hrenderer : p.renderer.isSome = true)
    (hqueue : p.pending ≠ []) :
    ∃ q us error es left, FirstRound backend hooks p q us error es left := by
  have hscheduled : p.scheduled = true := by
    rw [hp.onSchedule, hrenderer, Bool.true_and, Bool.not_eq_true', List.isEmpty_eq_false_iff]
    exact hqueue
  have hnodup : QueueNodup p := by
    refine invariant_queueNodup.reachable ?_ hp.reachable
    intro host
    exact ⟨fun _ => Iff.rfl, List.nodup_nil⟩
  have hknown : QueueKnown p.firstRound := fun k => Iff.rfl
  obtain ⟨⟨us, error, q⟩, hrun⟩ : ∃ result,
      runBatch backend hooks p.pending [] p.firstRound = result := ⟨_, rfl⟩
  obtain ⟨es, left, hended, hjournal, hround, hturns⟩ := runBatch_oneTurn hknown hnodup.2 hrun
  refine ⟨q, us, error, es, left, hrun, ?_, hended, hjournal, hround, hturns⟩
  intro rounds
  rw [tick_round backend hooks hp.reachable.idle hscheduled hrenderer hqueue, hrun]

/-- Blocks of writes that come to the same are followed by the same flush: after either
of them a tick answers the same, notes the same on top of what was noted before, and
leaves the same page. In the first round each element written to has one turn, unless
the flush ends before it. -/
theorem AtRest.batches_writes (hp : AtRest backend hooks p) (hrenderer : p.renderer.isSome = true)
    (h : ∀ u ∈ ws, p.Accepts u.1 u.2) (h' : ∀ u ∈ ws', p.Accepts u.1 u.2)
    (hsame : SameWrites ws ws') :
    (∀ rounds, ∃ outcome : Option (Option UpdateError × Page σ ρ),
      (p.writeAll ws).tick backend hooks rounds =
          outcome.map (Prod.map id (·.onto (p.writeAll ws).journal)) ∧
        (p.writeAll ws').tick backend hooks rounds =
          outcome.map (Prod.map id (·.onto (p.writeAll ws').journal))) ∧
    (ws ≠ [] → (∀ u ∈ ws, u.1 ∈ (p.writeAll ws).pending) ∧
      ∃ q us error es left, FirstRound backend hooks (p.writeAll ws) q us error es left) := by
  constructor
  · intro rounds
    refine ⟨(p.writeAll ws).silent.tick backend hooks rounds, ?_, ?_⟩
    · rw [← tick_onto, onto_silent]
    · rw [silent_writeAll h h' hsame, ← tick_onto, onto_silent]
  · intro hne
    have hmember : ∀ u ∈ ws, u.1 ∈ (p.writeAll ws).pending := by
      intro u hu
      rw [pending_writeAll h]
      exact hp.reachable.queueKnown.mem_requestAll (List.mem_map_of_mem hu)
    obtain ⟨u, hu⟩ := List.exists_mem_of_ne_nil ws hne
    refine ⟨hmember, (hp.writeAll ws).firstRound ?_ (List.ne_nil_of_mem (hmember u hu))⟩
    rw [renderer_writeAll h]
    exact hrenderer

end Page

/-! ## Two blocks that come to the same -/

namespace Block

/-- A component with a label that observes its title. -/
def schema : Schema :=
  ⟨"x-block", ["label"], ["title"]⟩

/-- When the first element renders, it writes the label of the second one. -/
def hooks : Hooks Unit Unit where
  beforeUpdate _ _ := .done (.ok ())
  render k _ :=
    if k = 0 then .call (.setProp 1 "label" (.str "within")) fun _ => .done (.ok .undefined)
    else .done (.ok .undefined)
  afterUpdate _ _ := .done (.ok ())

/-- Two elements render. -/
def program : Program Unit Unit Unit :=
  .call (.create schema 0) fun _ =>
  .call (.create schema 1) fun _ =>
  .call (.connect 0) fun _ =>
  .call (.connect 1) fun _ =>
  .call (.setRenderer ()) fun _ =>
  .done ()

def page : Page Unit Unit :=
  (program.start .blank hooks 3 (.new ())).elim (.new ()) Prod.snd

/-- Writes to both elements, one of them twice. -/
def many : List (ComponentId × Write) :=
  [(0, .prop "label" (.str "a")), (1, .attr "title" none), (0, .prop "label" (.str "b")),
    (1, .prop "label" (.str "c"))]

/-- Fewer writes, in another order. -/
def few : List (ComponentId × Write) :=
  [(0, .prop "label" (.str "b")), (1, .prop "label" (.str "c")), (1, .attr "title" none)]

theorem atRest_page : Page.AtRest .blank hooks page :=
  Page.AtRest.start (.new ()) (rfl : program.start .blank hooks 3 _ = some ((), page))

theorem accepts_many : ∀ u ∈ many, page.Accepts u.1 u.2 := by
  intro u hu
  simp only [many, List.mem_cons, List.not_mem_nil, or_false] at hu
  rcases hu with rfl | rfl | rfl | rfl <;> exact ⟨schema, rfl, List.mem_cons_self⟩

theorem accepts_few : ∀ u ∈ few, page.Accepts u.1 u.2 := by
  intro u hu
  simp only [few, List.mem_cons, List.not_mem_nil, or_false] at hu
  rcases hu with rfl | rfl | rfl <;> exact ⟨schema, rfl, List.mem_cons_self⟩

theorem sameWrites : SameWrites many few where
  order := rfl
  props k name := by
    match k with
    | 0 | 1 =>
        by_cases h : "label" = name <;>
          simp [writesTo, many, few, Field.last, Field.prop, Write.event, Event.prop?, h]
    | k + 2 => rfl
  attrs k name := by
    match k with
    | 0 | 1 =>
        by_cases h : "title" = name <;>
          simp [writesTo, many, few, Field.last, Field.attr, Write.event, Event.attr?, h]
    | k + 2 => rfl

end Block

/-- One write to the first element is like two, and the order of those to the second one
does not matter. -/
theorem Page.AtRest.batches_writes_block :
    AtRest .blank Block.hooks Block.page ∧ Block.page.renderer.isSome = true ∧
    (∀ u ∈ Block.many, Block.page.Accepts u.1 u.2) ∧
    (∀ u ∈ Block.few, Block.page.Accepts u.1 u.2) ∧ SameWrites Block.many Block.few ∧
    (∀ rounds, ∃ outcome : Option (Option UpdateError × Page Unit Unit),
      (Block.page.writeAll Block.many).tick .blank Block.hooks rounds =
          outcome.map (Prod.map id (·.onto (Block.page.writeAll Block.many).journal)) ∧
        (Block.page.writeAll Block.few).tick .blank Block.hooks rounds =
          outcome.map (Prod.map id (·.onto (Block.page.writeAll Block.few).journal))) ∧
    (∀ u ∈ Block.many, u.1 ∈ (Block.page.writeAll Block.many).pending) ∧
      ∃ q us error es left, FirstRound .blank Block.hooks
        (Block.page.writeAll Block.many) q us error es left := by
  obtain ⟨hsame, hround⟩ := Page.AtRest.batches_writes Block.atRest_page rfl Block.accepts_many
    Block.accepts_few Block.sameWrites
  exact ⟨Block.atRest_page, rfl, Block.accepts_many, Block.accepts_few, Block.sameWrites, hsame,
    hround (List.cons_ne_nil _ _)⟩

end LiveMarkup
