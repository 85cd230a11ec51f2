import LiveMarkup.Proofs.Component.Course
import LiveMarkup.Proofs.Component.TraceLaw

/-!
# What the journal tells

Who waits for an update and who is connected follows from the journal, at every
page that a run comes by. A law of the journal says of an event what the events
before it are; it is enough to look at how rounds begin, whom they pass over,
and what an update notes.
-/

namespace LiveMarkup

variable {k : ComponentId} {es journal : List Event}

/-! ## Laws -/

/-- Every event obeys a law about it and the events before it. The latest event
comes first. -/
def Always (law : Event → List Event → Prop) : List Event → Prop
  | [] => True
  | e :: earlier => law e earlier ∧ Always law earlier

variable {law : Event → List Event → Prop}

theorem always_iff : Always law journal ↔
    ∀ later e earlier, journal = later ++ e :: earlier → law e earlier := by
  induction journal with
  | nil => simp [Always]
  | cons first journal ih =>
      constructor
      · rintro ⟨hfirst, hrest⟩ later e earlier hsplit
        cases later with
        | nil =>
            obtain ⟨rfl, rfl⟩ := List.cons.inj hsplit
            exact hfirst
        | cons _ later => exact ih.mp hrest later e earlier (List.cons.inj hsplit).2
      · intro h
        refine ⟨h [] first journal rfl, ih.mpr ?_⟩
        intro later e earlier hsplit
        exact h (first :: later) e earlier (congrArg (first :: ·) hsplit)

theorem Always.earlier {later : List Event} (h : Always law (later ++ journal)) :
    Always law journal := by
  induction later with
  | nil => exact h
  | cons e later ih => exact ih h.2

/-- An event that does not stand behind another one stands before it. -/
theorem split_before {later later' earlier earlier' : List Event} {e e' : Event}
    (hsplit : later ++ e :: earlier = later' ++ e' :: earlier') (hne : e ≠ e')
    (hnot : e ∉ later') :
    ∃ between, later = later' ++ e' :: between ∧ earlier' = between ++ e :: earlier := by
  rcases List.append_eq_append_iff.mp hsplit with ⟨between, rfl, h⟩ | ⟨between, rfl, h⟩
  · cases between with
    | nil => exact absurd (List.cons.inj h).1 hne
    | cons first between =>
        obtain ⟨rfl, -⟩ := List.cons.inj h
        exact absurd (by simp) hnot
  · cases between with
    | nil => exact absurd (List.cons.inj h).1.symm hne
    | cons first between =>
        obtain ⟨rfl, rfl⟩ := List.cons.inj h
        exact ⟨between, rfl, rfl⟩

theorem Always.append (h : Always law journal)
    (hnew : ∀ later e earlier, es = later ++ e :: earlier → law e (earlier ++ journal)) :
    Always law (es ++ journal) := by
  induction es with
  | nil => exact h
  | cons e es ih =>
      refine ⟨hnew [] e es rfl, ih ?_⟩
      intro later e' earlier hsplit
      exact hnew (e :: later) e' earlier (congrArg (e :: ·) hsplit)

/-- Whether an event neither begins a round nor is a part of an update. -/
def Event.isPlain : Event → Bool
  | .roundStarted _ | .updateStarted _ | .beforeUpdate .. | .render .. | .shown .. | .updated _ =>
      false
  | _ => true

theorem Event.isPlain_of_isCall {e : Event} (h : e.isCall = true) : e.isPlain = true := by
  cases e <;> first | rfl | cases h

/-! ## The ledger of a journal -/

namespace Ledger

variable {l l' : Ledger}

/-- The ledger that a journal tells of, from a new page on. -/
def of : List Event → Ledger
  | [] => ⟨[], fun _ => false, fun _ => .empty⟩
  | e :: earlier => (of earlier).after e

theorem of_append (es journal : List Event) :
    of (es.reverse ++ journal) = (of journal).afterAll es := by
  induction es generalizing journal with
  | nil => rfl
  | cons e es ih =>
      rw [List.reverse_cons, List.append_assoc]
      exact ih (e :: journal)

/-- The same queue and the same connections. -/
structure Agree (l l' : Ledger) : Prop where
  queue : l.queue = l'.queue
  connected : l.connected = l'.connected

theorem Agree.after (h : Agree l l') (e : Event) : Agree (l.after e) (l'.after e) := by
  obtain ⟨hqueue, hconnected⟩ := h
  cases e with
  | requested k => exact ⟨by simp [Ledger.after, hqueue], hconnected⟩
  | roundStarted => exact ⟨rfl, hconnected⟩
  | connected | disconnected => exact ⟨hqueue, by simp [Ledger.after, hconnected]⟩
  | _ => exact ⟨hqueue, hconnected⟩

theorem Agree.afterAll (h : Agree l l') (es : List Event) :
    Agree (l.afterAll es) (l'.afterAll es) := by
  unfold Ledger.afterAll
  induction es generalizing l l' with
  | nil => exact h
  | cons e es ih => exact ih (h.after e)

/-- Events that are neither calls nor beginnings of rounds leave the queue and
the connections as they are. -/
theorem Agree.silent (h : Agree l l') {e : Event} (hcall : e.isCall = false)
    (hround : ∀ batch, e ≠ .roundStarted batch) : Agree l (l'.after e) := by
  obtain ⟨hqueue, hconnected⟩ := h
  cases e with
  | propWritten | attrWritten | connected | disconnected | requested => cases hcall
  | roundStarted batch => exact absurd rfl (hround batch)
  | _ => exact ⟨hqueue, hconnected⟩

end Ledger

namespace Page

variable {σ ρ : Type} {p p' : Page σ ρ} {backend : Backend σ ρ} {hooks : Hooks σ ρ}
  {Start : Page σ ρ → Prop}

/-- The journal of a page tells who waits and who is connected. -/
def Recorded (p : Page σ ρ) : Prop :=
  QueueKnown p ∧ Ledger.Agree p.ledger (.of p.journal)

theorem Recorded.note (h : Recorded p) {e : Event} (hcall : e.isCall = false)
    (hround : ∀ batch, e ≠ .roundStarted batch) : Recorded (p.note e) :=
  ⟨h.1, h.2.silent hcall hround⟩

theorem Recorded.modify (h : Recorded p) (k : ComponentId) (g : Element → Element)
    (hconnected : ∀ e, (g e).connected = e.connected) : Recorded (p.modify k g) := by
  refine ⟨h.1, ⟨h.2.queue, ?_⟩⟩
  refine Eq.trans ?_ h.2.connected
  ext1 j
  show (p.modify k g).isConnected j = p.isConnected j
  rw [isConnected_eq, isConnected_eq]
  exact view_modify p k g Element.connected false hconnected j

theorem Step.recorded (hstep : Step p p') (h : Recorded p) : Recorded p' := by
  obtain ⟨es, -, hleads⟩ := hstep.leads h.1
  refine ⟨hstep.queueKnown h.1, ?_⟩
  rw [hleads.journal, hleads.ledger, Ledger.of_append]
  exact h.2.afterAll es

theorem Update.recorded {e : Element} {result : Except UpdateError (Option Inputs)}
    (hupdate : Update p k e result p') (h : Recorded p) : Recorded p' := by
  refine hupdate.through Step.recorded ?_ ?_ (h.note rfl (by simp))
  · intro q event hown hcall hq
    refine hq.note hcall ?_
    rintro batch rfl
    cases hown
  · intro q inputs hq
    refine hq.modify k _ ?_
    intro e
    rfl

theorem Recorded.round (h : Recorded p) :
    Recorded (p.takePending.2.note (.roundStarted p.pending)) :=
  ⟨invariant_queueKnown.take h.1, ⟨rfl, h.2.connected⟩⟩

theorem Recorded.settled (h : Recorded p) (hqueue : p.pending = []) :
    Recorded p.takePending.2 :=
  ⟨invariant_queueKnown.take h.1, ⟨hqueue.symm.trans h.2.queue, h.2.connected⟩⟩

theorem recorded_new (host : σ) : Recorded (.new host : Page σ ρ) :=
  ⟨fun _ => Iff.rfl, ⟨rfl, rfl⟩⟩

/-! ## Journals under a law -/

/-- A law that the beginnings of rounds and the updates obey, with what is left
of a round said by the journal. Nothing else is bound by it. -/
structure Ruled (law : Event → List Event → Prop)
    (Left : List ComponentId → List Event → Prop) : Prop where
  plain : ∀ {e : Event}, e.isPlain = true → ∀ earlier, law e earlier
  done : ∀ journal, Left [] journal
  round : ∀ journal, law (.roundStarted (Ledger.of journal).queue) journal ∧
    Left (Ledger.of journal).queue (.roundStarted (Ledger.of journal).queue :: journal)
  skipped : ∀ {k : ComponentId} {rest : List ComponentId} {journal : List Event},
    Left (k :: rest) journal → Left rest (.skipped k :: journal)
  update : ∀ {k : ComponentId} {rest : List ComponentId} {journal own : List Event},
    Left (k :: rest) journal → (Ledger.of journal).connected k = true →
      (∀ e ∈ own, e.isOwn k = true) → Always law journal →
        Always law (own ++ .updateStarted k :: journal) ∧
          Left rest (own ++ .updateStarted k :: journal)

namespace Ruled

variable {law : Event → List Event → Prop} {Left : List ComponentId → List Event → Prop}

theorem note (h : Ruled law Left) {e : Event} (he : e.isPlain = true)
    (hcall : e.isCall = false) (hp : Recorded p ∧ Always law p.journal) :
    Recorded (p.note e) ∧ Always law (p.note e).journal := by
  refine ⟨hp.1.note hcall ?_, h.plain he _, hp.2⟩
  rintro batch rfl
  cases he

theorem step (h : Ruled law Left) (hstep : Step p p') (hp : Recorded p ∧ Always law p.journal) :
    Recorded p' ∧ Always law p'.journal := by
  refine ⟨hstep.recorded hp.1, ?_⟩
  obtain ⟨es, hjournal, hcalls⟩ := hstep.journal
  rw [hjournal]
  refine hp.2.append ?_
  rintro later e earlier rfl
  apply h.plain
  apply Event.isPlain_of_isCall
  exact hcalls e (List.mem_append_right _ List.mem_cons_self)

theorem steps (h : Ruled law Left) (hsteps : Steps p p')
    (hp : Recorded p ∧ Always law p.journal) : Recorded p' ∧ Always law p'.journal := by
  induction hsteps with
  | refl => exact hp
  | tail _ hstep ih => exact h.step hstep ih

theorem carried (h : Ruled law Left) : Carried backend hooks fun rest p =>
    (Recorded p ∧ Always law p.journal) ∧ Left rest p.journal where
  flags _ _ hp := hp
  round {p} hp _ := by
    obtain ⟨⟨hrecorded, hlaw⟩, -⟩ := hp
    have hqueue : p.pending = (Ledger.of p.journal).queue := hrecorded.2.queue
    obtain ⟨hround, hleft⟩ := h.round p.journal
    rw [← hqueue] at hround hleft
    exact ⟨⟨hrecorded.round, hround, hlaw⟩, hleft⟩
  settled {p} hp hqueue := ⟨⟨hp.1.1.settled hqueue, hp.1.2⟩, hp.2⟩
  skipped hp _ := ⟨h.note rfl rfl hp.1, h.skipped hp.2⟩
  updateOne {p k rest} hp hconnected := by
    obtain ⟨⟨hrecorded, hlaw⟩, hleft⟩ := hp
    obtain ⟨e, he⟩ := Option.isSome_iff_exists.mp (exists?_of_isConnected hconnected)
    have hupdate := updateOne_update backend hooks he
    obtain ⟨own, hjournal, hown⟩ := hupdate.journal
    have hstill : (Ledger.of p.journal).connected k = true :=
      (congrFun hrecorded.2.connected k).symm.trans hconnected
    rw [hjournal]
    obtain ⟨hlaw', hleft'⟩ := h.update hleft hstill hown hlaw
    exact ⟨⟨hupdate.recorded hrecorded, hlaw'⟩, hleft'⟩
  requestAll {p rest} hp := ⟨h.steps (requestAll_steps rest p) hp.1, h.done _⟩
  replayStarted hp := ⟨h.note rfl rfl hp.1, h.done _⟩
  runAfter {p} k inputs hp := ⟨h.steps (runAfter_steps p k inputs) (h.note rfl rfl hp.1), h.done _⟩
  mark {p} k hp := by
    refine ⟨⟨hp.1.1.modify k _ ?_, hp.1.2⟩, h.done _⟩
    intro e
    rfl

theorem reachable (h : Ruled law Left) (hp : Reachable backend hooks p) :
    Recorded p ∧ Always law p.journal := by
  have hcarried : Carried backend hooks fun rest p =>
      (Recorded p ∧ Always law p.journal) ∧ Left rest p.journal := h.carried
  refine (hcarried.reachable ?_ ?_ hp).1
  · intro p p' hstep hp
    exact ⟨h.step hstep hp.1, h.done _⟩
  · intro host
    exact ⟨⟨recorded_new host, trivial⟩, h.done _⟩

/-- At every page that a run comes by, the journal tells who waits and who is
connected, and it obeys the law. -/
theorem passed (h : Ruled law Left) (hp : Passed backend hooks (Reachable backend hooks) p) :
    Recorded p ∧ Always law p.journal := by
  rcases hp with hp | ⟨rest, hp⟩
  · exact h.reachable hp
  · refine (h.carried.underway ?_ hp).1
    intro q hq
    exact ⟨h.reachable hq, h.done _⟩

end Ruled

end Page

end LiveMarkup
