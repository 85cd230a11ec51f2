import LiveMarkup.Proofs.Component.Conduct
import LiveMarkup.Proofs.Component.History
import Mathlib.Data.List.Nodup

/-!
# Rounds answer requests

A round takes from the queue whoever asked since the round before, and updates
each of them at most once. A request during a round is never taken as answered
by a turn that is still to come in that round: it waits for the next one. While
a flush goes on, only writes and connections make requests.
-/

namespace LiveMarkup

variable {k : ComponentId} {es journal : List Event}

/-- An element asked for its update since the last round was taken. -/
def Asked (k : ComponentId) (journal : List Event) : Prop :=
  ∃ since before, journal = since ++ .requested k :: before ∧
    ∀ batch, Event.roundStarted batch ∉ since

/-- An element of the last round has not been updated in it. -/
def Awaits (k : ComponentId) (journal : List Event) : Prop :=
  ∃ since batch before, journal = since ++ .roundStarted batch :: before ∧
    (∀ batch, Event.roundStarted batch ∉ since) ∧ k ∈ batch ∧ Event.updateStarted k ∉ since

/-! ## Who asked -/

theorem asked_cons {e : Event} : Asked k (e :: journal) ↔
    e = .requested k ∨ (∀ batch, e ≠ .roundStarted batch) ∧ Asked k journal := by
  constructor
  · rintro ⟨since, before, hsplit, hround⟩
    cases since with
    | nil => exact Or.inl (List.cons.inj hsplit).1
    | cons e' since =>
        obtain ⟨rfl, rfl⟩ := List.cons.inj hsplit
        refine Or.inr ⟨?_, since, before, rfl, ?_⟩
        · rintro batch rfl
          exact hround batch List.mem_cons_self
        · intro batch hmem
          exact hround batch (List.mem_cons_of_mem _ hmem)
  · rintro (rfl | ⟨he, since, before, rfl, hround⟩)
    · exact ⟨[], journal, rfl, by simp⟩
    · refine ⟨e :: since, before, rfl, ?_⟩
      intro batch hmem
      rcases List.mem_cons.mp hmem with heq | hmem
      · exact he batch heq.symm
      · exact hround batch hmem

theorem Asked.mem {batch : List ComponentId} {before : List Event}
    (h : Asked k (es ++ .roundStarted batch :: before)) : Event.requested k ∈ es := by
  induction es with
  | nil =>
      rcases asked_cons.mp h with heq | ⟨hne, -⟩
      · cases heq
      · exact absurd rfl (hne batch)
  | cons e es ih =>
      rcases asked_cons.mp h with rfl | ⟨-, hrest⟩
      · exact List.mem_cons_self
      · exact List.mem_cons_of_mem e (ih hrest)

/-- The queue of the ledger holds whoever asked. -/
theorem mem_queue_of : k ∈ (Ledger.of journal).queue ↔ Asked k journal := by
  induction journal with
  | nil => simp [Ledger.of, Asked]
  | cons e journal ih =>
      rw [asked_cons, ← ih]
      cases e with
      | requested j =>
          show k ∈ (if j ∈ (Ledger.of journal).queue then (Ledger.of journal).queue
            else (Ledger.of journal).queue ++ [j]) ↔ _
          split
          · rename_i hj
            constructor
            · exact fun hk => Or.inr ⟨by simp, hk⟩
            · rintro (heq | ⟨-, hk⟩)
              · cases heq
                exact hj
              · exact hk
          · simp [or_comm, eq_comm]
      | roundStarted batch => simp [Ledger.of, Ledger.after]
      | _ => simp [Ledger.of, Ledger.after]

theorem nodup_queue_of (journal : List Event) : (Ledger.of journal).queue.Nodup := by
  induction journal with
  | nil => exact List.nodup_nil
  | cons e journal ih =>
      cases e with
      | requested j =>
          show (if j ∈ (Ledger.of journal).queue then (Ledger.of journal).queue
            else (Ledger.of journal).queue ++ [j]).Nodup
          split
          · exact ih
          · rename_i hj
            rw [← List.concat_eq_append]
            exact List.Nodup.concat hj ih
      | roundStarted batch => exact List.nodup_nil
      | _ => exact ih

/-! ## Whose turn is to come -/

theorem Awaits.append (h : Awaits k journal) (hround : ∀ batch, Event.roundStarted batch ∉ es)
    (hupdate : Event.updateStarted k ∉ es) : Awaits k (es ++ journal) := by
  obtain ⟨since, batch, before, rfl, hsince, hk, hnot⟩ := h
  refine ⟨es ++ since, batch, before, (List.append_assoc ..).symm, ?_, hk, ?_⟩
  · intro batch hmem
    rcases List.mem_append.mp hmem with hmem | hmem
    · exact hround batch hmem
    · exact hsince batch hmem
  · intro hmem
    rcases List.mem_append.mp hmem with hmem | hmem
    · exact hupdate hmem
    · exact hnot hmem

/-- A round takes the queue, and an update is one whose turn is to come. -/
def RoundLaw (e : Event) (earlier : List Event) : Prop :=
  match e with
  | .roundStarted batch => batch = (Ledger.of earlier).queue
  | .updateStarted k => Awaits k earlier
  | _ => True

theorem ruled_rounds : Page.Ruled RoundLaw fun rest journal =>
    rest.Nodup ∧ ∀ k ∈ rest, Awaits k journal where
  plain {e} he earlier := by
    cases e <;> trivial
  done journal := ⟨List.nodup_nil, by simp⟩
  round journal := by
    refine ⟨rfl, nodup_queue_of journal, ?_⟩
    intro k hk
    exact ⟨[], _, journal, rfl, by simp, hk, by simp⟩
  skipped {k rest journal} h := by
    refine ⟨(List.nodup_cons.mp h.1).2, ?_⟩
    intro j hj
    have hawaits : Awaits j ([.skipped k] ++ journal) :=
      (h.2 j (List.mem_cons_of_mem k hj)).append (by simp) (by simp)
    exact hawaits
  update {k rest journal own} hleft _ hown hlaw := by
    obtain ⟨hnodup, hawaits⟩ := hleft
    obtain ⟨hk, hrest⟩ := List.nodup_cons.mp hnodup
    have hround : ∀ batch, Event.roundStarted batch ∉ own := by
      intro batch hmem
      cases hown _ hmem
    have hupdate : ∀ j, Event.updateStarted j ∉ own := by
      intro j hmem
      cases hown _ hmem
    refine ⟨?_, hrest, ?_⟩
    · have hturn : Always RoundLaw (.updateStarted k :: journal) :=
        ⟨hawaits k List.mem_cons_self, hlaw⟩
      refine hturn.append ?_
      rintro later e earlier rfl
      cases e with
      | roundStarted batch => exact absurd (by simp) (hround batch)
      | updateStarted j => exact absurd (by simp) (hupdate j)
      | _ => trivial
    · -- whoever is still to come is another one
      intro j hj
      have hjk : j ≠ k := by
        rintro rfl
        exact hk hj
      have hstarted : Awaits j ([.updateStarted k] ++ journal) :=
        (hawaits j (List.mem_cons_of_mem k hj)).append (by simp) (by simpa using hjk)
      exact hstarted.append hround (hupdate j)

/-! ## Who makes requests -/

/-- A request is made by the call before it. -/
def RequestLaw (e : Event) (earlier : List Event) : Prop :=
  match e with
  | .requested k => ∃ call before, earlier = call :: before ∧ call.asks k = true
  | _ => True

namespace Page

variable {σ ρ : Type} {p : Page σ ρ} {backend : Backend σ ρ} {hooks : Hooks σ ρ}
  {start : List Event}

/-- Since an earlier journal all requests were made by calls. -/
def Called (start : List Event) (p : Page σ ρ) : Prop :=
  ∃ during, p.journal = during ++ start ∧ Always RequestLaw during

namespace Called

theorem note (h : Called start p) {e : Event} (he : ∀ k, e ≠ .requested k) :
    Called start (p.note e) := by
  obtain ⟨during, hjournal, hlaw⟩ := h
  refine ⟨e :: during, congrArg (e :: ·) hjournal, ?_, hlaw⟩
  cases e with
  | requested k => exact absurd rfl (he k)
  | _ => trivial

theorem noted (h : Called start p) {k : ComponentId} {e : Event} (he : e.asks k = true)
    (g : Element → Element) : Called start (((p.note e).modify k g).request k) := by
  obtain ⟨during, hjournal, hlaw⟩ := h
  refine ⟨.requested k :: e :: during, ?_, ⟨e, during, rfl, he⟩, ?_, hlaw⟩
  · rw [journal_request]
    exact congrArg (fun journal => .requested k :: e :: journal) hjournal
  · cases e with
    | requested k => cases he
    | _ => trivial

theorem drop (h : Called start p) (k : ComponentId) : Called start (p.drop k) := by
  unfold Page.drop
  split
  · exact h.note (by simp)
  · exact h

theorem drops (h : Called start p) (ks : List ComponentId) : Called start (ks.foldl Page.drop p) := by
  induction ks generalizing p with
  | nil => exact h
  | cons k ks ih => exact ih (h.drop k)

theorem present (h : Called start p) (k : ComponentId) (mount : NodeId) (ui : Value) :
    Called start (p.present backend k mount ui).2 := by
  unfold Page.present
  split
  · exact h
  · apply drops
    exact h.note (e := .shown k mount ui) (by simp)

end Called

theorem conduct_called : Conduct backend (fun _ => True) (Called start) where
  host _ h := h
  answer {p c} _ h := by
    have hasking : c.mayAsk = true → Called start (p.answer backend c).2 := by
      intro hc
      rcases asking_cases backend p hc with heq | ⟨k, event, change, heq, hasks, -⟩
      · rwa [heq]
      · rw [heq]
        exact h.noted hasks change
    cases c with
    | create | setRenderer | clearRenderer | tick | flush => exact h
    | setProp | setAttribute | connect => exact hasking rfl
    | disconnect k =>
        simp only [answer, disconnect]
        split
        · exact h
        · split
          · unfold unmount
            split
            · exact h.drop k
            · exact h.drop k
          · exact h
  note {p e} he h := by
    apply h.note
    rintro k rfl
    cases he
  inputs _ _ h := h

theorem Underway.called {rest : List ComponentId} {q : Page σ ρ}
    (hq : Underway backend hooks (· = p) rest q) : Called p.journal q := by
  induction hq with
  | begun hstart _ =>
      subst hstart
      exact ⟨[], rfl, trivial⟩
  | round _ _ ih =>
      have htaken : Called p.journal (takePending _).2 := ih
      exact htaken.note (by simp)
  | skipped _ _ ih => exact ih.note (by simp)
  | @updated _ _ k _ _ _ _ hupdate ih =>
      have hconduct : Conduct backend (fun _ => True) (Called p.journal) := conduct_called
      have hcalled := hconduct.updateOne hooks.use_all (fun ui _ h => h.present _ _ ui) k ih
      rw [hupdate] at hcalled
      exact hcalled

/-! ## Updates and requests -/

/-- Updates answer requests, as the journal of a page tells. -/
structure AnswersRequests (p : Page σ ρ) : Prop where
  /-- The queue holds whoever asked since the last round, each once. -/
  queue : p.pending.Nodup ∧ ∀ k, k ∈ p.pending ↔ Asked k p.journal
  /-- A round takes whoever asked since the round before, each once. -/
  round : ∀ later batch earlier, p.journal = later ++ .roundStarted batch :: earlier →
    batch.Nodup ∧ ∀ k, k ∈ batch ↔ Asked k earlier
  /-- An update is the only one of its element in its round. -/
  turn : ∀ later k earlier, p.journal = later ++ .updateStarted k :: earlier → Awaits k earlier
  /-- Between two updates of an element there is a request for it, made after the
  round of the first one was taken. -/
  again : ∀ later k between earlier,
    p.journal = later ++ .updateStarted k :: (between ++ .updateStarted k :: earlier) →
      ∃ since batch before, earlier = since ++ .roundStarted batch :: before ∧
        (∀ batch, Event.roundStarted batch ∉ since) ∧
          (Event.requested k ∈ between ∨ Event.requested k ∈ since)

/-- If rounds take the queue and updates have their turns, then there is a request
between two updates. -/
theorem asked_between {between earlier : List Event} {k : ComponentId}
    (hlaw : Always RoundLaw (.updateStarted k :: (between ++ .updateStarted k :: earlier))) :
    ∃ since batch before, earlier = since ++ .roundStarted batch :: before ∧
      (∀ batch, Event.roundStarted batch ∉ since) ∧
        (Event.requested k ∈ between ∨ Event.requested k ∈ since) := by
  obtain ⟨hsecond, hrest⟩ := hlaw
  have hfirst : Awaits k earlier := always_iff.mp hrest between (.updateStarted k) earlier rfl
  obtain ⟨since, batch, before, rfl, hsince, -, -⟩ := hfirst
  refine ⟨since, batch, before, rfl, hsince, ?_⟩
  obtain ⟨since', batch', before', hsplit, -, hk, hnot⟩ := hsecond
  have hround : batch' = (Ledger.of before').queue :=
    always_iff.mp hrest since' (.roundStarted batch') before' hsplit
  obtain ⟨middle, rfl, rfl⟩ := split_before hsplit (by simp) hnot
  rw [hround, mem_queue_of] at hk
  have hasked : Asked k ((middle ++ .updateStarted k :: since) ++ .roundStarted batch :: before) := by
    rw [List.append_assoc]
    exact hk
  rcases List.mem_append.mp hasked.mem with hmem | hmem
  · exact Or.inl (by simp [hmem])
  · exact Or.inr (by simpa using hmem)

/-- In every run, updates answer requests; and while a flush goes on, these are
made by writes and connections. -/
theorem Passed.answersRequests (hp : Passed backend hooks (Reachable backend hooks) p) :
    p.AnswersRequests ∧
      ∀ {rest : List ComponentId} {q : Page σ ρ},
        Underway backend hooks (· = p) rest q → Called p.journal q := by
  refine ⟨?_, Underway.called⟩
  obtain ⟨⟨-, hagree⟩, hlaw⟩ := ruled_rounds.passed hp
  have hqueue : p.pending = (Ledger.of p.journal).queue := hagree.queue
  constructor
  · rw [hqueue]
    exact ⟨nodup_queue_of p.journal, fun k => mem_queue_of⟩
  · intro later batch earlier hsplit
    have hround : batch = (Ledger.of earlier).queue := always_iff.mp hlaw _ _ _ hsplit
    rw [hround]
    exact ⟨nodup_queue_of earlier, fun k => mem_queue_of⟩
  · intro later k earlier hsplit
    exact always_iff.mp hlaw _ _ _ hsplit
  · intro later k between earlier hsplit
    apply asked_between
    rw [hsplit] at hlaw
    exact hlaw.earlier

end Page

/-! ## A request for an element whose turn is to come -/

namespace Pair

def schema : Schema :=
  ⟨"x-pair", ["label"], []⟩

/-- The first element, when it first renders, writes the label of the second one;
the host state tells whether it has. -/
def hooks : Hooks Bool Unit where
  beforeUpdate _ _ := .done (.ok ())
  render k _ := .observe fun view =>
    if k = 0 ∧ view.host = false then
      .modifyHost (fun _ => true)
        (.call (.setProp 1 "label" (.str "new")) fun _ => .done (.ok .undefined))
    else .done (.ok .undefined)
  afterUpdate _ _ := .done (.ok ())

/-- Two elements wait for a renderer. -/
def program : Program Bool Unit Unit :=
  .call (.create schema 0) fun _ =>
  .call (.create schema 1) fun _ =>
  .call (.connect 0) fun _ =>
  .call (.connect 1) fun _ =>
  .done ()

def page : Page Bool Unit :=
  (program.start .blank hooks 3 (.new false)).elim (.new false) Prod.snd

/-- The page after the flush that a renderer sets off. -/
def flushed : Page Bool Unit :=
  (page.perform .blank hooks 3 (.setRenderer ())).elim page Prod.snd

/-- The page at which that flush begins. -/
def waiting : Page Bool Unit :=
  { page with renderer := some () }

/-- The page of that flush at which the first element has been updated. -/
def written : Page Bool Unit :=
  (({ waiting with flushing := true, scheduled := false }.takePending.2.note
    (.roundStarted [0, 1])).updateOne .blank hooks 0).2

theorem reachable_page : Page.Reachable .blank hooks page := by
  obtain ⟨started, hstart⟩ := Option.isSome_iff_exists.mp
    (rfl : (program.start .blank hooks 3 (.new false)).isSome = true)
  rw [page, hstart]
  exact Page.Reachable.start (.new false) hstart

theorem reachable_flushed : Page.Reachable .blank hooks flushed := by
  obtain ⟨answered, hanswer⟩ := Option.isSome_iff_exists.mp
    (rfl : (page.perform .blank hooks 3 (.setRenderer ())).isSome = true)
  rw [flushed, hanswer]
  exact reachable_page.call hanswer

theorem underway_written : Page.Underway .blank hooks (· = waiting) [1] written := by
  have hbegun : Page.Underway .blank hooks (· = waiting) []
      { waiting with flushing := true, scheduled := false } := .begun rfl rfl
  exact (hbegun.round (List.cons_ne_nil 0 [1])).updated rfl rfl

end Pair

theorem Page.Passed.answersRequests_pair :
    Passed .blank Pair.hooks (Reachable .blank Pair.hooks) Pair.flushed ∧
      Pair.flushed.AnswersRequests ∧
    Passed .blank Pair.hooks (Reachable .blank Pair.hooks) Pair.waiting ∧
      Underway .blank Pair.hooks (· = Pair.waiting) [1] Pair.written ∧
        Called Pair.waiting.journal Pair.written := by
  have hflushed : Passed .blank Pair.hooks (Reachable .blank Pair.hooks) Pair.flushed :=
    Or.inl Pair.reachable_flushed
  have hwaiting : Passed .blank Pair.hooks (Reachable .blank Pair.hooks) Pair.waiting :=
    Or.inl (Pair.reachable_page.world _ (some ()) _)
  have hcalled : Called Pair.waiting.journal Pair.written :=
    (Page.Passed.answersRequests hwaiting).2 Pair.underway_written
  exact ⟨hflushed, (Page.Passed.answersRequests hflushed).1, hwaiting, Pair.underway_written, hcalled⟩

/-- The second element is updated twice in one flush, and nobody asked for it since
the first of these updates began. -/
theorem Page.flush_updates_again :
    Pair.page.perform .blank Pair.hooks 3 (.setRenderer ()) =
        some (.flushed none, Pair.flushed) ∧
      ∃ later between since, Pair.flushed.journal =
          later ++ .updateStarted 1 :: (between ++ .updateStarted 1 ::
            (since ++ Pair.page.journal)) ∧
        Event.requested 1 ∉ between := by
  have hjournal : Pair.flushed.journal =
      [.replayStarted, .updated 1, .shown 1 1 .undefined, .render 1 (Pair.flushed.committed 1)] ++
        .updateStarted 1 ::
          ([.roundStarted [1], .updated 1, .shown 1 1 .undefined,
            .render 1 (Pair.flushed.committed 1)] ++ .updateStarted 1 ::
            ([.updated 0, .shown 0 0 .undefined, .requested 1,
              .propWritten 1 "label" (.str "new"), .render 0 (Pair.flushed.committed 0),
              .updateStarted 0, .roundStarted [0, 1]] ++ Pair.page.journal)) := rfl
  exact ⟨rfl, _, _, _, hjournal, by simp⟩

end LiveMarkup
