import LiveMarkup.Proofs.Component.Queue
import LiveMarkup.Proofs.Component.Writes
import Mathlib.Data.List.Induction

/-!
# What a flush commits

When a flush ends well, every connected element that it updated has committed
the last kept write of each property and attribute. The last write of all is
committed exactly if it did not come too late, or repeats what was kept before:
the code before an update loses what it writes to its own element.
-/

namespace LiveMarkup

variable {α : Type}

/-! ## Late writes -/

/-- Whether an event is a stage of the update of an element. -/
def Event.turns (k : ComponentId) : Event → Bool
  | .updateStarted j | .render j _ | .shown j _ _ | .updated j => j = k
  | _ => false

/-- Whether an event says that what an element rendered is shown. -/
def Event.shows (k : ComponentId) : Event → Bool
  | .shown j _ _ | .updated j => j = k
  | _ => false

/-- Writes to an element are too late if it commits next, by an update that has
started already, and what it renders then is shown. The latest event is the
first here, as in a journal. -/
def TooLate (k : ComponentId) (later : List Event) : Prop :=
  ∃ rest e between inputs first,
    later = rest ++ e :: between ++ .render k inputs :: first ∧ e.shows k = true ∧
      ∀ e ∈ between ++ first, e.turns k = false

namespace Hindsight

variable {k : ComponentId} {later : List Event}

/-- What happened to an element next, seen from before some events. -/
def since (k : ComponentId) (later : List Event) (h : Hindsight) : Hindsight :=
  later.foldl (fun h e => h.before k e) h

theorem since_append (k : ComponentId) (later earlier : List Event) (h : Hindsight) :
    since k (later ++ earlier) h = since k earlier (since k later h) :=
  List.foldl_append

theorem before_silent {e : Event} (he : e.turns k = false) (h : Hindsight) :
    h.before k e = h := by
  cases e with
  | updateStarted | render | shown | updated => simp_all [Event.turns, before]
  | _ => rfl

theorem before_shows {e : Event} (he : e.shows k = true) (h : Hindsight) :
    h.before k e = .shown := by
  cases e <;> simp_all [Event.shows, before]

theorem shows_of_before {e : Event} {h : Hindsight} (hshown : h.before k e = .shown)
    (hturns : e.turns k = true) : e.shows k = true := by
  cases e with
  | render j inputs =>
      obtain rfl : j = k := of_decide_eq_true hturns
      simp only [before, if_pos] at hshown
      split at hshown <;> simp at hshown
  | updateStarted j =>
      obtain rfl : j = k := of_decide_eq_true hturns
      simp [before] at hshown
  | shown | updated => exact hturns
  | _ => simp [Event.turns] at hturns

theorem render_of_before {e : Event} {h : Hindsight} (hlate : h.before k e = .late)
    (hturns : e.turns k = true) : ∃ inputs, e = .render k inputs ∧ h = .shown := by
  cases e with
  | render j inputs =>
      obtain rfl : j = k := of_decide_eq_true hturns
      exact ⟨inputs, rfl, by simpa [before] using hlate⟩
  | updateStarted j | shown j | updated j =>
      obtain rfl : j = k := of_decide_eq_true hturns
      simp [before] at hlate
  | _ => simp [Event.turns] at hturns

theorem since_silent (hsilent : ∀ e ∈ later, e.turns k = false) (h : Hindsight) :
    since k later h = h := by
  induction later generalizing h with
  | nil => rfl
  | cons e later ih =>
      have hrest : since k later h = h := ih (fun e he => hsilent e (List.mem_cons_of_mem _ he)) h
      show since k later (h.before k e) = h
      rw [before_silent (hsilent e List.mem_cons_self), hrest]

theorem since_eq_shown (hshown : since k later .none = .shown) :
    ∃ rest e between, later = rest ++ e :: between ∧ e.shows k = true ∧
      ∀ e ∈ between, e.turns k = false := by
  induction later using List.reverseRecOn with
  | nil => simp [since] at hshown
  | append_singleton later e ih =>
      rw [since_append] at hshown
      cases hshows : e.shows k with
      | true => exact ⟨later, e, [], rfl, hshows, by simp⟩
      | false =>
          change Hindsight.before k e (since k later .none) = .shown at hshown
          have hsilent : e.turns k = false := by
            rw [Bool.eq_false_iff]
            intro hturns
            rw [shows_of_before hshown hturns] at hshows
            simp at hshows
          rw [before_silent hsilent] at hshown
          obtain ⟨rest, e', between, rfl, hshows', hbetween⟩ := ih hshown
          refine ⟨rest, e', between ++ [e], by simp, hshows', ?_⟩
          intro e'' he''
          rcases List.mem_append.mp he'' with he'' | he''
          · exact hbetween e'' he''
          · rw [List.mem_singleton.mp he'']
            exact hsilent

theorem since_eq_late : since k later .none = .late ↔ TooLate k later := by
  constructor
  · intro hlate
    induction later using List.reverseRecOn with
    | nil => simp [since] at hlate
    | append_singleton later e ih =>
        rw [since_append] at hlate
        change Hindsight.before k e (since k later .none) = .late at hlate
        cases hturns : e.turns k with
        | true =>
            obtain ⟨inputs, rfl, hshown⟩ := render_of_before hlate hturns
            obtain ⟨rest, e', between, rfl, hshows, hbetween⟩ := since_eq_shown hshown
            exact ⟨rest, e', between, inputs, [], by simp, hshows, by simpa using hbetween⟩
        | false =>
            rw [before_silent hturns] at hlate
            obtain ⟨rest, e', between, inputs, first, rfl, hshows, hsilent⟩ := ih hlate
            refine ⟨rest, e', between, inputs, first ++ [e], by simp, hshows, ?_⟩
            intro e'' he''
            rw [← List.append_assoc] at he''
            rcases List.mem_append.mp he'' with he'' | he''
            · exact hsilent e'' he''
            · rw [List.mem_singleton.mp he'']
              exact hturns
  · rintro ⟨rest, e, between, inputs, first, rfl, hshows, hsilent⟩
    have hbetween := since_silent (k := k) (fun e he => hsilent e (List.mem_append_left first he))
    have hfirst := since_silent (k := k) (fun e he => hsilent e (List.mem_append_right between he))
    rw [List.append_assoc, since_append]
    show since k (between ++ .render k inputs :: first) (before k e _) = .late
    rw [before_shows hshows, since_append, hbetween]
    show since k first (before k (.render k inputs) .shown) = .late
    rw [hfirst]
    simp [before]

end Hindsight

/-! ## The last write -/

/-- The last write counts if it is kept, and otherwise the last one kept
before it. -/
theorem lastKept_last {k : ComponentId} {f : Field α} (hf : f.Lawful) {later earlier : List Event}
    {w : Event} {value : α} (hlater : ∀ e ∈ later, f.read k e = none)
    (hw : f.read k w = some value) (h : Hindsight) :
    lastKept k (f.read k) h (later ++ w :: earlier) =
      if Hindsight.since k later h = .late then lastKept k (f.read k) .late earlier
      else some value := by
  induction later generalizing h with
  | nil =>
      have hwrites : w.writes k = true := by
        cases hcase : w.writes k with
        | true => rfl
        | false =>
            rw [hf.silent k w hcase] at hw
            simp at hw
      have hbefore : h.before k w = h := by
        cases w with
        | propWritten | attrWritten => rfl
        | _ => cases hwrites
      change lastKept k (f.read k) h (w :: earlier) = if h = .late then _ else _
      rw [lastKept, hbefore, hw]
      split
      · rename_i hlate
        rw [hlate]
      · rfl
  | cons e later ih =>
      have he := hlater e List.mem_cons_self
      rw [List.cons_append, lastKept, he, Option.none_or, ih fun e he => hlater e (List.mem_cons_of_mem _ he)]
      change (if h = .late then _ else _) = if Hindsight.since k later (h.before k e) = .late then _ else _
      split <;> rfl

/-- What is committed of a field is the last kept write; the last write of all
is committed exactly if it did not come too late, or if the last one kept
before it wrote the same. -/
structure CommitsKept (f : Field α) (k : ComponentId) (journal : List Event)
    (committed : Inputs) : Prop where
  kept : f.look committed = lastKept k (f.read k) .none journal
  last : ∀ later w earlier value, journal = later ++ w :: earlier →
    (∀ e ∈ later, f.read k e = none) → f.read k w = some value →
    (f.look committed = some value ↔
      ¬ TooLate k later ∨ lastKept k (f.read k) .late earlier = some value)

theorem CommitsKept.of_kept {f : Field α} (hf : f.Lawful) {k : ComponentId}
    {journal : List Event} {committed : Inputs}
    (h : f.look committed = lastKept k (f.read k) .none journal) :
    CommitsKept f k journal committed where
  kept := h
  last := by
    rintro later w earlier value rfl hlater hw
    rw [h, lastKept_last hf hlater hw, ← Hindsight.since_eq_late]
    split
    · rename_i hlate
      simp [hlate]
    · rename_i hlate
      simp [hlate]

namespace Page

variable {σ ρ : Type} {backend : Backend σ ρ} {hooks : Hooks σ ρ} {p p' : Page σ ρ}

/-! ## Flushes -/

theorem committed_markRendered (p : Page σ ρ) (k : ComponentId) :
    (p.markRendered k).committed = p.committed := by
  ext1 j
  unfold markRendered
  refine committed_modify p k _ ?_ j
  intro e
  rfl

theorem committed_markAll (updates : Updates) (p : Page σ ρ) :
    (p.markAll updates).committed = p.committed := by
  unfold markAll
  induction updates generalizing p with
  | nil => rfl
  | cons u updates ih => exact (ih _).trans (committed_markRendered p u.1)

theorem committed_runAfter (p : Page σ ρ) (k : ComponentId) (previous : Option Inputs) :
    (p.runAfter backend hooks k previous).2.committed = p.committed := by
  cases previous with
  | none => rfl
  | some inputs => exact (runAfter_steps p k inputs).committed

/-- Telling elements commits nothing. -/
theorem committed_replay (updates : Updates) (p : Page σ ρ) :
    (replay backend hooks updates p).2.committed = p.committed := by
  induction updates generalizing p with
  | nil => rfl
  | cons u rest ih =>
      obtain ⟨k, previous⟩ := u
      have hafter : (p.runAfter backend hooks k previous).2.committed = p.committed :=
        committed_runAfter p k previous
      rw [replay]
      split
      · rename_i e p₁ hresult
        rw [hresult] at hafter
        exact ((committed_markAll rest _).trans (committed_markRendered p₁ k)).trans hafter
      · rename_i p₁ hresult
        rw [hresult] at hafter
        exact ((ih _).trans (committed_markRendered p₁ k)).trans hafter

theorem commitsKept_of_settled {f : Field α} (hf : f.Lawful) {k : ComponentId}
    (hfaithful : Faithful f p k) (hstaged : p.staged k = .empty) :
    CommitsKept f k p.journal (p.committed k) := by
  refine .of_kept hf ?_
  unfold Faithful Keeps at hfaithful
  rw [hfaithful, hstaged, hf.merge, hf.empty, Option.none_or]

/-- When a flush ends well, every element that it updated and that is connected
when the elements are told has committed the last kept write of each property
and attribute. -/
theorem flush_commits_kept (hp : Reachable backend hooks p)
    (hrenderer : p.renderer.isSome = true) {rounds : Nat}
    (hflush : p.flush backend hooks rounds = some (none, p')) :
    ∃ updates q, runRounds backend hooks rounds []
        { p with flushing := true, scheduled := false } = some (updates, none, q) ∧
      ∀ u ∈ updates, q.isConnected u.1 = true →
        (∀ name, CommitsKept (.prop name) u.1 q.journal (p'.committed u.1)) ∧
          ∀ name, CommitsKept (.attr name) u.1 q.journal (p'.committed u.1) := by
  obtain ⟨updates, q, q', hrun, hreplay, rfl⟩ := flush_ok hp.idle hrenderer hflush
  refine ⟨updates, q, hrun, ?_⟩
  intro u hu hconnected
  have hcommitted : q'.reschedule.committed = q.committed := by
    have hsame : (replay backend hooks updates (q.note .replayStarted)).2.committed =
        q.committed := committed_replay updates (q.note .replayStarted)
    rw [hreplay] at hsame
    exact hsame
  have hstaged := runRounds_settled hrun (by simp) u hu hconnected
  have hfaithful : ∀ {α : Type} {f : Field α}, f.Lawful → Faithful f q u.1 := fun hf =>
    (invariant_faithful hf).runRounds hrun
      ((invariant_faithful hf).flags true false fun k => hp.faithful hf k) u.1
  rw [hcommitted]
  constructor
  · intro name
    exact commitsKept_of_settled (Field.lawful_prop name) (hfaithful (Field.lawful_prop name))
      hstaged
  · intro name
    exact commitsKept_of_settled (Field.lawful_attr name) (hfaithful (Field.lawful_attr name))
      hstaged

end Page

/-! ## A write that comes too late -/

namespace Late

def schema : Schema :=
  ⟨"x-late", ["label"], []⟩

/-- Before its first update but one, an element writes its own label; the host
state tells whether it has. -/
def hooks : Hooks Bool Unit where
  beforeUpdate k _ := .observe fun view =>
    if view.host then .done (.ok ())
    else .modifyHost (fun _ => true)
      (.call (.setProp k "label" (.str "late")) fun _ => .done (.ok ()))
  render _ _ := .done (.ok .undefined)
  afterUpdate _ _ := .done (.ok ())

/-- An element renders, and then its label is written. -/
def program : Program Bool Unit Unit :=
  .call (.create schema 0) fun _ =>
  .call (.connect 0) fun _ =>
  .call (.setRenderer ()) fun _ =>
  .call (.setProp 0 "label" (.str "early")) fun _ =>
  .done ()

def page : Page Bool Unit :=
  (program.start .blank hooks 3 (.new false)).elim (.new false) Prod.snd

theorem reachable_page : Page.Reachable .blank hooks page :=
  Page.Reachable.start (.new false) (rfl : program.start .blank hooks 3 _ = some ((), page))

/-- The page after the flush that the last write asks for. -/
def flushed : Page Bool Unit :=
  (page.flush .blank hooks 3).elim page Prod.snd

theorem flush_page : page.flush .blank hooks 3 = some (none, flushed) :=
  rfl

end Late

/-- One of the writes to the label came too late. -/
theorem Page.flush_commits_kept_late :
    Late.page.renderer.isSome = true ∧
    Late.page.flush .blank Late.hooks 3 = some (none, Late.flushed) ∧
    ∃ updates q, runRounds .blank Late.hooks 3 []
        { Late.page with flushing := true, scheduled := false } = some (updates, none, q) ∧
      ∀ u ∈ updates, q.isConnected u.1 = true →
        (∀ name, CommitsKept (.prop name) u.1 q.journal (Late.flushed.committed u.1)) ∧
          ∀ name, CommitsKept (.attr name) u.1 q.journal (Late.flushed.committed u.1) :=
  ⟨rfl, Late.flush_page, Page.flush_commits_kept Late.reachable_page rfl Late.flush_page⟩

/-- The last write to the label is not the committed one, though the element was
updated and is connected. -/
theorem Page.flush_loses_late_write :
    Reachable .blank Late.hooks Late.page ∧
    Late.page.flush .blank Late.hooks 3 = some (none, Late.flushed) ∧
    ∃ updates q, runRounds .blank Late.hooks 3 []
        { Late.page with flushing := true, scheduled := false } = some (updates, none, q) ∧
      (∃ u ∈ updates, u.1 = 0) ∧ q.isConnected 0 = true ∧
      q.journal.findSome? (Event.prop? 0 "label") = some (.str "late") ∧
      (Late.flushed.committed 0).props.get? "label" = some (.str "early") :=
  ⟨Late.reachable_page, Late.flush_page, _, _, rfl, ⟨_, List.mem_cons_self, rfl⟩, rfl, rfl, rfl⟩

end LiveMarkup
