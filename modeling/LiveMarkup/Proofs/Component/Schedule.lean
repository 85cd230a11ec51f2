import LiveMarkup.Proofs.Component.Conduct
import LiveMarkup.Proofs.Component.Queue

/-!
# The schedule

A flush is scheduled exactly while a renderer is there and something waits. A
running flush keeps the schedule empty, whatever component code asks for
meanwhile, and sets it right at its end, also when it ends in an error; every
call from outside keeps it right.
-/

namespace LiveMarkup.Page

variable {σ ρ : Type} {backend : Backend σ ρ} {hooks : Hooks σ ρ} {p p' : Page σ ρ}

/-! ## While a flush is running -/

/-- A flush is running, and no other is scheduled. -/
def Quiet (p : Page σ ρ) : Prop :=
  p.flushing = true ∧ p.scheduled = false

namespace Quiet

theorem request (h : Quiet p) (k : ComponentId) : Quiet (p.request k) := by
  obtain ⟨hflushing, hscheduled⟩ := h
  simp only [Page.request]
  split
  · exact ⟨hflushing, hscheduled⟩
  · -- a running flush finds the request by itself
    refine ⟨hflushing, ?_⟩
    show (p.scheduled || (!p.flushing && p.renderer.isSome)) = false
    rw [hflushing, hscheduled]
    rfl

theorem drop (h : Quiet p) (k : ComponentId) : Quiet (p.drop k) := by
  unfold Page.drop
  split <;> exact h

theorem drops (h : Quiet p) (ks : List ComponentId) : Quiet (ks.foldl Page.drop p) := by
  induction ks generalizing p with
  | nil => exact h
  | cons k ks ih => exact ih (h.drop k)

theorem disconnect (h : Quiet p) (k : ComponentId) : Quiet (p.disconnect backend k) := by
  unfold Page.disconnect
  split
  · exact h
  · split
    · unfold unmount
      split <;> exact h.drop k
    · exact h

theorem answer (h : Quiet p) (c : Call ρ) : Quiet (p.answer backend c).2 := by
  have hasking : c.mayAsk = true → Quiet (p.answer backend c).2 := by
    intro hc
    rcases asking_cases backend p hc with heq | ⟨k, event, change, heq, -, -⟩
    · rwa [heq]
    · rw [heq]
      apply Quiet.request
      exact h
  cases c with
  | create => exact h
  | setProp | setAttribute | connect => exact hasking rfl
  | disconnect k => exact h.disconnect k
  | setRenderer => exact h
  | clearRenderer | tick => exact ⟨h.1, rfl⟩
  | flush => exact h

theorem present (h : Quiet p) (k : ComponentId) (mount : NodeId) (ui : Value) :
    Quiet (p.present backend k mount ui).2 := by
  unfold Page.present
  split
  · exact h
  · apply Quiet.drops
    exact h

theorem conduct : Conduct backend (fun _ => True) (Quiet (σ := σ) (ρ := ρ)) where
  host _ h := h
  answer _ h := h.answer _
  note _ h := h
  inputs _ _ h := h

theorem kept : Kept backend hooks (Quiet (σ := σ) (ρ := ρ)) := by
  refine conduct.kept hooks.use_all ?_ ?_ ?_ ?_
  · intro p k mount ui _ h
    exact h.present k mount ui
  · intro p k h
    exact h.request k
  · exact fun _ h => h
  · exact fun h => h

end Quiet

/-! ## Between flushes -/

/-- A flush is scheduled exactly if a renderer is there and something waits. -/
def OnSchedule (p : Page σ ρ) : Prop :=
  p.scheduled = (p.renderer.isSome && !p.pending.isEmpty)

/-- However a flush ends, it leaves the schedule right. -/
theorem flush_onSchedule {rounds : Nat} {error : Option UpdateError} (hidle : p.flushing = false)
    (hflush : p.flush backend hooks rounds = some (error, p')) : OnSchedule p' := by
  rw [flush, hidle] at hflush
  simp only [Bool.false_eq_true, if_false] at hflush
  split at hflush
  · obtain ⟨⟨error', q⟩, hdrain, hresult⟩ := Option.map_eq_some_iff.mp hflush
    cases hresult
    have hquiet : Quiet q := Quiet.kept.drain hdrain ⟨rfl, rfl⟩
    show (q.scheduled || (!q.pending.isEmpty && q.renderer.isSome)) = _
    rw [hquiet.2, Bool.false_or, Bool.and_comm]
    rfl
  · cases hflush
    show (false || (!p.pending.isEmpty && p.renderer.isSome)) = _
    rw [Bool.false_or, Bool.and_comm]
    rfl

namespace OnSchedule

theorem request (h : OnSchedule p) (hidle : p.flushing = false) (k : ComponentId) :
    OnSchedule (p.request k) := by
  unfold OnSchedule at h ⊢
  simp only [Page.request]
  split
  · exact h
  · show (p.scheduled || (!p.flushing && p.renderer.isSome)) =
      (p.renderer.isSome && !(p.pending ++ [k]).isEmpty)
    rw [h, hidle]
    cases p.renderer.isSome <;> simp

theorem answer (h : OnSchedule p) (hidle : p.flushing = false) (c : Call ρ)
    (hinstalls : ∀ r, c ≠ .setRenderer r) (hticks : c ≠ .tick) :
    OnSchedule (p.answer backend c).2 := by
  have hasking : c.mayAsk = true → OnSchedule (p.answer backend c).2 := by
    intro hc
    rcases asking_cases backend p hc with heq | ⟨k, event, change, heq, -, -⟩
    · rwa [heq]
    · rw [heq]
      apply OnSchedule.request
      · exact h
      · exact hidle
  cases c with
  | create => exact h
  | setProp | setAttribute | connect => exact hasking rfl
  | disconnect k =>
      have hdrop : OnSchedule (p.drop k) := by
        unfold drop
        split <;> exact h
      show OnSchedule (p.disconnect backend k)
      unfold disconnect unmount
      split
      · exact h
      · split
        · split
          · exact hdrop
          · -- another renderer in the place of one is still a renderer
            rename_i r hr
            unfold OnSchedule at hdrop ⊢
            rw [hdrop, hr]
            rfl
        · exact h
  | setRenderer r => exact absurd rfl (hinstalls r)
  | clearRenderer => rfl
  | tick => exact absurd rfl hticks
  | flush => exact h

/-- Every call from outside keeps the schedule right. -/
theorem perform {rounds : Nat} {c : Call ρ} {reply : Reply ρ} (h : OnSchedule p)
    (hidle : p.flushing = false)
    (hperform : p.perform backend hooks rounds c = some (reply, p')) : OnSchedule p' := by
  have hanswer : p.answer backend c = (reply, p') → (∀ r, c ≠ .setRenderer r) → c ≠ .tick →
      OnSchedule p' := by
    intro heq hinstalls hticks
    have hkept : OnSchedule (p.answer backend c).2 := h.answer hidle c hinstalls hticks
    rw [heq] at hkept
    exact hkept
  cases c with
  | flush =>
      obtain ⟨⟨error, q⟩, hflush, hresult⟩ := Option.map_eq_some_iff.mp hperform
      cases hresult
      exact flush_onSchedule hidle hflush
  | tick =>
      obtain ⟨⟨error, q⟩, htick, hresult⟩ := Option.map_eq_some_iff.mp hperform
      cases hresult
      unfold tick at htick
      split at htick
      · exact flush_onSchedule (p := { p with scheduled := false }) hidle htick
      · cases htick
        exact h
  | setRenderer r =>
      obtain ⟨⟨error, q⟩, hset, hresult⟩ := Option.map_eq_some_iff.mp hperform
      cases hresult
      simp only [Page.setRenderer] at hset
      split at hset
      · exact flush_onSchedule (p := { p with renderer := some r }) hidle hset
      · rename_i hfirst
        cases hset
        unfold OnSchedule at h ⊢
        show p.scheduled = (true && !p.pending.isEmpty)
        rw [h]
        cases hr : p.renderer <;> simp_all
  | _ => exact hanswer (Option.some.inj hperform) (by simp) (by simp)

end OnSchedule

/-! ## Pages at rest -/

/-- Pages that calls from outside lead to, one after another. Only the host
state may change in between. -/
inductive AtRest (backend : Backend σ ρ) (hooks : Hooks σ ρ) : Page σ ρ → Prop
  | new (host : σ) : AtRest backend hooks (.new host)
  | host {p : Page σ ρ} (host : σ) (h : AtRest backend hooks p) :
      AtRest backend hooks { p with host := host }
  | call {p p' : Page σ ρ} {rounds : Nat} {c : Call ρ} {reply : Reply ρ}
      (h : AtRest backend hooks p)
      (hperform : p.perform backend hooks rounds c = some (reply, p')) :
      AtRest backend hooks p'

namespace AtRest

theorem reachable (h : AtRest backend hooks p) : Reachable backend hooks p := by
  induction h with
  | new host => exact .new host
  | @host p host _ ih => exact ih.world host p.renderer p.scheduled
  | call _ hperform ih => exact ih.call hperform

theorem start {α : Type} {rounds : Nat} {program : Program σ ρ α} {a : α}
    (hp : AtRest backend hooks p)
    (hstart : program.start backend hooks rounds p = some (a, p')) :
    AtRest backend hooks p' := by
  induction program generalizing p with
  | done b =>
      cases hstart
      exact hp
  | observe next ih => exact ih p.view hp hstart
  | modifyHost f next ih => exact ih (hp.host (f p.host)) hstart
  | call c next ih =>
      rw [Program.start] at hstart
      split at hstart
      · cases hstart
      · rename_i reply q hperform
        exact ih reply (hp.call hperform) hstart

theorem onSchedule (h : AtRest backend hooks p) : OnSchedule p := by
  induction h with
  | new host => rfl
  | host _ _ ih => exact ih
  | call hp hperform ih =>
      exact ih.perform hp.reachable.idle hperform

end AtRest

end LiveMarkup.Page
