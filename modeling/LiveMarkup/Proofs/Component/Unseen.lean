import LiveMarkup.Component.Flush

/-!
# Nobody sees the journal

The journal tells what happened on a page; nothing that happens depends on it.
With an older journal below its own, a page does what it does without it, and notes
the same.
-/

namespace LiveMarkup.Page

variable {σ ρ : Type}

/-- A page whose journal goes on from an older one. -/
def onto (p : Page σ ρ) (journal : List Event) : Page σ ρ :=
  { p with journal := p.journal ++ journal }

/-- A page with nothing in its journal. -/
def silent (p : Page σ ρ) : Page σ ρ :=
  { p with journal := [] }

@[simp] theorem onto_silent (p : Page σ ρ) : p.silent.onto p.journal = p := rfl

variable (backend : Backend σ ρ) (hooks : Hooks σ ρ) (p : Page σ ρ) (j : List Event)
  (k : ComponentId)

/-! ## Calls -/

@[simp] theorem note_onto (e : Event) : (p.onto j).note e = (p.note e).onto j := rfl

@[simp] theorem modify_onto (f : Element → Element) :
    (p.onto j).modify k f = (p.modify k f).onto j := rfl

@[simp] theorem isConnected_onto : (p.onto j).isConnected k = p.isConnected k := rfl

@[simp] theorem elements_onto : (p.onto j).elements = p.elements := rfl

@[simp] theorem request_onto : (p.onto j).request k = (p.request k).onto j := by
  by_cases h : k ∈ p.queued <;> simp [request, note, onto, h]

@[simp] theorem requestAll_onto (ks : List ComponentId) :
    (p.onto j).requestAll ks = (p.requestAll ks).onto j := by
  unfold requestAll
  induction ks generalizing p with
  | nil => rfl
  | cons k ks ih => rw [List.foldl_cons, request_onto, ih, List.foldl_cons]

@[simp] theorem drop_onto : (p.onto j).drop k = (p.drop k).onto j := by
  by_cases h : p.isConnected k = true <;> simp [drop, h]

@[simp] theorem drops_onto (ks : List ComponentId) :
    ks.foldl drop (p.onto j) = (ks.foldl drop p).onto j := by
  induction ks generalizing p with
  | nil => rfl
  | cons k ks ih => rw [List.foldl_cons, drop_onto, ih, List.foldl_cons]

@[simp] theorem connect_onto : (p.onto j).connect k = (p.connect k).onto j := by
  simp only [connect, elements_onto]
  split
  · rfl
  · split
    · rfl
    · rw [note_onto, modify_onto, request_onto]

@[simp] theorem disconnect_onto :
    (p.onto j).disconnect backend k = (p.disconnect backend k).onto j := by
  simp only [disconnect, elements_onto]
  split
  · rfl
  · split
    · rw [drop_onto]
      simp only [unmount]
      cases h : (p.drop k).renderer <;> simp [onto, h]
    · rfl

theorem setProp_onto (name : String) (value : Value) :
    (p.onto j).setProp k name value = (p.setProp k name value).map id (·.onto j) := by
  simp only [setProp, elements_onto]
  split
  · rfl
  · split
    · simp
    · rfl

theorem setAttribute_onto (name : String) (value : Option String) :
    (p.onto j).setAttribute k name value =
      (p.setAttribute k name value).map id (·.onto j) := by
  simp only [setAttribute, elements_onto]
  split
  · rfl
  · split
    · simp
    · rfl

theorem answer_onto (c : Call ρ) :
    (p.onto j).answer backend c = (p.answer backend c).map id (·.onto j) := by
  cases c with
  | setProp k name value => simp [answer, setProp_onto]
  | setAttribute k name value => simp [answer, setAttribute_onto]
  | connect k => simp [answer]
  | disconnect k => simp [answer]
  | create | setRenderer | clearRenderer | tick | flush => rfl

theorem run_onto {α : Type} (program : Program σ ρ α) :
    program.run backend (p.onto j) = (program.run backend p).map id (·.onto j) := by
  induction program generalizing p with
  | done a => rfl
  | observe next ih => exact ih p.view p
  | modifyHost f next ih => exact ih { p with host := f p.host }
  | call c next ih =>
      simp only [Program.run, answer_onto]
      exact ih _ _

/-! ## Updates -/

theorem runBefore_onto (tag : String) (next : Inputs) :
    (p.onto j).runBefore backend hooks k tag next =
      (p.runBefore backend hooks k tag next).map id (·.onto j) := by
  simp only [runBefore, note_onto, run_onto]
  obtain ⟨_ | _, q⟩ := (hooks.beforeUpdate k next).run backend (p.note (.beforeUpdate k next)) <;>
    rfl

theorem commitAndRender_onto (e : Element) (next : Inputs) :
    (p.onto j).commitAndRender backend hooks k e next =
      (p.commitAndRender backend hooks k e next).map id (·.onto j) := by
  simp only [commitAndRender, modify_onto, note_onto, run_onto]
  obtain ⟨_ | _, q⟩ := (hooks.render k next).run backend _ <;> rfl

theorem update_onto :
    (p.onto j).update backend hooks k = (p.update backend hooks k).map id (·.onto j) := by
  simp only [update, elements_onto]
  cases p.elements[k]? with
  | none => rfl
  | some e =>
      have hbefore : (if e.rendered then
          (p.onto j).runBefore backend hooks k e.schema.tag (e.committed.merge e.staged)
          else (none, p.onto j)) =
          (if e.rendered then p.runBefore backend hooks k e.schema.tag (e.committed.merge e.staged)
            else (none, p)).map id (·.onto j) := by
        split
        · exact runBefore_onto ..
        · rfl
      simp only [hbefore]
      obtain ⟨_ | error, q⟩ := (if e.rendered then
        p.runBefore backend hooks k e.schema.tag (e.committed.merge e.staged) else (none, p))
      · simp only [Prod.map_apply, id_eq, elements_onto]
        cases q.elements[k]? with
        | none => rfl
        | some now =>
            simp only [commitAndRender_onto]
            obtain ⟨_ | _, q'⟩ :=
              q.commitAndRender backend hooks k now (e.committed.merge e.staged) <;> rfl
      · rfl

theorem present_onto (mount : NodeId) (ui : Value) :
    (p.onto j).present backend k mount ui =
      (p.present backend k mount ui).map id (·.onto j) := by
  unfold present
  cases h : p.renderer with
  | none => simp [onto, h]
  | some r =>
      have hr : (p.onto j).renderer = some r := h
      simp only [hr]
      exact Prod.ext rfl (drops_onto { (p.note (.shown k mount ui)) with
        renderer := some (backend.render r mount ui p.host).1,
        host := (backend.render r mount ui p.host).2.1 } j _)

theorem updateOne_onto :
    (p.onto j).updateOne backend hooks k = (p.updateOne backend hooks k).map id (·.onto j) := by
  simp only [updateOne, note_onto, update_onto]
  obtain ⟨_ | _ | ⟨ui, mount, previous⟩, q⟩ := (p.note (.updateStarted k)).update backend hooks k
  · rfl
  · rfl
  · simp only [Prod.map_apply, id_eq, present_onto]
    obtain ⟨_ | _, q'⟩ := q.present backend k mount ui <;> rfl

/-! ## Flushes -/

theorem runBatch_onto (batch : List ComponentId) (updates : Updates) :
    runBatch backend hooks batch updates (p.onto j) =
      (runBatch backend hooks batch updates p).map id (Prod.map id (·.onto j)) := by
  induction batch generalizing updates p with
  | nil => rfl
  | cons k rest ih =>
      simp only [runBatch, isConnected_onto, updateOne_onto, note_onto]
      split
      · obtain ⟨_ | previous, q⟩ := p.updateOne backend hooks k
        · simp
        · exact ih q _
      · exact ih _ updates

theorem runRounds_onto (rounds : Nat) (updates : Updates) :
    runRounds backend hooks rounds updates (p.onto j) =
      (runRounds backend hooks rounds updates p).map
        (Prod.map id (Prod.map id (·.onto j))) := by
  induction rounds generalizing updates p with
  | zero => rfl
  | succ rounds ih =>
      have htake : (p.onto j).takePending = p.takePending.map id (·.onto j) := rfl
      rw [runRounds, runRounds, htake]
      obtain ⟨_ | ⟨k, rest⟩, q⟩ := p.takePending
      · rfl
      · simp only [Prod.map_apply, id_eq, note_onto, runBatch_onto]
        obtain ⟨us, _ | _, q'⟩ :=
          runBatch backend hooks (k :: rest) updates (q.note (.roundStarted (k :: rest)))
        · exact ih q' us
        · rfl

theorem markAll_onto (updates : Updates) :
    (p.onto j).markAll updates = (p.markAll updates).onto j := by
  unfold markAll
  induction updates generalizing p with
  | nil => rfl
  | cons u updates ih => exact ih (p.markRendered u.1)

theorem runAfter_onto (previous : Option Inputs) :
    (p.onto j).runAfter backend hooks k previous =
      (p.runAfter backend hooks k previous).map id (·.onto j) := by
  cases previous with
  | none => rfl
  | some inputs =>
      simp only [runAfter, note_onto, run_onto]
      obtain ⟨_ | _, q⟩ :=
        (hooks.afterUpdate k inputs).run backend (p.note (.afterUpdate k inputs)) <;> rfl

theorem replay_onto (updates : Updates) :
    replay backend hooks updates (p.onto j) =
      (replay backend hooks updates p).map id (·.onto j) := by
  induction updates generalizing p with
  | nil => rfl
  | cons u rest ih =>
      obtain ⟨k, previous⟩ := u
      simp only [replay, runAfter_onto]
      obtain ⟨_ | _, q⟩ := p.runAfter backend hooks k previous
      · exact ih (q.markRendered k)
      · exact Prod.ext rfl (markAll_onto (q.markRendered k) j rest)

theorem drain_onto (rounds : Nat) :
    (p.onto j).drain backend hooks rounds =
      (p.drain backend hooks rounds).map (Prod.map id (·.onto j)) := by
  simp only [drain, runRounds_onto]
  obtain _ | ⟨us, _ | error, q⟩ := runRounds backend hooks rounds [] p
  · rfl
  · exact congrArg some (replay_onto backend hooks (q.note .replayStarted) j us)
  · exact congrArg some (Prod.ext rfl (markAll_onto q j us))

theorem flush_onto (rounds : Nat) :
    (p.onto j).flush backend hooks rounds =
      (p.flush backend hooks rounds).map (Prod.map id (·.onto j)) := by
  have hflushing : (p.onto j).flushing = p.flushing := rfl
  have hrenderer : (p.onto j).renderer = p.renderer := rfl
  unfold flush
  simp only [hflushing, hrenderer]
  split
  · rfl
  · split
    · change (drain backend hooks rounds
        ({ p with flushing := true, scheduled := false }.onto j)).map _ = _
      rw [drain_onto]
      cases drain backend hooks rounds { p with flushing := true, scheduled := false } <;> rfl
    · rfl

/-- A tick does the same, whatever happened before. -/
theorem tick_onto (rounds : Nat) :
    (p.onto j).tick backend hooks rounds =
      (p.tick backend hooks rounds).map (Prod.map id (·.onto j)) := by
  have hscheduled : (p.onto j).scheduled = p.scheduled := rfl
  unfold tick
  rw [hscheduled]
  split
  · exact flush_onto backend hooks { p with scheduled := false } j rounds
  · rfl

end LiveMarkup.Page
