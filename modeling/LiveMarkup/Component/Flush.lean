import LiveMarkup.Component.Page

/-!
# Flushes

A flush takes the queue in rounds until it stays empty, updating every element
of a round that is connected at its turn. Then the elements that had rendered
before the flush hear that they were updated, the last one first. An error
ends the flush; whatever of its round had not had its turn goes back to the
queue.

Components can keep a flush going for ever, so the number of its rounds is
bounded by a parameter; there is no answer if the bound is reached.
-/

namespace LiveMarkup.Page

variable {σ ρ : Type} (backend : Backend σ ρ) (hooks : Hooks σ ρ)

/-! ## One update -/

/-- Runs the code that comes before an update. -/
def runBefore (p : Page σ ρ) (k : ComponentId) (tag : String) (next : Inputs) :
    Option UpdateError × Page σ ρ :=
  let p := p.note (.beforeUpdate k next)
  match (hooks.beforeUpdate k next).run backend p with
  | (.ok (), p) => (none, p)
  | (.error cause, p) => (some (.lifecycle tag .beforeUpdate cause), p)

/-- Commits the inputs to come, renders, and takes the commitment back if that
fails: what had been staged is staged again under whatever was staged since. -/
def commitAndRender (p : Page σ ρ) (k : ComponentId) (e : Element) (next : Inputs) :
    Except UpdateError (Value × Inputs) × Page σ ρ :=
  let previous := e.committed
  let taken := e.staged
  let p := p.modify k fun e => { e with committed := next, staged := .empty }
  let p := p.note (.render k next)
  match (hooks.render k next).run backend p with
  | (.ok ui, p) => (.ok (ui, previous), p)
  | (.error cause, p) =>
      (.error (.lifecycle e.schema.tag .render cause),
        p.modify k fun e =>
          { e with committed := previous, staged := taken.merge e.staged })

/-- Updates an element: what it renders, where, and, unless it had never
rendered, the inputs from before. The inputs to come are fixed before any code
runs; committing them takes all staged writes, also those that the code before
the update made to its own element. -/
def update (p : Page σ ρ) (k : ComponentId) :
    Except UpdateError (Option (Value × NodeId × Option Inputs)) × Page σ ρ :=
  match p.elements[k]? with
  | none => (.ok none, p)
  | some e =>
      let next := e.committed.merge e.staged
      let (failed, p) :=
        if e.rendered then p.runBefore backend hooks k e.schema.tag next else (none, p)
      match failed, p.elements[k]? with
      | some error, _ => (.error error, p)
      | none, none => (.ok none, p)
      | none, some now =>
          match p.commitAndRender backend hooks k now next with
          | (.error error, p) => (.error error, p)
          | (.ok (ui, previous), p) =>
              (.ok (some (ui, e.mount, if e.rendered then some previous else none)), p)

/-- Gives what an element rendered to the renderer, if one is there. -/
def present (p : Page σ ρ) (k : ComponentId) (mount : NodeId) (ui : Value) :
    Option PatchError × Page σ ρ :=
  match p.renderer with
  | none => (none, p)
  | some r =>
      let p := p.note (.shown k mount ui)
      let (r, host, dropped, error) := backend.render r mount ui p.host
      (error, dropped.foldl drop { p with renderer := some r, host := host })

/-- Updates an element and shows it: the inputs from before, unless it is the
first update. -/
def updateOne (p : Page σ ρ) (k : ComponentId) :
    Except UpdateError (Option Inputs) × Page σ ρ :=
  match (p.note (.updateStarted k)).update backend hooks k with
  | (.error e, p) => (.error e, p)
  | (.ok none, p) => (.ok none, p.note (.updated k))
  | (.ok (some (ui, mount, previous)), p) =>
      match p.present backend k mount ui with
      | (some e, p) => (.error (.patch e), p)
      | (none, p) => (.ok previous, p.note (.updated k))

/-! ## Rounds -/

/-- The updates of a flush, the last first, each with the inputs from before if
the element had rendered before the flush. -/
abbrev Updates := List (ComponentId × Option Inputs)

/-- Updates elements in order, up to the first error. -/
def runBatch : List ComponentId → Updates → Page σ ρ →
    Updates × Option UpdateError × Page σ ρ
  | [], updates, p => (updates, none, p)
  | k :: rest, updates, p =>
      if p.isConnected k then
        match p.updateOne backend hooks k with
        | (.ok previous, p) => runBatch rest ((k, previous) :: updates) p
        | (.error e, p) => (updates, some e, p.requestAll rest)
      else runBatch rest updates (p.note (.skipped k))

/-- Empties the queue. -/
def takePending (p : Page σ ρ) : List ComponentId × Page σ ρ :=
  (p.pending, { p with pending := [], queued := [] })

/-- Runs rounds until the queue stays empty, up to the first error. -/
def runRounds : Nat → Updates → Page σ ρ →
    Option (Updates × Option UpdateError × Page σ ρ)
  | 0, _, _ => none
  | rounds + 1, updates, p =>
      match p.takePending with
      | ([], p) => some (updates, none, p)
      | (k :: rest, p) =>
          let p := p.note (.roundStarted (k :: rest))
          match runBatch backend hooks (k :: rest) updates p with
          | (updates, some e, p) => some (updates, some e, p)
          | (updates, none, p) => runRounds rounds updates p

/-- Marks the elements of updates as rendered. -/
def markAll (p : Page σ ρ) (updates : Updates) : Page σ ρ :=
  updates.foldl (fun p u => p.markRendered u.1) p

/-- Tells an element that it was updated, if it had rendered before. -/
def runAfter (p : Page σ ρ) (k : ComponentId) (previous : Option Inputs) :
    Option UpdateError × Page σ ρ :=
  match previous with
  | none => (none, p)
  | some inputs =>
      let p := p.note (.afterUpdate k inputs)
      match (hooks.afterUpdate k inputs).run backend p with
      | (.ok (), p) => (none, p)
      | (.error cause, p) =>
          let tag := ((p.elements[k]?).map (·.schema.tag)).getD ""
          (some (.lifecycle tag .afterUpdate cause), p)

/-- Tells the elements of updates, up to the first error, and marks all of
them as rendered. -/
def replay : Updates → Page σ ρ → Option UpdateError × Page σ ρ
  | [], p => (none, p)
  | (k, previous) :: rest, p =>
      match p.runAfter backend hooks k previous with
      | (some e, p) => (some e, (p.markRendered k).markAll rest)
      | (none, p) => replay rest (p.markRendered k)

/-- Runs rounds and tells the elements. -/
def drain (rounds : Nat) (p : Page σ ρ) : Option (Option UpdateError × Page σ ρ) :=
  match runRounds backend hooks rounds [] p with
  | none => none
  | some (updates, some e, p) => some (some e, p.markAll updates)
  | some (updates, none, p) =>
      some (replay backend hooks updates (p.note .replayStarted))

/-- Schedules a flush for whatever waits, if a renderer is there. -/
def reschedule (p : Page σ ρ) : Page σ ρ :=
  { p with flushing := false
           scheduled := p.scheduled || (!p.pending.isEmpty && p.renderer.isSome) }

/-- Runs a flush, unless one is running. Without a renderer nothing is
updated. -/
def flush (rounds : Nat) (p : Page σ ρ) : Option (Option UpdateError × Page σ ρ) :=
  if p.flushing then some (none, p)
  else
    let p := { p with flushing := true, scheduled := false }
    if p.renderer.isSome then
      (p.drain backend hooks rounds).map fun (e, p) => (e, p.reschedule)
    else some (none, p.reschedule)

/-- Runs the scheduled flush, if there is one. -/
def tick (rounds : Nat) (p : Page σ ρ) : Option (Option UpdateError × Page σ ρ) :=
  if p.scheduled then flush backend hooks rounds { p with scheduled := false }
  else some (none, p)

/-- Puts a renderer in its place. What waited for the first one is flushed at
once. -/
def setRenderer (rounds : Nat) (p : Page σ ρ) (r : ρ) :
    Option (Option UpdateError × Page σ ρ) :=
  let first := p.renderer.isNone
  let p := { p with renderer := some r }
  if first && !p.pending.isEmpty then flush backend hooks rounds p
  else some (none, p)

/-- Answers a call made while no flush is running. -/
def perform (rounds : Nat) (p : Page σ ρ) : Call ρ → Option (Reply ρ × Page σ ρ)
  | .setRenderer r =>
      (p.setRenderer backend hooks rounds r).map fun (e, p) => (.flushed e, p)
  | .tick => (p.tick backend hooks rounds).map fun (e, p) => (.flushed e, p)
  | .flush => (p.flush backend hooks rounds).map fun (e, p) => (.flushed e, p)
  | c => some (p.answer backend c)

end LiveMarkup.Page

namespace LiveMarkup.Program

variable {σ ρ α : Type}

/-- Runs a program while no flush is running. -/
def start (backend : Backend σ ρ) (hooks : Hooks σ ρ) (rounds : Nat) :
    Program σ ρ α → Page σ ρ → Option (α × Page σ ρ)
  | done a, p => some (a, p)
  | observe next, p => (next p.view).start backend hooks rounds p
  | modifyHost f next, p => next.start backend hooks rounds { p with host := f p.host }
  | call c next, p =>
      match p.perform backend hooks rounds c with
      | none => none
      | some (reply, p) => (next reply).start backend hooks rounds p

end LiveMarkup.Program
