import LiveMarkup.Component.Program

/-!
# Calls that a page answers at once

Writes are staged and ask for an update; asking twice before the update counts
once. A request schedules a flush if a renderer is there and no flush is
running, since a running flush finds the request by itself.
-/

namespace LiveMarkup.Page

variable {σ ρ : Type}

/-- A page without elements and without a renderer. -/
def new (host : σ) : Page σ ρ :=
  ⟨host, [], [], [], none, false, false, []⟩

/-- Notes what happened. -/
def note (p : Page σ ρ) (e : Event) : Page σ ρ :=
  { p with journal := e :: p.journal }

/-- Changes an element. -/
def modify (p : Page σ ρ) (k : ComponentId) (f : Element → Element) : Page σ ρ :=
  { p with elements := p.elements.modify k f }

/-- Whether an element is connected. -/
def isConnected (p : Page σ ρ) (k : ComponentId) : Bool :=
  match p.elements[k]? with
  | some e => e.connected
  | none => false

/-- Creates an element. -/
def create (p : Page σ ρ) (schema : Schema) (mount : NodeId) :
    ComponentId × Page σ ρ :=
  (p.elements.length, { p with elements := p.elements ++ [.new schema mount] })

/-- Asks for an update. -/
def request (p : Page σ ρ) (k : ComponentId) : Page σ ρ :=
  let p := p.note (.requested k)
  if k ∈ p.queued then p
  else
    { p with pending := p.pending ++ [k]
             queued := k :: p.queued
             scheduled := p.scheduled || (!p.flushing && p.renderer.isSome) }

/-- Asks for updates, in order. -/
def requestAll (p : Page σ ρ) (ks : List ComponentId) : Page σ ρ :=
  ks.foldl request p

/-- Stages a property write, if the component declares the property. -/
def setProp (p : Page σ ρ) (k : ComponentId) (name : String) (value : Value) :
    Option SchemaError × Page σ ρ :=
  match p.elements[k]? with
  | none => (none, p)
  | some e =>
      if name ∈ e.schema.properties then
        let p := p.note (.propWritten k name value)
        let p := p.modify k fun e => { e with staged := e.staged.withProp name value }
        (none, p.request k)
      else (some (.unknownProperty e.schema.tag name), p)

/-- Stages an attribute change, if the component observes the attribute. -/
def setAttribute (p : Page σ ρ) (k : ComponentId) (name : String)
    (value : Option String) : Bool × Page σ ρ :=
  match p.elements[k]? with
  | none => (false, p)
  | some e =>
      if name ∈ e.schema.attributes then
        let p := p.note (.attrWritten k name value)
        let p := p.modify k fun e => { e with staged := e.staged.withAttr name value }
        (true, p.request k)
      else (false, p)

/-- Connects an element and asks for its update. -/
def connect (p : Page σ ρ) (k : ComponentId) : Page σ ρ :=
  match p.elements[k]? with
  | none => p
  | some e =>
      if e.connected then p
      else
        let p := p.note (.connected k)
        (p.modify k fun e => { e with connected := true }).request k

/-- Marks an element as not connected. -/
def drop (p : Page σ ρ) (k : ComponentId) : Page σ ρ :=
  if p.isConnected k then
    (p.note (.disconnected k)).modify k fun e => { e with connected := false }
  else p

/-- Releases a mount point, if a renderer is there. -/
def unmount (backend : Backend σ ρ) (p : Page σ ρ) (mount : NodeId) : Page σ ρ :=
  match p.renderer with
  | none => p
  | some r =>
      let (r, host) := backend.unmount r mount p.host
      { p with renderer := some r, host := host }

/-- Disconnects an element and releases its mount point. -/
def disconnect (backend : Backend σ ρ) (p : Page σ ρ) (k : ComponentId) : Page σ ρ :=
  match p.elements[k]? with
  | none => p
  | some e => if e.connected then (p.drop k).unmount backend e.mount else p

/-- Takes the renderer away, and with it the scheduled flush. -/
def clearRenderer (p : Page σ ρ) : Option ρ × Page σ ρ :=
  (p.renderer, { p with renderer := none, scheduled := false })

/-- Marks an element as rendered. -/
def markRendered (p : Page σ ρ) (k : ComponentId) : Page σ ρ :=
  p.modify k fun e => { e with rendered := true }

/-- Answers a call made while a flush is running. A flush then does nothing, so
that a tick only takes the schedule back and a new renderer only takes its
place. -/
def answer (backend : Backend σ ρ) (p : Page σ ρ) : Call ρ → Reply ρ × Page σ ρ
  | .create schema mount =>
      let (k, p) := p.create schema mount
      (.created k, p)
  | .setProp k name value =>
      let (e, p) := p.setProp k name value
      (.prop e, p)
  | .setAttribute k name value =>
      let (observed, p) := p.setAttribute k name value
      (.attr observed, p)
  | .connect k => (.unit, p.connect k)
  | .disconnect k => (.unit, p.disconnect backend k)
  | .setRenderer r => (.flushed none, { p with renderer := some r })
  | .clearRenderer =>
      let (r, p) := p.clearRenderer
      (.renderer r, p)
  | .tick => (.flushed none, { p with scheduled := false })
  | .flush => (.flushed none, p)

end LiveMarkup.Page

namespace LiveMarkup.Program

variable {σ ρ α : Type}

/-- Runs a program while a flush is running. -/
def run (backend : Backend σ ρ) : Program σ ρ α → Page σ ρ → α × Page σ ρ
  | done a, p => (a, p)
  | observe next, p => (next p.view).run backend p
  | modifyHost f next, p => next.run backend { p with host := f p.host }
  | call c next, p =>
      let (reply, p) := p.answer backend c
      (next reply).run backend p

end LiveMarkup.Program
