import LiveMarkup.Component.Element

/-!
# The page and the programs that run on it

The page keeps its elements, the queue of elements to update, and the place
for a renderer. Component code runs as a program: it may look at what the page
shows of itself, change the host state that it shares with the renderer, and
call the page. Writes that wait, the members of the queue and the journal stay
hidden from it.
-/

namespace LiveMarkup

/-- What happened on a page. -/
inductive Event where
  /-- A property write was taken. -/
  | propWritten (k : ComponentId) (name : String) (value : Value)
  /-- An attribute write was taken. -/
  | attrWritten (k : ComponentId) (name : String) (value : Option String)
  | connected (k : ComponentId)
  | disconnected (k : ComponentId)
  /-- An update was asked for. -/
  | requested (k : ComponentId)
  /-- A round took these elements from the queue. -/
  | roundStarted (batch : List ComponentId)
  /-- An element was passed over because it is not connected. -/
  | skipped (k : ComponentId)
  | updateStarted (k : ComponentId)
  | beforeUpdate (k : ComponentId) (next : Inputs)
  | render (k : ComponentId) (current : Inputs)
  /-- The renderer was given what an element rendered. -/
  | shown (k : ComponentId) (mount : NodeId) (ui : Value)
  /-- An update came to its end. -/
  | updated (k : ComponentId)
  | replayStarted
  | afterUpdate (k : ComponentId) (previous : Inputs)

/-- A page: `σ` is the state that components and renderers share, `ρ` is what
renders. -/
structure Page (σ ρ : Type) where
  host : σ
  elements : List Element
  /-- The elements to update, in the order of their requests. -/
  pending : List ComponentId
  /-- The members of the queue, for asking. -/
  queued : List ComponentId
  renderer : Option ρ
  /-- Whether the next tick flushes. -/
  scheduled : Bool
  /-- Whether a flush is running. -/
  flushing : Bool
  /-- What happened, the latest first. -/
  journal : List Event

/-- What a page shows of itself. -/
structure PageView (σ : Type) where
  host : σ
  elements : List ElementView
  pendingCount : Nat
  scheduled : Bool
  hasRenderer : Bool

/-- What a page shows of itself. -/
def Page.view {σ ρ : Type} (p : Page σ ρ) : PageView σ :=
  ⟨p.host, p.elements.map Element.view, p.pending.length, p.scheduled,
    p.renderer.isSome⟩

/-- What component code can ask of a page. -/
inductive Call (ρ : Type) where
  | create (schema : Schema) (mount : NodeId)
  | setProp (k : ComponentId) (name : String) (value : Value)
  | setAttribute (k : ComponentId) (name : String) (value : Option String)
  | connect (k : ComponentId)
  | disconnect (k : ComponentId)
  | setRenderer (r : ρ)
  | clearRenderer
  | tick
  | flush

/-- What a page answers. -/
inductive Reply (ρ : Type) where
  | unit
  | created (k : ComponentId)
  /-- Whether a property write was taken. -/
  | prop (error : Option SchemaError)
  /-- Whether an attribute is observed. -/
  | attr (observed : Bool)
  /-- The renderer that was taken away. -/
  | renderer (previous : Option ρ)
  /-- How a flush ended. -/
  | flushed (error : Option UpdateError)

/-- Code that runs on a page and answers with an `α`. -/
inductive Program (σ ρ α : Type) where
  | done (answer : α)
  /-- Looks at the page. -/
  | observe (next : PageView σ → Program σ ρ α)
  /-- Changes the host state. -/
  | modifyHost (f : σ → σ) (next : Program σ ρ α)
  /-- Calls the page. -/
  | call (c : Call ρ) (next : Reply ρ → Program σ ρ α)

namespace Program

variable {σ ρ α β : Type}

/-- Runs one program and then another that depends on its answer. -/
def bind : Program σ ρ α → (α → Program σ ρ β) → Program σ ρ β
  | done a, f => f a
  | observe next, f => observe fun p => (next p).bind f
  | modifyHost g next, f => modifyHost g (next.bind f)
  | call c next, f => call c fun r => (next r).bind f

instance : Monad (Program σ ρ) where
  pure := done
  bind := bind

end Program

/-- What renders into a host state. -/
structure Backend (σ ρ : Type) where
  name : ρ → String
  /-- Shows a value at a mount point. While this runs the renderer is busy: the
  components it disconnects are not unmounted. -/
  render : ρ → NodeId → Value → σ → ρ × σ × List ComponentId × Option PatchError
  /-- Forgets a mount point and empties it. -/
  unmount : ρ → NodeId → σ → ρ × σ

/-- The code of all components. Before an update it sees the inputs to come,
while rendering the new ones, after an update the old ones. -/
structure Hooks (σ ρ : Type) where
  beforeUpdate : ComponentId → Inputs → Program σ ρ (Except String Unit)
  render : ComponentId → Inputs → Program σ ρ (Except String Value)
  afterUpdate : ComponentId → Inputs → Program σ ρ (Except String Unit)

end LiveMarkup
