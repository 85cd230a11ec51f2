import LiveMarkup.Mount

/-!
# Components on a page

A component declares which properties and attributes it observes. An element
is a component at a mount point, with the inputs it last rendered from and the
writes that wait for its next update.
-/

namespace LiveMarkup

/-- A component on a page, by the order of creation. -/
abbrev ComponentId := Nat

/-- What a component declares. -/
structure Schema where
  tag : String
  properties : List String
  attributes : List String
deriving Repr

/-- Properties and observed attributes; an attribute that was taken away is
there as `none`. -/
structure Inputs where
  props : OrderedMap String Value
  attrs : OrderedMap String (Option String)

namespace Inputs

/-- Nothing. -/
def empty : Inputs := ⟨∅, ∅⟩

/-- Writes all of the second inputs over the first. -/
def merge (base later : Inputs) : Inputs :=
  ⟨base.props.merge later.props, base.attrs.merge later.attrs⟩

/-- Adds a property. -/
def withProp (i : Inputs) (name : String) (value : Value) : Inputs :=
  { i with props := i.props.insert name value }

/-- Adds an attribute, or that it was taken away. -/
def withAttr (i : Inputs) (name : String) (value : Option String) : Inputs :=
  { i with attrs := i.attrs.insert name value }

end Inputs

/-- A component at a mount point. -/
structure Element where
  schema : Schema
  mount : NodeId
  connected : Bool
  /-- Whether a flush that rendered it has ended. -/
  rendered : Bool
  /-- What it last rendered from. -/
  committed : Inputs
  /-- What was written since. -/
  staged : Inputs

/-- An element that was just created. -/
def Element.new (schema : Schema) (mount : NodeId) : Element :=
  ⟨schema, mount, false, false, .empty, .empty⟩

/-- What can be seen of an element: all but the writes that wait. -/
structure ElementView where
  schema : Schema
  mount : NodeId
  connected : Bool
  rendered : Bool
  committed : Inputs

/-- What can be seen of an element. -/
def Element.view (e : Element) : ElementView :=
  ⟨e.schema, e.mount, e.connected, e.rendered, e.committed⟩

/-! ## Errors -/

/-- The part of an update that failed. -/
inductive Phase where
  | beforeUpdate
  | render
  | afterUpdate
deriving DecidableEq, Repr

/-- The name of a phase. -/
def Phase.name : Phase → String
  | beforeUpdate => "before_update"
  | render => "render"
  | afterUpdate => "after_update"

/-- What ended a flush. -/
inductive UpdateError where
  /-- A component refused. -/
  | lifecycle (component : String) (phase : Phase) (cause : String)
  /-- What it rendered could not be shown. -/
  | patch (cause : PatchError)
deriving DecidableEq, Repr

namespace UpdateError

/-- The message of an error. -/
def message : UpdateError → String
  | lifecycle component phase _ => "<" ++ component ++ "> " ++ phase.name ++ " failed"
  | patch _ => "patching the rendered output failed"

/-- The phase that failed, if a component did. -/
def phase? : UpdateError → Option Phase
  | lifecycle _ phase _ => some phase
  | patch _ => none

/-- The message of what is behind an error. -/
def cause : UpdateError → String
  | lifecycle _ _ cause => cause
  | patch cause => cause.message

end UpdateError

/-- A write that a component does not take. -/
inductive SchemaError where
  | unknownProperty (component name : String)
deriving DecidableEq, Repr

/-- The message of a refused write. -/
def SchemaError.message : SchemaError → String
  | unknownProperty component name =>
      "<" ++ component ++ "> has no property `" ++ name ++ "`"

end LiveMarkup
