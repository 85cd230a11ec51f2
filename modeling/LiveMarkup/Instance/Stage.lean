import LiveMarkup.Instance.Patch

/-!
# Stages

A stage is a document together with the instances that several places of it
may share. Instances are made, patched and gathered by number; an instance
never comes to hold itself.
-/

namespace LiveMarkup

/-- A document and the shared instances in it. -/
structure Stage where
  document : Document
  shared : SharedInstances

namespace Stage

/-- An empty document without instances. -/
def empty : Stage := ⟨.empty, []⟩

instance : Inhabited Stage := ⟨empty⟩

/-- Makes a shared instance of a template. -/
def create (s : Stage) (source : CompiledTemplate) :
    Except PatchError InstanceId × Stage :=
  match Instance.create source s.document with
  | (.error e, d) => (.error e, { s with document := d })
  | (.ok i, d) => (.ok s.shared.length, ⟨d, s.shared ++ [i]⟩)

/-- Gives a shared instance new values. What does not exist is not changed. -/
def patch (s : Stage) (id : InstanceId) (values : List Value) :
    Option PatchError × Stage :=
  match s.shared[id]? with
  | none => (none, s)
  | some i =>
      let (i, e, d) := i.patch s.shared.span values s.document
      (e, ⟨d, s.shared.set id i⟩)

/-- Moves the span of a shared instance into a new fragment. -/
def gather (s : Stage) (id : InstanceId) : NodeId × Stage :=
  let (fragment, d) := s.document.gather (s.shared.span id)
  (fragment, { s with document := d })

/-- Renders a value into one node, ready to be inserted. -/
def render (s : Stage) (v : Value) : Except PatchError NodeId × Stage :=
  let (result, d) := v.render s.shared.span s.document
  (result, { s with document := d })

end Stage

end LiveMarkup
