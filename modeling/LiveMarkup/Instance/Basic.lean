import LiveMarkup.Value

/-!
# Instances

An instance is a template planted into a document, with every place that a
binding writes to found once and for all. Each content region remembers what
it holds: nothing, one text node, an instance of its own, an instance that is
shared, or the nodes that were put there.
-/

namespace LiveMarkup

/-- A place that a binding writes to is not where it should be. -/
inductive PatchError where
  /-- A path of the template that leads nowhere. -/
  | missingNode (path : NodePath)
  /-- A content region whose last marker does not follow its first. -/
  | missingEndMarker (path : NodePath)
  /-- A content region with a marker that stands nowhere. -/
  | detachedMarker (path : NodePath)
  /-- A node that the document does not hold. -/
  | unknownNode (n : NodeId)
deriving DecidableEq, Repr

/-- The message of a patch error. -/
def PatchError.message : PatchError → String
  | .missingNode path =>
      "no node at path " ++ path.text ++ " of the template fragment"
  | .missingEndMarker path =>
      "content region at path " ++ path.text ++ " has no end marker"
  | .detachedMarker path =>
      "content region marker at path " ++ path.text ++ " is detached"
  | .unknownNode n => "no node " ++ NodeId.label n

mutual

/-- A template planted into a document. -/
structure Instance where
  source : CompiledTemplate
  /-- The fragment it was planted under; empty once its nodes moved on. -/
  fragment : NodeId
  /-- Its top-level nodes, markers included. -/
  nodes : List NodeId
  /-- The elements of the template's attribute bindings, in their order. -/
  elements : List NodeId
  /-- The regions of the template's content bindings, in their order. -/
  regions : List Region

/-- A content region of an instance. -/
structure Region where
  path : NodePath
  placeholder : Nat
  first : NodeId
  last : NodeId
  content : Content

/-- What sits between the two markers of a region. -/
inductive Content where
  | empty
  /-- One text node with its data. -/
  | text (node : NodeId) (data : String)
  /-- An instance that belongs to the region. -/
  | own (inner : Instance)
  | shared (id : InstanceId)
  /-- The nodes that stood there right after they were put there. -/
  | nodes (held : List NodeId)

end

/-- The shared instances by number. -/
abbrev SharedInstances := List Instance

namespace Instance

/-- Writes the literal properties of a template. -/
def writeProperties (fragment : NodeId) :
    List LiteralProperty → Document → Option PatchError × Document
  | [], d => (none, d)
  | p :: ps, d =>
      match d.resolvePath? fragment p.path with
      | none => (some (.missingNode p.path), d)
      | some n => writeProperties fragment ps (d.setProperty n p.name (.str p.value))

/-- The elements that attribute bindings write to. -/
def findElements (d : Document) (fragment : NodeId) :
    List AttributeBinding → Except PatchError (List NodeId)
  | [] => .ok []
  | b :: bs =>
      match d.resolvePath? fragment b.path with
      | none => .error (.missingNode b.path)
      | some n => (findElements d fragment bs).map (n :: ·)

/-- The empty regions of content bindings. -/
def findRegions (d : Document) (fragment : NodeId) :
    List ContentBinding → Except PatchError (List Region)
  | [] => .ok []
  | b :: bs =>
      match d.resolvePath? fragment b.path with
      | none => .error (.missingNode b.path)
      | some first =>
          match d.nextSibling? first with
          | none => .error (.missingEndMarker b.path)
          | some last =>
              (findRegions d fragment bs).map
                (⟨b.path, b.placeholder, first, last, .empty⟩ :: ·)

/-- Plants a template into a document and finds its places. -/
def create (source : CompiledTemplate) (d : Document) :
    Except PatchError Instance × Document :=
  let t := source.template
  let (fragment, d) := Document.plant Document.writingAttributes t.root d
  match writeProperties fragment t.properties d with
  | (some e, d) => (.error e, d)
  | (none, d) =>
      let made := do
        let elements ← findElements d fragment t.attributes
        let regions ← findRegions d fragment t.contents
        return ⟨source, fragment, d.children fragment, elements, regions⟩
      (made, d)

end Instance

end LiveMarkup
