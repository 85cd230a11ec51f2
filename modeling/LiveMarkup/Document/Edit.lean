import LiveMarkup.Document.Basic

/-!
# Changing a document

Inserting takes a node out of wherever it stands first, and inserting a
fragment moves its children and leaves it empty. Every change is counted;
removing an attribute that is not there, removing a node from what is not its
parent and setting the data of an element change nothing and count nothing.
-/

namespace LiveMarkup.Document

/-- Changes the data of a node. -/
def modify (d : Document) (n : NodeId) (f : NodeData → NodeData) : Document :=
  { d with nodes := d.nodes.modify n f }

/-- Changes the counts. -/
def count (d : Document) (f : MutationCounts → MutationCounts) : Document :=
  { d with counts := f d.counts }

/-! ## Nodes -/

/-- Creates a node that stands nowhere. -/
def create (d : Document) (kind : NodeKind) : NodeId × Document :=
  (d.size,
    { nodes := d.nodes.push (.new kind)
      counts := { d.counts with created := d.counts.created + 1 } })

/-- Takes a node out of its parent's children. -/
def detach (d : Document) (n : NodeId) : Document :=
  match d.parent? n with
  | none => d
  | some p =>
      (d.modify n fun data => { data with parent := none }).modify p fun data =>
        { data with children := data.children.filter (· != n) }

/-- A list with some nodes put in before the first occurrence of a reference,
or at its end. -/
def spliceBefore (reference : Option NodeId) (moved siblings : List NodeId) :
    List NodeId :=
  match reference with
  | none => siblings ++ moved
  | some r => siblings.takeWhile (· != r) ++ moved ++ siblings.dropWhile (· != r)

/-- What inserting a node moves: the node, or the children of a fragment. -/
def movedBy (d : Document) (child : NodeId) : List NodeId :=
  if d.kind? child = some .fragment then d.children child else [child]

/-- Takes out of the tree what inserting a node moves. -/
def release (d : Document) (child : NodeId) : Document :=
  if d.kind? child = some .fragment then
    d.modify child fun data => { data with children := [] }
  else d.detach child

/-- Inserts a node, or the children of a fragment, before a reference; without
one, or if it is not a child, at the end. -/
def insertBefore (d : Document) (parent child : NodeId)
    (reference : Option NodeId) : Document :=
  let moved := d.movedBy child
  let d := d.release child
  let d := d.modify parent fun data =>
    { data with children := spliceBefore reference moved data.children }
  let d := moved.foldl
    (fun d n => d.modify n fun data => { data with parent := some parent }) d
  d.count fun c => { c with inserted := c.inserted + moved.length }

/-- Inserts at the end. -/
def append (d : Document) (parent child : NodeId) : Document :=
  d.insertBefore parent child none

/-- Takes a child out of a parent. -/
def removeChild (d : Document) (parent child : NodeId) : Document :=
  if d.parent? child = some parent then
    (d.detach child).count fun c => { c with removed := c.removed + 1 }
  else d

/-- Takes some children out of a parent, in order. -/
def removeChildren (d : Document) (parent : NodeId) (doomed : List NodeId) :
    Document :=
  doomed.foldl (fun d n => d.removeChild parent n) d

/-- Takes all children out of a parent. -/
def clearChildren (d : Document) (parent : NodeId) : Document :=
  d.removeChildren parent (d.children parent)

/-! ## Attributes, properties and data -/

/-- Writes an attribute. One that is there keeps its place. -/
def setAttribute (d : Document) (n : NodeId) (name value : String) : Document :=
  (d.modify n fun data =>
    { data with attributes := data.attributes.write name value }).count fun c =>
      { c with attributeWrites := c.attributeWrites + 1 }

/-- Takes an attribute away. -/
def removeAttribute (d : Document) (n : NodeId) (name : String) : Document :=
  if (d.attribute? n name).isSome then
    (d.modify n fun data =>
      { data with attributes := data.attributes.remove name }).count fun c =>
        { c with attributeWrites := c.attributeWrites + 1 }
  else d

/-- Writes a property. -/
def setProperty (d : Document) (n : NodeId) (name : String)
    (value : PropertyValue) : Document :=
  (d.modify n fun data =>
    { data with properties := data.properties.insert name value }).count fun c =>
      { c with propertyWrites := c.propertyWrites + 1 }

/-- Replaces the data of text or a comment. -/
def setText (d : Document) (n : NodeId) (s : String) : Document :=
  match (d.kind? n).bind (·.withData? s) with
  | none => d
  | some kind =>
      (d.modify n fun data => { data with kind := kind }).count fun c =>
        { c with textWrites := c.textWrites + 1 }

end LiveMarkup.Document
