import LiveMarkup.Document.Edit

/-!
# Copies

A copy is made by taking the tree under a node and planting it: parents before
children, children in order, so that the nodes of the copy are numbered in
preorder. Properties are not part of a tree and are not copied.
-/

namespace LiveMarkup.Document

/-- How the attributes of a tree's node get to the node that copies it. -/
abbrev Dressing := NodeKind → Attributes → NodeId → Document → Document

/-- Attributes come along with the node and are not counted as written. -/
def withAttributes : Dressing := fun _ attributes n d =>
  d.modify n fun data => { data with attributes := attributes }

/-- The attributes of elements are written one by one. -/
def writingAttributes : Dressing := fun kind attributes n d =>
  match kind with
  | .element _ => attributes.foldl (fun d a => d.setAttribute n a.1 a.2) d
  | _ => d

mutual

/-- Creates the nodes of a tree; the first one is the copy of its root. -/
def plant (dress : Dressing) : Tree → Document → NodeId × Document
  | .node kind attributes children, d =>
      let (n, d) := d.create kind
      let d := dress kind attributes n d
      (n, plantUnder dress n children d)

/-- Creates the nodes of a forest at the end of a node's children. -/
def plantUnder (dress : Dressing) (parent : NodeId) : List Tree → Document → Document
  | [], d => d
  | t :: ts, d =>
      let (n, d) := plant dress t d
      plantUnder dress parent ts (d.append parent n)

end

/-- Copies a node, with or without what stands under it. -/
def clone (d : Document) (n : NodeId) (deep : Bool) : NodeId × Document :=
  let t := d.tree n
  plant withAttributes (.node t.kind t.attributes (if deep then t.children else [])) d

/-- Copies a node of another document and everything under it. -/
def importFrom (d source : Document) (n : NodeId) : NodeId × Document :=
  plant writingAttributes (source.tree n) d

end LiveMarkup.Document
