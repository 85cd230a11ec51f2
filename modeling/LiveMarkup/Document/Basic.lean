import LiveMarkup.Document.Property
import LiveMarkup.Document.Tree
import LiveMarkup.OrderedMap

/-!
# Documents

A document holds every node that was ever created in it, numbered in the order
of creation; a node that is taken out of the tree stays in the document. Each
node knows its parent and its children. Every question about a node that does
not exist has an answer that says so.
-/

namespace LiveMarkup

/-- Properties by name. -/
abbrev Properties := OrderedMap String PropertyValue

/-- A node of a document. -/
structure NodeData where
  kind : NodeKind
  parent : Option NodeId
  children : List NodeId
  attributes : Attributes
  properties : Properties

/-- A node that was just created. -/
def NodeData.new (kind : NodeKind) : NodeData :=
  ⟨kind, none, [], [], ∅⟩

/-- How often a document was changed, by the kind of change. -/
structure MutationCounts where
  created : Nat
  inserted : Nat
  removed : Nat
  attributeWrites : Nat
  propertyWrites : Nat
  textWrites : Nat
deriving DecidableEq, Repr

/-- No change yet. -/
def MutationCounts.zero : MutationCounts := ⟨0, 0, 0, 0, 0, 0⟩

/-- Nodes by number, and how often they were changed. -/
structure Document where
  nodes : Array NodeData
  counts : MutationCounts

namespace Document

/-- The document without nodes. -/
def empty : Document := ⟨#[], .zero⟩

instance : Inhabited Document := ⟨empty⟩

/-- How many nodes a document holds. -/
def size (d : Document) : Nat := d.nodes.size

/-- Whether a node exists. -/
def contains (d : Document) (n : NodeId) : Bool := n < d.size

/-! ## Reading a node -/

def kind? (d : Document) (n : NodeId) : Option NodeKind :=
  (d.nodes[n]?).map (·.kind)

/-- The tag of an element. -/
def tag? (d : Document) (n : NodeId) : Option String :=
  (d.kind? n).bind NodeKind.tag?

def parent? (d : Document) (n : NodeId) : Option NodeId :=
  (d.nodes[n]?).bind (·.parent)

def children (d : Document) (n : NodeId) : List NodeId :=
  match d.nodes[n]? with
  | some data => data.children
  | none => []

def attributes (d : Document) (n : NodeId) : Attributes :=
  match d.nodes[n]? with
  | some data => data.attributes
  | none => []

def attribute? (d : Document) (n : NodeId) (name : String) : Option String :=
  (d.attributes n).value? name

def property? (d : Document) (n : NodeId) (name : String) : Option PropertyValue :=
  (d.nodes[n]?).bind fun data => data.properties.get? name

/-! ## Neighbours -/

/-- The child at an index. -/
def childAt? (d : Document) (n : NodeId) (index : Nat) : Option NodeId :=
  (d.children n)[index]?

def firstChild? (d : Document) (n : NodeId) : Option NodeId :=
  (d.children n).head?

/-- The siblings behind a node, in order. -/
def siblingsAfter (d : Document) (n : NodeId) : List NodeId :=
  match d.parent? n with
  | none => []
  | some p => ((d.children p).dropWhile (· != n)).drop 1

def nextSibling? (d : Document) (n : NodeId) : Option NodeId :=
  (d.siblingsAfter n).head?

/-- The siblings behind one node and before another. -/
def between (d : Document) (first last : NodeId) : List NodeId :=
  (d.siblingsAfter first).takeWhile (· != last)

/-- The node at the end of a path; the empty path leads to its own start. -/
def resolvePath? (d : Document) (root : NodeId) (path : NodePath) : Option NodeId :=
  path.foldlM d.childAt? root

/-! ## Trees under a node -/

/-- The tree under a node, down to a depth. -/
def treeWithin (d : Document) : Nat → NodeId → Tree
  | 0, n => .node ((d.kind? n).getD .fragment) (d.attributes n) []
  | depth + 1, n =>
      .node ((d.kind? n).getD .fragment) (d.attributes n)
        ((d.children n).map (d.treeWithin depth))

/-- The tree under a node. No path down a tree is longer than the number of
nodes. -/
def tree (d : Document) (n : NodeId) : Tree :=
  d.treeWithin d.size n

/-- The trees under the children of a node. -/
def forest (d : Document) (n : NodeId) : List Tree :=
  (d.children n).map (d.treeWithin d.size)

/-- The markup of a node. -/
def html (d : Document) (n : NodeId) : String :=
  (d.tree n).html

/-- The markup of the children of a node. -/
def innerHtml (d : Document) (n : NodeId) : String :=
  Tree.htmlAll (d.forest n)

/-- The text under a node. -/
def textContent (d : Document) (n : NodeId) : String :=
  (d.tree n).textContent

end Document

end LiveMarkup
