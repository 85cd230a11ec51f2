import LiveMarkup.Markup.Nesting
import LiveMarkup.Markup.Scan
import LiveMarkup.Template.Basic

/-!
# Templates of nodes

Placeholders are numbered in document order, an element's attributes before
its children. In the forest a placeholder between nodes takes two places, one
for each marker, and every other node takes one. Of several literal attributes
of one name an element keeps the last value at the first place.
-/

namespace LiveMarkup

/-- What compiling nodes yields. -/
structure Compiled where
  forest : List Tree
  properties : List LiteralProperty
  attributes : List AttributeBinding
  contents : List ContentBinding
  /-- The number of the next placeholder. -/
  next : Nat

/-- What compiling an element's attributes yields. -/
structure CompiledAttributes where
  written : Attributes
  properties : List LiteralProperty
  bindings : List AttributeBinding
  /-- The number of the next placeholder. -/
  next : Nat

namespace Compile

/-- A name beginning with a point names a property. -/
def targetOf (name : String) : BindingTarget × String :=
  match name.toList with
  | '.' :: rest => (.property, String.ofList rest)
  | _ => (.attribute, name)

/-- The text of a value without placeholders, each piece decoded by itself. -/
def literal? : List ValuePart → Option String
  | [] => some ""
  | .literal text :: rest => (literal? rest).map (Entity.decode text ++ ·)
  | .placeholder :: _ => none

/-- The pieces of a value, its placeholders numbered from `next` on. -/
def numberParts (next : Nat) : List ValuePart → List BindingPart × Nat
  | [] => ([], next)
  | .literal text :: rest =>
      let (parts, last) := numberParts next rest
      (.literal (Entity.decode text) :: parts, last)
  | .placeholder :: rest =>
      let (parts, last) := numberParts (next + 1) rest
      (.placeholder next :: parts, last)

/-- Adds one attribute of the element at a path. -/
def addAttribute (path : NodePath) (acc : CompiledAttributes) (a : Attribute) :
    CompiledAttributes :=
  let (target, name) := targetOf a.name
  match literal? a.value, target with
  | some value, .attribute =>
      { acc with written := Attributes.write name value acc.written }
  | some value, .property =>
      { acc with properties := acc.properties ++ [⟨path, name, value⟩] }
  | none, target =>
      let (parts, next) := numberParts acc.next a.value
      { acc with bindings := acc.bindings ++ [⟨path, name, target, parts⟩]
                 next := next }

/-- The attributes of the element at a path. -/
def attributes (path : NodePath) (next : Nat) (as : List Attribute) :
    CompiledAttributes :=
  as.foldl (addAttribute path) ⟨[], [], [], next⟩

mutual

/-- A node that comes to stand at `index` under the node at a path. -/
def node (path : NodePath) (index next : Nat) : Node → Compiled
  | .text data => ⟨[.text (Entity.decode data)], [], [], [], next⟩
  | .comment data => ⟨[.comment (Entity.decode data)], [], [], [], next⟩
  | .placeholder =>
      ⟨[.comment "", .comment ""], [], [], [⟨path ++ [index], next⟩], next + 1⟩
  | .element name as children =>
      let here := path ++ [index]
      let own := attributes here next as
      let under := nodes here 0 own.next children
      { forest := [.node (.element name) own.written under.forest]
        properties := own.properties ++ under.properties
        attributes := own.bindings ++ under.attributes
        contents := under.contents
        next := under.next }

/-- Nodes that come to stand from `index` on under the node at a path. -/
def nodes (path : NodePath) (index next : Nat) : List Node → Compiled
  | [] => ⟨[], [], [], [], next⟩
  | n :: rest =>
      let first := node path index next n
      let others := nodes path (index + first.forest.length) first.next rest
      { forest := first.forest ++ others.forest
        properties := first.properties ++ others.properties
        attributes := first.attributes ++ others.attributes
        contents := first.contents ++ others.contents
        next := others.next }

end

end Compile

namespace Template

/-- The template that nodes write. -/
def ofNodes (nodes : List Node) : Template :=
  let c := Compile.nodes [] 0 0 nodes
  { forest := c.forest
    properties := c.properties
    attributes := c.attributes
    contents := c.contents
    placeholderCount := c.next }

/-- The template that segments write. -/
def ofSegments (segments : List String) : Except MarkupError Template := do
  let tokens ← Token.ofSegments segments
  let nodes ← Node.ofTokens tokens
  return ofNodes nodes

end Template

end LiveMarkup
