import LiveMarkup.Document.Copy

/-!
# Templates

A template is a static forest and three tables that say where values go: the
literal properties, the attributes and properties that placeholders feed, and
the content regions. A content region is a pair of empty comments with nothing
between them; its path leads to the first of the two.
-/

namespace LiveMarkup

/-- What a binding writes. -/
inductive BindingTarget where
  | attribute
  | property
deriving DecidableEq, Repr

/-- The name of a target. -/
def BindingTarget.name : BindingTarget → String
  | .attribute => "attribute"
  | .property => "property"

/-- A property whose value stands in the template. -/
structure LiteralProperty where
  path : NodePath
  name : String
  value : String
deriving DecidableEq, Repr

/-- A piece of a bound value. -/
inductive BindingPart where
  | literal (text : String)
  | placeholder (index : Nat)
deriving DecidableEq, Repr

/-- An attribute or a property that at least one placeholder feeds. -/
structure AttributeBinding where
  path : NodePath
  name : String
  target : BindingTarget
  parts : List BindingPart
deriving DecidableEq, Repr

/-- The placeholder that is the whole value. -/
def AttributeBinding.single? (b : AttributeBinding) : Option Nat :=
  match b.parts with
  | [.placeholder index] => some index
  | _ => none

/-- A content region. -/
structure ContentBinding where
  path : NodePath
  placeholder : Nat
deriving DecidableEq, Repr

structure Template where
  forest : List Tree
  properties : List LiteralProperty
  attributes : List AttributeBinding
  contents : List ContentBinding
  placeholderCount : Nat
deriving DecidableEq, Repr

namespace Template

/-- The static forest under the fragment that holds it. -/
def root (t : Template) : Tree :=
  .node .fragment [] t.forest

/-- The static forest as a document of its own, with the fragment as its first
node. -/
def document (t : Template) : Document :=
  (Document.plant Document.writingAttributes t.root .empty).2

/-- The markup of the static forest, markers included. -/
def staticHtml (t : Template) : String :=
  Tree.htmlAll t.forest

end Template

/-- A template that was compiled at some time. Compiling again makes another
one, with another number. -/
structure CompiledTemplate where
  id : Nat
  template : Template
deriving DecidableEq, Repr

end LiveMarkup
