/-!
# Markup trees

A document as it is written, with a placeholder wherever a value will stand:
between nodes, or among the pieces of an attribute's value.
-/

namespace LiveMarkup

/-- A piece of an attribute's value. -/
inductive ValuePart where
  | literal (text : String)
  | placeholder
deriving DecidableEq, Repr

/-- An attribute as it is written. -/
structure Attribute where
  name : String
  value : List ValuePart
deriving DecidableEq, Repr

/-- A node as it is written. -/
inductive Node where
  | text (data : String)
  | comment (data : String)
  | placeholder
  | element (name : String) (attributes : List Attribute) (children : List Node)
deriving Repr, Inhabited

end LiveMarkup
