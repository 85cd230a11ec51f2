import LiveMarkup.Number.Basic

/-!
# Property values

What an element property can hold, as opposed to the text of an attribute.
-/

namespace LiveMarkup

/-- A node of a document, by the order in which the nodes were created. -/
abbrev NodeId := Nat

/-- How a node is named in messages. -/
def NodeId.label (n : NodeId) : String :=
  "#" ++ toString (n : Nat)

/-- Child indices that lead down from some node. -/
abbrev NodePath := List Nat

/-- A path as messages show it. -/
def NodePath.text (path : NodePath) : String :=
  "[" ++ ", ".intercalate (path.map toString) ++ "]"

inductive PropertyValue where
  | undefined
  | null
  | bool (b : Bool)
  | number (x : Number)
  | str (s : String)
  | node (n : NodeId)
  | list (items : List PropertyValue)
deriving Repr, Inhabited

namespace PropertyValue

mutual

/-- Equality, with numbers compared as numbers. -/
def equals : PropertyValue → PropertyValue → Bool
  | undefined, undefined => true
  | null, null => true
  | bool a, bool b => a == b
  | number a, number b => a.equals b
  | str a, str b => a == b
  | node a, node b => a == b
  | list as, list bs => equalsAll as bs
  | _, _ => false

/-- Equality item by item. -/
def equalsAll : List PropertyValue → List PropertyValue → Bool
  | [], [] => true
  | a :: as, b :: bs => equals a b && equalsAll as bs
  | _, _ => false

end

end PropertyValue

end LiveMarkup
