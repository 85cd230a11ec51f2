import LiveMarkup.Number.Read
import LiveMarkup.Number.Text
import LiveMarkup.Template.Basic

/-!
# Values

What is supplied for a placeholder: plain data, a node of the document, a list,
a template with values of its own, or an instance that several places share.
-/

namespace LiveMarkup

/-- A shared instance, by the order in which the shared instances were made. -/
abbrev InstanceId := Nat

inductive Value where
  | undefined
  | null
  | bool (b : Bool)
  | number (x : Number)
  | str (s : String)
  | node (n : NodeId)
  | list (items : List Value)
  | template (source : CompiledTemplate) (values : List Value)
  | shared (id : InstanceId)
deriving Repr, Inhabited

namespace Value

/-! ## Classes -/

/-- The values that take an attribute away when they are its whole value. -/
def isRemoval : Value → Bool
  | undefined | null | bool false => true
  | _ => false

def isNullish : Value → Bool
  | undefined | null => true
  | _ => false

/-- The values that a single text node shows. -/
def isTextLike : Value → Bool
  | undefined | null | bool _ | number _ | str _ => true
  | _ => false

/-! ## Text -/

mutual

/-- The text of a value. Nodes, templates and instances have none. -/
def text : Value → String
  | undefined | null => ""
  | bool b => if b then "true" else "false"
  | number x => x.text
  | str s => s
  | list items => ",".intercalate (textAll items)
  | node _ | template _ _ | shared _ => ""

/-- The texts of values. -/
def textAll : List Value → List String
  | [] => []
  | v :: vs => text v :: textAll vs

end

/-! ## Properties -/

mutual

/-- What a property holds when it is given a value. Templates and instances
are nothing that a property can hold. -/
def toProperty : Value → PropertyValue
  | undefined => .undefined
  | null => .null
  | bool b => .bool b
  | number x => .number x
  | str s => .str s
  | node n => .node n
  | list items => .list (toPropertyAll items)
  | template _ _ | shared _ => .undefined

/-- What properties hold when they are given values. -/
def toPropertyAll : List Value → List PropertyValue
  | [] => []
  | v :: vs => toProperty v :: toPropertyAll vs

end

/-! ## Equality -/

mutual

/-- Equality. Templates are equal if they were compiled at the same time and
have equal values, instances if they are the same one. -/
def equals : Value → Value → Bool
  | undefined, undefined => true
  | null, null => true
  | bool a, bool b => a == b
  | number a, number b => a.equals b
  | str a, str b => a == b
  | node a, node b => a == b
  | list as, list bs => equalsAll as bs
  | template s as, template t bs => decide (s = t) && equalsAll as bs
  | shared a, shared b => a == b
  | _, _ => false

/-- Equality item by item. -/
def equalsAll : List Value → List Value → Bool
  | [], [] => true
  | a :: as, b :: bs => equals a b && equalsAll as bs
  | _, _ => false

end

/-! ## Plain text as a value -/

/-- The value that a word on a command line stands for: a keyword, a number,
or itself. -/
def ofWord (word : String) : Value :=
  match word with
  | "undefined" => undefined
  | "null" => null
  | "true" => bool true
  | "false" => bool false
  | _ =>
      match Number.parse? word with
      | some x => number x
      | none => str word

end Value

end LiveMarkup
