/-!
# Tokens

The pieces of markup, in the order in which they are written. A placeholder
stands for the boundary between two segments.
-/

namespace LiveMarkup

inductive Token where
  | text (data : String)
  | comment (data : String)
  /-- The beginning of a tag, with the element's name. -/
  | startOpen (name : String)
  /-- The end of a start tag. -/
  | startClose (name : String)
  /-- An end tag, or the end of a tag that closes itself. -/
  | elementEnd (name : String)
  | attributeName (name : String)
  /-- A literal piece of the value of the attribute before it. -/
  | attributeValue (value : String)
  | placeholder
deriving DecidableEq, Repr, Inhabited

namespace Token

/-- The name of a token's kind. -/
def kind : Token → String
  | text _ => "TEXT"
  | comment _ => "COMMENT"
  | startOpen _ => "ELEMENT_START_OPEN"
  | startClose _ => "ELEMENT_START_CLOSE"
  | elementEnd _ => "ELEMENT_END"
  | attributeName _ => "ATTRIBUTE_NAME"
  | attributeValue _ => "ATTRIBUTE_VALUE"
  | placeholder => "PLACEHOLDER"

/-- What a token carries; a placeholder carries nothing. -/
def value : Token → String
  | text s | comment s | startOpen s | startClose s | elementEnd s
  | attributeName s | attributeValue s => s
  | placeholder => ""

/-- The token of a named kind. -/
def ofKind? (kind value : String) : Option Token :=
  match kind with
  | "TEXT" => some (text value)
  | "COMMENT" => some (comment value)
  | "ELEMENT_START_OPEN" => some (startOpen value)
  | "ELEMENT_START_CLOSE" => some (startClose value)
  | "ELEMENT_END" => some (elementEnd value)
  | "ATTRIBUTE_NAME" => some (attributeName value)
  | "ATTRIBUTE_VALUE" => some (attributeValue value)
  | "PLACEHOLDER" => some placeholder
  | _ => none

/-- Every token is the token of its own kind and value. -/
theorem ofKind?_kind_value (t : Token) : ofKind? t.kind t.value = some t := by
  cases t <;> rfl

end Token

end LiveMarkup
