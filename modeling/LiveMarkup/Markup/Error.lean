/-!
# What can be wrong with markup

Each cause carries what its message names. Positions are a segment's number
and a UTF-8 byte offset inside that segment.
-/

namespace LiveMarkup

/-- A reason to refuse markup. -/
inductive MarkupError where
  /-- A character that cannot stand where it does. -/
  | syntaxError (segment offset : Nat)
  /-- A tag without a name. -/
  | missingElementName (segment offset : Nat)
  /-- An end tag with no element open. -/
  | unexpectedClose (name : String)
  /-- An end tag that names another element than the innermost open one. -/
  | mismatchedClose (found opened : String)
  /-- The markup ends inside an element. -/
  | unclosedElement (name : String)
  /-- The markup ends inside a tag, or another tag starts there. -/
  | unclosedTag (name : String)
  /-- A placeholder inside a tag that no attribute name precedes. -/
  | strayPlaceholder (element : String)
  /-- A token that cannot stand where it does. -/
  | unexpectedToken (kind : String)
deriving DecidableEq, Repr

/-- The message of a refusal. -/
def MarkupError.message : MarkupError → String
  | .syntaxError segment offset =>
      "parsing failed in fragment #" ++ toString segment ++ ", position " ++
        toString offset
  | .missingElementName segment offset =>
      "missing element name in fragment #" ++ toString segment ++
        ", position " ++ toString offset
  | .unexpectedClose name =>
      "encountered the end of the " ++ name ++ " element on the top level"
  | .mismatchedClose found opened =>
      "encountered the end of the " ++ found ++ " element inside the " ++
        opened ++ " element"
  | .unclosedElement name => "the " ++ name ++ " element is never closed"
  | .unclosedTag name => "the <" ++ name ++ "> tag is never closed"
  | .strayPlaceholder element =>
      "placeholder inside the <" ++ element ++
        "> tag does not follow an attribute name"
  | .unexpectedToken kind => "unexpected " ++ kind ++ " token"

end LiveMarkup
