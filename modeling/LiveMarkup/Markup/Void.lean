/-!
# Void elements

The elements of HTML that never have children and are written without an end
tag. Their names are compared without regard to the case of ASCII letters.
-/

namespace LiveMarkup

/-- The names of the void elements. -/
def voidElements : List String :=
  ["area", "base", "br", "col", "embed", "hr", "img", "input", "link", "meta",
    "param", "source", "track", "wbr"]

/-- A name with its ASCII letters in lower case. -/
def lowerAscii (name : String) : String :=
  String.ofList (name.toList.map Char.toLower)

/-- Whether an element of this name is void. -/
def isVoidElement (name : String) : Bool :=
  voidElements.contains (lowerAscii name)

end LiveMarkup
