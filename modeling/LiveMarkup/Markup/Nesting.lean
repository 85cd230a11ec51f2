import LiveMarkup.Markup.Error
import LiveMarkup.Markup.Node
import LiveMarkup.Markup.Token
import LiveMarkup.Markup.Void

/-!
# Nodes of tokens

Tokens are read from left to right. What has been read so far is a list of
finished nodes, the elements that are open, innermost first, and the start tag
that is being read, if any. A placeholder belongs to an attribute's value
exactly while the last attribute name, end of a start tag or end tag before it
is an attribute name.
-/

namespace LiveMarkup

/-- An element whose end tag is awaited. -/
structure OpenElement where
  name : String
  attributes : List Attribute
  children : List Node

/-- The node of an open element whose end has come. -/
def OpenElement.close (e : OpenElement) : Node :=
  .element e.name e.attributes e.children

/-- A start tag that is being read. -/
structure OpenTag where
  name : String
  attributes : List Attribute

/-- What the tokens read so far have built. -/
structure Nesting where
  finished : List Node
  stack : List OpenElement
  tag : Option OpenTag
  inValue : Bool

namespace Nesting

/-- Nothing read. -/
def empty : Nesting := ⟨[], [], none, false⟩

/-- Adds a finished node to the innermost open element. -/
def push (n : Nesting) (node : Node) : Nesting :=
  match n.stack with
  | [] => { n with finished := n.finished ++ [node] }
  | e :: outer =>
      { n with stack := { e with children := e.children ++ [node] } :: outer }

/-- Adds a piece to the last of some attributes, if there is one. -/
def extendLast (part : ValuePart) : List Attribute → Option (List Attribute)
  | [] => none
  | [a] => some [{ a with value := a.value ++ [part] }]
  | a :: b :: rest => (extendLast part (b :: rest)).map (a :: ·)

/-- Adds a piece to the value of the attribute that is being read. -/
def extendValue (n : Nesting) (token : Token) (part : ValuePart) :
    Except MarkupError Nesting :=
  match n.tag.bind fun t => (extendLast part t.attributes).map (⟨t.name, ·⟩) with
  | some t => .ok { n with tag := some t }
  | none => .error (.unexpectedToken token.kind)

/-- A node that cannot stand inside a tag. -/
def content (n : Nesting) (token : Token) (node : Node) :
    Except MarkupError Nesting :=
  if n.tag.isSome then .error (.unexpectedToken token.kind) else .ok (n.push node)

/-- The end of a start tag. A void element has no children to wait for. -/
def closeTag (n : Nesting) (token : Token) : Except MarkupError Nesting :=
  match n.tag with
  | none => .error (.unexpectedToken token.kind)
  | some t =>
      let n := { n with tag := none, inValue := false }
      if isVoidElement t.name then .ok (n.push (.element t.name t.attributes []))
      else .ok { n with stack := ⟨t.name, t.attributes, []⟩ :: n.stack }

/-- The end of an element. Inside a tag it ends that tag's element. Otherwise
it has to name the innermost open element; the end of a void element that does
not is passed over. -/
def closeElement (n : Nesting) (name : String) : Except MarkupError Nesting :=
  match n.tag with
  | some t =>
      .ok (push { n with tag := none, inValue := false }
        (.element t.name t.attributes []))
  | none =>
      let n := { n with inValue := false }
      match n.stack with
      | [] =>
          if isVoidElement name then .ok n
          else .error (.unexpectedClose name)
      | e :: outer =>
          if e.name = name then .ok (push { n with stack := outer } e.close)
          else if isVoidElement name then .ok n
          else .error (.mismatchedClose name e.name)

/-- Reads one token. -/
def step (n : Nesting) (token : Token) : Except MarkupError Nesting :=
  match token with
  | .text data => n.content token (.text data)
  | .comment data => n.content token (.comment data)
  | .startOpen name =>
      match n.tag with
      | some t => .error (.unclosedTag t.name)
      | none => .ok { n with tag := some ⟨name, []⟩, inValue := false }
  | .startClose _ => n.closeTag token
  | .elementEnd name => n.closeElement name
  | .attributeName name =>
      match n.tag with
      | none => .error (.unexpectedToken token.kind)
      | some t =>
          .ok { n with tag := some ⟨t.name, t.attributes ++ [⟨name, []⟩]⟩
                       inValue := true }
  | .attributeValue value => n.extendValue token (.literal value)
  | .placeholder =>
      if n.inValue then n.extendValue token .placeholder
      else
        match n.tag with
        | some t => .error (.strayPlaceholder t.name)
        | none => .ok (n.push .placeholder)

/-- The nodes, if nothing is left open. -/
def finish (n : Nesting) : Except MarkupError (List Node) :=
  match n.tag, n.stack with
  | some t, _ => .error (.unclosedTag t.name)
  | none, e :: _ => .error (.unclosedElement e.name)
  | none, [] => .ok n.finished

end Nesting

/-- The nodes that tokens write. -/
def Node.ofTokens (tokens : List Token) : Except MarkupError (List Node) := do
  let n ← tokens.foldlM Nesting.step .empty
  n.finish

end LiveMarkup
