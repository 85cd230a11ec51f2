import LiveMarkup.Instance.Patch
import LiveMarkup.Template.Cache
import LiveMarkup.Text.Quoted

/-!
# Reports on template files

What the command line prints for a template file, whose placeholders are
written as pairs of empty braces: its tokens, its tree, its bindings, or its
markup with values filled in. A failure says what was being done and why it
could not be.
-/

namespace LiveMarkup

/-- A failure: what was being done, and the causes, outermost first. -/
structure Failure where
  context : String
  causes : List String
deriving DecidableEq, Repr

/-- Why the text of a file cannot be had. -/
inductive FileFault where
  | missing
  | notText
  /-- Something else, in the words of the system. -/
  | other (reason : String)
deriving DecidableEq, Repr

/-- The message of a fault. -/
def FileFault.message : FileFault → String
  | missing => "No such file or directory (os error 2)"
  | notText => "stream did not contain valid UTF-8"
  | other reason => reason

/-- A template file: its name, and its text if it can be had. -/
structure TemplateFile where
  name : String
  text : Except FileFault String

/-- A file with given bytes. -/
def TemplateFile.ofBytes (name : String) (bytes : ByteArray) : TemplateFile :=
  ⟨name, match String.fromUTF8? bytes with
    | some text => .ok text
    | none => .error .notText⟩

namespace TemplateFile

/-- The mark of a placeholder. -/
def placeholderMark : String := "\x7b\x7d"

/-- The segments of a file. -/
def segments (file : TemplateFile) : Except Failure (List String) :=
  match file.text with
  | .ok text => .ok (splitPlaceholders text)
  | .error fault => .error ⟨"failed to read " ++ file.name, [fault.message]⟩

/-- A step on the markup of a file. -/
def attempt {α : Type} (file : TemplateFile) (verb : String)
    (result : Except MarkupError α) : Except Failure α :=
  result.mapError fun e => ⟨"failed to " ++ verb ++ " " ++ file.name, [e.message]⟩

def tokens (file : TemplateFile) : Except Failure (List Token) := do
  file.attempt "tokenize" (Token.ofSegments (← file.segments))

def nodes (file : TemplateFile) : Except Failure (List Node) := do
  file.attempt "parse" (Node.ofTokens (← file.tokens))

def template (file : TemplateFile) : Except Failure Template := do
  file.attempt "compile" (Template.ofSegments (← file.segments))

end TemplateFile

namespace Report

/-- Lines, each with its end. -/
def unlines (lines : List String) : String :=
  String.join (lines.map (· ++ "\n"))

/-! ## Tokens -/

/-- A token's kind and, unless it is empty, its value. -/
def tokenLine (t : Token) : String :=
  if t.value.isEmpty then t.kind else t.kind ++ " " ++ Quoted.quote t.value

/-- The tokens of a file, one on a line. -/
def tokens (file : TemplateFile) : Except Failure String := do
  return unlines ((← file.tokens).map tokenLine)

/-! ## The tree -/

/-- An attribute's value as it is written, with marks for placeholders. -/
def writtenValue (value : List ValuePart) : String :=
  String.join (value.map fun
    | .literal text => text
    | .placeholder => TemplateFile.placeholderMark)

/-- Two blanks for every level. -/
def indent (depth : Nat) : String :=
  String.ofList (List.replicate (2 * depth) ' ')

/-- The line of an element. -/
def elementLine (name : String) (attributes : List Attribute) : String :=
  "<" ++ name ++ ">" ++ String.join (attributes.map fun a =>
    " " ++ a.name ++ "=" ++ Quoted.quote (writtenValue a.value))

mutual

/-- The lines of a node. -/
def nodeLines (depth : Nat) : Node → List String
  | .text data => [indent depth ++ "text " ++ Quoted.quote data]
  | .comment data => [indent depth ++ "comment " ++ Quoted.quote data]
  | .placeholder => [indent depth ++ "placeholder"]
  | .element name attributes children =>
      (indent depth ++ elementLine name attributes) ::
        nodeLinesAll (depth + 1) children

/-- The lines of nodes. -/
def nodeLinesAll (depth : Nat) : List Node → List String
  | [] => []
  | n :: ns => nodeLines depth n ++ nodeLinesAll depth ns

end

/-- The tree of a file, indented. -/
def tree (file : TemplateFile) : Except Failure String := do
  return unlines (nodeLinesAll 0 (← file.nodes))

/-! ## Bindings -/

/-- A placeholder by its number. -/
def placeholderName (index : Nat) : String :=
  "$" ++ toString index

def propertyLine (p : LiteralProperty) : String :=
  "property " ++ p.path.text ++ " ." ++ p.name ++ " = " ++ Quoted.quote p.value

def partText : BindingPart → String
  | .literal text => Quoted.quote text
  | .placeholder index => placeholderName index

def attributeLine (b : AttributeBinding) : String :=
  b.target.name ++ " " ++ b.path.text ++ " " ++ b.name ++ " = " ++
    " + ".intercalate (b.parts.map partText)

def contentLine (b : ContentBinding) : String :=
  "content " ++ b.path.text ++ " = " ++ placeholderName b.placeholder

/-- The bindings of a file. -/
def bindings (file : TemplateFile) : Except Failure String := do
  let t ← file.template
  return unlines
    (("placeholders: " ++ toString t.placeholderCount) ::
      t.properties.map propertyLine ++ t.attributes.map attributeLine ++
      t.contents.map contentLine)

/-! ## Markup -/

/-- The markup of a file with values filled in, in order. -/
def render (file : TemplateFile) (words : List String) : Except Failure String := do
  let t ← file.template
  match Instance.create ⟨0, t⟩ .empty with
  | (.error e, _) => .error ⟨"failed to instantiate template", [e.message]⟩
  | (.ok i, d) =>
      match i.patch (fun _ => []) (words.map Value.ofWord) d with
      | (_, some e, _) => .error ⟨"failed to apply values", [e.message]⟩
      | (i, none, d) => .ok (d.innerHtml i.fragment)

end Report

end LiveMarkup
