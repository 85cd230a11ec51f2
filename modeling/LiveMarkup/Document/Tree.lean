import LiveMarkup.Markup.Void
import LiveMarkup.Text.Entity

/-!
# Trees

A tree is what stands under a node of a document, without the node's identity
or properties. Its markup and its text are functions of it.
-/

namespace LiveMarkup

/-- What a node is, with its tag or its data. -/
inductive NodeKind where
  | element (tag : String)
  | text (data : String)
  | comment (data : String)
  /-- A loose list of nodes. Inserting it somewhere moves its children. -/
  | fragment
deriving DecidableEq, Repr, Inhabited

namespace NodeKind

/-- The name of a kind. -/
def name : NodeKind → String
  | element _ => "element"
  | text _ => "text"
  | comment _ => "comment"
  | fragment => "fragment"

/-- The tag of an element, the data of text or a comment. -/
def data : NodeKind → String
  | element s | text s | comment s => s
  | fragment => ""

/-- The tag of an element. -/
def tag? : NodeKind → Option String
  | element tag => some tag
  | _ => none

/-- The same kind with new data, if it carries data that can change. -/
def withData? : NodeKind → String → Option NodeKind
  | text _, s => some (text s)
  | comment _, s => some (comment s)
  | _, _ => none

end NodeKind

/-- Attributes in the order in which they were first written. -/
abbrev Attributes := List (String × String)

/-- Attributes as they stand in a tag. -/
def Attributes.markup : Attributes → String
  | [] => ""
  | a :: rest =>
      " " ++ a.1 ++ "=\"" ++ Entity.encodeAttribute a.2 ++ "\"" ++
        Attributes.markup rest

/-- The value of the first attribute of a name. -/
def Attributes.value? (attributes : Attributes) (name : String) : Option String :=
  attributes.lookup name

/-- Writes a value over the first attribute of a name, or adds it behind the
others. -/
def Attributes.write (name value : String) : Attributes → Attributes
  | [] => [(name, value)]
  | a :: rest =>
      if a.1 = name then (name, value) :: rest
      else a :: Attributes.write name value rest

/-- Takes every attribute of a name away. -/
def Attributes.remove (name : String) (attributes : Attributes) : Attributes :=
  attributes.filter (·.1 != name)

/-- A node with everything under it. -/
inductive Tree where
  | node (kind : NodeKind) (attributes : Attributes) (children : List Tree)
deriving Repr, Inhabited

namespace Tree

def kind : Tree → NodeKind
  | node k _ _ => k

def attributes : Tree → Attributes
  | node _ as _ => as

def children : Tree → List Tree
  | node _ _ ts => ts

/-- A text node. -/
def text (data : String) : Tree := node (.text data) [] []

/-- A comment. -/
def comment (data : String) : Tree := node (.comment data) [] []

mutual

/-- Decides whether two trees are the same. -/
def decideEq : (t u : Tree) → Decidable (t = u)
  | node k as ts, node k' as' ts' =>
      if hk : k = k' then
        if ha : as = as' then
          match decideEqAll ts ts' with
          | isTrue ht => isTrue (by rw [hk, ha, ht])
          | isFalse ht => isFalse fun h => ht (by injection h)
        else isFalse fun h => ha (by injection h)
      else isFalse fun h => hk (by injection h)

/-- Decides whether two forests are the same. -/
def decideEqAll : (ts us : List Tree) → Decidable (ts = us)
  | [], [] => isTrue rfl
  | [], _ :: _ => isFalse (by simp)
  | _ :: _, [] => isFalse (by simp)
  | t :: ts, u :: us =>
      match decideEq t u, decideEqAll ts us with
      | isTrue ht, isTrue hts => isTrue (by rw [ht, hts])
      | isFalse ht, _ => isFalse fun h => ht (by injection h)
      | _, isFalse hts => isFalse fun h => hts (by injection h)

end

instance : DecidableEq Tree := decideEq

mutual

/-- How many nodes a tree has. -/
def size : Tree → Nat
  | node _ _ ts => 1 + sizeAll ts

/-- How many nodes a forest has. -/
def sizeAll : List Tree → Nat
  | [] => 0
  | t :: ts => size t + sizeAll ts

end

mutual

/-- The markup of a tree. Text and attribute values are escaped, comments are
not; a void element is written without children and end tag; a fragment is
written as its children. -/
def html : Tree → String
  | node (.text data) _ _ => Entity.encodeText data
  | node (.comment data) _ _ => "<!--" ++ data ++ "-->"
  | node .fragment _ ts => htmlAll ts
  | node (.element tag) as ts =>
      let start := "<" ++ tag ++ Attributes.markup as ++ ">"
      if isVoidElement tag then start
      else start ++ htmlAll ts ++ "</" ++ tag ++ ">"

/-- The markup of a forest. -/
def htmlAll : List Tree → String
  | [] => ""
  | t :: ts => html t ++ htmlAll ts

end

mutual

/-- The data of all text nodes of a tree, comments apart. Nothing under a text
node or a comment counts. -/
def textContent : Tree → String
  | node (.text data) _ _ => data
  | node (.comment _) _ _ => ""
  | node .fragment _ ts => textContentAll ts
  | node (.element _) _ ts => textContentAll ts

/-- The text of a forest. -/
def textContentAll : List Tree → String
  | [] => ""
  | t :: ts => textContent t ++ textContentAll ts

end

end Tree

end LiveMarkup
