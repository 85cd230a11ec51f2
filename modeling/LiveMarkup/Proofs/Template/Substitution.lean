import LiveMarkup.Instance.Patch
import LiveMarkup.Proofs.Document.Scene
import LiveMarkup.Template.Compile
import Mathlib.Data.List.Dedup

/-!
# Substitution

What nodes with values should look like, by recursion over the nodes and
nothing else: no template, no paths, no document. Placeholders are numbered in
the order in which they are written, an element's attributes before its
children. Of several attributes of one name the last one with a placeholder
counts, or the last one if none of them has a placeholder.
-/

namespace LiveMarkup

/-! ## Counting placeholders -/

/-- The placeholders in the value of an attribute. -/
def Attribute.placeholders (a : Attribute) : Nat :=
  a.value.count .placeholder

/-- Whether at least one placeholder feeds an attribute. -/
def Attribute.isBound (a : Attribute) : Bool :=
  a.value.contains .placeholder

def Attribute.placeholdersAll : List Attribute → Nat
  | [] => 0
  | a :: as => a.placeholders + Attribute.placeholdersAll as

mutual

/-- The placeholders of a node. -/
def Node.placeholders : Node → Nat
  | .text _ | .comment _ => 0
  | .placeholder => 1
  | .element _ as children =>
      Attribute.placeholdersAll as + Node.placeholdersAll children

def Node.placeholdersAll : List Node → Nat
  | [] => 0
  | n :: ns => n.placeholders + Node.placeholdersAll ns

end

/-! ## Attributes -/

namespace Substitution

variable (value : Nat → Value)

/-- The text of the pieces of a value, the first placeholder among them having
the number `k`. -/
def joined (k : Nat) : List ValuePart → String
  | [] => ""
  | .literal text :: rest => Entity.decode text ++ joined k rest
  | .placeholder :: rest => (value k).text ++ joined (k + 1) rest

/-- Attributes, each with the number of its first placeholder. -/
def numbered (next : Nat) : List Attribute → List (Nat × Attribute)
  | [] => []
  | a :: as => (next, a) :: numbered (next + a.placeholders) as

/-- The attribute that decides about a name: the last one with a placeholder,
or else the last one. -/
def deciding (target : BindingTarget × String) (next : Nat) (as : List Attribute) :
    Option (Nat × Attribute) :=
  let written := (numbered next as).filter fun o => Compile.targetOf o.2.name = target
  (written.filter (·.2.isBound)).getLast?.or written.getLast?

/-- What an attribute that decides says. A placeholder that is the whole value
takes the attribute away for undefined, null and false. -/
def attributeText (o : Nat × Attribute) : Option String :=
  if o.2.value = [.placeholder] ∧ (value o.1).isRemoval = true then none
  else some (joined value o.1 o.2.value)

/-- What a property that decides says. -/
def propertyValue (o : Nat × Attribute) : PropertyValue :=
  if o.2.value = [.placeholder] then (value o.1).toProperty
  else .str (joined value o.1 o.2.value)

/-- The value of an attribute of an element. -/
def attribute? (next : Nat) (as : List Attribute) (name : String) : Option String :=
  (deciding (.attribute, name) next as).bind (attributeText value)

/-- The value of a property of an element. -/
def property? (next : Nat) (as : List Attribute) (name : String) :
    Option PropertyValue :=
  (deciding (.property, name) next as).map (propertyValue value)

/-- The names that are written in a tag, each once. -/
def names (as : List Attribute) : List String :=
  (as.map fun a => (Compile.targetOf a.name).2).dedup

/-- The attributes of an element. -/
def attributes (next : Nat) (as : List Attribute) : Attributes :=
  (names as).filterMap fun name => (attribute? value next as name).map (name, ·)

/-! ## Nodes -/

variable (content : Nat → List Scene)

mutual

/-- What a node looks like. Content between nodes stands between two empty
comments. -/
def node (next : Nat) : Node → List Scene
  | .text data => [.text (Entity.decode data)]
  | .comment data => [.comment (Entity.decode data)]
  | .placeholder => .comment "" :: content next ++ [.comment ""]
  | .element name as children =>
      [.node (.element name) (attributes value next as) (property? value next as)
        (nodes (next + Attribute.placeholdersAll as) children)]

/-- What several nodes look like. -/
def nodes (next : Nat) : List Node → List Scene
  | [] => []
  | n :: ns => node next n ++ nodes (next + n.placeholders) ns

end

end Substitution

/-! ## Values -/

namespace Value

/-- The value for a placeholder; a missing one counts as undefined. -/
def supplied (values : List Value) (k : Nat) : Value :=
  values[k]?.getD .undefined

variable (markup : CompiledTemplate → List Node)

mutual

/-- What a value looks like between nodes, given the nodes that each template
was compiled from. -/
def scenes : Value → List Scene
  | .list items => (scenesAll items).flatten
  | .template source values =>
      let each := scenesAll values
      Substitution.nodes (supplied values) (fun k => each[k]?.getD [.text ""]) 0
        (markup source)
  | .undefined | .null => [.text ""]
  | .bool b => [.text (Value.text (.bool b))]
  | .number x => [.text (Value.text (.number x))]
  | .str s => [.text s]
  | .node _ | .shared _ => []

def scenesAll : List Value → List (List Scene)
  | [] => []
  | v :: vs => scenes v :: scenesAll vs

end

/-- What the value for a placeholder looks like. -/
def suppliedScenes (values : List Value) (k : Nat) : List Scene :=
  (supplied values k).scenes markup

mutual

/-- Whether a value is made of plain data, lists and templates of some kind. -/
def IsPlain (compiled : CompiledTemplate → Prop) : Value → Prop
  | .list items => ArePlain compiled items
  | .template source values => compiled source ∧ ArePlain compiled values
  | .undefined | .null | .bool _ | .number _ | .str _ => True
  | .node _ | .shared _ => False

/-- Whether values are made of plain data, lists and templates of some kind. -/
def ArePlain (compiled : CompiledTemplate → Prop) : List Value → Prop
  | [] => True
  | v :: vs => IsPlain compiled v ∧ ArePlain compiled vs

end

theorem scenes_of_isTextLike {v : Value} (h : v.isTextLike = true) :
    v.scenes markup = [.text v.text] := by
  cases v with
  | undefined | null | bool | number | str => rfl
  | _ => cases h

theorem getElem?_scenesAll (values : List Value) (k : Nat) :
    (scenesAll markup values)[k]? = (values[k]?).map (scenes markup) := by
  induction values generalizing k with
  | nil => rfl
  | cons v vs ih =>
      cases k with
      | zero => rfl
      | succ k => simpa [scenesAll] using ih k

theorem getElem?_scenesAll_getD (values : List Value) (k : Nat) :
    (scenesAll markup values)[k]?.getD [.text ""] = suppliedScenes markup values k := by
  rw [getElem?_scenesAll, suppliedScenes, supplied]
  cases values[k]? <;> rfl

/-- A template looks like its nodes with its values. -/
theorem scenes_template (source : CompiledTemplate) (values : List Value) :
    scenes markup (.template source values) =
      Substitution.nodes (supplied values) (suppliedScenes markup values) 0
        (markup source) := by
  simp only [scenes, getElem?_scenesAll_getD]

end Value

end LiveMarkup
