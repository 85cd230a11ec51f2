import LiveMarkup.Instance.Span

/-!
# Patching

Giving an instance new values writes only what differs from what is there.
A region keeps a text node whose data it can change and an instance of the
same template whose values it can change; it leaves a shared instance alone
that still sits there; everything else it clears and renders anew.

What a value does is worked out along the value itself: how it is rendered
where nothing is yet, and how it changes an instance of its own template. A
failure keeps all changes that were made before it.
-/

namespace LiveMarkup

/-! ## Attributes and properties -/

/-- The text of a bound value. -/
def AttributeBinding.joined (b : AttributeBinding) (value : Nat → Value) : String :=
  String.join (b.parts.map fun
    | .literal text => text
    | .placeholder index => (value index).text)

/-- What a bound property should hold. -/
def AttributeBinding.property (b : AttributeBinding) (value : Nat → Value) :
    PropertyValue :=
  match b.single? with
  | some index => (value index).toProperty
  | none => .str (b.joined value)

/-- What a bound attribute should be; `none` if it should not be there. -/
def AttributeBinding.attribute? (b : AttributeBinding) (value : Nat → Value) :
    Option String :=
  match b.single? with
  | some index =>
      if (value index).isRemoval then none else some (b.joined value)
  | none => some (b.joined value)

/-- Writes a property that does not hold what it should. -/
def Document.updateProperty (d : Document) (n : NodeId) (name : String)
    (next : PropertyValue) : Document :=
  match d.property? n name with
  | some current =>
      if current.equals next then d else d.setProperty n name next
  | none => d.setProperty n name next

/-- Writes or takes away an attribute that is not what it should be. -/
def Document.updateAttribute (d : Document) (n : NodeId) (name : String)
    (next : Option String) : Document :=
  if d.attribute? n name = next then d
  else
    match next with
    | none => d.removeAttribute n name
    | some value => d.setAttribute n name value

/-- Brings one binding up to date. -/
def AttributeBinding.apply (b : AttributeBinding) (element : NodeId)
    (value : Nat → Value) (d : Document) : Document :=
  match b.target with
  | .property => d.updateProperty element b.name (b.property value)
  | .attribute => d.updateAttribute element b.name (b.attribute? value)

/-- Brings bindings up to date, in order. -/
def applyBindings (value : Nat → Value) (bindings : List (AttributeBinding × NodeId))
    (d : Document) : Document :=
  bindings.foldl (fun d b => b.1.apply b.2 value d) d

/-! ## What a value does -/

/-- How a value is shown. -/
structure Rendering where
  /-- Makes one node to insert, and tells what a region then holds. -/
  fresh : Document → Except PatchError (NodeId × Content) × Document
  /-- Changes an instance of the value's own template. -/
  again : Instance → Document → Instance × Option PatchError × Document

/-- A value with how it is shown. -/
abbrev Supply := Value × Rendering

/-- A single text node. -/
def Rendering.text (data : String) : Rendering where
  fresh d :=
    let (n, d) := d.create (.text data)
    (.ok (n, .text n data), d)
  again i d := (i, none, d)

/-- The value that counts where none is supplied. -/
def Supply.missing : Supply :=
  (.undefined, .text "")

/-- The supply for a placeholder. -/
def supplyAt (supplies : List Supply) (index : Nat) : Supply :=
  supplies[index]?.getD .missing

/-! ## Regions -/

namespace Region

/-- Takes out whatever stands between the markers. -/
def clear (r : Region) (d : Document) : Option PatchError × Document :=
  match d.parent? r.first with
  | none => (some (.detachedMarker r.path), d)
  | some parent =>
      let following := d.siblingsAfter r.first
      let d := d.removeChildren parent (d.between r.first r.last)
      if r.last ∈ following then (none, d)
      else (some (.missingEndMarker r.path), d)

/-- Puts a rendered node before the last marker. -/
def fill (r : Region) (n : NodeId) (content : Content) (d : Document) :
    Region × Option PatchError × Document :=
  match d.parent? r.last with
  | none => (r, some (.detachedMarker r.path), d)
  | some parent =>
      if d.contains n then
        let d := d.insertBefore parent n (some r.last)
        let content :=
          match content with
          | .nodes _ => .nodes (d.between r.first r.last)
          | content => content
        ({ r with content := content }, none, d)
      else (r, some (.unknownNode n), d)

/-- Clears the region and renders a value anew. -/
def replace (r : Region) (rendering : Rendering) (d : Document) :
    Region × Option PatchError × Document :=
  let r := { r with content := .empty }
  match r.clear d with
  | (some e, d) => (r, some e, d)
  | (none, d) =>
      match rendering.fresh d with
      | (.error e, d) => (r, some e, d)
      | (.ok (n, content), d) => r.fill n content d

/-- Whether a span still begins between the markers. An instance without nodes
is nowhere, so it never has to be brought back. -/
def holds (r : Region) (span : List NodeId) (d : Document) : Bool :=
  match span.head? with
  | none => true
  | some n => (d.between r.first r.last).contains n

/-- Gives a region a value. -/
def update (spans : InstanceId → List NodeId) (supply : Supply) (r : Region)
    (d : Document) : Region × Option PatchError × Document :=
  match r.content, supply.1 with
  | .shared current, .shared next =>
      if current = next ∧ r.holds (spans next) d = true then (r, none, d)
      else r.replace supply.2 d
  | .own inner, .template source _ =>
      if inner.source = source then
        let (inner, e, d) := supply.2.again inner d
        ({ r with content := .own inner }, e, d)
      else r.replace supply.2 d
  | .text n data, value =>
      if value.isTextLike then
        if data = value.text then (r, none, d)
        else
          ({ r with content := .text n value.text }, none, d.setText n value.text)
      else r.replace supply.2 d
  | _, _ => r.replace supply.2 d

/-- Gives regions their values, in order, up to the first failure. -/
def updateAll (spans : InstanceId → List NodeId) (supplies : List Supply) :
    List Region → Document → List Region × Option PatchError × Document
  | [], d => ([], none, d)
  | r :: rest, d =>
      match r.update spans (supplyAt supplies r.placeholder) d with
      | (r, some e, d) => (r :: rest, some e, d)
      | (r, none, d) =>
          let (rest, e, d) := updateAll spans supplies rest d
          (r :: rest, e, d)

end Region

/-! ## Instances -/

/-- Writes supplies to every place of an instance. -/
def Instance.supply (spans : InstanceId → List NodeId) (supplies : List Supply)
    (i : Instance) (d : Document) : Instance × Option PatchError × Document :=
  let d := applyBindings (fun index => (supplyAt supplies index).1)
    (i.source.template.attributes.zip i.elements) d
  let (regions, e, d) := Region.updateAll spans supplies i.regions d
  ({ i with regions := regions }, e, d)

/-- Makes an instance and writes supplies to it. -/
def Instance.createWith (spans : InstanceId → List NodeId)
    (source : CompiledTemplate) (supplies : List Supply) (d : Document) :
    Except PatchError Instance × Document :=
  match Instance.create source d with
  | (.error e, d) => (.error e, d)
  | (.ok i, d) =>
      match i.supply spans supplies d with
      | (_, some e, d) => (.error e, d)
      | (i, none, d) => (.ok i, d)

/-- Renders items one after the other at the end of a fragment. -/
def renderItems (fragment : NodeId) :
    List Supply → Document → Option PatchError × Document
  | [], d => (none, d)
  | item :: rest, d =>
      match item.2.fresh d with
      | (.error e, d) => (some e, d)
      | (.ok (n, _), d) =>
          if d.contains n then renderItems fragment rest (d.append fragment n)
          else (some (.unknownNode n), d)

mutual

/-- How a value is shown, given the spans of the shared instances. -/
def Value.rendering (spans : InstanceId → List NodeId) : Value → Rendering
  | .node n =>
      { fresh := fun d => (.ok (n, .nodes []), d)
        again := fun i d => (i, none, d) }
  | .list items =>
      let supplies := Value.supplies spans items
      { fresh := fun d =>
          let (fragment, d) := d.create .fragment
          match renderItems fragment supplies d with
          | (some e, d) => (.error e, d)
          | (none, d) => (.ok (fragment, .nodes []), d)
        again := fun i d => (i, none, d) }
  | .template source values =>
      let supplies := Value.supplies spans values
      { fresh := fun d =>
          match Instance.createWith spans source supplies d with
          | (.error e, d) => (.error e, d)
          | (.ok i, d) => (.ok (i.fragment, .own i), d)
        again := fun i d => i.supply spans supplies d }
  | .shared id =>
      { fresh := fun d =>
          let (fragment, d) := d.gather (spans id)
          (.ok (fragment, .shared id), d)
        again := fun i d => (i, none, d) }
  | .undefined | .null => .text ""
  | .bool b => .text (Value.text (.bool b))
  | .number x => .text (Value.text (.number x))
  | .str s => .text s

/-- Values with how they are shown. -/
def Value.supplies (spans : InstanceId → List NodeId) : List Value → List Supply
  | [] => []
  | v :: vs => (v, Value.rendering spans v) :: Value.supplies spans vs

end

/-- Gives an instance new values. A missing value counts as undefined. -/
def Instance.patch (spans : InstanceId → List NodeId) (values : List Value)
    (i : Instance) (d : Document) : Instance × Option PatchError × Document :=
  i.supply spans (Value.supplies spans values) d

/-- Renders a value into one node, ready to be inserted. -/
def Value.render (spans : InstanceId → List NodeId) (v : Value) (d : Document) :
    Except PatchError NodeId × Document :=
  match (Value.rendering spans v).fresh d with
  | (.error e, d) => (.error e, d)
  | (.ok (n, _), d) => (.ok n, d)

end LiveMarkup
