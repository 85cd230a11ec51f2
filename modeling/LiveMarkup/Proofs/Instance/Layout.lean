import LiveMarkup.Proofs.Document.Placed
import LiveMarkup.Proofs.Template.Tables

/-!
# Where an instance stands

A layout says which branches the nodes of a template have become: which
elements its bindings write to, where the markers of its regions are, and what
stands between them. What is said about the attributes of elements is left
open, so that one layout serves before and after values are written.

An instance fits branches if they are laid out as its template says, its
top-level nodes are the topmost ones but for what is between markers, and each
region remembers what is really between its markers, for instances inside
regions too.
-/

namespace LiveMarkup

open Branch (idsAll tops)
open Substitution (lastBound)

namespace Branch

/-- A text node. -/
def text (n : NodeId) (data : String) : Branch := node n (.text data) [] ∅ []

/-- A comment. -/
def comment (n : NodeId) (data : String) : Branch := node n (.comment data) [] ∅ []

end Branch

/-! ## Layouts -/

/-- A content region with what stands between its markers. -/
structure Mark where
  placeholder : Nat
  first : NodeId
  last : NodeId
  held : List Branch

/-- The markers of a region and what stands between them. -/
def Mark.branches (m : Mark) : List Branch :=
  .comment m.first "" :: m.held ++ [.comment m.last ""]

/-- The branches that nodes have become, with the elements of their bindings
and the marks of their regions; `next` is the number of their first
placeholder. -/
inductive Layout (say : Nat → List Attribute → Attributes → Properties → Prop) :
    Nat → List Node → List NodeId → List Mark → List Branch → Prop
  | nil {next : Nat} : Layout say next [] [] [] []
  | text {next : Nat} {data : String} {n : NodeId} {rest : List Node}
      {elements : List NodeId} {marks : List Mark} {bs : List Branch} :
      Layout say next rest elements marks bs →
      Layout say next (.text data :: rest) elements marks
        (.text n (Entity.decode data) :: bs)
  | comment {next : Nat} {data : String} {n : NodeId} {rest : List Node}
      {elements : List NodeId} {marks : List Mark} {bs : List Branch} :
      Layout say next rest elements marks bs →
      Layout say next (.comment data :: rest) elements marks
        (.comment n (Entity.decode data) :: bs)
  | placeholder {m : Mark} {rest : List Node} {elements : List NodeId}
      {marks : List Mark} {bs : List Branch} :
      Layout say (m.placeholder + 1) rest elements marks bs →
      Layout say m.placeholder (.placeholder :: rest) elements (m :: marks)
        (m.branches ++ bs)
  | element {next : Nat} {name : String} {as : List Attribute} {children rest : List Node}
      {n : NodeId} {attributes : Attributes} {properties : Properties}
      {inner elements : List NodeId} {held marks : List Mark} {under bs : List Branch} :
      say next as attributes properties →
      Layout say (next + Attribute.placeholdersAll as) children inner held under →
      Layout say
        (next + (Attribute.placeholdersAll as + Node.placeholdersAll children)) rest
        elements marks bs →
      Layout say next (.element name as children :: rest)
        (List.replicate (as.countP Attribute.isBound) n ++ inner ++ elements)
        (held ++ marks)
        (.node n (.element name) attributes properties under :: bs)

/-! ## Topmost nodes -/

mutual

/-- How many content regions a node takes. -/
def Node.gaps : Node → Nat
  | .text _ | .comment _ => 0
  | .placeholder => 1
  | .element _ _ children => Node.gapsAll children

def Node.gapsAll : List Node → Nat
  | [] => 0
  | n :: ns => n.gaps + Node.gapsAll ns

end

namespace Layout

/-- The topmost nodes that stand for nodes of the template: all but what is
between markers. -/
def roots : List Node → List Mark → List Branch → List NodeId
  | [], _, _ => []
  | .placeholder :: rest, m :: marks, bs =>
      m.first :: m.last :: roots rest marks (bs.drop m.branches.length)
  | n :: rest, marks, b :: bs => b.id :: roots rest (marks.drop n.gaps) bs
  | _ :: _, _, [] => []

variable {say : Nat → List Attribute → Attributes → Properties → Prop} {next : Nat}
  {ns rest : List Node} {elements : List NodeId} {marks : List Mark} {bs : List Branch}

theorem length_marks (h : Layout say next ns elements marks bs) :
    marks.length = Node.gapsAll ns := by
  induction h with
  | nil => rfl
  | text _ ih | comment _ ih => simpa [Node.gapsAll, Node.gaps] using ih
  | placeholder _ ih => simp [Node.gapsAll, Node.gaps, ih, Nat.add_comm]
  | element _ _ _ ihUnder ihRest => simp [Node.gapsAll, Node.gaps, ihUnder, ihRest]

theorem roots_text (data : String) (marks : List Mark) (b : Branch) (bs : List Branch) :
    roots (.text data :: rest) marks (b :: bs) = b.id :: roots rest marks bs := rfl

theorem roots_comment (data : String) (marks : List Mark) (b : Branch) (bs : List Branch) :
    roots (.comment data :: rest) marks (b :: bs) = b.id :: roots rest marks bs := rfl

theorem roots_placeholder (m : Mark) (marks : List Mark) (bs : List Branch) :
    roots (.placeholder :: rest) (m :: marks) (m.branches ++ bs) =
      m.first :: m.last :: roots rest marks bs := by
  rw [roots, List.drop_left]

theorem roots_element {name : String} {as : List Attribute} {children : List Node}
    {inner : List NodeId} {held : List Mark} {under : List Branch} {next : Nat}
    (h : Layout say next children inner held under) (b : Branch) :
    roots (.element name as children :: rest) (held ++ marks) (b :: bs) =
      b.id :: roots rest marks bs := by
  rw [roots, Node.gaps, ← h.length_marks, List.drop_left]
  simp

theorem roots_of_bare (h : Layout say next ns elements marks bs)
    (hheld : ∀ m ∈ marks, m.held = []) : roots ns marks bs = tops bs := by
  induction h with
  | nil => rfl
  | text _ ih => rw [roots_text, ih hheld, Branch.tops_cons]
  | comment _ ih => rw [roots_comment, ih hheld, Branch.tops_cons]
  | @placeholder m rest elements marks bs _ ih =>
      have hnone := hheld m List.mem_cons_self
      rw [roots_placeholder, ih fun m hm => hheld m (List.mem_cons_of_mem _ hm)]
      simp [Mark.branches, hnone, Branch.comment]
  | element _ hunder _ _ ihRest =>
      rw [roots_element hunder, ihRest fun m hm => hheld m (List.mem_append_right _ hm),
        Branch.tops_cons]

end Layout

/-- Whether a placeholder feeds a content region. -/
def Template.Feeds (t : Template) (k : Nat) : Prop :=
  k ∈ t.contents.map ContentBinding.placeholder

theorem Layout.placeholders {say : Nat → List Attribute → Attributes → Properties → Prop}
    {next : Nat} {ns : List Node} {elements : List NodeId} {marks : List Mark}
    {bs : List Branch} (h : Layout say next ns elements marks bs) (path : NodePath)
    (index : Nat) :
    marks.map Mark.placeholder =
      (Compile.nodes path index next ns).contents.map ContentBinding.placeholder := by
  induction h generalizing path index with
  | nil => rfl
  | text _ ih => simpa [Compile.nodes, Compile.node] using ih path (index + 1)
  | comment _ ih => simpa [Compile.nodes, Compile.node] using ih path (index + 1)
  | placeholder _ ih => simpa [Compile.nodes, Compile.node] using ih path (index + 2)
  | element _ _ _ ihUnder ihRest =>
      simp [Compile.nodes, Compile.node, Compile.next_attributes, Compile.next_nodes,
        ihUnder (path ++ [index]) 0, ihRest path (index + 1), Nat.add_assoc]

/-! ## Attributes in a layout -/

/-- No name is there twice, and each name says what values make it say. -/
structure Settled (value : Nat → Value) (next : Nat) (as : List Attribute)
    (attributes : Attributes) (properties : Properties) : Prop where
  keys : attributes.keys.Nodup
  text : ∀ name, attributes.value? name = Substitution.attribute? value next as name
  property : ∀ name,
    PropertyValue.Agree (properties.get? name) (Substitution.property? value next as name)

/-- No name is there twice, and each name that no placeholder feeds says what
is written. -/
structure Fixed (next : Nat) (as : List Attribute) (attributes : Attributes)
    (properties : Properties) : Prop where
  keys : attributes.keys.Nodup
  text : ∀ name, lastBound (.attribute, name) next as = none →
    ∀ value, attributes.value? name = Substitution.attribute? value next as name
  property : ∀ name, lastBound (.property, name) next as = none →
    ∀ value, PropertyValue.Agree (properties.get? name)
      (Substitution.property? value next as name)

namespace Substitution

theorem joined_literal (value value' : Nat → Value) (k : Nat) {parts : List ValuePart}
    (h : parts.contains .placeholder = false) :
    joined value k parts = joined value' k parts := by
  induction parts with
  | nil => rfl
  | cons part parts ih =>
      cases part with
      | placeholder => simp at h
      | literal text =>
          rw [joined, joined, ih (by simpa using h)]

theorem attributeText_literal (value : Nat → Value) {o : Nat × Attribute}
    (h : o.2.isBound = false) :
    attributeText value o = some (joined value o.1 o.2.value) := by
  refine if_neg fun hsole => ?_
  rw [Attribute.isBound, hsole.1] at h
  simp at h

theorem propertyValue_literal (value : Nat → Value) {o : Nat × Attribute}
    (h : o.2.isBound = false) :
    propertyValue value o = .str (joined value o.1 o.2.value) := by
  refine if_neg fun hsole => ?_
  rw [Attribute.isBound, hsole] at h
  simp at h

theorem attribute?_unbound (value value' : Nat → Value) {next : Nat}
    {as : List Attribute} {name : String}
    (hnone : lastBound (.attribute, name) next as = none) :
    attribute? value next as name =
      (lastWritten (.attribute, name) next as).map fun o =>
        joined value' o.1 o.2.value := by
  rw [attribute?, deciding_eq, hnone, Option.none_or]
  cases h : lastWritten (.attribute, name) next as with
  | none => rfl
  | some o =>
      have hliteral := isBound_lastWritten h hnone
      rw [Option.bind_some, attributeText_literal value hliteral,
        joined_literal value value' o.1 (by simpa [Attribute.isBound] using hliteral)]
      rfl

theorem property?_unbound (value value' : Nat → Value) {next : Nat}
    {as : List Attribute} {name : String}
    (hnone : lastBound (.property, name) next as = none) :
    property? value next as name =
      (lastWritten (.property, name) next as).map fun o =>
        .str (joined value' o.1 o.2.value) := by
  rw [property?, deciding_eq, hnone, Option.none_or]
  cases h : lastWritten (.property, name) next as with
  | none => rfl
  | some o =>
      have hliteral := isBound_lastWritten h hnone
      rw [Option.map_some, propertyValue_literal value hliteral,
        joined_literal value value' o.1 (by simpa [Attribute.isBound] using hliteral)]
      rfl

end Substitution

theorem Settled.fixed {value : Nat → Value} {next : Nat} {as : List Attribute}
    {attributes : Attributes} {properties : Properties}
    (h : Settled value next as attributes properties) :
    Fixed next as attributes properties where
  keys := h.keys
  text := by
    intro name hnone value'
    rw [h.text, Substitution.attribute?_unbound value value hnone,
      Substitution.attribute?_unbound value' value hnone]
  property := by
    intro name hnone value'
    have := h.property name
    rwa [Substitution.property?_unbound value value hnone,
      ← Substitution.property?_unbound value' value hnone] at this

theorem Layout.mono {say say' : Nat → List Attribute → Attributes → Properties → Prop}
    (hsay : ∀ {next as attributes properties},
      say next as attributes properties → say' next as attributes properties)
    {next : Nat} {nodes : List Node} {elements : List NodeId} {marks : List Mark}
    {bs : List Branch} (h : Layout say next nodes elements marks bs) :
    Layout say' next nodes elements marks bs := by
  induction h with
  | nil => exact .nil
  | text _ ih => exact .text ih
  | comment _ ih => exact .comment ih
  | placeholder _ ih => exact .placeholder ih
  | element h _ _ ihUnder ihRest => exact .element (hsay h) ihUnder ihRest

theorem Layout.bounded {say : Nat → List Attribute → Attributes → Properties → Prop}
    {next : Nat} {ns : List Node} {elements : List NodeId} {marks : List Mark}
    {bs : List Branch} (h : Layout say next ns elements marks bs) {count : Nat}
    (hcount : next + Node.placeholdersAll ns ≤ count) :
    Layout (fun k as attributes properties =>
      k + Attribute.placeholdersAll as ≤ count ∧ say k as attributes properties)
      next ns elements marks bs := by
  induction h with
  | nil => exact .nil
  | text _ ih => exact .text (ih (by simpa [Node.placeholdersAll, Node.placeholders] using hcount))
  | comment _ ih =>
      exact .comment (ih (by simpa [Node.placeholdersAll, Node.placeholders] using hcount))
  | placeholder _ ih =>
      simp only [Node.placeholdersAll, Node.placeholders] at hcount
      exact .placeholder (ih (by omega))
  | element hsay _ _ ihUnder ihRest =>
      simp only [Node.placeholdersAll, Node.placeholders] at hcount
      exact .element ⟨by omega, hsay⟩ (ihUnder (by omega)) (ihRest (by omega))

/-! ## Instances in a layout -/

section

variable (markup : CompiledTemplate → List Node)

mutual

/-- An instance stands where branches are; its template was compiled from its
markup. -/
def Instance.Fits : Instance → List Branch → Prop
  | ⟨source, _, nodes, elements, regions⟩, bs =>
      source.template = Template.ofNodes (markup source) ∧
        ∃ marks, Layout Fixed 0 (markup source) elements marks bs ∧
          nodes = Layout.roots (markup source) marks bs ∧ Region.FitAll regions marks

/-- Regions remember their markers and what is between them. -/
def Region.FitAll : List Region → List Mark → Prop
  | [], [] => True
  | ⟨_, placeholder, first, last, content⟩ :: regions, m :: marks =>
      placeholder = m.placeholder ∧ first = m.first ∧ last = m.last ∧
        content.Fits m.held ∧ Region.FitAll regions marks
  | _, _ => False

/-- A region remembers what is between its markers. Nothing is shared. -/
def Content.Fits : Content → List Branch → Prop
  | .empty, bs => bs = []
  | .text n data, bs => bs = [.text n data]
  | .own inner, bs => inner.Fits bs
  | .shared _, _ => False
  | .nodes held, bs => held = tops bs

end

/-- A region remembers its markers and what is between them. -/
structure Region.Fits (r : Region) (m : Mark) : Prop where
  placeholder : r.placeholder = m.placeholder
  first : r.first = m.first
  last : r.last = m.last
  content : r.content.Fits markup m.held

end

variable {markup : CompiledTemplate → List Node}

theorem Region.fitAll_cons {r : Region} {regions : List Region} {m : Mark}
    {marks : List Mark} :
    Region.FitAll markup (r :: regions) (m :: marks) ↔
      r.Fits markup m ∧ Region.FitAll markup regions marks := by
  obtain ⟨path, placeholder, first, last, content⟩ := r
  rw [Region.FitAll]
  exact ⟨fun ⟨h₁, h₂, h₃, h₄, h₅⟩ => ⟨⟨h₁, h₂, h₃, h₄⟩, h₅⟩,
    fun ⟨⟨h₁, h₂, h₃, h₄⟩, h₅⟩ => ⟨h₁, h₂, h₃, h₄, h₅⟩⟩

theorem Region.fitAll_nil {regions : List Region} :
    Region.FitAll markup regions [] ↔ regions = [] := by
  match regions with
  | [] => exact ⟨fun _ => rfl, fun _ => trivial⟩
  | ⟨_, _, _, _, _⟩ :: _ => exact ⟨False.elim, fun h => by simp at h⟩

theorem Region.fitAll_iff {regions : List Region} {marks : List Mark} :
    Region.FitAll markup regions marks ↔ List.Forall₂ (Region.Fits markup) regions marks := by
  induction marks generalizing regions with
  | nil => rw [Region.fitAll_nil, List.forall₂_nil_right_iff]
  | cons m marks ih =>
      cases regions with
      | nil =>
          constructor
          · exact False.elim
          · nofun
      | cons r regions => rw [Region.fitAll_cons, List.forall₂_cons, ih]

theorem Region.fitAll_append {regions : List Region} {held marks : List Mark}
    (h : Region.FitAll markup regions (held ++ marks)) :
    ∃ inner rest, regions = inner ++ rest ∧ Region.FitAll markup inner held ∧
      Region.FitAll markup rest marks := by
  induction held generalizing regions with
  | nil => exact ⟨[], regions, rfl, trivial, h⟩
  | cons m held ih =>
      cases regions with
      | nil => exact h.elim
      | cons r regions =>
          obtain ⟨hr, hrest⟩ := Region.fitAll_cons.mp h
          obtain ⟨inner, rest, rfl, hinner, hrest⟩ := ih hrest
          exact ⟨r :: inner, rest, rfl, Region.fitAll_cons.mpr ⟨hr, hinner⟩, hrest⟩

theorem Region.FitAll.append {inner rest : List Region} {held marks : List Mark}
    (h : Region.FitAll markup inner held) (h' : Region.FitAll markup rest marks) :
    Region.FitAll markup (inner ++ rest) (held ++ marks) := by
  induction held generalizing inner with
  | nil =>
      rw [Region.fitAll_nil.mp h]
      exact h'
  | cons m held ih =>
      cases inner with
      | nil => exact h.elim
      | cons r inner =>
          obtain ⟨hr, hinner⟩ := Region.fitAll_cons.mp h
          exact Region.fitAll_cons.mpr ⟨hr, ih hinner⟩

/-- An instance of given nodes stands where branches are. -/
structure Instance.FitsAs (markup : CompiledTemplate → List Node) (nodes : List Node)
    (i : Instance) (bs : List Branch) : Prop where
  template : i.source.template = Template.ofNodes nodes
  layout : ∃ marks, Layout Fixed 0 nodes i.elements marks bs ∧
    i.nodes = Layout.roots nodes marks bs ∧ Region.FitAll markup i.regions marks

theorem Instance.FitsAs.feeds {nodes : List Node} {i : Instance} {bs : List Branch}
    (h : i.FitsAs markup nodes bs) : ∀ r ∈ i.regions, i.source.template.Feeds r.placeholder := by
  obtain ⟨marks, hlayout, -, hregions⟩ := h.layout
  have hsame : i.regions.map Region.placeholder = marks.map Mark.placeholder := by
    rw [← List.forall₂_eq_eq_eq, List.forall₂_map_left_iff, List.forall₂_map_right_iff]
    exact (Region.fitAll_iff.mp hregions).imp fun _ _ hr => hr.placeholder
  intro r hr
  have hmem := List.mem_map_of_mem (f := Region.placeholder) hr
  rw [hsame, hlayout.placeholders [] 0] at hmem
  rw [h.template]
  exact hmem

theorem Instance.fits_iff {i : Instance} {bs : List Branch} :
    i.Fits markup bs ↔ i.FitsAs markup (markup i.source) bs := by
  cases i
  exact ⟨fun ⟨h, h'⟩ => ⟨h, h'⟩, fun ⟨h, h'⟩ => ⟨h, h'⟩⟩

end LiveMarkup
