import LiveMarkup.Proofs.Template.Tables

/-!
# Spots

A spot is what a placeholder feeds: a piece of the value of an attribute or a
property, or a content region. Nodes have their spots in document order, and
the tables of a template that is compiled from them hold these spots, each once
and numbered in that order.
-/

namespace LiveMarkup

/-! ## Spots -/

/-- What a placeholder can feed: a piece of a bound value, or a content region. -/
inductive Spot where
  | value (path : NodePath) (target : BindingTarget) (name : String) (piece : Nat)
  | content (path : NodePath)
deriving DecidableEq, Repr

/-- Whether a spot is a piece of a value. -/
def Spot.isValue : Spot → Bool
  | value .. => true
  | content _ => false

/-- The spot of a piece of an attribute of the element at a path. -/
def Attribute.spot (path : NodePath) (a : Attribute) (piece : Nat) : Spot :=
  .value path (Compile.targetOf a.name).1 (Compile.targetOf a.name).2 piece

/-- The spots in pieces of a value, the first of which has the number `first`. -/
def Attribute.spotsFrom (path : NodePath) (a : Attribute) (first : Nat)
    (parts : List ValuePart) : List Spot :=
  ((parts.zipIdx first).filter (·.1 = .placeholder)).map (a.spot path ·.2)

/-- The spots in the values of attributes. -/
def Attribute.spots (path : NodePath) (as : List Attribute) : List Spot :=
  as.flatMap fun a => a.spotsFrom path 0 a.value

/-- How many nodes of the static forest a node takes. -/
def Node.width : Node → Nat
  | .placeholder => 2
  | _ => 1

def Node.widthAll : List Node → Nat
  | [] => 0
  | n :: ns => n.width + Node.widthAll ns

mutual

/-- The spots of a node that comes to stand at `index` under the node at a path, in the
order in which they are written. -/
def Node.spots (path : NodePath) (index : Nat) : Node → List Spot
  | .text _ | .comment _ => []
  | .placeholder => [.content (path ++ [index])]
  | .element _ as children =>
      Attribute.spots (path ++ [index]) as ++ Node.spotsAll (path ++ [index]) 0 children

def Node.spotsAll (path : NodePath) (index : Nat) : List Node → List Spot
  | [] => []
  | n :: ns => n.spots path index ++ Node.spotsAll path (index + n.width) ns

end

/-- The spots of a bound value, each with the number of its placeholder. -/
def AttributeBinding.feeds (b : AttributeBinding) : List (Spot × Nat) :=
  b.parts.zipIdx.filterMap fun
    | (.placeholder k, piece) => some (.value b.path b.target b.name piece, k)
    | (.literal _, _) => none

/-- The numbers of the placeholders of a bound value. -/
def AttributeBinding.numbers (b : AttributeBinding) : List Nat :=
  b.parts.filterMap fun
    | .placeholder k => some k
    | .literal _ => none

namespace Template

/-- The spots of the two tables, each with the number of its placeholder. -/
def feeds (t : Template) : List (Spot × Nat) :=
  t.attributes.flatMap AttributeBinding.feeds ++
    t.contents.map fun c => (.content c.path, c.placeholder)

/-- The numbers of placeholders in the two tables. -/
def numbers (t : Template) : List Nat :=
  t.attributes.flatMap AttributeBinding.numbers ++ t.contents.map ContentBinding.placeholder

end Template

theorem AttributeBinding.map_snd_feeds (b : AttributeBinding) :
    b.feeds.map Prod.snd = b.numbers := by
  unfold feeds numbers
  generalize 0 = first
  induction b.parts generalizing first with
  | nil => rfl
  | cons part parts ih =>
      cases part <;> simpa [List.zipIdx_cons] using ih (first + 1)

theorem Template.map_snd_feeds (t : Template) : t.feeds.map Prod.snd = t.numbers := by
  unfold feeds numbers
  rw [List.map_append, List.map_flatMap, List.map_map]
  simp only [AttributeBinding.map_snd_feeds]
  rfl

/-! ## Compiling -/

theorem Node.spotsAll_append (path : NodePath) (index : Nat) (ms ns : List Node) :
    Node.spotsAll path index (ms ++ ns) =
      Node.spotsAll path index ms ++ Node.spotsAll path (index + Node.widthAll ms) ns := by
  induction ms generalizing index with
  | nil => simp [Node.spotsAll, Node.widthAll]
  | cons m ms ih => simp [Node.spotsAll, ih, Node.widthAll, Nat.add_assoc]

namespace Compile

theorem feeds_numberParts (path : NodePath) (a : Attribute) (first next : Nat)
    (parts : List ValuePart) :
    ((numberParts next parts).1.zipIdx first).filterMap (fun
        | (.placeholder k, piece) => some (a.spot path piece, k)
        | (.literal _, _) => none) =
      (a.spotsFrom path first parts).zipIdx next := by
  unfold Attribute.spotsFrom
  induction parts generalizing first next with
  | nil => rfl
  | cons part parts ih =>
      cases part with
      | literal text => simpa [numberParts, List.zipIdx_cons] using ih (first + 1) next
      | placeholder =>
          simpa [numberParts, List.zipIdx_cons] using ih (first + 1) (next + 1)

theorem feeds_bindingOf (path : NodePath) (next : Nat) (a : Attribute) :
    (bindingOf path (next, a)).feeds = (a.spotsFrom path 0 a.value).zipIdx next :=
  feeds_numberParts path a 0 next a.value

theorem length_spotsFrom (path : NodePath) (a : Attribute) (first : Nat)
    (parts : List ValuePart) :
    (a.spotsFrom path first parts).length = parts.count .placeholder := by
  unfold Attribute.spotsFrom
  induction parts generalizing first with
  | nil => rfl
  | cons part parts ih => cases part <;> simpa [List.zipIdx_cons] using ih (first + 1)

theorem length_spots (path : NodePath) (as : List Attribute) :
    (Attribute.spots path as).length = Attribute.placeholdersAll as := by
  induction as with
  | nil => rfl
  | cons a as ih =>
      show (a.spotsFrom path 0 a.value ++ Attribute.spots path as).length = _
      rw [List.length_append, length_spotsFrom, ih]
      rfl

theorem feeds_attributes (path : NodePath) (next : Nat) (as : List Attribute) :
    (attributes path next as).bindings.flatMap AttributeBinding.feeds =
      (Attribute.spots path as).zipIdx next := by
  rw [bindings_attributes, Substitution.bound]
  induction as generalizing next with
  | nil => rfl
  | cons a as ih =>
      show _ = (a.spotsFrom path 0 a.value ++ Attribute.spots path as).zipIdx next
      rw [List.zipIdx_append, length_spotsFrom, ← feeds_bindingOf, ← Attribute.placeholders,
        ← ih, Substitution.numbered]
      cases hbound : a.isBound with
      | true => simp [hbound]
      | false =>
          have hnone : (bindingOf path (next, a)).feeds = [] := by
            rw [feeds_bindingOf]
            have hlength := length_spotsFrom path a 0 a.value
            rw [← Attribute.placeholders, placeholders_of_literal hbound] at hlength
            rw [List.length_eq_zero_iff.mp hlength]
            rfl
          simp [hbound, hnone]

theorem length_spotsAll (path : NodePath) (index : Nat) (ns : List Node) :
    (Node.spotsAll path index ns).length = Node.placeholdersAll ns := by
  induction ns using Node.forestInduction generalizing path index with
  | nil => rfl
  | text data rest ih | comment data rest ih =>
      simp [Node.spotsAll, Node.spots, Node.placeholdersAll, Node.placeholders, ih]
  | placeholder rest ih =>
      simp [Node.spotsAll, Node.spots, Node.placeholdersAll, Node.placeholders, ih,
        Nat.add_comm]
  | element name as children rest ihChildren ihRest =>
      simp [Node.spotsAll, Node.spots, Node.placeholdersAll, Node.placeholders, ihChildren,
        ihRest, length_spots, Nat.add_assoc]

theorem isValue_spots {path : NodePath} {as : List Attribute} {o : Spot × Nat} {next : Nat}
    (h : o ∈ (Attribute.spots path as).zipIdx next) : o.1.isValue = true := by
  have hmem : o.1 ∈ Attribute.spots path as := List.fst_mem_of_mem_zipIdx h
  obtain ⟨a, -, hs⟩ := List.mem_flatMap.mp hmem
  obtain ⟨p, -, hspot⟩ := List.mem_map.mp hs
  rw [← hspot]
  rfl

theorem feeds_nodes_attributes (path : NodePath) (index next : Nat) (ns : List Node) :
    (nodes path index next ns).attributes.flatMap AttributeBinding.feeds =
      ((Node.spotsAll path index ns).zipIdx next).filter (·.1.isValue) := by
  induction ns using Node.forestInduction generalizing path index next with
  | nil => rfl
  | text data rest ih | comment data rest ih =>
      exact ih path (index + 1) next
  | placeholder rest ih =>
      show ((nodes path (index + 2) (next + 1) rest).attributes).flatMap _ = _
      rw [ih, Node.spotsAll, Node.spots, List.singleton_append, List.zipIdx_cons,
        List.filter_cons_of_neg (by simp [Spot.isValue])]
      rfl
  | element name as children rest ihChildren ihRest =>
      have hown : ((Attribute.spots (path ++ [index]) as).zipIdx next).filter (·.1.isValue) =
          (Attribute.spots (path ++ [index]) as).zipIdx next :=
        List.filter_eq_self.mpr fun o ho => isValue_spots ho
      simp only [nodes, node, List.flatMap_append, feeds_attributes, ihChildren, ihRest,
        Node.spotsAll, Node.spots, List.zipIdx_append, List.filter_append, hown,
        next_attributes, next_nodes, List.length_append, length_spots, length_spotsAll,
        Node.width, List.length_singleton, Nat.add_assoc]

theorem feeds_nodes_contents (path : NodePath) (index next : Nat) (ns : List Node) :
    (nodes path index next ns).contents.map (fun c => (Spot.content c.path, c.placeholder)) =
      ((Node.spotsAll path index ns).zipIdx next).filter (!·.1.isValue) := by
  induction ns using Node.forestInduction generalizing path index next with
  | nil => rfl
  | text data rest ih | comment data rest ih =>
      exact ih path (index + 1) next
  | placeholder rest ih =>
      show (Spot.content (path ++ [index]), next) ::
        (nodes path (index + 2) (next + 1) rest).contents.map _ = _
      rw [ih, Node.spotsAll, Node.spots, List.singleton_append, List.zipIdx_cons,
        List.filter_cons_of_pos (by simp [Spot.isValue])]
      rfl
  | element name as children rest ihChildren ihRest =>
      have hown : ((Attribute.spots (path ++ [index]) as).zipIdx next).filter
          (!·.1.isValue) = [] := by
        rw [List.filter_eq_nil_iff]
        intro o ho
        simp [isValue_spots ho]
      simp only [nodes, node, List.map_append, ihChildren, ihRest, Node.spotsAll, Node.spots,
        List.zipIdx_append, List.filter_append, hown, List.nil_append, next_attributes,
        next_nodes, List.length_append, length_spots, length_spotsAll, Node.width,
        List.length_singleton, Nat.add_assoc]

end Compile

namespace Template

variable (ns : List Node)

/-- A template has as many placeholders as its nodes have spots. -/
theorem placeholderCount_ofNodes :
    (ofNodes ns).placeholderCount = (Node.spotsAll [] 0 ns).length := by
  show (Compile.nodes [] 0 0 ns).next = _
  rw [Compile.next_nodes, Compile.length_spotsAll, Nat.zero_add]

/-- The tables hold the spots of the nodes, each once, with its number in document
order. -/
theorem feeds_ofNodes : (ofNodes ns).feeds.Perm ((Node.spotsAll [] 0 ns).zipIdx) := by
  show (List.flatMap _ (Compile.nodes [] 0 0 ns).attributes ++
    List.map _ (Compile.nodes [] 0 0 ns).contents).Perm _
  rw [Compile.feeds_nodes_attributes, Compile.feeds_nodes_contents]
  exact List.filter_append_perm _ _

theorem pairwise_zipIdx (spots : List Spot) (p : Spot × Nat → Bool) :
    ((spots.zipIdx.filter p).map Prod.snd).Pairwise (· < ·) := by
  have hsub := (List.filter_sublist (p := p) (l := spots.zipIdx)).map Prod.snd
  rw [List.zipIdx_map_snd] at hsub
  exact List.Pairwise.sublist hsub List.pairwise_lt_range'

/-- Both tables are in the order of the numbers. -/
theorem pairwise_numbers_ofNodes :
    ((ofNodes ns).attributes.flatMap AttributeBinding.numbers).Pairwise (· < ·) ∧
      ((ofNodes ns).contents.map ContentBinding.placeholder).Pairwise (· < ·) := by
  constructor
  · have hattributes := Compile.feeds_nodes_attributes [] 0 0 ns
    have hpairwise := pairwise_zipIdx (Node.spotsAll [] 0 ns) (·.1.isValue)
    rw [← hattributes, List.map_flatMap] at hpairwise
    simp only [AttributeBinding.map_snd_feeds] at hpairwise
    exact hpairwise
  · have hcontents := Compile.feeds_nodes_contents [] 0 0 ns
    have hpairwise := pairwise_zipIdx (Node.spotsAll [] 0 ns) (!·.1.isValue)
    rw [← hcontents, List.map_map] at hpairwise
    exact hpairwise

end Template

end LiveMarkup
