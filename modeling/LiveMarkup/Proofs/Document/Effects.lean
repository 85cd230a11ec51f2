import LiveMarkup.Document.Copy

/-!
# What a change does to each node

One equation for every change of a document, in terms of the data of an
arbitrary node. Later proofs rewrite with these and never open a change.
-/

namespace LiveMarkup.Document

variable (d : Document)

/-! ## Single nodes -/

@[simp] theorem size_modify (n : NodeId) (f : NodeData → NodeData) :
    (d.modify n f).size = d.size := by
  simp [modify, size]

@[simp] theorem size_count (f : MutationCounts → MutationCounts) :
    (d.count f).size = d.size := rfl

@[simp] theorem nodes_count (f : MutationCounts → MutationCounts) :
    (d.count f).nodes = d.nodes := rfl

theorem node_modify (n k : NodeId) (f : NodeData → NodeData) :
    (d.modify n f).nodes[k]? =
      if k = n then (d.nodes[k]?).map f else d.nodes[k]? := by
  simp only [modify, Array.getElem?_modify]
  by_cases h : n = k
  · simp [h]
  · simp [h, Ne.symm h]

theorem node_modify_self {n : NodeId} {data : NodeData} (f : NodeData → NodeData)
    (h : d.nodes[n]? = some data) : (d.modify n f).nodes[n]? = some (f data) := by
  rw [node_modify, if_pos rfl, h, Option.map_some]

theorem node_modify_other {n k : NodeId} (f : NodeData → NodeData) (h : k ≠ n) :
    (d.modify n f).nodes[k]? = d.nodes[k]? := by
  rw [node_modify, if_neg h]

theorem lt_size_of_node {d : Document} {n : NodeId} {data : NodeData}
    (h : d.nodes[n]? = some data) : n < d.size :=
  (Array.getElem?_eq_some_iff.mp h).1

@[simp] theorem create_fst (kind : NodeKind) : (d.create kind).1 = d.size := rfl

@[simp] theorem size_create (kind : NodeKind) : (d.create kind).2.size = d.size + 1 := by
  simp [create, size]

theorem node_create_self (kind : NodeKind) :
    (d.create kind).2.nodes[d.size]? = some (.new kind) := by
  simp [create, size]

theorem node_create_other (kind : NodeKind) {k : NodeId} (h : k < d.size) :
    (d.create kind).2.nodes[k]? = d.nodes[k]? := by
  have hne : k ≠ d.nodes.size := Nat.ne_of_lt h
  simp [create, Array.getElem?_push, hne]

/-! ## Views of a node -/

variable {d}

theorem children_of_node {n : NodeId} {data : NodeData} (h : d.nodes[n]? = some data) :
    d.children n = data.children := by
  simp only [children, h]

theorem parent?_of_node {n : NodeId} {data : NodeData} (h : d.nodes[n]? = some data) :
    d.parent? n = data.parent := by
  simp only [parent?, h, Option.bind_some]

theorem kind?_of_node {n : NodeId} {data : NodeData} (h : d.nodes[n]? = some data) :
    d.kind? n = some data.kind := by
  simp only [kind?, h, Option.map_some]

theorem attribute?_of_node {n : NodeId} {data : NodeData} (name : String)
    (h : d.nodes[n]? = some data) :
    d.attribute? n name = data.attributes.value? name := by
  simp only [attribute?, attributes, h]

theorem property?_of_node {n : NodeId} {data : NodeData} (name : String)
    (h : d.nodes[n]? = some data) :
    d.property? n name = data.properties.get? name := by
  simp only [property?, h, Option.bind_some]

theorem children_congr {d d' : Document} {n : NodeId}
    (h : d'.nodes[n]? = d.nodes[n]?) : d'.children n = d.children n := by
  simp only [children, h]

/-! ## Taking nodes out -/

theorem node_detach {n p : NodeId} {data : NodeData} (h : d.nodes[n]? = some data)
    (hp : data.parent = some p) (hne : p ≠ n) (k : NodeId) :
    (d.detach n).nodes[k]? =
      if k = n then some { data with parent := none }
      else if k = p then
        (d.nodes[p]?).map fun data =>
          { data with children := data.children.filter (· != n) }
      else d.nodes[k]? := by
  simp only [detach, parent?_of_node h, hp, node_modify]
  by_cases hk : k = n
  · subst hk
    simp [Ne.symm hne, h]
  · by_cases hkp : k = p
    · subst hkp
      simp [hk]
    · simp [hk, hkp]

@[simp] theorem size_detach (d : Document) (n : NodeId) : (d.detach n).size = d.size := by
  unfold detach
  split <;> simp

theorem detach_of_parent_none {n : NodeId} (h : d.parent? n = none) :
    d.detach n = d := by
  simp only [detach, h]

end LiveMarkup.Document
