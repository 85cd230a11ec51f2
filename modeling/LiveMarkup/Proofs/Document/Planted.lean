import LiveMarkup.Proofs.Document.Runs

/-!
# Planting

Planting a forest makes branches whose nodes are numbered in preorder from the
size of the document on, with the attributes that writing them one by one
leaves and without properties. Nothing that was there before changes.
-/

namespace LiveMarkup

/-- The attributes of a node after they have been written to it one by one. -/
def NodeKind.written (kind : NodeKind) (attributes : Attributes) : Attributes :=
  match kind with
  | .element _ => attributes.foldl (fun as a => Attributes.write a.1 a.2 as) []
  | _ => []

namespace Tree

mutual

/-- Whether a tree is made of elements, text and comments. -/
def isSolid : Tree → Bool
  | node kind _ ts => (kind != .fragment) && isSolidAll ts

def isSolidAll : List Tree → Bool
  | [] => true
  | t :: ts => isSolid t && isSolidAll ts

end

theorem isSolid_iff {t : Tree} :
    t.isSolid = true ↔ t.kind ≠ .fragment ∧ isSolidAll t.children = true := by
  obtain ⟨k, as, us⟩ := t
  simp [isSolid, kind, children]

/-- Forests are taken apart node by node: what stands under the first node, and
what stands beside it. -/
@[elab_as_elim]
theorem forestInduction {motive : List Tree → Prop} (nil : motive [])
    (cons : ∀ kind attributes children rest, motive children → motive rest →
      motive (node kind attributes children :: rest)) : ∀ ts, motive ts
  | [] => nil
  | node kind attributes children :: rest =>
      cons kind attributes children rest (forestInduction nil cons children)
        (forestInduction nil cons rest)

end Tree

namespace Branch

mutual

/-- The branch that planting a tree makes. -/
def ofTree (base : NodeId) : Tree → Branch
  | .node kind attributes children =>
      .node base kind (kind.written attributes) ∅ (ofForest (base + 1) children)

/-- The branches that planting a forest makes. -/
def ofForest (base : NodeId) : List Tree → List Branch
  | [] => []
  | t :: ts => ofTree base t :: ofForest (base + t.size) ts

end

theorem idsAll_ofForest (base : NodeId) (ts : List Tree) :
    idsAll (ofForest base ts) = List.range' base (Tree.sizeAll ts) := by
  induction ts using Tree.forestInduction generalizing base with
  | nil => rfl
  | cons kind attributes children rest ihChildren ihRest =>
      simp only [ofForest, ofTree, idsAll_cons, ids_node, ihChildren, ihRest, Tree.sizeAll,
        Tree.size, List.cons_append, Nat.add_comm 1 (Tree.sizeAll children)]
      rw [Nat.add_right_comm, List.range'_succ, ← List.range'_append_1, Nat.add_right_comm,
        Nat.add_assoc base]

end Branch

namespace Document

open Branch (idsAll tops ofTree ofForest)

/-! ## Attributes written one by one -/

theorem node_setAttributes (attributes written : Attributes) {d : Document} {n : NodeId}
    {data : NodeData} (h : d.nodes[n]? = some data) (hw : data.attributes = written)
    (k : NodeId) :
    (attributes.foldl (fun d a => d.setAttribute n a.1 a.2) d).nodes[k]? =
      if k = n then
        some { data with
          attributes := attributes.foldl (fun as a => Attributes.write a.1 a.2 as) written }
      else d.nodes[k]? := by
  induction attributes generalizing d data written with
  | nil =>
      subst hw
      by_cases hk : k = n
      · simp [hk, h]
      · simp [hk]
  | cons a attributes ih =>
      have hset : (d.setAttribute n a.1 a.2).nodes[n]? =
          some { data with attributes := data.attributes.write a.1 a.2 } := by
        simp only [setAttribute, nodes_count]
        exact node_modify_self d _ h
      rw [List.foldl_cons, List.foldl_cons, ih _ hset (by rw [hw])]
      by_cases hk : k = n
      · simp [hk]
      · simp only [if_neg hk, setAttribute, nodes_count]
        exact node_modify_other d _ hk

@[simp] theorem size_setAttributes (attributes : Attributes) (d : Document) (n : NodeId) :
    (attributes.foldl (fun d a => d.setAttribute n a.1 a.2) d).size = d.size := by
  induction attributes generalizing d with
  | nil => rfl
  | cons a attributes ih => rw [List.foldl_cons, ih, setAttribute, size_count, size_modify]

theorem node_dressed (d : Document) (kind : NodeKind) (attributes : Attributes)
    (k : NodeId) (hk : k ≤ d.size) :
    (writingAttributes kind attributes d.size (d.create kind).2).nodes[k]? =
      if k = d.size then some ⟨kind, none, [], kind.written attributes, ∅⟩
      else d.nodes[k]? := by
  have hself := node_create_self d kind
  by_cases hkn : k = d.size
  · subst hkn
    cases kind with
    | element tag =>
        simp only [writingAttributes, NodeKind.written]
        rw [node_setAttributes attributes [] hself rfl]
        simp [NodeData.new]
    | text s => simpa [writingAttributes, NodeKind.written, NodeData.new] using hself
    | comment s => simpa [writingAttributes, NodeKind.written, NodeData.new] using hself
    | fragment => simpa [writingAttributes, NodeKind.written, NodeData.new] using hself
  · have hlt : k < d.size := Nat.lt_of_le_of_ne hk hkn
    rw [if_neg hkn, ← node_create_other d kind hlt]
    cases kind with
    | element tag =>
        simp only [writingAttributes]
        rw [node_setAttributes attributes [] hself rfl, if_neg hkn]
    | text s => rfl
    | comment s => rfl
    | fragment => rfl

@[simp] theorem size_dressed (d : Document) (kind : NodeKind) (attributes : Attributes)
    (n : NodeId) : (writingAttributes kind attributes n d).size = d.size := by
  cases kind <;> simp [writingAttributes]

/-! ## Trees -/

/-- What planting a forest under a node does: the branches stand behind what
was there. -/
def PlantsUnder (ts : List Tree) : Prop :=
  ∀ (d : Document) (p : NodeId) (before : List NodeId), d.Placed p before [] [] →
    (plantUnder writingAttributes p ts d).size = d.size + Tree.sizeAll ts ∧
      (plantUnder writingAttributes p ts d).Placed p before (ofForest d.size ts) [] ∧
      Edit d (plantUnder writingAttributes p ts d) p [] (idsAll (ofForest d.size ts))

theorem plant_node (kind : NodeKind) (attributes : Attributes) {children : List Tree}
    (hchildren : PlantsUnder children) (d : Document) :
    (plant writingAttributes (.node kind attributes children) d).1 = d.size ∧
      (plant writingAttributes (.node kind attributes children) d).2.size =
        d.size + (Tree.node kind attributes children).size ∧
      Extends d (plant writingAttributes (.node kind attributes children) d).2 ∧
      (plant writingAttributes (.node kind attributes children) d).2.GrowsOne none
        (ofTree d.size (.node kind attributes children)) := by
  have hdressed := node_dressed d kind attributes
  have hsize : (writingAttributes kind attributes d.size (d.create kind).2).size =
      d.size + 1 := by simp
  generalize hd₁ : writingAttributes kind attributes d.size (d.create kind).2 = d₁ at *
  have hplant : plant writingAttributes (.node kind attributes children) d =
      (d.size, plantUnder writingAttributes d.size children d₁) := by
    rw [plant, ← hd₁]
    rfl
  have hnode : d₁.nodes[d.size]? = some ⟨kind, none, [], kind.written attributes, ∅⟩ := by
    rw [hdressed d.size (Nat.le_refl _), if_pos rfl]
  have hplaced : d₁.Placed d.size [] [] [] :=
    ⟨⟨_, hnode, rfl⟩, trivial, by simp, by simp, by simp⟩
  have hext : Extends d d₁ := ⟨by omega, fun k hk => by
    rw [hdressed k (Nat.le_of_lt hk), if_neg (Nat.ne_of_lt hk)]⟩
  obtain ⟨hsize₂, hplaced₂, hedit⟩ := hchildren d₁ d.size [] hplaced
  rw [hplant]
  refine ⟨rfl, ?_, hedit.extends hext (Nat.le_refl _) (by simp), ?_, ?_⟩
  · simp only [hsize₂, hsize, Tree.size]
    omega
  · have hparent := hedit.parent
    rw [hnode, hplaced₂.children, Option.map_some] at hparent
    rw [hsize] at hparent
    simpa [tops] using hparent
  · rw [← hsize]
    exact hplaced₂.grows

theorem plantsUnder {ts : List Tree} (hsolid : Tree.isSolidAll ts = true) :
    PlantsUnder ts := by
  induction ts using Tree.forestInduction with
  | nil =>
      intro d p before h
      exact ⟨rfl, h, Edit.refl d p []⟩
  | cons kind attributes children rest ihChildren ihRest =>
      simp only [Tree.isSolidAll, Tree.isSolid, Bool.and_eq_true, bne_iff_ne] at hsolid
      obtain ⟨⟨hkind, hchildren⟩, hrest⟩ := hsolid
      intro d p before h
      obtain ⟨hn, hsize, hext, hgrows⟩ :=
        plant_node kind attributes (ihChildren hchildren) d
      generalize hplant : plant writingAttributes (.node kind attributes children) d = made
        at hn hsize hext hgrows
      obtain ⟨n, d₁⟩ := made
      subst hn
      have hids : idsAll (ofForest d.size [Tree.node kind attributes children]) =
          List.range' d.size (Tree.sizeAll [Tree.node kind attributes children]) :=
        Branch.idsAll_ofForest _ _
      have hrendered : Rendered d d₁ d.size [ofTree d.size (.node kind attributes children)] :=
        { grown := hext
          loose := Loose.single hkind ⟨hgrows, trivial⟩
          distinct := by
            rw [show [ofTree d.size (.node kind attributes children)] =
              ofForest d.size [.node kind attributes children] from rfl, hids]
            exact List.nodup_range'
          node_fresh := Nat.le_refl _
          fresh := by
            intro k hk
            rw [show [ofTree d.size (.node kind attributes children)] =
              ofForest d.size [.node kind attributes children] from rfl, hids] at hk
            exact (List.mem_range'_1.mp hk).1 }
      obtain ⟨hplaced₂, hedit₂⟩ := h.insert hrendered
      generalize hd₂ : d₁.append p d.size = d₂
      have hd₂' : d₁.insertBefore p d.size ([] : List NodeId).head? = d₂ := hd₂
      rw [hd₂'] at hplaced₂ hedit₂
      have hsize₂ : d₂.size = d.size + (Tree.node kind attributes children).size := by
        rw [← hd₂', size_insertBefore, hsize]
      have hstep : plantUnder writingAttributes p (.node kind attributes children :: rest) d =
          plantUnder writingAttributes p rest d₂ := by
        simp only [plantUnder, hplant, hd₂]
      obtain ⟨hsize₃, hplaced₃, hedit₃⟩ := ihRest hrest d₂ p _ hplaced₂.focusRest
      obtain ⟨hplaced₄, hedit₄⟩ := hplaced₂.unfocusRest hplaced₃ hedit₃
      rw [hstep]
      refine ⟨?_, ?_, ?_⟩
      · rw [hsize₃, hsize₂, Tree.sizeAll]
        omega
      · simpa [ofForest, hsize₂] using hplaced₄
      · refine hedit₂.trans ?_
        simpa [ofForest, hsize₂] using hedit₄

end Document

end LiveMarkup
