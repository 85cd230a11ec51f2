import LiveMarkup.Proofs.Document.Effects

/-!
# Branches

A branch is a tree that remembers which nodes it is made of. A document grows
branches under a parent if each of their nodes holds what the branch says:
its kind, its attributes and properties, its children, and the node above it.
A branch fixes the data of its nodes, so it keeps growing as long as nobody
touches them.
-/

namespace LiveMarkup

/-- A node with everything under it, by number. -/
inductive Branch where
  | node (id : NodeId) (kind : NodeKind) (attributes : Attributes)
      (properties : Properties) (under : List Branch)

namespace Branch

/-- The number of the topmost node. -/
def id : Branch → NodeId
  | node n _ _ _ _ => n

mutual

/-- The numbers of all nodes, in preorder. -/
def ids : Branch → List NodeId
  | node n _ _ _ under => n :: idsAll under

def idsAll : List Branch → List NodeId
  | [] => []
  | b :: bs => ids b ++ idsAll bs

end

/-- The topmost nodes of several branches. -/
def tops (bs : List Branch) : List NodeId :=
  bs.map id

/-- Branches are taken apart node by node: what stands under the first node,
and what stands beside it. -/
@[elab_as_elim]
theorem forestInduction {motive : List Branch → Prop} (nil : motive [])
    (cons : ∀ n kind attributes properties under rest, motive under → motive rest →
      motive (node n kind attributes properties under :: rest)) :
    ∀ bs, motive bs
  | [] => nil
  | node n kind attributes properties under :: rest =>
      cons n kind attributes properties under rest
        (forestInduction nil cons under) (forestInduction nil cons rest)

@[simp] theorem tops_nil : tops [] = [] := rfl

@[simp] theorem tops_cons (b : Branch) (bs : List Branch) :
    tops (b :: bs) = b.id :: tops bs := rfl

@[simp] theorem tops_append (as bs : List Branch) :
    tops (as ++ bs) = tops as ++ tops bs := by
  simp [tops]

@[simp] theorem idsAll_nil : idsAll [] = [] := rfl

@[simp] theorem idsAll_cons (b : Branch) (bs : List Branch) :
    idsAll (b :: bs) = b.ids ++ idsAll bs := rfl

@[simp] theorem ids_node (n : NodeId) (kind : NodeKind) (attributes : Attributes)
    (properties : Properties) (under : List Branch) :
    ids (node n kind attributes properties under) = n :: idsAll under := rfl

@[simp] theorem id_node (n : NodeId) (kind : NodeKind) (attributes : Attributes)
    (properties : Properties) (under : List Branch) :
    id (node n kind attributes properties under) = n := rfl

@[simp] theorem idsAll_append (as bs : List Branch) :
    idsAll (as ++ bs) = idsAll as ++ idsAll bs := by
  induction as with
  | nil => rfl
  | cons a as ih => simp [ih]

theorem id_mem_ids (b : Branch) : b.id ∈ b.ids := by
  cases b
  simp

theorem tops_subset_idsAll (bs : List Branch) : tops bs ⊆ idsAll bs := by
  induction bs with
  | nil => simp
  | cons b bs ih =>
      intro n hn
      rcases List.mem_cons.mp hn with rfl | hn
      · exact List.mem_append_left _ b.id_mem_ids
      · exact List.mem_append_right _ (ih hn)

theorem tops_nodup {bs : List Branch} (h : (idsAll bs).Nodup) : (tops bs).Nodup := by
  induction bs with
  | nil => simp
  | cons b bs ih =>
      rw [idsAll_cons, List.nodup_append] at h
      refine List.nodup_cons.mpr ⟨fun hb => ?_, ih h.2.1⟩
      exact h.2.2 _ b.id_mem_ids _ (tops_subset_idsAll bs hb) rfl

theorem runs_apart {xs ys zs : List Branch} (h : (idsAll (xs ++ ys ++ zs)).Nodup) :
    (∀ k ∈ idsAll xs, k ∉ idsAll ys) ∧ (∀ k ∈ idsAll zs, k ∉ idsAll ys) ∧
      ∀ k ∈ idsAll xs, k ∉ idsAll zs := by
  rw [idsAll_append, idsAll_append, List.append_assoc] at h
  obtain ⟨-, hrest, hapart⟩ := List.nodup_append.mp h
  obtain ⟨-, -, hapart'⟩ := List.nodup_append.mp hrest
  refine ⟨?_, ?_, ?_⟩
  · intro k hx hy
    exact hapart k hx k (List.mem_append_left _ hy) rfl
  · intro k hz hy
    exact hapart' k hy k hz rfl
  · intro k hx hz
    exact hapart k hx k (List.mem_append_right _ hz) rfl

end Branch

open Branch (idsAll tops)

namespace Document

mutual

/-- A node of the document is the top of a branch and stands under a parent. -/
def GrowsOne (d : Document) (parent : Option NodeId) : Branch → Prop
  | .node n kind attributes properties under =>
      d.nodes[n]? = some ⟨kind, parent, under.map Branch.id, attributes, properties⟩ ∧
        d.Grows (some n) under

/-- All of several branches stand under a parent. -/
def Grows (d : Document) (parent : Option NodeId) : List Branch → Prop
  | [] => True
  | b :: bs => d.GrowsOne parent b ∧ d.Grows parent bs

end

variable {d d' : Document} {parent : Option NodeId}

@[simp] theorem grows_nil : d.Grows parent [] := trivial

@[simp] theorem grows_cons {b : Branch} {bs : List Branch} :
    d.Grows parent (b :: bs) ↔ d.GrowsOne parent b ∧ d.Grows parent bs := Iff.rfl

@[simp] theorem growsOne_node {n : NodeId} {kind : NodeKind} {attributes : Attributes}
    {properties : Properties} {under : List Branch} :
    d.GrowsOne parent (.node n kind attributes properties under) ↔
      d.nodes[n]? = some ⟨kind, parent, tops under, attributes, properties⟩ ∧
        d.Grows (some n) under := Iff.rfl

@[simp] theorem grows_append {as bs : List Branch} :
    d.Grows parent (as ++ bs) ↔ d.Grows parent as ∧ d.Grows parent bs := by
  induction as with
  | nil => simp
  | cons a as ih => simp [ih, and_assoc]

theorem Grows.lt_size {bs : List Branch} (h : d.Grows parent bs) :
    ∀ n ∈ idsAll bs, n < d.size := by
  induction bs using Branch.forestInduction generalizing parent with
  | nil => simp
  | cons n kind attributes properties under rest ihUnder ihRest =>
      obtain ⟨⟨hnode, hunder⟩, hrest⟩ := h
      intro k hk
      simp only [Branch.idsAll_cons, Branch.ids_node, List.cons_append, List.mem_cons,
        List.mem_append] at hk
      rcases hk with rfl | hk | hk
      · exact lt_size_of_node hnode
      · exact ihUnder hunder k hk
      · exact ihRest hrest k hk

theorem Grows.frame {bs : List Branch} (h : d.Grows parent bs)
    (hsame : ∀ n ∈ idsAll bs, d'.nodes[n]? = d.nodes[n]?) : d'.Grows parent bs := by
  induction bs using Branch.forestInduction generalizing parent with
  | nil => trivial
  | cons n kind attributes properties under rest ihUnder ihRest =>
      obtain ⟨⟨hnode, hunder⟩, hrest⟩ := h
      refine ⟨⟨?_, ?_⟩, ?_⟩
      · rw [hsame n (by simp)]
        exact hnode
      · exact ihUnder hunder fun k hk => hsame k (by simp [hk])
      · exact ihRest hrest fun k hk => hsame k (by simp [hk])

/-- The topmost nodes of branches have the branches' parent. -/
theorem Grows.parent_top {bs : List Branch} (h : d.Grows parent bs) {n : NodeId}
    (hn : n ∈ tops bs) : ∃ data, d.nodes[n]? = some data ∧ data.parent = parent := by
  induction bs with
  | nil => simp at hn
  | cons b bs ih =>
      rcases List.mem_cons.mp hn with rfl | hn
      · obtain ⟨k, kind, attributes, properties, under⟩ := b
        exact ⟨_, h.1.1, rfl⟩
      · exact ih h.2 hn

theorem Grows.reparent {bs : List Branch} (h : d.Grows parent bs)
    (hdistinct : (idsAll bs).Nodup) {q : Option NodeId}
    (htops : ∀ n ∈ tops bs, d'.nodes[n]? =
      (d.nodes[n]?).map fun data => { data with parent := q })
    (hsame : ∀ n ∈ idsAll bs, n ∉ tops bs → d'.nodes[n]? = d.nodes[n]?) :
    d'.Grows q bs := by
  induction bs with
  | nil => trivial
  | cons b bs ih =>
      obtain ⟨k, kind, attributes, properties, under⟩ := b
      obtain ⟨⟨hnode, hunder⟩, hrest⟩ := h
      rw [Branch.idsAll_cons, List.nodup_append] at hdistinct
      obtain ⟨hown, hothers, hapart⟩ := hdistinct
      have hk : k ∉ idsAll under := (List.nodup_cons.mp hown).1
      refine ⟨⟨?_, ?_⟩, ih hrest hothers ?_ ?_⟩
      · rw [htops k (by simp), hnode]
        rfl
      · refine hunder.frame fun n hn => hsame n (by simp [hn]) ?_
        intro htop
        rcases List.mem_cons.mp htop with rfl | htop
        · exact hk hn
        · exact hapart n (by simp [hn]) n (Branch.tops_subset_idsAll bs htop) rfl
      · exact fun n hn => htops n (by simp [hn])
      · intro n hn hnot
        refine hsame n (by simp [hn]) ?_
        intro htop
        rcases List.mem_cons.mp htop with rfl | htop
        · exact hapart n (by simp) n hn rfl
        · exact hnot htop

end Document

end LiveMarkup
