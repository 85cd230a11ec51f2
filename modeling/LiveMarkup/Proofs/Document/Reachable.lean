import LiveMarkup.Proofs.Document.Attributes
import LiveMarkup.Proofs.Document.Planted

/-!
# Reachable documents

A document is reachable if changes lead to it from the empty one. Every change
keeps a reachable document in order: no attribute name is there twice at a
node, and no fragment stands among the children of a node. So the trees under a
node are made of elements, text and comments alone.
-/

namespace LiveMarkup

namespace Tree

mutual

/-- No attribute name is twice at a node of a tree. -/
def Distinct : Tree → Prop
  | node _ as ts => as.keys.Nodup ∧ DistinctAll ts

def DistinctAll : List Tree → Prop
  | [] => True
  | t :: ts => t.Distinct ∧ DistinctAll ts

end

theorem distinctAll_map {f : NodeId → Tree} (h : ∀ c, (f c).Distinct) (cs : List NodeId) :
    DistinctAll (cs.map f) := by
  induction cs with
  | nil => trivial
  | cons c cs ih => exact ⟨h c, ih⟩

theorem isSolidAll_map {f : NodeId → Tree} {cs : List NodeId}
    (h : ∀ c ∈ cs, (f c).isSolid = true) : isSolidAll (cs.map f) = true := by
  induction cs with
  | nil => rfl
  | cons c cs ih =>
      have hrest := ih fun b hb => h b (List.mem_cons_of_mem c hb)
      rw [List.map_cons, isSolidAll, h c List.mem_cons_self, hrest]
      rfl

end Tree

namespace Document

/-- Documents that changes make, each applied to nodes that exist. -/
inductive Reachable : Document → Prop
  | empty : Reachable .empty
  | create {d : Document} (kind : NodeKind) (h : Reachable d) : Reachable (d.create kind).2
  | insertBefore {d : Document} (p : NodeId) {n : NodeId} (r : Option NodeId)
      (hn : d.contains n = true) (h : Reachable d) : Reachable (d.insertBefore p n r)
  | removeChild {d : Document} (p n : NodeId) (h : Reachable d) : Reachable (d.removeChild p n)
  | clearChildren {d : Document} (p : NodeId) (h : Reachable d) :
      Reachable (d.clearChildren p)
  | setAttribute {d : Document} (n : NodeId) (name value : String) (h : Reachable d) :
      Reachable (d.setAttribute n name value)
  | removeAttribute {d : Document} (n : NodeId) (name : String) (h : Reachable d) :
      Reachable (d.removeAttribute n name)
  | setProperty {d : Document} (n : NodeId) (name : String) (value : PropertyValue)
      (h : Reachable d) : Reachable (d.setProperty n name value)
  | setText {d : Document} (n : NodeId) (s : String) (h : Reachable d) :
      Reachable (d.setText n s)
  | clone {d : Document} (n : NodeId) (deep : Bool) (h : Reachable d) :
      Reachable (d.clone n deep).2
  /-- The other document is one that changes made, too. -/
  | importFrom {d source : Document} (n : NodeId) (hsource : Reachable source)
      (h : Reachable d) : Reachable (d.importFrom source n).2

/-- A node that can stand among the children of another one. -/
def Insertable (d : Document) (c : NodeId) : Prop :=
  ∃ data, d.nodes[c]? = some data ∧ data.kind ≠ .fragment

/-- No name twice, and no fragment among children. -/
structure Orderly (d : Document) : Prop where
  names : ∀ (n : NodeId) (data : NodeData), d.nodes[n]? = some data → data.attributes.keys.Nodup
  members : ∀ (n : NodeId) (data : NodeData), d.nodes[n]? = some data →
    ∀ c ∈ data.children, d.Insertable c

variable {d : Document}

/-! ## Single changes -/

/-- A change of a node that does not make it a fragment. -/
def KeepsSolid (f : NodeData → NodeData) : Prop :=
  ∀ data, data.kind ≠ .fragment → (f data).kind ≠ .fragment

theorem Insertable.modify {c : NodeId} (h : d.Insertable c) (n : NodeId)
    {f : NodeData → NodeData} (hf : KeepsSolid f) : (d.modify n f).Insertable c := by
  obtain ⟨data, hdata, hkind⟩ := h
  by_cases hc : c = n
  · subst hc
    exact ⟨f data, node_modify_self d f hdata, hf data hkind⟩
  · refine ⟨data, ?_, hkind⟩
    rw [node_modify_other d f hc]
    exact hdata

theorem Orderly.modify (h : d.Orderly) (n : NodeId) {f : NodeData → NodeData}
    (hf : KeepsSolid f)
    (hnames : ∀ data, data.attributes.keys.Nodup → (f data).attributes.keys.Nodup)
    (hmembers : ∀ data, ∀ c ∈ (f data).children, c ∈ data.children ∨ d.Insertable c) :
    (d.modify n f).Orderly := by
  have hdata : ∀ (k : NodeId) (data' : NodeData), (d.modify n f).nodes[k]? = some data' →
      ∃ data, d.nodes[k]? = some data ∧ (data' = data ∨ data' = f data) := by
    intro k data' hk
    by_cases hkn : k = n
    · rw [node_modify, if_pos hkn] at hk
      obtain ⟨data, hdata, rfl⟩ := Option.map_eq_some_iff.mp hk
      exact ⟨data, hdata, Or.inr rfl⟩
    · rw [node_modify_other d f hkn] at hk
      exact ⟨data', hk, Or.inl rfl⟩
  constructor
  · intro k data' hk
    obtain ⟨data, hold, rfl | rfl⟩ := hdata k data' hk
    · exact h.names k _ hold
    · exact hnames data (h.names k data hold)
  · intro k data' hk c hc
    obtain ⟨data, hold, rfl | rfl⟩ := hdata k data' hk
    · exact (h.members k _ hold c hc).modify n hf
    · rcases hmembers data c hc with hc | hc
      · exact (h.members k data hold c hc).modify n hf
      · exact hc.modify n hf

theorem Orderly.create (h : d.Orderly) (kind : NodeKind) : (d.create kind).2.Orderly := by
  have hold : ∀ {k : NodeId} {data : NodeData}, d.nodes[k]? = some data →
      (d.create kind).2.nodes[k]? = some data := by
    intro k data hk
    rw [node_create_other d kind (lt_size_of_node hk)]
    exact hk
  have hdata : ∀ (k : NodeId) (data : NodeData), (d.create kind).2.nodes[k]? = some data →
      d.nodes[k]? = some data ∨ data = .new kind := by
    intro k data hk
    have hlt := lt_size_of_node hk
    rw [size_create] at hlt
    by_cases hlast : k = d.size
    · rw [hlast, node_create_self] at hk
      cases hk
      exact Or.inr rfl
    · rw [node_create_other d kind (Nat.lt_of_le_of_ne (Nat.le_of_lt_succ hlt) hlast)] at hk
      exact Or.inl hk
  constructor
  · intro k data hk
    rcases hdata k data hk with hk | rfl
    · exact h.names k data hk
    · exact List.nodup_nil
  · intro k data hk c hc
    rcases hdata k data hk with hk | rfl
    · obtain ⟨cdata, hcdata, hkind⟩ := h.members k data hk c hc
      exact ⟨cdata, hold hcdata, hkind⟩
    · cases hc

theorem Orderly.count (h : d.Orderly) (f : MutationCounts → MutationCounts) :
    (d.count f).Orderly :=
  ⟨h.names, h.members⟩

/-! ## Moving nodes -/

theorem Orderly.setParent (h : d.Orderly) (n : NodeId) (p : Option NodeId) :
    (d.modify n fun data => { data with parent := p }).Orderly :=
  h.modify n (fun _ hkind => hkind) (fun _ hnames => hnames) (fun _ _ hc => Or.inl hc)

theorem Orderly.setChildren (h : d.Orderly) (n : NodeId) {f : List NodeId → List NodeId}
    (hf : ∀ cs, ∀ c ∈ f cs, c ∈ cs ∨ d.Insertable c) :
    (d.modify n fun data => { data with children := f data.children }).Orderly :=
  h.modify n (fun _ hkind => hkind) (fun _ hnames => hnames) fun data => hf data.children

theorem Orderly.detach (h : d.Orderly) (n : NodeId) : (d.detach n).Orderly := by
  unfold Document.detach
  cases d.parent? n with
  | none => exact h
  | some p =>
      apply (h.setParent n none).setChildren p (f := fun cs => cs.filter (· != n))
      intro cs c hc
      exact Or.inl (List.mem_filter.mp hc).1

theorem Insertable.detach {c : NodeId} (h : d.Insertable c) (n : NodeId) :
    (d.detach n).Insertable c := by
  unfold Document.detach
  cases d.parent? n with
  | none => exact h
  | some p =>
      apply Insertable.modify
      · exact h.modify n fun _ hkind => hkind
      · exact fun _ hkind => hkind

theorem mem_spliceBefore {r : Option NodeId} {moved siblings : List NodeId} {c : NodeId}
    (h : c ∈ spliceBefore r moved siblings) : c ∈ siblings ∨ c ∈ moved := by
  cases r with
  | none => exact List.mem_append.mp h
  | some r =>
      simp only [spliceBefore, List.mem_append] at h
      rcases h with (h | h) | h
      · exact Or.inl ((List.takeWhile_sublist _).subset h)
      · exact Or.inr h
      · exact Or.inl ((List.dropWhile_sublist _).subset h)

theorem Orderly.insertable_movedBy (h : d.Orderly) {n : NodeId} (hn : d.contains n = true) :
    ∀ c ∈ d.movedBy n, d.Insertable c := by
  intro c hc
  have hlt : n < d.nodes.size := of_decide_eq_true hn
  obtain ⟨data, hdata⟩ : ∃ data, d.nodes[n]? = some data := ⟨_, Array.getElem?_eq_getElem hlt⟩
  unfold Document.movedBy at hc
  rw [kind?_of_node hdata, children_of_node hdata] at hc
  by_cases hkind : data.kind = .fragment
  · rw [hkind, if_pos rfl] at hc
    exact h.members n data hdata c hc
  · rw [if_neg (by simpa using hkind), List.mem_singleton] at hc
    subst hc
    exact ⟨data, hdata, hkind⟩

theorem Orderly.insertBefore (h : d.Orderly) (p : NodeId) {n : NodeId} (r : Option NodeId)
    (hn : d.contains n = true) : (d.insertBefore p n r).Orderly := by
  have hmoved := h.insertable_movedBy hn
  have hrelease : (d.release n).Orderly ∧ ∀ c ∈ d.movedBy n, (d.release n).Insertable c := by
    unfold Document.release
    split
    · constructor
      · apply h.setChildren n (f := fun _ => [])
        intro cs c hc
        cases hc
      · intro c hc
        exact (hmoved c hc).modify n fun _ hkind => hkind
    · constructor
      · exact h.detach n
      · intro c hc
        exact (hmoved c hc).detach n
  obtain ⟨hreleased, hmoved⟩ := hrelease
  have hspliced := hreleased.setChildren p (f := spliceBefore r (d.movedBy n)) (by
    intro cs c hc
    rcases mem_spliceBefore hc with hc | hc
    · exact Or.inl hc
    · exact Or.inr (hmoved c hc))
  have hparents : ∀ (moved : List NodeId) (d : Document), d.Orderly →
      (moved.foldl (fun d n => d.modify n fun data => { data with parent := some p })
        d).Orderly := by
    intro moved
    induction moved with
    | nil => exact fun _ h => h
    | cons c moved ih => exact fun d h => ih _ (h.setParent c (some p))
  unfold Document.insertBefore
  apply Orderly.count
  exact hparents _ _ hspliced

theorem Orderly.removeChild (h : d.Orderly) (p n : NodeId) : (d.removeChild p n).Orderly := by
  unfold Document.removeChild
  split
  · exact (h.detach n).count _
  · exact h

theorem Orderly.removeChildren (h : d.Orderly) (p : NodeId) (doomed : List NodeId) :
    (d.removeChildren p doomed).Orderly := by
  unfold Document.removeChildren
  induction doomed generalizing d with
  | nil => exact h
  | cons n doomed ih => exact ih (h.removeChild p n)

/-! ## Attributes and data -/

theorem Orderly.setAttributes (h : d.Orderly) (n : NodeId) {f : Attributes → Attributes}
    (hf : ∀ as : Attributes, as.keys.Nodup → (f as).keys.Nodup) :
    (d.modify n fun data => { data with attributes := f data.attributes }).Orderly :=
  h.modify n (fun _ hkind => hkind) (fun data => hf data.attributes) fun _ _ hc => Or.inl hc

theorem Orderly.setAttribute (h : d.Orderly) (n : NodeId) (name value : String) :
    (d.setAttribute n name value).Orderly :=
  (h.setAttributes n fun _ => Attributes.nodup_write name value).count _

theorem Orderly.removeAttribute (h : d.Orderly) (n : NodeId) (name : String) :
    (d.removeAttribute n name).Orderly := by
  unfold Document.removeAttribute
  split
  · exact (h.setAttributes n fun _ => Attributes.nodup_remove name).count _
  · exact h

theorem Orderly.setProperty (h : d.Orderly) (n : NodeId) (name : String)
    (value : PropertyValue) : (d.setProperty n name value).Orderly := by
  unfold Document.setProperty
  apply Orderly.count
  exact h.modify n (fun _ hkind => hkind) (fun _ hnames => hnames) fun _ _ hc => Or.inl hc

theorem Orderly.setText (h : d.Orderly) (n : NodeId) (s : String) :
    (d.setText n s).Orderly := by
  unfold Document.setText
  cases hdata : (d.kind? n).bind (·.withData? s) with
  | none => exact h
  | some kind =>
      have hkind : kind ≠ .fragment := by
        rintro rfl
        obtain ⟨old, -, hold⟩ := Option.bind_eq_some_iff.mp hdata
        cases old <;> cases hold
      apply Orderly.count
      exact h.modify n (fun _ _ => hkind) (fun _ hnames => hnames) fun _ _ hc => Or.inl hc

/-! ## Trees under a node -/

/-- The attributes of a node that exists, or none. -/
theorem Orderly.attributes (h : d.Orderly) (n : NodeId) : (d.attributes n).keys.Nodup := by
  unfold Document.attributes
  cases hdata : d.nodes[n]? with
  | none => exact List.nodup_nil
  | some data => exact h.names n data hdata

theorem Orderly.insertable_children (h : d.Orderly) (n : NodeId) :
    ∀ c ∈ d.children n, d.Insertable c := by
  intro c hc
  unfold Document.children at hc
  cases hdata : d.nodes[n]? with
  | none =>
      rw [hdata] at hc
      cases hc
  | some data =>
      rw [hdata] at hc
      exact h.members n data hdata c hc

theorem Orderly.distinct_treeWithin (h : d.Orderly) (depth : Nat) (n : NodeId) :
    (d.treeWithin depth n).Distinct := by
  induction depth generalizing n with
  | zero => exact ⟨h.attributes n, trivial⟩
  | succ depth ih => exact ⟨h.attributes n, Tree.distinctAll_map ih (d.children n)⟩

theorem Orderly.distinct_forest (h : d.Orderly) (n : NodeId) :
    Tree.DistinctAll (d.forest n) :=
  Tree.distinctAll_map (h.distinct_treeWithin d.size) (d.children n)

theorem solid_treeWithin (h : ∀ p, ∀ c ∈ d.children p, d.Insertable c) (depth : Nat)
    {c : NodeId} (hc : d.Insertable c) : (d.treeWithin depth c).isSolid = true := by
  have hkind : ((d.kind? c).getD .fragment != .fragment) = true := by
    obtain ⟨data, hdata, hkind⟩ := hc
    rw [kind?_of_node hdata, Option.getD_some, bne_iff_ne]
    exact hkind
  induction depth generalizing c with
  | zero => rw [treeWithin, Tree.isSolid, hkind, Tree.isSolidAll, Bool.and_self]
  | succ depth ih =>
      have hchildren : Tree.isSolidAll ((d.children c).map (d.treeWithin depth)) = true := by
        apply Tree.isSolidAll_map
        intro b hb
        have hinsertable := h c b hb
        obtain ⟨data, hdata, hkind⟩ := hinsertable
        apply ih ⟨data, hdata, hkind⟩
        rw [kind?_of_node hdata, Option.getD_some, bne_iff_ne]
        exact hkind
      rw [treeWithin, Tree.isSolid, hkind, hchildren, Bool.and_self]

theorem Orderly.solid_forest (h : d.Orderly) (n : NodeId) :
    Tree.isSolidAll (d.forest n) = true := by
  apply Tree.isSolidAll_map
  intro c hc
  exact solid_treeWithin h.insertable_children d.size (h.insertable_children n c hc)

/-! ## Copies -/

/-- Dressing a node with attributes of distinct names keeps order and makes no node. -/
def Dressing.KeepsOrder (dress : Dressing) : Prop :=
  ∀ (kind : NodeKind) (as : Attributes) (n : NodeId) (d : Document), as.keys.Nodup →
    d.Orderly → (dress kind as n d).Orderly ∧ (dress kind as n d).size = d.size

theorem keepsOrder_withAttributes : Dressing.KeepsOrder withAttributes := by
  intro kind as n d has h
  constructor
  · exact h.setAttributes n fun _ _ => has
  · exact size_modify d n _

theorem keepsOrder_writingAttributes : Dressing.KeepsOrder writingAttributes := by
  intro kind as n d has h
  refine ⟨?_, size_dressed d kind as n⟩
  clear has
  unfold writingAttributes
  split
  · induction as generalizing d with
    | nil => exact h
    | cons a as ih => exact ih _ (h.setAttribute n a.1 a.2)
  · exact h

mutual

theorem Orderly.plant {dress : Dressing} (hdress : dress.KeepsOrder) {d : Document}
    (h : d.Orderly) : (t : Tree) → t.Distinct →
      (plant dress t d).2.Orderly ∧ (plant dress t d).1 < (plant dress t d).2.size ∧
        d.size ≤ (plant dress t d).2.size
  | .node kind as ts, ht => by
      obtain ⟨has, hts⟩ := ht
      obtain ⟨horder, hsize⟩ := hdress kind as d.size _ has (h.create kind)
      obtain ⟨hunder, hgrown⟩ := horder.plantUnder hdress d.size ts hts
      rw [hsize, size_create] at hgrown
      exact ⟨hunder, hgrown, Nat.le_of_succ_le hgrown⟩

theorem Orderly.plantUnder {dress : Dressing} (hdress : dress.KeepsOrder) {d : Document}
    (h : d.Orderly) (p : NodeId) : (ts : List Tree) → Tree.DistinctAll ts →
      (plantUnder dress p ts d).Orderly ∧ d.size ≤ (plantUnder dress p ts d).size
  | [], _ => ⟨h, Nat.le_refl _⟩
  | t :: ts, ht => by
      obtain ⟨ht, hts⟩ := ht
      obtain ⟨horder, hn, hgrown⟩ := h.plant hdress t ht
      have hinserted := horder.insertBefore p none (decide_eq_true hn)
      obtain ⟨hunder, hmore⟩ := hinserted.plantUnder hdress p ts hts
      rw [size_insertBefore] at hmore
      exact ⟨hunder, Nat.le_trans hgrown hmore⟩

end

theorem Orderly.clone (h : d.Orderly) (n : NodeId) (deep : Bool) :
    (d.clone n deep).2.Orderly := by
  have htree := h.distinct_treeWithin d.size n
  have hcopied : (Tree.node (d.tree n).kind (d.tree n).attributes
      (if deep then (d.tree n).children else [])).Distinct := by
    unfold Document.tree
    cases hwhole : d.treeWithin d.size n with
    | node kind as ts =>
        rw [hwhole] at htree
        cases deep with
        | true => exact htree
        | false => exact ⟨htree.1, trivial⟩
  exact (h.plant keepsOrder_withAttributes _ hcopied).1

theorem Orderly.importFrom {source : Document} (h : d.Orderly) (hsource : source.Orderly)
    (n : NodeId) : (d.importFrom source n).2.Orderly :=
  (h.plant keepsOrder_writingAttributes _ (hsource.distinct_treeWithin source.size n)).1

/-- Every reachable document is in order. -/
theorem Reachable.orderly (h : d.Reachable) : d.Orderly := by
  induction h with
  | empty =>
      constructor
      · intro n data hdata
        cases hdata
      · intro n data hdata
        cases hdata
  | create kind _ ih => exact ih.create kind
  | insertBefore p r hn _ ih => exact ih.insertBefore p r hn
  | removeChild p n _ ih => exact ih.removeChild p n
  | clearChildren p _ ih => exact ih.removeChildren p _
  | setAttribute n name value _ ih => exact ih.setAttribute n name value
  | removeAttribute n name _ ih => exact ih.removeAttribute n name
  | setProperty n name value _ ih => exact ih.setProperty n name value
  | setText n s _ ih => exact ih.setText n s
  | clone n deep _ ih => exact ih.clone n deep
  | importFrom n _ _ ihSource ih => exact ih.importFrom ihSource n

end Document

end LiveMarkup
