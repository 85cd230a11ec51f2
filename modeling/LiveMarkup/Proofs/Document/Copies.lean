import LiveMarkup.Proofs.Document.Traversals

/-!
# Copies in the hierarchy

A copy grows beside what was there: nothing old changes but the children of the
node that the copy is put under, and the hierarchy is kept. Copying is also
written as rules without a bound, which read a node, create its copy and go on
to its children; there is a derivation for every node, so copying ends.
-/

namespace LiveMarkup.Document

variable {d d' : Document} {n p : NodeId}

/-! ## Dressing -/

/-- At most the attributes of a node have changed. -/
structure AttributesOnly (n : NodeId) (d d' : Document) : Prop where
  size : d'.size = d.size
  parents : d'.parent? = d.parent?
  children : d'.children = d.children
  kinds : d'.kind? = d.kind?
  others : ∀ k, k ≠ n → d'.nodes[k]? = d.nodes[k]?

theorem AttributesOnly.refl (n : NodeId) (d : Document) : AttributesOnly n d d :=
  ⟨rfl, rfl, rfl, rfl, fun _ _ => rfl⟩

theorem AttributesOnly.trans {d'' : Document} (h : AttributesOnly n d d')
    (h' : AttributesOnly n d' d'') : AttributesOnly n d d'' where
  size := h'.size.trans h.size
  parents := h'.parents.trans h.parents
  children := h'.children.trans h.children
  kinds := h'.kinds.trans h.kinds
  others k hk := (h'.others k hk).trans (h.others k hk)

theorem attributesOnly_modify (d : Document) (n : NodeId) (f : Attributes → Attributes) :
    AttributesOnly n d (d.modify n fun data => { data with attributes := f data.attributes })
    where
  size := size_modify d n _
  parents := parent?_modify d n fun _ => rfl
  children := children_modify d n fun _ => rfl
  kinds := kind?_modify d n fun _ => rfl
  others _ hk := node_modify_other d _ hk

theorem attributesOnly_setAttribute (d : Document) (n : NodeId) (name value : String) :
    AttributesOnly n d (d.setAttribute n name value) := by
  obtain ⟨hsize, hparents, hchildren, hkinds, hothers⟩ :=
    attributesOnly_modify d n (Attributes.write name value)
  exact ⟨hsize, hparents, hchildren, hkinds, hothers⟩

theorem AttributesOnly.tied (h : AttributesOnly n d d') (hd : d.Tied) : d'.Tied := by
  refine hd.of_views h.parents h.children fun k hk => ?_
  rw [h.kinds] at hk
  rw [h.parents]
  exact hd.loose k hk

theorem AttributesOnly.linked (h : AttributesOnly n d d') (hd : d.Linked) : d'.Linked := by
  refine hd.of_views h.parents h.children fun k hk => ?_
  rw [h.kinds] at hk
  rw [h.parents]
  exact hd.loose k hk

/-- A dressing gives attributes to one node and does nothing else. -/
def Dressing.Attaches (dress : Dressing) : Prop :=
  ∀ (kind : NodeKind) (as : Attributes) (n : NodeId) (d : Document),
    AttributesOnly n d (dress kind as n d)

theorem attaches_withAttributes : Dressing.Attaches withAttributes :=
  fun _ as n d => attributesOnly_modify d n fun _ => as

theorem attaches_writingAttributes : Dressing.Attaches writingAttributes := by
  intro kind as n d
  unfold writingAttributes
  split
  · induction as generalizing d with
    | nil => exact .refl n d
    | cons a as ih => exact (attributesOnly_setAttribute d n a.1 a.2).trans (ih _)
  · exact .refl n d

/-! ## Planting -/

theorem node_append (hkind : d.kind? n ≠ some .fragment) (hloose : d.parent? n = none)
    {k : NodeId} (hk : k ≠ n) :
    (d.append p n).nodes[k]? =
      if k = p then (d.nodes[k]?).map fun data => { data with children := data.children ++ [n] }
      else d.nodes[k]? := by
  have hmoved : d.movedBy n = [n] := by rw [movedBy, if_neg hkind]
  have hrelease : d.release n = d := by
    rw [release, if_neg hkind, detach_of_parent_none hloose]
  have hnot : k ∉ [n] := by simpa using hk
  simp only [append, insertBefore, nodes_count, node_setParents, hmoved, hrelease]
  rw [if_neg hnot, node_modify]
  rfl

theorem Extends.within (h : Extends d d') (hd : d.Linked) (hp : d.contains p = true) {a : NodeId}
    (ha : d'.Within p a) : d.contains a = true := by
  induction ha with
  | refl => exact hp
  | tail _ hunder ih =>
      unfold Under parent? at hunder
      rw [h.same _ (of_decide_eq_true ih)] at hunder
      exact contains_of_mem_children ((hd.agree _ _).mp hunder)

variable {dress : Dressing}

mutual

/-- Planting a tree makes a loose node with everything under it, and nothing
that was there changes. -/
theorem Tied.plant (hdress : dress.Attaches) {d : Document} (h : d.Tied) :
    (t : Tree) → Tree.isSolidAll t.children = true →
      (plant dress t d).1 = d.size ∧ (plant dress t d).2.Tied ∧
        Extends d (plant dress t d).2 ∧ (plant dress t d).2.parent? d.size = none ∧
          (plant dress t d).2.kind? d.size = some t.kind
  | .node kind as ts, ht => by
      have hattach := hdress kind as d.size (d.create kind).2
      have htied := hattach.tied (h.create kind)
      have hgrown : Extends d (dress kind as d.size (d.create kind).2) := by
        constructor
        · rw [hattach.size, size_create]
          exact Nat.le_succ _
        · intro k hk
          rw [hattach.others k (Nat.ne_of_lt hk), node_create_other d kind hk]
      have hnew : (dress kind as d.size (d.create kind).2).parent? d.size = none ∧
          (dress kind as d.size (d.create kind).2).kind? d.size = some kind := by
        rw [hattach.parents, hattach.kinds, parent?_of_node (node_create_self d kind),
          kind?_of_node (node_create_self d kind)]
        exact ⟨rfl, rfl⟩
      have hcontains : (dress kind as d.size (d.create kind).2).contains d.size = true := by
        unfold contains
        rw [hattach.size, size_create]
        exact decide_eq_true (Nat.lt_succ_self _)
      obtain ⟨hunder, hedit⟩ := htied.plantUnder hdress hcontains ts ht
      have hplant : Document.plant dress (.node kind as ts) d = (d.size,
          Document.plantUnder dress d.size ts (dress kind as d.size (d.create kind).2)) := by
        rw [Document.plant]
        rfl
      rw [hplant]
      refine ⟨rfl, hunder, hedit.extends hgrown (Nat.le_refl _) (by simp), ?_, ?_⟩
      · refine Eq.trans ?_ hnew.1
        unfold parent?
        rw [hedit.parent, Option.bind_map]
        rfl
      · refine Eq.trans ?_ hnew.2
        unfold kind?
        rw [hedit.parent, Option.map_map]
        rfl

/-- Planting a forest under a node changes no old node but that one, and of that
one the children alone. -/
theorem Tied.plantUnder (hdress : dress.Attaches) {d : Document} (h : d.Tied) {p : NodeId}
    (hp : d.contains p = true) : (ts : List Tree) → Tree.isSolidAll ts = true →
      (plantUnder dress p ts d).Tied ∧ Edit d (plantUnder dress p ts d) p [] []
  | [], _ => ⟨h, .refl d p []⟩
  | t :: ts, ht => by
      simp only [Tree.isSolidAll, Bool.and_eq_true] at ht
      have hsolid := Tree.isSolid_iff.mp ht.1
      obtain ⟨hn, htied, hgrown, hloose, hkind⟩ := h.plant hdress t hsolid.2
      rw [Document.plantUnder]
      generalize Document.plant dress t d = planted at hn htied hgrown hloose hkind
      obtain ⟨n, d₁⟩ := planted
      subst hn
      have hnot : d₁.kind? d.size ≠ some .fragment := by
        rw [hkind]
        exact fun heq => hsolid.1 (Option.some.inj heq)
      have hcontains : d₁.contains d.size = true := by
        obtain ⟨data, hdata, -⟩ := Option.map_eq_some_iff.mp hkind
        exact contains_of_node hdata
      have hp₁ : d₁.contains p = true :=
        decide_eq_true (Nat.lt_of_lt_of_le (of_decide_eq_true hp) hgrown.size_le)
      have hinserted : (d₁.append p d.size).Tied := htied.insertBefore hp₁ hcontains none
      have hedit : Edit d (d₁.append p d.size) p [] [] := by
        refine ⟨?_, ?_, ?_, by simp⟩
        · rw [append, size_insertBefore]
          exact hgrown.size_le
        · intro k hk hkp _
          rw [node_append hnot hloose (Nat.ne_of_lt hk), if_neg hkp, hgrown.same k hk]
        · have hlt : p < d.size := of_decide_eq_true hp
          obtain ⟨data, hdata⟩ := exists_node hp
          have hnode : (d₁.append p d.size).nodes[p]? =
              some { data with children := data.children ++ [d.size] } := by
            rw [node_append hnot hloose (Nat.ne_of_lt hlt), if_pos rfl, hgrown.node hdata,
              Option.map_some]
          rw [hnode, hdata, children_of_node hnode]
          rfl
      have hp₂ : (d₁.append p d.size).contains p = true := by
        unfold contains
        rw [append, size_insertBefore]
        exact hp₁
      obtain ⟨hrest, hedit'⟩ := hinserted.plantUnder hdress hp₂ ts ht.2
      exact ⟨hrest, hedit.trans hedit'⟩

end

mutual

theorem Linked.plant (hdress : dress.Attaches) {d : Document} (h : d.Linked) :
    (t : Tree) → Tree.isSolidAll t.children = true → (Document.plant dress t d).2.Linked
  | .node kind as ts, ht => by
      have hattach := hdress kind as d.size (d.create kind).2
      have hcontains : (dress kind as d.size (d.create kind).2).contains d.size = true := by
        unfold contains
        rw [hattach.size, size_create]
        exact decide_eq_true (Nat.lt_succ_self _)
      rw [Document.plant]
      exact (hattach.linked (h.create kind)).plantUnder hdress hcontains ts ht

theorem Linked.plantUnder (hdress : dress.Attaches) {d : Document} (h : d.Linked) {p : NodeId}
    (hp : d.contains p = true) : (ts : List Tree) → Tree.isSolidAll ts = true →
      (Document.plantUnder dress p ts d).Linked
  | [], _ => h
  | t :: ts, ht => by
      simp only [Tree.isSolidAll, Bool.and_eq_true] at ht
      have hsolid := Tree.isSolid_iff.mp ht.1
      obtain ⟨hn, -, hgrown, -, hkind⟩ := h.toTied.plant hdress t hsolid.2
      have hlinked := h.plant hdress t hsolid.2
      rw [Document.plantUnder]
      generalize Document.plant dress t d = planted at hn hlinked hgrown hkind
      obtain ⟨n, d₁⟩ := planted
      subst hn
      have hcontains : d₁.contains d.size = true := by
        obtain ⟨data, hdata, -⟩ := Option.map_eq_some_iff.mp hkind
        exact contains_of_node hdata
      have hp₁ : d₁.contains p = true :=
        decide_eq_true (Nat.lt_of_lt_of_le (of_decide_eq_true hp) hgrown.size_le)
      have hp₂ : (d₁.append p d.size).contains p = true := by
        unfold contains
        rw [append, size_insertBefore]
        exact hp₁
      -- the new node is not above the old parent
      refine (hlinked.insertBefore hp₁ hcontains none fun m hm hwithin => ?_).plantUnder
        hdress hp₂ ts ht.2
      have hnot : d₁.kind? d.size ≠ some .fragment := by
        rw [hkind]
        exact fun heq => hsolid.1 (Option.some.inj heq)
      rw [movedBy, if_neg hnot, List.mem_singleton] at hm
      subst hm
      exact Nat.lt_irrefl _ (of_decide_eq_true (hgrown.within h hp hwithin))

end

/-! ## Copying node by node -/

mutual

/-- Copying a node: its copy is created and dressed, and then its children are
copied under it. What is read may be the growing document itself. -/
inductive Copies (dress : Dressing) (view : Document → Document) :
    NodeId → Document → NodeId → Document → Prop
  | node {n : NodeId} {d d' : Document} {data : NodeData}
      (hn : (view d).nodes[n]? = some data)
      (hunder : CopiesAll dress view data.children d.size
        (dress data.kind data.attributes d.size (d.create data.kind).2) d') :
      Copies dress view n d d.size d'

/-- Copying nodes one after another, each to the end of the children of one
node. -/
inductive CopiesAll (dress : Dressing) (view : Document → Document) :
    List NodeId → NodeId → Document → Document → Prop
  | nil {p : NodeId} {d : Document} : CopiesAll dress view [] p d d
  | cons {c copy p : NodeId} {cs : List NodeId} {d d₁ d' : Document}
      (hfirst : Copies dress view c d copy d₁)
      (hrest : CopiesAll dress view cs p (d₁.append p copy) d') :
      CopiesAll dress view (c :: cs) p d d'

end

variable {view : Document → Document} {base source : Document}

theorem copiesAll (hdress : dress.Attaches) {cs : List NodeId}
    (hsolid : Tree.isSolidAll (cs.map source.tree) = true)
    (hcopies : ∀ c ∈ cs, ∀ d : Document, d.Linked → Extends base d →
      Copies dress view c d (plant dress (source.tree c) d).1 (plant dress (source.tree c) d).2)
    (hd : d.Linked) (hbase : Extends base d) (hp : d.contains p = true) (hfresh : base.size ≤ p) :
    CopiesAll dress view cs p d (plantUnder dress p (cs.map source.tree) d) := by
  induction cs generalizing d with
  | nil => exact .nil
  | cons c cs ih =>
      rw [List.map_cons, Tree.isSolidAll, Bool.and_eq_true] at hsolid
      have hone : Tree.isSolidAll [source.tree c] = true := by
        rw [Tree.isSolidAll, hsolid.1]
        rfl
      have hlinked := hd.plantUnder hdress hp [source.tree c] hone
      have hedit := (hd.toTied.plantUnder hdress hp [source.tree c] hone).2
      have hp' : (plantUnder dress p [source.tree c] d).contains p = true :=
        decide_eq_true (Nat.lt_of_lt_of_le (of_decide_eq_true hp) hedit.size_le)
      have hrest := ih hsolid.2 (fun b hb => hcopies b (List.mem_cons_of_mem c hb)) hlinked
        (hedit.extends hbase hfresh (by simp)) hp'
      exact .cons (hcopies c List.mem_cons_self d hd hbase) hrest

/-- Planting the tree under a node is copying it node by node, as long as what
is read stays as it was. -/
theorem Linked.copies (hsource : source.Linked) (horder : source.Orderly)
    (hdress : dress.Attaches)
    (hview : ∀ d, Extends base d → ∀ (k : NodeId) (data : NodeData),
      source.nodes[k]? = some data → (view d).nodes[k]? = some data)
    (hn : source.contains n = true) (hd : d.Linked) (hbase : Extends base d) :
    Copies dress view n d (Document.plant dress (source.tree n) d).1 (Document.plant dress (source.tree n) d).2 := by
  revert d
  refine hsource.childInduction (motive := fun n => source.contains n = true →
    ∀ {d : Document}, d.Linked → Extends base d → Copies dress view n d
      (Document.plant dress (source.tree n) d).1 (Document.plant dress (source.tree n) d).2) ?_ n hn
  intro n ih hn d hd hbase
  obtain ⟨data, hdata⟩ := exists_node hn
  have hattach := hdress data.kind data.attributes d.size (d.create data.kind).2
  have hchildren : source.forest n = data.children.map source.tree := by
    rw [forest_eq, children_of_node hdata]
  have htree : source.tree n = .node data.kind data.attributes (data.children.map source.tree) := by
    rw [hsource.tree_eq, hchildren, kind?_of_node hdata]
    unfold attributes
    rw [hdata]
    rfl
  have hsolid : Tree.isSolidAll (data.children.map source.tree) = true := by
    rw [← hchildren]
    exact horder.solid_forest n
  rw [htree]
  refine .node (hview d hbase n data hdata) ?_
  apply copiesAll hdress hsolid
  · intro c hc d hd hbase
    have hmem : c ∈ source.children n := by rwa [children_of_node hdata]
    exact ih c hmem (contains_of_parent? ((hsource.agree n c).mpr hmem)) hd hbase
  · exact hattach.linked (hd.create data.kind)
  · constructor
    · rw [hattach.size, size_create]
      exact Nat.le_succ_of_le hbase.size_le
    · intro k hk
      have hlt := Nat.lt_of_lt_of_le hk hbase.size_le
      rw [hattach.others k (Nat.ne_of_lt hlt), node_create_other d data.kind hlt, hbase.same k hk]
  · unfold contains
    rw [hattach.size, size_create]
    exact decide_eq_true (Nat.lt_succ_self _)
  · exact hbase.size_le

/-! ## Clones and imports -/

theorem clone_eq (d : Document) (n : NodeId) :
    d.clone n true = plant withAttributes (d.tree n) d := by
  unfold clone
  cases d.tree n
  rfl

/-- Cloning a node with everything under it is copying it node by node. -/
theorem Linked.copies_clone (h : d.Linked) (horder : d.Orderly) (hn : d.contains n = true) :
    Copies withAttributes id n d (d.clone n true).1 (d.clone n true).2 := by
  rw [clone_eq]
  refine h.copies horder attaches_withAttributes ?_ hn h (.refl d)
  intro d' hgrown k data hk
  exact hgrown.node hk

/-- Importing a node is copying it node by node. -/
theorem Linked.copies_import (hd : d.Linked) (hsource : source.Linked)
    (horder : source.Orderly) (hn : source.contains n = true) :
    Copies writingAttributes (fun _ => source) n d (d.importFrom source n).1
      (d.importFrom source n).2 :=
  hsource.copies horder attaches_writingAttributes (fun _ _ _ _ hk => hk) hn hd (.refl d)

theorem Linked.clone (h : d.Linked) (horder : d.Orderly) (n : NodeId) (deep : Bool) :
    (d.clone n deep).2.Linked ∧ Extends d (d.clone n deep).2 := by
  have hsolid : Tree.isSolidAll (if deep then (d.tree n).children else []) = true := by
    split
    · rw [h.tree_eq]
      exact horder.solid_forest n
    · rfl
  let copied : Tree := .node (d.tree n).kind (d.tree n).attributes
    (if deep then (d.tree n).children else [])
  obtain ⟨-, -, hgrown, -⟩ := h.toTied.plant attaches_withAttributes copied hsolid
  exact ⟨h.plant attaches_withAttributes copied hsolid, hgrown⟩

/-- Importing grows the document and keeps the hierarchy. -/
theorem Linked.importFrom (h : d.Linked) (hsource : source.Linked) (horder : source.Orderly)
    (n : NodeId) : (d.importFrom source n).2.Linked ∧ Extends d (d.importFrom source n).2 := by
  have hsolid : Tree.isSolidAll (source.tree n).children = true := by
    rw [hsource.tree_eq]
    exact horder.solid_forest n
  obtain ⟨-, -, hgrown, -⟩ := h.toTied.plant attaches_writingAttributes (source.tree n) hsolid
  exact ⟨h.plant attaches_writingAttributes (source.tree n) hsolid, hgrown⟩

end LiveMarkup.Document
