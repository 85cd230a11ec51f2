import LiveMarkup.Proofs.Document.Insertion
import LiveMarkup.Proofs.Document.Subtrees
import Mathlib.Algebra.GroupWithZero.Nat

/-!
# Deep copies, node by node

A copy of a node and of everything under it is numbered in preorder from the size of
the document on. Where a node of the original points at other ones, its copy points at
their copies; only the topmost copy stands nowhere. Cloning keeps the attributes of
every node, while importing leaves behind those of nodes that are no elements.
-/

namespace LiveMarkup

/-- Which attributes the copy of a node gets. -/
abbrev Keep := NodeKind → Attributes → Attributes

/-- All attributes are kept. -/
def keepAll : Keep := fun _ attributes => attributes

/-- The attributes of elements are kept. -/
def keepOfElements : Keep := fun kind attributes =>
  match kind with
  | .element _ => attributes
  | _ => []

/-- What the copy of a node holds, given the numbers of the copies. -/
def NodeData.copied (keep : Keep) (number : NodeId → NodeId) (parent : Option NodeId)
    (data : NodeData) : NodeData :=
  ⟨data.kind, parent, data.children.map number, keep data.kind data.attributes, ∅⟩

namespace Document

open Branch (idsAll tops)

variable {d source : Document} {p n : NodeId}

/-! ## Dressing -/

/-- A dressing gives a new node the attributes that are kept, and counts them as
written or not. -/
structure Dressing.Gives (dress : Dressing) (keep : Keep) (written : Attributes → Nat) :
    Prop where
  attaches : dress.Attaches
  node : ∀ (kind : NodeKind) (as : Attributes) (d : Document), as.keys.Nodup →
    (dress kind as d.size (d.create kind).2).nodes[d.size]? =
      some ⟨kind, none, [], keep kind as, ∅⟩
  counts : ∀ (kind : NodeKind) (as : Attributes) (n : NodeId) (d : Document),
    (dress kind as n d).counts =
      { d.counts with attributeWrites := d.counts.attributeWrites + written (keep kind as) }

theorem gives_withAttributes : Dressing.Gives withAttributes keepAll fun _ => 0 where
  attaches := attaches_withAttributes
  node kind _ d _ := node_modify_self _ _ (node_create_self d kind)
  counts _ _ _ _ := rfl

theorem counts_setAttributes (as : Attributes) (n : NodeId) (d : Document) :
    (as.foldl (fun d a => d.setAttribute n a.1 a.2) d).counts =
      { d.counts with attributeWrites := d.counts.attributeWrites + as.length } := by
  induction as generalizing d with
  | nil => rfl
  | cons a as ih =>
      rw [List.foldl_cons, ih, List.length_cons, Nat.add_comm as.length, ← Nat.add_assoc]
      rfl

theorem gives_writingAttributes :
    Dressing.Gives writingAttributes keepOfElements List.length where
  attaches := attaches_writingAttributes
  node kind as d hnames := by
    rw [node_dressed d kind as d.size (Nat.le_refl _), if_pos rfl]
    cases kind with
    | element tag =>
        have hnames : (Attributes.keys ([] ++ as)).Nodup := hnames
        have hall : as.foldl (fun as a => Attributes.write a.1 a.2 as) [] = as :=
          Attributes.foldl_write hnames
        rw [NodeKind.written, hall]
        rfl
    | text s => rfl
    | comment s => rfl
    | fragment => rfl
  counts kind as n d := by
    cases kind with
    | element tag => exact counts_setAttributes as n d
    | text s => rfl
    | comment s => rfl
    | fragment => rfl

/-! ## Planting branches -/

/-- How many attributes of a node are written to its copy. -/
def writesOf (source : Document) (keep : Keep) (written : Attributes → Nat) (m : NodeId) : Nat :=
  match source.nodes[m]? with
  | some data => written (keep data.kind data.attributes)
  | none => 0

/-- Branches of a document are copied to the end of a node's children. -/
structure PlantsCopies (keep : Keep) (written : Attributes → Nat) (number : NodeId → NodeId)
    (source : Document) (bs : List Branch) (d : Document) (p : NodeId) (d' : Document) :
    Prop where
  size : d'.size = d.size + (idsAll bs).length
  children : d'.children p = d.children p ++ (tops bs).map number
  nodes : ∀ m ∈ idsAll bs, ∀ data, source.nodes[m]? = some data →
    d'.nodes[number m]? = some (data.copied keep number (data.parent.map number))
  counts : d'.counts = { d.counts with
    created := d.counts.created + (idsAll bs).length
    inserted := d.counts.inserted + (idsAll bs).length
    attributeWrites := d.counts.attributeWrites +
      ((idsAll bs).map (source.writesOf keep written)).sum }

theorem Linked.tree_of_growsOne (h : source.Linked) {parent : Option NodeId} {kind : NodeKind}
    {attributes : Attributes} {properties : Properties} {under : List Branch}
    (hn : source.GrowsOne parent (.node n kind attributes properties under)) :
    source.tree n = .node kind attributes ((tops under).map source.tree) := by
  have hattributes : source.attributes n = attributes := by
    unfold Document.attributes
    rw [hn.1]
  rw [h.tree_eq, forest_eq, children_of_node hn.1, kind?_of_node hn.1, hattributes]
  rfl

theorem node_append_self (hkind : d.kind? n ≠ some .fragment) (hloose : d.parent? n = none)
    (hne : n ≠ p) :
    (d.append p n).nodes[n]? = (d.nodes[n]?).map fun data => { data with parent := some p } := by
  have hmoved : d.movedBy n = [n] := by rw [movedBy, if_neg hkind]
  have hrelease : d.release n = d := by
    rw [release, if_neg hkind, detach_of_parent_none hloose]
  simp only [append, insertBefore, nodes_count, node_setParents, hmoved, hrelease]
  rw [if_pos (List.mem_singleton_self n), node_modify_other d _ hne]

theorem counts_append (hkind : d.kind? n ≠ some .fragment) (hloose : d.parent? n = none) :
    (d.append p n).counts = { d.counts with inserted := d.counts.inserted + 1 } := by
  have hmoved : d.movedBy n = [n] := by rw [movedBy, if_neg hkind]
  have hrelease : d.release n = d := by
    rw [release, if_neg hkind, detach_of_parent_none hloose]
  simp only [append, insertBefore, hmoved, hrelease]
  rfl

/-- A branch of a document is copied to the end of a document, and the copy stands nowhere:
nothing else changes. -/
structure Duplicate (keep : Keep) (writes : Nat) (number : NodeId → NodeId) (source : Document)
    (b : Branch) (d : Document) (made : NodeId × Document) : Prop where
  root : made.1 = d.size
  size : made.2.size = d.size + b.ids.length
  grown : Extends d made.2
  top : ∀ data, source.nodes[b.id]? = some data →
    made.2.nodes[d.size]? = some (data.copied keep number none)
  nodes : ∀ m ∈ b.ids, m ≠ b.id → ∀ data, source.nodes[m]? = some data →
    made.2.nodes[number m]? = some (data.copied keep number (data.parent.map number))
  counts : made.2.counts = { d.counts with
    created := d.counts.created + b.ids.length
    inserted := d.counts.inserted + (b.ids.length - 1)
    attributeWrites := d.counts.attributeWrites + writes }

variable {dress : Dressing} {keep : Keep} {written : Attributes → Nat}
  {number : NodeId → NodeId} {parent : Option NodeId} {bs : List Branch}

theorem Dressing.Gives.plant_node (hgives : dress.Gives keep written) (hsource : source.Linked)
    (horder : source.Orderly) {kind : NodeKind} {attributes : Attributes}
    {properties : Properties} {under : List Branch}
    (hn : source.GrowsOne parent (.node n kind attributes properties under)) (hd : d.Tied)
    (hsolid : Tree.isSolidAll ((tops under).map source.tree) = true)
    (hunder : ∀ e : Document, e.Tied → e.contains d.size = true → e.size = d.size + 1 →
      PlantsCopies keep written number source under e d.size
        (plantUnder dress d.size ((tops under).map source.tree) e)) :
    Duplicate keep ((n :: idsAll under).map (source.writesOf keep written)).sum number source
      (.node n kind attributes properties under) d (plant dress (source.tree n) d) := by
  have hnode := hgives.node kind attributes d (horder.names n _ hn.1)
  have hcounts := hgives.counts kind attributes d.size (d.create kind).2
  have hattach := hgives.attaches kind attributes d.size (d.create kind).2
  have hplant : plant dress (source.tree n) d = (d.size,
      plantUnder dress d.size ((tops under).map source.tree)
        (dress kind attributes d.size (d.create kind).2)) := by
    rw [hsource.tree_of_growsOne hn, plant]
    rfl
  rw [hplant]
  have htied := hattach.tied (hd.create kind)
  have hsize : (dress kind attributes d.size (d.create kind).2).size = d.size + 1 := by
    rw [hattach.size, size_create]
  have hcontains : (dress kind attributes d.size (d.create kind).2).contains d.size = true :=
    contains_of_node hnode
  have hcopies := hunder _ htied hcontains hsize
  obtain ⟨-, hedit⟩ := htied.plantUnder hgives.attaches hcontains _ hsolid
  have hgrown : Extends d (dress kind attributes d.size (d.create kind).2) := by
    refine ⟨by omega, fun k hk => ?_⟩
    rw [hattach.others k (Nat.ne_of_lt hk), node_create_other d kind hk]
  refine ⟨rfl, ?_, hedit.extends hgrown (Nat.le_refl _) (by simp), ?_, ?_, ?_⟩
  · rw [hcopies.size, hsize, Branch.ids_node, List.length_cons]
    omega
  · intro data hdata
    cases hn.1.symm.trans hdata
    rw [hedit.parent, hnode, hcopies.children, children_of_node hnode]
    rfl
  · intro m hm hne data hdata
    exact hcopies.nodes m ((List.mem_cons.mp hm).resolve_left hne) data hdata
  · have hwrites : source.writesOf keep written n = written (keep kind attributes) := by
      rw [writesOf, hn.1]
    rw [hcopies.counts, hcounts, Branch.ids_node, List.map_cons, List.sum_cons, hwrites,
      List.length_cons]
    simp only [create, Nat.add_sub_cancel, Nat.add_assoc, Nat.add_comm 1]

theorem Duplicate.append {b : Branch} {d₁ : Document}
    (h : Duplicate keep (b.ids.map (source.writesOf keep written)).sum number source b d
      (d.size, d₁))
    (hkind : d₁.kind? d.size ≠ some .fragment) (hloose : d₁.parent? d.size = none)
    (hp : d.contains p = true) (hb : source.GrowsOne parent b)
    (hparent : parent.map number = some p)
    (hself : number b.id = d.size) (hbehind : ∀ m ∈ b.ids, m ≠ b.id → d.size < number m) :
    PlantsCopies keep written number source [b] d p (d₁.append p d.size) := by
  have hlt : p < d.size := of_decide_eq_true hp
  obtain ⟨pdata, hpdata⟩ := exists_node hp
  refine ⟨?_, ?_, ?_, ?_⟩
  · rw [Document.append, size_insertBefore, h.size, Branch.idsAll_cons, Branch.idsAll_nil,
      List.append_nil]
  · have hnode : (d₁.append p d.size).nodes[p]? =
        some { pdata with children := pdata.children ++ [d.size] } := by
      rw [node_append hkind hloose (Nat.ne_of_lt hlt), if_pos rfl, h.grown.node hpdata,
        Option.map_some]
    rw [children_of_node hnode, children_of_node hpdata, ← hself]
    rfl
  · intro m hm data hdata
    rw [Branch.idsAll_cons, Branch.idsAll_nil, List.append_nil] at hm
    by_cases hmb : m = b.id
    · subst hmb
      have hup : data.parent = parent := by
        obtain ⟨k, kind, attributes, properties, under⟩ := b
        cases hb.1.symm.trans hdata
        rfl
      rw [hself, node_append_self hkind hloose (Nat.ne_of_gt hlt), h.top data hdata, hup, hparent]
      rfl
    · have hafter := hbehind m hm hmb
      rw [node_append hkind hloose (Nat.ne_of_gt hafter),
        if_neg (Nat.ne_of_gt (Nat.lt_trans hlt hafter))]
      exact h.nodes m hm hmb data hdata
  · have hsome : b.ids.length ≠ 0 := by
      obtain ⟨k, kind, attributes, properties, under⟩ := b
      exact Nat.succ_ne_zero _
    rw [counts_append hkind hloose, h.counts, Branch.idsAll_cons, Branch.idsAll_nil,
      List.append_nil]
    simp only [MutationCounts.mk.injEq, true_and, and_true]
    omega

theorem PlantsCopies.append {cs : List Branch} {d' d'' : Document}
    (h : PlantsCopies keep written number source bs d p d')
    (h' : PlantsCopies keep written number source cs d' p d'') (hedit : Edit d' d'' p [] [])
    (hnumber : ∀ m ∈ idsAll bs, p < number m ∧ number m < d'.size) :
    PlantsCopies keep written number source (bs ++ cs) d p d'' := by
  refine ⟨?_, ?_, ?_, ?_⟩
  · rw [h'.size, h.size, Branch.idsAll_append, List.length_append, Nat.add_assoc]
  · rw [h'.children, h.children, Branch.tops_append, List.map_append, List.append_assoc]
  · intro m hm data hdata
    rw [Branch.idsAll_append] at hm
    rcases List.mem_append.mp hm with hm | hm
    · obtain ⟨hafter, hlt⟩ := hnumber m hm
      rw [hedit.same _ hlt (Nat.ne_of_gt hafter) List.not_mem_nil]
      exact h.nodes m hm data hdata
    · exact h'.nodes m hm data hdata
  · rw [h'.counts, h.counts, Branch.idsAll_append, List.length_append, List.map_append,
      List.sum_append]
    simp only [Nat.add_assoc]

theorem Dressing.Gives.plantUnder (hgives : dress.Gives keep written) (hsource : source.Linked)
    (horder : source.Orderly) (hbs : source.Grows parent bs) (hd : d.Tied)
    (hp : d.contains p = true) (hsolid : Tree.isSolidAll ((tops bs).map source.tree) = true)
    (hnumber : (idsAll bs).map number = List.range' d.size (idsAll bs).length)
    (hparent : parent.map number = some p) :
    PlantsCopies keep written number source bs d p
      (Document.plantUnder dress p ((tops bs).map source.tree) d) := by
  induction bs using Branch.forestInduction generalizing parent p d with
  | nil =>
      refine ⟨rfl, ?_, by simp, rfl⟩
      simp [Document.plantUnder]
  | cons n kind attributes properties under rest ihUnder ihRest =>
      obtain ⟨hn, hrest⟩ := hbs
      have htree := hsource.tree_of_growsOne hn
      simp only [Branch.tops_cons, Branch.id_node, List.map_cons, Tree.isSolidAll,
        Bool.and_eq_true] at hsolid
      have hsolidUnder : Tree.isSolidAll ((tops under).map source.tree) = true := by
        have hone := (Tree.isSolid_iff.mp hsolid.1).2
        rwa [htree] at hone
      have hkind : kind ≠ .fragment := by
        have hone := (Tree.isSolid_iff.mp hsolid.1).1
        rwa [htree] at hone
      obtain ⟨hself, hnumberUnder, hnumberRest⟩ : number n = d.size ∧
          (idsAll under).map number = List.range' (d.size + 1) (idsAll under).length ∧
          (idsAll rest).map number =
            List.range' (d.size + (1 + (idsAll under).length)) (idsAll rest).length := by
        rw [Branch.idsAll_cons, Branch.ids_node, List.cons_append, List.map_cons, List.length_cons,
          List.map_append, List.length_append, List.range'_succ, ← List.range'_append_1] at hnumber
        obtain ⟨hself, hothers⟩ := List.cons.inj hnumber
        obtain ⟨hunder, hrest⟩ := List.append_inj hothers (by simp)
        exact ⟨hself, hunder, by rwa [← Nat.add_assoc]⟩
      have hcopy := hgives.plant_node hsource horder hn hd hsolidUnder
        fun e he hcontains hsize => ihUnder hn.2 he hcontains hsolidUnder
          (by rw [hsize]; exact hnumberUnder) (congrArg some hself)
      obtain ⟨-, htied, -, hloose, hkindOf⟩ :=
        hd.plant hgives.attaches (source.tree n) (Tree.isSolid_iff.mp hsolid.1).2
      have hnot : (Document.plant dress (source.tree n) d).2.kind? d.size ≠ some .fragment := by
        rw [hkindOf]
        exact fun heq => (Tree.isSolid_iff.mp hsolid.1).1 (Option.some.inj heq)
      rw [Branch.tops_cons, Branch.id_node, List.map_cons, Document.plantUnder]
      generalize Document.plant dress (source.tree n) d = made at hcopy htied hloose hnot ⊢
      obtain ⟨root, d₁⟩ := made
      obtain rfl : root = d.size := hcopy.root
      have hlt : p < d.size := of_decide_eq_true hp
      have hids : (Branch.node n kind attributes properties under).ids.length =
          1 + (idsAll under).length := Nat.add_comm _ 1
      have hnumbers : ∀ m ∈ idsAll under,
          d.size < number m ∧ number m < d.size + (1 + (idsAll under).length) := by
        intro m hm
        have hmem := List.mem_map_of_mem (f := number) hm
        rw [hnumberUnder, List.mem_range'_1, Nat.add_assoc] at hmem
        exact hmem
      have hfirst := hcopy.append hnot hloose hp hn hparent hself fun m hm hne =>
        (hnumbers m ((List.mem_cons.mp hm).resolve_left hne)).1
      have hsize₁ : d₁.size = d.size + (1 + (idsAll under).length) := by rw [hcopy.size, hids]
      have hle : d.size < d₁.size := by omega
      have hp₁ : d₁.contains p = true := decide_eq_true (Nat.lt_trans hlt hle)
      have hcontains : d₁.contains d.size = true := decide_eq_true hle
      have htied₂ : (d₁.append p d.size).Tied := htied.insertBefore hp₁ hcontains none
      have hp₂ : (d₁.append p d.size).contains p = true := by
        rwa [contains, append, size_insertBefore]
      have hsize₂ : (d₁.append p d.size).size = d.size + (1 + (idsAll under).length) := by
        rw [append, size_insertBefore, hsize₁]
      rw [← hsize₂] at hnumberRest
      have hothers := ihRest hrest htied₂ hp₂ hsolid.2 hnumberRest hparent
      have hedit := (htied₂.plantUnder hgives.attaches hp₂ _ hsolid.2).2
      refine hfirst.append hothers hedit fun m hm => ?_
      rw [Branch.idsAll_cons, Branch.idsAll_nil, List.append_nil, Branch.ids_node] at hm
      rw [hsize₂, ← hsize₁]
      rcases List.mem_cons.mp hm with rfl | hm
      · rw [hself]
        exact ⟨hlt, hle⟩
      · obtain ⟨hafter, hbefore⟩ := hnumbers m hm
        exact ⟨Nat.lt_trans hlt hafter, hsize₁ ▸ hbefore⟩

/-! ## Clones and imports -/

/-- The numbers of nodes by their place in a list. -/
def numberFrom (start : Nat) (ids : List NodeId) (m : NodeId) : NodeId :=
  start + ids.idxOf m

theorem map_numberFrom {ids : List NodeId} (h : ids.Nodup) (start : Nat) :
    ids.map (numberFrom start ids) = List.range' start ids.length := by
  refine List.ext_getElem (by simp) fun i hi _ => ?_
  rw [List.getElem_map, List.getElem_range', numberFrom, h.idxOf_getElem, Nat.one_mul]

/-- What planting the tree under a node does: the nodes in and under it get the numbers
that follow those of the document, in preorder. -/
theorem Dressing.Gives.duplicate (hgives : dress.Gives keep written) (hsource : source.Linked)
    (horder : source.Orderly) (hd : d.Tied) (hn : source.contains n = true) :
    ∃ b : Branch, b.id = n ∧ source.GrowsOne (source.parent? n) b ∧ b.ids.Nodup ∧
      Duplicate keep (b.ids.map (source.writesOf keep written)).sum (numberFrom d.size b.ids)
        source b d (plant dress (source.tree n) d) := by
  obtain ⟨b, rfl, hgrows⟩ := hsource.exists_growsOne hn
  obtain ⟨n, kind, attributes, properties, under⟩ := b
  have hchildren : source.children n = tops under := children_of_node hgrows.1
  have hnodup : (n :: idsAll under).Nodup :=
    hsource.nodup_of_grows hgrows.2 (hchildren ▸ hsource.nodup n)
  have hsolid : Tree.isSolidAll ((tops under).map source.tree) = true := by
    rw [← hchildren]
    exact horder.solid_forest n
  have hnumbers := map_numberFrom hnodup d.size
  rw [List.map_cons, List.length_cons, List.range'_succ] at hnumbers
  obtain ⟨hself, hunder⟩ := List.cons.inj hnumbers
  refine ⟨_, rfl, hgrows, hnodup, ?_⟩
  refine hgives.plant_node hsource horder hgrows hd hsolid fun e he hcontains hsize => ?_
  rw [← hsize] at hunder
  exact hgives.plantUnder hsource horder hgrows.2 he hcontains hsolid hunder (congrArg some hself)

/-- Deep copies are exact: a clone keeps the attributes of all nodes and counts none as
written, and an import keeps and counts those of elements. -/
theorem Evolves.copies_exact (h : Evolves .empty d) :
    (∀ n, d.contains n = true → ∃ b : Branch, b.id = n ∧ d.GrowsOne (d.parent? n) b ∧
      b.ids.Nodup ∧ Duplicate keepAll 0 (numberFrom d.size b.ids) d b d (d.clone n true)) ∧
    ∀ source, Evolves .empty source → ∀ n, source.contains n = true →
      ∃ b : Branch, b.id = n ∧ source.GrowsOne (source.parent? n) b ∧ b.ids.Nodup ∧
        Duplicate keepOfElements (b.ids.map (source.writesOf keepOfElements List.length)).sum
          (numberFrom d.size b.ids) source b d (d.importFrom source n) := by
  obtain ⟨hlinked, horder, -⟩ := h.evolved linked_empty Reachable.empty.orderly
  constructor
  · intro n hn
    obtain ⟨b, hid, hgrows, hnodup, hcopy⟩ :=
      gives_withAttributes.duplicate hlinked horder hlinked.toTied hn
    have hnone : (b.ids.map (d.writesOf keepAll fun _ => 0)).sum = 0 := by
      refine List.sum_eq_zero_iff_forall_eq_nat.mpr fun k hk => ?_
      obtain ⟨m, -, rfl⟩ := List.mem_map.mp hk
      unfold writesOf
      split <;> rfl
    rw [hnone, ← clone_eq] at hcopy
    exact ⟨b, hid, hgrows, hnodup, hcopy⟩
  · intro source hsource n hn
    obtain ⟨hfrom, hnames, -⟩ := hsource.evolved linked_empty Reachable.empty.orderly
    exact gives_writingAttributes.duplicate hfrom hnames hlinked.toTied hn

/-- An element with two texts is copied within its document and into an empty one. -/
theorem Evolves.copies_exact_twoTexts :
    Evolves .empty twoTexts ∧
      (∃ b : Branch, b.id = 0 ∧ twoTexts.GrowsOne none b ∧ (twoTexts.clone 0 true).1 = 3 ∧
        (twoTexts.clone 0 true).2.size = 3 + b.ids.length) ∧
      ∃ b : Branch, b.id = 0 ∧ twoTexts.GrowsOne none b ∧ (empty.importFrom twoTexts 0).1 = 0 ∧
        (empty.importFrom twoTexts 0).2.size = 0 + b.ids.length := by
  obtain ⟨hclones, -⟩ := Evolves.copies_exact evolves_twoTexts
  obtain ⟨-, himports⟩ := Evolves.copies_exact (d := empty) .refl
  obtain ⟨b, hb, hgrows, -, hclone⟩ := hclones 0 rfl
  obtain ⟨c, hc, hgrows', -, himport⟩ := himports twoTexts evolves_twoTexts 0 rfl
  exact ⟨evolves_twoTexts, ⟨b, hb, hgrows, hclone.root, hclone.size⟩,
    ⟨c, hc, hgrows', himport.root, himport.size⟩⟩

/-- A text with an attribute. -/
def labelledText : Document :=
  (empty.create (.text "x")).2.setAttribute 0 "title" "y"

/-- The attribute of a text comes along with a clone, but not with an import. -/
theorem import_loses_attribute :
    Evolves .empty labelledText ∧ labelledText.attributes 0 = [("title", "y")] ∧
      (labelledText.clone 0 true).2.attributes 1 = [("title", "y")] ∧
      (empty.importFrom labelledText 0).2.attributes 0 = [] ∧
      (empty.importFrom labelledText 0).2.counts.attributeWrites = 0 :=
  ⟨(Evolves.refl.create (.text "x")).setAttribute 0 "title" "y", by decide, by decide, by decide,
    by decide⟩

end Document

end LiveMarkup
