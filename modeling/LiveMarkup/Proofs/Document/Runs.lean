import LiveMarkup.Proofs.Document.Placed

/-!
# Emptying and filling a run of children

The two edits that rendering is made of: taking placed branches out, and
inserting loose branches that were made meanwhile into an empty place. While
something new is made, an extension of the document, everything that is
already placed stays placed.
-/

namespace LiveMarkup.Document

open Branch (idsAll tops)

variable {d d' d'' : Document} {p n : NodeId} {before behind : List NodeId}
  {bs : List Branch}

/-! ## Extensions -/

/-- Nothing that was there has changed. -/
structure Extends (d d' : Document) : Prop where
  size_le : d.size ≤ d'.size
  same : ∀ k, k < d.size → d'.nodes[k]? = d.nodes[k]?

theorem Extends.refl (d : Document) : Extends d d :=
  ⟨Nat.le_refl _, fun _ _ => rfl⟩

theorem extends_create (d : Document) (kind : NodeKind) : Extends d (d.create kind).2 where
  size_le := by simp
  same := fun _ hk => node_create_other d kind hk

theorem Extends.node (h : Extends d d') {k : NodeId} {data : NodeData}
    (hk : d.nodes[k]? = some data) : d'.nodes[k]? = some data := by
  rw [h.same k (lt_size_of_node hk), hk]

theorem Edit.extends {base : Document} {old new : List NodeId} (h : Extends base d)
    (he : Edit d d' p old new) (hp : base.size ≤ p) (hold : ∀ k ∈ old, base.size ≤ k) :
    Extends base d' where
  size_le := Nat.le_trans h.size_le he.size_le
  same := by
    intro k hk
    have hkp : k ≠ p := Nat.ne_of_lt (Nat.lt_of_lt_of_le hk hp)
    have hnot : k ∉ old := fun hmem => Nat.not_lt.mpr (hold k hmem) hk
    rw [he.same k (Nat.lt_of_lt_of_le hk h.size_le) hkp hnot, h.same k hk]

/-- Branches that are loose in new nodes. -/
structure Rendered (d d' : Document) (n : NodeId) (bs : List Branch) : Prop where
  grown : Extends d d'
  loose : d'.Loose n bs
  distinct : (idsAll bs).Nodup
  node_fresh : d.size ≤ n
  fresh : ∀ k ∈ idsAll bs, d.size ≤ k

/-- Branches under a fragment that did not exist are loose, if all that ever
stood there did not exist. -/
theorem Edit.rendered {base : Document} {old : List NodeId} {data : NodeData}
    (h : Extends base d) (he : Edit d d' n old (idsAll bs)) (hn : base.size ≤ n)
    (hold : ∀ k ∈ old, base.size ≤ k) (hnode : d.nodes[n]? = some data)
    (hkind : data.kind = .fragment) (hplaced : d'.Placed n [] bs []) :
    Rendered base d' n bs where
  grown := he.extends h hn hold
  loose := by
    have hparent := he.parent
    rw [hnode, Option.map_some] at hparent
    exact .fragment hparent hkind (by simpa using hplaced.children) hplaced.grows
      hplaced.parent_notMem
  distinct := hplaced.ids_nodup
  node_fresh := hn
  fresh := by
    intro k hk
    rcases he.fresh k hk with hk | hk
    · exact hold k hk
    · exact Nat.le_trans h.size_le hk

/-! ## Neighbours -/

/-- Behind the first of placed branches stand the others, and what stands
behind them. -/
theorem Placed.siblingsAfter {b : Branch} (h : d.Placed p before (b :: bs) behind) :
    d.siblingsAfter b.id = tops bs ++ behind := by
  have hparent : d.parent? b.id = some p := by
    obtain ⟨data, hnode, hparent⟩ := h.grows.parent_top (n := b.id) (by simp)
    rw [parent?_of_node hnode, hparent]
  have hdistinct : (before ++ b.id :: (tops bs ++ behind)).Nodup := by
    simpa using h.children_nodup
  have hbefore : b.id ∉ before := fun hmem =>
    (List.nodup_append.mp hdistinct).2.2 b.id hmem b.id List.mem_cons_self rfl
  have hchildren : d.children p = before ++ b.id :: (tops bs ++ behind) := by
    simpa using h.children
  simp only [Document.siblingsAfter, hparent, hchildren, dropWhile_ne_append hbefore,
    List.drop_succ_cons, List.drop_zero]

theorem Placed.childAt? {b : Branch} (h : d.Placed p before (b :: bs) behind) :
    d.childAt? p before.length = some b.id := by
  rw [Document.childAt?, h.children]
  simp

/-! ## Taking out -/

theorem Placed.remove (h : d.Placed p before bs behind) :
    (d.removeChildren p (tops bs)).Placed p before [] behind ∧
      Edit d (d.removeChildren p (tops bs)) p (idsAll bs) [] := by
  obtain ⟨data, hnode, hchildren⟩ := h.node
  have hp : p ∉ tops bs := fun hmem => h.parent_notMem (Branch.tops_subset_idsAll bs hmem)
  have hparents : ∀ k ∈ tops bs, d.parent? k = some p := by
    intro k hk
    obtain ⟨kdata, hk, hparent⟩ := h.grows.parent_top hk
    rw [parent?_of_node hk, hparent]
  have hnodes := node_removeChildren hnode hchildren h.children_nodup hp hparents
  have hself : (d.removeChildren p (tops bs)).nodes[p]? =
      some { data with children := before ++ behind } := by
    rw [hnodes p hp, if_pos rfl]
  have hsize := size_removeChildren d p (tops bs)
  refine ⟨⟨⟨_, hself, by simp⟩, trivial, by simp, h.around, ?_⟩, ?_, ?_, ?_, by simp⟩
  · intro k hk
    exact ⟨by rw [hsize]; exact (h.apart k hk).1, by simp⟩
  · exact Nat.le_of_eq hsize.symm
  · intro k _ hkp hnot
    have hktops : k ∉ tops bs := fun hmem => hnot (Branch.tops_subset_idsAll bs hmem)
    rw [hnodes k hktops, if_neg hkp]
  · rw [hself, hnode, children_of_node hself]
    rfl

theorem node_removeChild_apart (d : Document) {k : NodeId} (hk : k ≠ p) :
    (d.removeChild p n).nodes[k]? = (d.nodes[k]?).map fun data =>
      { data with parent := if k = n ∧ data.parent = some p then none else data.parent } := by
  unfold removeChild
  split
  case isTrue hparent =>
      simp only [detach, hparent, nodes_count, node_modify, if_neg hk]
      split
      case isTrue hkn =>
          subst hkn
          obtain ⟨data, hdata, hup⟩ := Option.bind_eq_some_iff.mp hparent
          simp [hdata, hup]
      case isFalse hkn => simp [hkn]
  case isFalse hparent =>
      cases hdata : d.nodes[k]? with
      | none => rfl
      | some data =>
          have hnot : ¬ (k = n ∧ data.parent = some p) := by
            rintro ⟨rfl, hup⟩
            exact hparent ((parent?_of_node hdata).trans hup)
          simp [hnot]

theorem node_removeChildren_apart (d : Document) (doomed : List NodeId) {k : NodeId}
    (hk : k ≠ p) :
    (d.removeChildren p doomed).nodes[k]? = (d.nodes[k]?).map fun data =>
      { data with parent := if k ∈ doomed ∧ data.parent = some p then none else data.parent } := by
  unfold removeChildren
  induction doomed generalizing d with
  | nil => simp
  | cons n doomed ih =>
      rw [List.foldl_cons, ih, node_removeChild_apart d hk, Option.map_map]
      congr 1
      funext data
      by_cases hkn : k = n <;> by_cases hup : data.parent = some p <;>
        by_cases hmem : k ∈ doomed <;> simp [hkn, hup, hmem]

theorem Placed.grows_removed (h : d.Placed p before bs behind) :
    (d.removeChildren p (tops bs)).Grows none bs := by
  have hp : ∀ k ∈ idsAll bs, k ≠ p := fun k hk heq => h.parent_notMem (heq ▸ hk)
  refine h.grows.reparent h.ids_nodup ?_ ?_
  · intro k hk
    obtain ⟨data, hdata, hparent⟩ := h.grows.parent_top hk
    rw [node_removeChildren_apart d _ (hp k (Branch.tops_subset_idsAll bs hk)), hdata]
    simp [hk, hparent]
  · intro k hk hnot
    rw [node_removeChildren_apart d _ (hp k hk)]
    cases hdata : d.nodes[k]? <;> simp [hnot]

/-! ## Putting in -/

theorem spliceBefore_head (hdistinct : (before ++ behind).Nodup) (moved : List NodeId) :
    spliceBefore behind.head? moved (before ++ behind) = before ++ moved ++ behind := by
  cases behind with
  | nil => simp
  | cons r behind =>
      have hr : r ∉ before := fun hmem =>
        (List.nodup_append.mp hdistinct).2.2 r hmem r List.mem_cons_self rfl
      exact spliceBefore_some hr moved behind

theorem Placed.insert (h : d.Placed p before [] behind) (hr : Rendered d d' n bs) :
    (d'.insertBefore p n behind.head?).Placed p before bs behind ∧
      Edit d (d'.insertBefore p n behind.head?) p [] (idsAll bs) := by
  obtain ⟨data, hnode, hchildren⟩ := h.node
  have hnode' : d'.nodes[p]? = some data := hr.grown.node hnode
  have hpn : p ≠ n := Nat.ne_of_lt (Nat.lt_of_lt_of_le h.lt_size hr.node_fresh)
  have hp : p ∉ idsAll bs := fun hmem => Nat.not_lt.mpr (hr.fresh p hmem) h.lt_size
  obtain ⟨hself, hgrows, hothers⟩ :=
    hr.loose.insertBefore hr.distinct hnode' hpn hp behind.head?
  simp only [tops, List.map_nil, List.append_nil] at hchildren
  rw [hchildren, spliceBefore_head h.around] at hself
  have hsize := size_insertBefore d' p n behind.head?
  have hle : d.size ≤ (d'.insertBefore p n behind.head?).size := by
    rw [hsize]
    exact hr.grown.size_le
  refine ⟨⟨⟨_, hself, rfl⟩, hgrows, List.nodup_cons.mpr ⟨hp, hr.distinct⟩, h.around, ?_⟩,
    hle, ?_, ?_, fun k hk => Or.inr (hr.fresh k hk)⟩
  · intro k hk
    have hlt := (h.apart k hk).1
    exact ⟨Nat.lt_of_lt_of_le hlt hle, fun hmem => Nat.not_lt.mpr (hr.fresh k hmem) hlt⟩
  · intro k hk hkp _
    have hkn : k ≠ n := Nat.ne_of_lt (Nat.lt_of_lt_of_le hk hr.node_fresh)
    have hkb : k ∉ idsAll bs := fun hmem => Nat.not_lt.mpr (hr.fresh k hmem) hk
    rw [hothers k hkp hkn hkb, hr.grown.same k hk]
  · rw [hself, hnode, children_of_node hself]
    rfl

end LiveMarkup.Document
