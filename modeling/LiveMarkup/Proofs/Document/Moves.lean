import LiveMarkup.Proofs.Document.Branch
import Mathlib.Data.List.TakeWhile

/-!
# Moving branches

What is rendered is loose at first: a node that stands nowhere, or the
children of a fragment. Inserting it puts its topmost nodes among the children
of a parent and leaves everything else as it was; clearing takes a run of
children out of a parent.
-/

namespace LiveMarkup.Document

open Branch (idsAll tops)

variable {d : Document}

/-! ## Inserting -/

/-- Branches that inserting a node moves. -/
inductive Loose (d : Document) : NodeId → List Branch → Prop
  | single {n : NodeId} {kind : NodeKind} {attributes : Attributes}
      {properties : Properties} {under : List Branch} (hkind : kind ≠ .fragment)
      (hgrows : d.Grows none [.node n kind attributes properties under]) :
      Loose d n [.node n kind attributes properties under]
  | fragment {n : NodeId} {bs : List Branch} {data : NodeData}
      (hnode : d.nodes[n]? = some data) (hkind : data.kind = .fragment)
      (hchildren : data.children = tops bs) (hgrows : d.Grows (some n) bs)
      (hapart : n ∉ idsAll bs) : Loose d n bs

theorem Loose.lt_size {n : NodeId} {bs : List Branch} (h : d.Loose n bs) :
    n < d.size := by
  cases h with
  | single _ hgrows => exact hgrows.lt_size n (by simp)
  | fragment hnode => exact lt_size_of_node hnode

theorem Loose.contains {n : NodeId} {bs : List Branch} (h : d.Loose n bs) :
    d.contains n = true := by
  simpa [Document.contains] using h.lt_size

theorem Loose.movedBy {n : NodeId} {bs : List Branch} (h : d.Loose n bs) :
    d.movedBy n = tops bs := by
  cases h with
  | single hkind hgrows =>
      have hnode := hgrows.1.1
      simp [Document.movedBy, kind?_of_node hnode, hkind]
  | fragment hnode hkind hchildren =>
      simp [Document.movedBy, kind?_of_node hnode, hkind, children_of_node hnode, hchildren]

theorem Loose.node_release {n : NodeId} {bs : List Branch} (h : d.Loose n bs)
    {k : NodeId} (hk : k ≠ n ∨ k ∈ idsAll bs) :
    (d.release n).nodes[k]? = d.nodes[k]? := by
  cases h with
  | single hkind hgrows =>
      have hnode := hgrows.1.1
      have hparent : d.parent? n = none := parent?_of_node hnode
      simp [release, kind?_of_node hnode, hkind, detach_of_parent_none hparent]
  | fragment hnode hkind hchildren hgrows hapart =>
      have hne : k ≠ n := by
        rcases hk with hk | hk
        · exact hk
        · exact fun heq => hapart (heq ▸ hk)
      simp only [release, kind?_of_node hnode, hkind, if_true]
      exact node_modify_other d _ hne

@[simp] theorem size_release (d : Document) (n : NodeId) :
    (d.release n).size = d.size := by
  unfold release
  split <;> simp

theorem node_setParents (moved : List NodeId) (p : NodeId) (d : Document) (k : NodeId) :
    (moved.foldl (fun d n => d.modify n fun data => { data with parent := some p })
        d).nodes[k]? =
      if k ∈ moved then
        (d.nodes[k]?).map fun data => { data with parent := some p }
      else d.nodes[k]? := by
  induction moved generalizing d with
  | nil => simp
  | cons n moved ih =>
      rw [List.foldl_cons, ih, node_modify]
      by_cases hkn : k = n
      · subst hkn
        cases d.nodes[k]? <;> simp
      · simp [hkn]

theorem size_setParents (moved : List NodeId) (p : NodeId) (d : Document) :
    (moved.foldl (fun d n => d.modify n fun data => { data with parent := some p })
      d).size = d.size := by
  induction moved generalizing d with
  | nil => rfl
  | cons n moved ih => rw [List.foldl_cons, ih, size_modify]

@[simp] theorem size_insertBefore (d : Document) (p n : NodeId) (r : Option NodeId) :
    (d.insertBefore p n r).size = d.size := by
  simp only [insertBefore, size_count, size_setParents, size_modify, size_release]

/-- What inserting loose branches does to each node but the inserted one. -/
theorem Loose.node_insertBefore {n p : NodeId} {bs : List Branch} (h : d.Loose n bs)
    (reference : Option NodeId) {k : NodeId} (hk : k ≠ n ∨ k ∈ idsAll bs)
    (hp : p ∉ tops bs) :
    (d.insertBefore p n reference).nodes[k]? =
      if k ∈ tops bs then
        (d.nodes[k]?).map fun data => { data with parent := some p }
      else if k = p then
        (d.nodes[k]?).map fun data =>
          { data with children := spliceBefore reference (tops bs) data.children }
      else d.nodes[k]? := by
  simp only [insertBefore, nodes_count, node_setParents, h.movedBy, node_modify,
    h.node_release hk]
  by_cases hkp : k = p
  · subst hkp
    simp [hp]
  · simp [hkp]

/-- Inserting loose branches. -/
theorem Loose.insertBefore {n p : NodeId} {bs : List Branch} {data : NodeData}
    (h : d.Loose n bs) (hdistinct : (idsAll bs).Nodup) (hnode : d.nodes[p]? = some data)
    (hpn : p ≠ n) (hp : p ∉ idsAll bs) (reference : Option NodeId) :
    (d.insertBefore p n reference).nodes[p]? =
        some { data with children := spliceBefore reference (tops bs) data.children } ∧
      (d.insertBefore p n reference).Grows (some p) bs ∧
      ∀ k, k ≠ p → k ≠ n → k ∉ idsAll bs →
        (d.insertBefore p n reference).nodes[k]? = d.nodes[k]? := by
  have hptops : p ∉ tops bs := fun hmem => hp (Branch.tops_subset_idsAll bs hmem)
  refine ⟨?_, ?_, ?_⟩
  · rw [h.node_insertBefore reference (Or.inl hpn) hptops, if_neg hptops, if_pos rfl,
      hnode, Option.map_some]
  · have htops : ∀ k ∈ tops bs, (d.insertBefore p n reference).nodes[k]? =
        (d.nodes[k]?).map fun data => { data with parent := some p } := by
      intro k hk
      rw [h.node_insertBefore reference (Or.inr (Branch.tops_subset_idsAll bs hk)) hptops,
        if_pos hk]
    have hsame : ∀ k ∈ idsAll bs, k ∉ tops bs →
        (d.insertBefore p n reference).nodes[k]? = d.nodes[k]? := by
      intro k hk hnot
      have hkp : k ≠ p := fun heq => hp (heq ▸ hk)
      rw [h.node_insertBefore reference (Or.inr hk) hptops, if_neg hnot, if_neg hkp]
    cases h with
    | single hkind hgrows => exact hgrows.reparent hdistinct htops hsame
    | fragment _ _ _ hgrows => exact hgrows.reparent hdistinct htops hsame
  · intro k hkp hkn hk
    have hknot : k ∉ tops bs := fun hmem => hk (Branch.tops_subset_idsAll bs hmem)
    rw [h.node_insertBefore reference (Or.inl hkn) hptops, if_neg hknot, if_neg hkp]

@[simp] theorem spliceBefore_none (moved siblings : List NodeId) :
    spliceBefore none moved siblings = siblings ++ moved := rfl

theorem takeWhile_ne_append {r : NodeId} {before : List NodeId} (h : r ∉ before)
    (behind : List NodeId) :
    (before ++ r :: behind).takeWhile (· != r) = before := by
  induction before with
  | nil => simp
  | cons a before ih =>
      have ha : a ≠ r := fun heq => h (heq ▸ List.mem_cons_self)
      simp [ha, ih fun hmem => h (List.mem_cons_of_mem a hmem)]

theorem dropWhile_ne_append {r : NodeId} {before : List NodeId} (h : r ∉ before)
    (behind : List NodeId) :
    (before ++ r :: behind).dropWhile (· != r) = r :: behind := by
  induction before with
  | nil => simp
  | cons a before ih =>
      have ha : a ≠ r := fun heq => h (heq ▸ List.mem_cons_self)
      simp [ha, ih fun hmem => h (List.mem_cons_of_mem a hmem)]

theorem splitAt_of_notMem {r : NodeId} {l : List NodeId} (h : r ∉ l) :
    l.takeWhile (· != r) = l ∧ l.dropWhile (· != r) = [] := by
  have hother : ∀ k ∈ l, (k != r) = true := by
    intro k hk
    rw [bne_iff_ne]
    rintro rfl
    exact h hk
  exact ⟨List.takeWhile_eq_self_iff.mpr hother, List.dropWhile_eq_nil_iff.mpr hother⟩

theorem spliceBefore_some {r : NodeId} {before : List NodeId} (h : r ∉ before)
    (moved behind : List NodeId) :
    spliceBefore (some r) moved (before ++ r :: behind) =
      before ++ moved ++ r :: behind := by
  simp only [spliceBefore, takeWhile_ne_append h, dropWhile_ne_append h]

/-! ## Taking out -/

theorem size_removeChild (d : Document) (p n : NodeId) :
    (d.removeChild p n).size = d.size := by
  unfold removeChild
  split <;> simp

theorem size_removeChildren (d : Document) (p : NodeId) (doomed : List NodeId) :
    (d.removeChildren p doomed).size = d.size := by
  unfold removeChildren
  induction doomed generalizing d with
  | nil => rfl
  | cons n doomed ih => rw [List.foldl_cons, ih, size_removeChild]

theorem filter_ne_append {before behind : List NodeId} {n : NodeId}
    (hdistinct : (before ++ n :: behind).Nodup) :
    (before ++ n :: behind).filter (· != n) = before ++ behind := by
  obtain ⟨-, hbehind, hapart⟩ := List.nodup_append.mp hdistinct
  have hkeep : ∀ l : List NodeId, n ∉ l → l.filter (· != n) = l := by
    intro l hl
    refine List.filter_eq_self.mpr ?_
    intro a ha
    simpa using fun heq : a = n => hl (heq ▸ ha)
  have hbefore : n ∉ before := fun hmem => hapart n hmem n List.mem_cons_self rfl
  rw [List.filter_append, hkeep before hbefore, List.filter_cons_of_neg (by simp),
    hkeep behind (List.nodup_cons.mp hbehind).1]

theorem node_removeChild {p n : NodeId} {before behind : List NodeId} {data : NodeData}
    (hnode : d.nodes[p]? = some data) (hchildren : data.children = before ++ n :: behind)
    (hdistinct : (before ++ n :: behind).Nodup) (hpn : p ≠ n) (hparent : d.parent? n = some p)
    {k : NodeId} (hk : k ≠ n) :
    (d.removeChild p n).nodes[k]? =
      if k = p then some { data with children := before ++ behind } else d.nodes[k]? := by
  obtain ⟨ndata, hn, hnparent⟩ : ∃ ndata, d.nodes[n]? = some ndata ∧ ndata.parent = some p := by
    unfold parent? at hparent
    exact Option.bind_eq_some_iff.mp hparent
  simp only [removeChild, hparent, if_true, nodes_count]
  rw [node_detach hn hnparent hpn, if_neg hk]
  by_cases hkp : k = p
  · rw [if_pos hkp, if_pos hkp, hnode, Option.map_some, hchildren, filter_ne_append hdistinct]
  · rw [if_neg hkp, if_neg hkp]

theorem node_removeChildren {p : NodeId} {before doomed behind : List NodeId}
    {data : NodeData} (hnode : d.nodes[p]? = some data)
    (hchildren : data.children = before ++ doomed ++ behind)
    (hdistinct : (before ++ doomed ++ behind).Nodup) (hp : p ∉ doomed)
    (hparents : ∀ n ∈ doomed, d.parent? n = some p) (k : NodeId) (hk : k ∉ doomed) :
    (d.removeChildren p doomed).nodes[k]? =
      if k = p then some { data with children := before ++ behind }
      else d.nodes[k]? := by
  induction doomed generalizing d data with
  | nil =>
      by_cases hkp : k = p
      · subst hkp
        obtain ⟨kind, parent, children, attributes, properties⟩ := data
        simp only [List.append_nil] at hchildren
        subst hchildren
        simpa [removeChildren] using hnode
      · simp [removeChildren, hkp]
  | cons n doomed ih =>
      have hpn : p ≠ n := fun heq => hp (heq ▸ List.mem_cons_self)
      have hkn : k ≠ n := fun heq => hk (heq ▸ List.mem_cons_self)
      have hrun : before ++ n :: doomed ++ behind = before ++ n :: (doomed ++ behind) := by simp
      rw [hrun] at hchildren hdistinct
      have hstep : ∀ {j}, j ≠ n → (d.removeChild p n).nodes[j]? =
          if j = p then some { data with children := before ++ (doomed ++ behind) }
          else d.nodes[j]? :=
        node_removeChild hnode hchildren hdistinct hpn (hparents n List.mem_cons_self)
      have hfirst : (d.removeChild p n).nodes[p]? =
          some { data with children := before ++ (doomed ++ behind) } := by
        rw [hstep hpn, if_pos rfl]
      have hothers : ∀ m ∈ doomed, (d.removeChild p n).parent? m = some p := by
        intro m hm
        have hmn : m ≠ n := by
          rintro rfl
          have hrest := (List.nodup_append.mp hdistinct).2.1
          exact (List.nodup_cons.mp hrest).1 (List.mem_append_left behind hm)
        have hmp : m ≠ p := fun heq => hp (heq ▸ List.mem_cons_of_mem n hm)
        have hparent := hparents m (List.mem_cons_of_mem n hm)
        unfold parent? at hparent ⊢
        rw [hstep hmn, if_neg hmp]
        exact hparent
      have hdistinct' : (before ++ doomed ++ behind).Nodup := by
        refine hdistinct.sublist ?_
        simp
      show ((d.removeChild p n).removeChildren p doomed).nodes[k]? = _
      rw [ih hfirst (List.append_assoc before doomed behind).symm hdistinct'
        (fun hmem => hp (List.mem_cons_of_mem n hmem)) hothers
        (fun hmem => hk (List.mem_cons_of_mem n hmem))]
      by_cases hkp : k = p
      · rw [if_pos hkp, if_pos hkp]
      · rw [if_neg hkp, if_neg hkp, hstep hkn, if_neg hkp]

end LiveMarkup.Document
