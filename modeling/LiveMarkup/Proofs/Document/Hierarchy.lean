import LiveMarkup.Proofs.Document.Reachable
import Mathlib.Data.List.Lattice
import Mathlib.Data.List.Pairwise
import Mathlib.Order.WellFounded

/-!
# The hierarchy of a document

Who stands under whom is written down twice, at the parent and at the child.
Every change keeps the two in step: a child stands under one parent, at one
place, and nobody stands under itself. Changes are described here by what they
do to the parent and the children of every node, and the hierarchy is kept
because of that description alone.
-/

namespace LiveMarkup.Document

variable {d d' : Document} {n p c : NodeId}

/-! ## Views of a changed document -/

theorem map_modify {α : Type} (d : Document) (n : NodeId) {f : NodeData → NodeData}
    (read : NodeData → α) (hkeep : ∀ data, read (f data) = read data) (k : NodeId) :
    ((d.modify n f).nodes[k]?).map read = (d.nodes[k]?).map read := by
  rw [node_modify]
  split
  · rw [Option.map_map]
    congr 1
    funext data
    exact hkeep data
  · rfl

theorem parent?_eq (d : Document) (n : NodeId) :
    d.parent? n = ((d.nodes[n]?).map NodeData.parent).join := by
  unfold parent?
  cases d.nodes[n]? <;> rfl

theorem children_eq (d : Document) (n : NodeId) :
    d.children n = ((d.nodes[n]?).map NodeData.children).getD [] := by
  unfold children
  cases d.nodes[n]? <;> rfl

theorem parent?_modify (d : Document) (n : NodeId) {f : NodeData → NodeData}
    (hkeep : ∀ data, (f data).parent = data.parent) : (d.modify n f).parent? = d.parent? := by
  funext k
  rw [parent?_eq, parent?_eq, map_modify d n NodeData.parent hkeep]

theorem children_modify (d : Document) (n : NodeId) {f : NodeData → NodeData}
    (hkeep : ∀ data, (f data).children = data.children) :
    (d.modify n f).children = d.children := by
  funext k
  rw [children_eq, children_eq, map_modify d n NodeData.children hkeep]

theorem kind?_modify (d : Document) (n : NodeId) {f : NodeData → NodeData}
    (hkeep : ∀ data, (f data).kind = data.kind) : (d.modify n f).kind? = d.kind? := by
  funext k
  exact map_modify d n NodeData.kind hkeep k

theorem node_of_size_le (h : d.size ≤ n) : d.nodes[n]? = none :=
  Array.getElem?_eq_none h

theorem exists_node (h : d.contains n = true) : ∃ data, d.nodes[n]? = some data :=
  ⟨_, Array.getElem?_eq_getElem (of_decide_eq_true h)⟩

theorem contains_of_node {data : NodeData} (h : d.nodes[n]? = some data) :
    d.contains n = true :=
  decide_eq_true (lt_size_of_node h)

theorem contains_of_parent? (h : d.parent? c = some p) : d.contains c = true := by
  obtain ⟨data, hdata, -⟩ := Option.bind_eq_some_iff.mp h
  exact contains_of_node hdata

theorem contains_of_mem_children (h : c ∈ d.children p) : d.contains p = true := by
  unfold children at h
  cases hp : d.nodes[p]? with
  | none =>
      rw [hp] at h
      cases h
  | some data => exact contains_of_node hp

/-! ## Who stands where -/

/-- One node stands under another one. -/
def Under (d : Document) (c p : NodeId) : Prop :=
  d.parent? c = some p

/-- One node is another one, or stands somewhere above it. -/
def Within (d : Document) (n above : NodeId) : Prop :=
  Relation.ReflTransGen d.Under n above

/-- Parents and children agree, no child has two places, and fragments stand
nowhere. -/
structure Tied (d : Document) : Prop where
  agree : ∀ p c, d.Under c p ↔ c ∈ d.children p
  nodup : ∀ p, (d.children p).Nodup
  loose : ∀ n, d.kind? n = some .fragment → d.parent? n = none

/-- Parents and children are tied, and whoever goes up from parent to parent
comes to an end. -/
structure Linked (d : Document) : Prop extends d.Tied where
  grounded : ∀ n, Acc (fun p c => d.Under c p) n

theorem Linked.acyclic (h : d.Linked) (n : NodeId) : ¬ Relation.TransGen d.Under n n := by
  intro hcycle
  have hwf : WellFounded (fun p c => d.Under c p) := ⟨h.grounded⟩
  have hswapped : Relation.TransGen (fun p c => d.Under c p) n n :=
    Relation.transGen_swap.mpr hcycle
  exact hwf.transGen.irrefl.irrefl n hswapped

theorem Tied.parent_unique (h : d.Tied) {q : NodeId} (hp : c ∈ d.children p)
    (hq : c ∈ d.children q) : p = q := by
  have hboth := ((h.agree p c).mpr hp).symm.trans ((h.agree q c).mpr hq)
  exact Option.some.inj hboth

theorem Tied.of_views (h : d.Tied) (hparent : d'.parent? = d.parent?)
    (hchildren : d'.children = d.children)
    (hloose : ∀ n, d'.kind? n = some .fragment → d'.parent? n = none) : d'.Tied where
  agree p c := by
    unfold Under
    rw [hparent, hchildren]
    exact h.agree p c
  nodup p := by
    rw [hchildren]
    exact h.nodup p
  loose := hloose

theorem Linked.of_views (h : d.Linked) (hparent : d'.parent? = d.parent?)
    (hchildren : d'.children = d.children)
    (hloose : ∀ n, d'.kind? n = some .fragment → d'.parent? n = none) : d'.Linked where
  toTied := h.toTied.of_views hparent hchildren hloose
  grounded n := by
    have hunder : d'.Under = d.Under := by
      unfold Under
      rw [hparent]
    rw [hunder]
    exact h.grounded n

/-! ## Changes that move nothing -/

theorem tied_empty : Tied .empty where
  agree p c := by
    constructor
    · intro h
      cases h
    · intro h
      cases h
  nodup p := List.nodup_nil
  loose n _ := rfl

theorem linked_empty : Linked .empty where
  toTied := tied_empty
  grounded n := ⟨n, fun p h => by cases h⟩

theorem Tied.count (h : d.Tied) (f : MutationCounts → MutationCounts) : (d.count f).Tied :=
  h.of_views rfl rfl h.loose

theorem Linked.count (h : d.Linked) (f : MutationCounts → MutationCounts) :
    (d.count f).Linked :=
  h.of_views rfl rfl h.loose

theorem Tied.modify (h : d.Tied) (n : NodeId) {f : NodeData → NodeData}
    (hparent : ∀ data, (f data).parent = data.parent)
    (hchildren : ∀ data, (f data).children = data.children) (hsolid : KeepsSolid f) :
    (d.modify n f).Tied := by
  refine h.of_views (parent?_modify d n hparent) (children_modify d n hchildren) ?_
  intro k hk
  rw [parent?_modify d n hparent]
  apply h.loose
  unfold kind? at hk ⊢
  rw [node_modify] at hk
  split at hk
  · -- the node was a fragment before, since no other kind becomes one
    obtain ⟨data', hdata', hkind⟩ := Option.map_eq_some_iff.mp hk
    obtain ⟨data, hdata, rfl⟩ := Option.map_eq_some_iff.mp hdata'
    rw [hdata, Option.map_some]
    by_contra hother
    refine hsolid data ?_ hkind
    intro hfragment
    exact hother (congrArg some hfragment)
  · exact hk

theorem Linked.modify (h : d.Linked) (n : NodeId) {f : NodeData → NodeData}
    (hparent : ∀ data, (f data).parent = data.parent)
    (hchildren : ∀ data, (f data).children = data.children) (hsolid : KeepsSolid f) :
    (d.modify n f).Linked :=
  h.of_views (parent?_modify d n hparent) (children_modify d n hchildren)
    (h.toTied.modify n hparent hchildren hsolid).loose

theorem parent?_create (d : Document) (kind : NodeKind) :
    (d.create kind).2.parent? = d.parent? := by
  funext k
  rcases Nat.lt_trichotomy k d.size with hlt | rfl | hgt
  · unfold parent?
    rw [node_create_other d kind hlt]
  · rw [parent?_of_node (node_create_self d kind)]
    unfold parent?
    rw [node_of_size_le (Nat.le_refl _)]
    rfl
  · unfold parent?
    rw [node_of_size_le (Nat.le_of_lt hgt), node_of_size_le (by simpa using Nat.succ_le_of_lt hgt)]

theorem children_create (d : Document) (kind : NodeKind) :
    (d.create kind).2.children = d.children := by
  funext k
  rcases Nat.lt_trichotomy k d.size with hlt | rfl | hgt
  · exact children_congr (node_create_other d kind hlt)
  · rw [children_of_node (node_create_self d kind), children_eq,
      node_of_size_le (Nat.le_refl _)]
    rfl
  · refine children_congr ?_
    rw [node_of_size_le (Nat.le_of_lt hgt), node_of_size_le (by simpa using Nat.succ_le_of_lt hgt)]

theorem Tied.create (h : d.Tied) (kind : NodeKind) : (d.create kind).2.Tied := by
  refine h.of_views (parent?_create d kind) (children_create d kind) ?_
  intro n hn
  rcases Nat.lt_or_ge n d.size with hlt | hge
  · rw [parent?_create]
    apply h.loose
    unfold kind? at hn ⊢
    rwa [node_create_other d kind hlt] at hn
  · -- a node that was just created stands nowhere
    rw [parent?_create]
    unfold parent?
    rw [node_of_size_le hge]
    rfl

theorem Linked.create (h : d.Linked) (kind : NodeKind) : (d.create kind).2.Linked :=
  h.of_views (parent?_create d kind) (children_create d kind) (h.toTied.create kind).loose

/-! ## Taking nodes out -/

theorem Tied.notMem_children (h : d.Tied) (hn : d.parent? n = none) (q : NodeId) :
    n ∉ d.children q := by
  intro hmem
  have hunder : d.parent? n = some q := (h.agree q n).mpr hmem
  rw [hn] at hunder
  cases hunder

theorem parent?_detach (d : Document) (n k : NodeId) :
    (d.detach n).parent? k = if k = n then none else d.parent? k := by
  cases hparent : d.parent? n with
  | none =>
      rw [detach_of_parent_none hparent]
      split
      · rename_i hk
        rw [hk, hparent]
      · rfl
  | some q =>
      obtain ⟨data, hdata, -⟩ := Option.bind_eq_some_iff.mp hparent
      simp only [detach, hparent]
      have hcut : (d.modify n fun data => { data with parent := none }).parent? k =
          if k = n then none else d.parent? k := by
        unfold parent?
        rw [node_modify]
        split
        · rename_i hk
          rw [hk, hdata]
          rfl
        · rfl
      rw [← hcut, parent?_modify]
      intro data
      rfl

theorem Tied.children_detach (h : d.Tied) (n q : NodeId) :
    (d.detach n).children q = (d.children q).filter (· != n) := by
  have hkeep : n ∉ d.children q → (d.children q).filter (· != n) = d.children q := by
    intro hnot
    apply List.filter_eq_self.mpr
    intro k hk
    rw [bne_iff_ne]
    rintro rfl
    exact hnot hk
  cases hparent : d.parent? n with
  | none =>
      rw [detach_of_parent_none hparent, hkeep (h.notMem_children hparent q)]
  | some p =>
      simp only [detach, hparent]
      have hcut : (d.modify n fun data => { data with parent := none }).children = d.children :=
        children_modify d n fun _ => rfl
      rw [children_eq, node_modify]
      split
      · rename_i hq
        rw [← hcut, children_eq]
        cases (d.modify n _).nodes[q]? <;> rfl
      · rename_i hq
        rw [← children_eq, hcut, hkeep]
        intro hmem
        exact hq (Option.some.inj (((h.agree q n).mpr hmem).symm.trans hparent))

theorem kind?_detach (d : Document) (n : NodeId) : (d.detach n).kind? = d.kind? := by
  unfold detach
  split
  · rfl
  · rw [kind?_modify, kind?_modify]
    · intro data
      rfl
    · intro data
      rfl

theorem Tied.detach (h : d.Tied) (n : NodeId) : (d.detach n).Tied where
  agree p c := by
    unfold Under
    rw [parent?_detach, h.children_detach, List.mem_filter, bne_iff_ne]
    split
    · simp_all
    · rename_i hc
      exact (h.agree p c).trans (by simp [hc])
  nodup p := by
    rw [h.children_detach]
    exact (h.nodup p).filter _
  loose k hk := by
    rw [kind?_detach] at hk
    rw [parent?_detach]
    split
    · rfl
    · exact h.loose k hk

theorem Linked.detach (h : d.Linked) (n : NodeId) : (d.detach n).Linked where
  toTied := h.toTied.detach n
  grounded k := by
    induction h.grounded k with
    | intro k _ ih =>
        refine ⟨k, fun p hp => ih p ?_⟩
        unfold Under at hp ⊢
        rw [parent?_detach] at hp
        split at hp
        · cases hp
        · exact hp

theorem Tied.removeChild (h : d.Tied) (p n : NodeId) : (d.removeChild p n).Tied := by
  unfold Document.removeChild
  split
  · exact (h.detach n).count _
  · exact h

theorem Linked.removeChild (h : d.Linked) (p n : NodeId) : (d.removeChild p n).Linked := by
  unfold Document.removeChild
  split
  · exact (h.detach n).count _
  · exact h

theorem Linked.removeChildren (h : d.Linked) (p : NodeId) (doomed : List NodeId) :
    (d.removeChildren p doomed).Linked := by
  unfold Document.removeChildren
  induction doomed generalizing d with
  | nil => exact h
  | cons n doomed ih => exact ih (h.removeChild p n)

/-! ## Inserting -/

theorem Tied.moved (h : d.Tied) (hn : d.contains n = true) :
    ∀ m ∈ d.movedBy n, d.contains m = true ∧ d.kind? m ≠ some .fragment := by
  intro m hm
  unfold movedBy at hm
  split at hm
  · have hunder := (h.agree n m).mpr hm
    refine ⟨contains_of_parent? hunder, ?_⟩
    intro hfragment
    have hnone := h.loose m hfragment
    rw [hunder] at hnone
    cases hnone
  · rename_i hkind
    rw [List.mem_singleton] at hm
    subst hm
    exact ⟨hn, hkind⟩

theorem Tied.nodup_movedBy (h : d.Tied) (n : NodeId) : (d.movedBy n).Nodup := by
  unfold movedBy
  split
  · exact h.nodup n
  · exact List.nodup_singleton n

theorem Tied.children_release (h : d.Tied) (n q : NodeId) :
    (d.release n).children q = (d.children q).filter (· ∉ d.movedBy n) := by
  unfold release movedBy
  split
  · rw [children_eq, node_modify]
    split
    · rename_i hq
      subst hq
      have hnone : (d.children q).filter (· ∉ d.children q) = [] := by simp
      rw [hnone]
      cases d.nodes[q]? <;> rfl
    · rename_i hq
      rw [← children_eq]
      symm
      apply List.filter_eq_self.mpr
      intro k hk
      rw [decide_eq_true_eq]
      intro hmem
      exact hq (h.parent_unique hk hmem)
  · rw [h.children_detach]
    apply List.filter_congr
    intro k _
    simp [bne, Bool.beq_eq_decide_eq]

theorem parent?_release (d : Document) (n : NodeId) {k : NodeId}
    (hk : k ∉ d.movedBy n) : (d.release n).parent? k = d.parent? k := by
  unfold release
  unfold movedBy at hk
  split at hk
  · rw [if_pos (by assumption), parent?_modify]
    intro data
    rfl
  · rw [if_neg (by assumption), parent?_detach, if_neg (by simpa using hk)]

theorem kind?_release (d : Document) (n : NodeId) : (d.release n).kind? = d.kind? := by
  unfold release
  split
  · exact kind?_modify d n fun _ => rfl
  · exact kind?_detach d n

theorem contains_release (d : Document) (n k : NodeId) :
    (d.release n).contains k = d.contains k := by
  unfold contains
  rw [size_release]

theorem Tied.parent?_insertBefore (h : d.Tied) (hn : d.contains n = true)
    (r : Option NodeId) (k : NodeId) :
    (d.insertBefore p n r).parent? k = if k ∈ d.movedBy n then some p else d.parent? k := by
  have hrest : ∀ k, k ∉ d.movedBy n →
      ((d.release n).modify p fun data =>
        { data with children := spliceBefore r (d.movedBy n) data.children }).parent? k =
          d.parent? k := by
    intro k hk
    rw [parent?_modify, parent?_release d n hk]
    intro data
    rfl
  unfold insertBefore parent?
  rw [nodes_count, node_setParents]
  split
  · -- what is moved exists
    rename_i hk
    have hexists := (h.moved hn k hk).1
    rw [← contains_release d n] at hexists
    obtain ⟨data, hdata⟩ := exists_node hexists
    rw [node_modify, hdata]
    split <;> rfl
  · rename_i hk
    exact hrest k hk

/-- After an insertion, what was moved stands before the reference among the
children of the parent, and nowhere else. -/
theorem Tied.children_insertBefore (h : d.Tied) (hp : d.contains p = true)
    (r : Option NodeId) (q : NodeId) :
    (d.insertBefore p n r).children q =
      if q = p then spliceBefore r (d.movedBy n) ((d.children p).filter (· ∉ d.movedBy n))
      else (d.children q).filter (· ∉ d.movedBy n) := by
  have hsame : (d.insertBefore p n r).children q =
      ((d.release n).modify p fun data =>
        { data with children := spliceBefore r (d.movedBy n) data.children }).children q := by
    unfold insertBefore
    rw [children_eq, children_eq, nodes_count, node_setParents]
    split
    · rw [Option.map_map]
      rfl
    · rfl
  rw [hsame, children_eq, node_modify]
  split
  · rename_i hq
    subst hq
    rw [← contains_release d n] at hp
    obtain ⟨data, hdata⟩ := exists_node hp
    rw [← h.children_release, children_of_node hdata, hdata]
    rfl
  · rw [← children_eq, h.children_release]

theorem kind?_insertBefore (d : Document) (p n : NodeId) (r : Option NodeId) :
    (d.insertBefore p n r).kind? = d.kind? := by
  funext k
  have hmap : (d.insertBefore p n r).kind? k =
      ((d.release n).modify p fun data =>
        { data with children := spliceBefore r (d.movedBy n) data.children }).kind? k := by
    unfold insertBefore kind?
    rw [nodes_count, node_setParents]
    split
    · rw [Option.map_map]
      rfl
    · rfl
  rw [hmap, kind?_modify, kind?_release]
  intro data
  rfl

theorem mem_spliceBefore_iff {r : Option NodeId} {moved siblings : List NodeId} :
    c ∈ spliceBefore r moved siblings ↔ c ∈ siblings ∨ c ∈ moved := by
  cases r with
  | none => exact List.mem_append
  | some r =>
      have hsplit : c ∈ siblings ↔
          c ∈ siblings.takeWhile (· != r) ∨ c ∈ siblings.dropWhile (· != r) := by
        rw [← List.mem_append, List.takeWhile_append_dropWhile]
      simp only [spliceBefore, List.mem_append, hsplit]
      tauto

theorem nodup_spliceBefore {r : Option NodeId} {moved siblings : List NodeId}
    (hmoved : moved.Nodup) (hsiblings : siblings.Nodup) (hapart : ∀ m ∈ moved, m ∉ siblings) :
    (spliceBefore r moved siblings).Nodup := by
  have happend : (siblings ++ moved).Nodup := by
    refine List.nodup_append.mpr ⟨hsiblings, hmoved, ?_⟩
    rintro a ha b hb rfl
    exact hapart a hb ha
  cases r with
  | none => exact happend
  | some r =>
      have hperm : (spliceBefore (some r) moved siblings).Perm (siblings ++ moved) := by
        have hbehind : (moved ++ siblings.dropWhile (· != r)).Perm
            (siblings.dropWhile (· != r) ++ moved) := List.perm_append_comm
        have hall := hbehind.append_left (siblings.takeWhile (· != r))
        rw [← List.append_assoc, ← List.append_assoc, List.takeWhile_append_dropWhile] at hall
        exact hall
      exact hperm.nodup_iff.mpr happend

/-- Inserting keeps parents and children tied, wherever it puts a node. -/
theorem Tied.insertBefore (h : d.Tied) (hp : d.contains p = true)
    (hn : d.contains n = true) (r : Option NodeId) : (d.insertBefore p n r).Tied where
  agree q c := by
    unfold Under
    rw [h.parent?_insertBefore hn, h.children_insertBefore hp]
    by_cases hc : c ∈ d.movedBy n
    · by_cases hq : q = p
      · subst hq
        rw [if_pos hc, if_pos rfl, mem_spliceBefore_iff]
        exact iff_of_true rfl (Or.inr hc)
      · rw [if_pos hc, if_neg hq]
        refine iff_of_false (fun heq => hq (Option.some.inj heq).symm) ?_
        simp [hc]
    · rw [if_neg hc]
      refine (h.agree q c).trans ?_
      split
      · rename_i hq
        subst hq
        simp [mem_spliceBefore_iff, hc]
      · simp [hc]
  nodup q := by
    rw [h.children_insertBefore hp]
    split
    · refine nodup_spliceBefore (h.nodup_movedBy n) ((h.nodup p).filter _) ?_
      intro m hm
      simp [hm]
    · exact (h.nodup q).filter _
  loose k hk := by
    rw [kind?_insertBefore] at hk
    rw [h.parent?_insertBefore hn, if_neg fun hmem => (h.moved hn k hmem).2 hk]
    exact h.loose k hk

/-- Inserting keeps the hierarchy, unless it would put a node under itself. -/
theorem Linked.insertBefore (h : d.Linked) (hp : d.contains p = true)
    (hn : d.contains n = true) (r : Option NodeId)
    (hunder : ∀ m ∈ d.movedBy n, ¬ d.Within p m) : (d.insertBefore p n r).Linked where
  toTied := h.toTied.insertBefore hp hn r
  grounded k := by
    have hstep : ∀ {q k}, (d.insertBefore p n r).Under k q →
        (k ∈ d.movedBy n ∧ q = p) ∨ (k ∉ d.movedBy n ∧ d.Under k q) := by
      intro q k hk
      unfold Under at hk
      rw [h.parent?_insertBefore hn] at hk
      split at hk
      · exact Or.inl ⟨by assumption, (Option.some.inj hk).symm⟩
      · exact Or.inr ⟨by assumption, hk⟩
    -- nothing above the new parent is moved, so the way up from there is the old one
    have habove : ∀ q, d.Within p q →
        Acc (fun q k => (d.insertBefore p n r).Under k q) q := by
      intro q
      induction h.grounded q with
      | intro q _ ih =>
          intro hq
          refine ⟨q, fun q' hq' => ?_⟩
          rcases hstep hq' with ⟨hmoved, -⟩ | ⟨-, hold⟩
          · exact absurd hq (hunder q hmoved)
          · exact ih q' hold (hq.tail hold)
    induction h.grounded k with
    | intro k _ ih =>
        refine ⟨k, fun q hq => ?_⟩
        rcases hstep hq with ⟨-, rfl⟩ | ⟨-, hold⟩
        · exact habove q .refl
        · exact ih q hold

end LiveMarkup.Document
