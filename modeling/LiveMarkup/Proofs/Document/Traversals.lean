import LiveMarkup.Proofs.Document.Hierarchy
import Mathlib.Data.List.Perm.Subperm

/-!
# Walking through a document

In a hierarchy every way down ends: nobody has more nodes above it than the
document holds. So the tree under a node is never cut off, and what walks down
from a node to its children, or takes out one first child after another, comes
to its end. The walks are written here as rules without any bound; that there
is a derivation says that the walk ends, and with what.
-/

namespace LiveMarkup.Document

variable {d d' : Document} {n p c : NodeId} {above : List NodeId}

/-! ## The nodes above a node -/

/-- The nodes above a node, the nearest first. -/
inductive Lineage (d : Document) : NodeId → List NodeId → Prop
  | top {n : NodeId} (h : d.parent? n = none) : Lineage d n []
  | under {n p : NodeId} {above : List NodeId} (hn : d.Under n p) (hp : Lineage d p above) :
      Lineage d n (p :: above)

theorem Linked.lineage (h : d.Linked) (n : NodeId) : ∃ above, d.Lineage n above := by
  induction h.grounded n with
  | intro n _ ih =>
      cases hn : d.parent? n with
      | none => exact ⟨[], .top hn⟩
      | some p =>
          obtain ⟨above, hp⟩ := ih p hn
          exact ⟨p :: above, .under hn hp⟩

theorem Lineage.transGen (h : d.Lineage n above) :
    ∀ a ∈ above, Relation.TransGen d.Under n a := by
  induction h with
  | top => simp
  | under hn _ ih =>
      intro a ha
      rcases List.mem_cons.mp ha with rfl | ha
      · exact .single hn
      · exact .head hn (ih a ha)

theorem Lineage.nodup (h : d.Lineage n above) (hd : d.Linked) : (n :: above).Nodup := by
  induction h with
  | top => exact List.nodup_singleton _
  | under hn hp ih =>
      refine List.nodup_cons.mpr ⟨fun hmem => ?_, ih⟩
      exact hd.acyclic _ ((Lineage.under hn hp).transGen _ hmem)

theorem Lineage.lt_size (h : d.Lineage n above) (hd : d.Linked) (hn : d.contains n = true) :
    ∀ a ∈ n :: above, a < d.size := by
  induction h with
  | top =>
      intro a ha
      rw [List.mem_singleton.mp ha]
      exact of_decide_eq_true hn
  | under hunder _ ih =>
      intro a ha
      rcases List.mem_cons.mp ha with rfl | ha
      · exact of_decide_eq_true hn
      · exact ih (contains_of_mem_children ((hd.agree _ _).mp hunder)) a ha

theorem Lineage.length_lt (h : d.Lineage n above) (hd : d.Linked)
    (hn : d.contains n = true) : above.length < d.size := by
  have hsubset : n :: above ⊆ List.range d.size := fun a ha =>
    List.mem_range.mpr (h.lt_size hd hn a ha)
  have hle := (List.subperm_of_subset (h.nodup hd) hsubset).length_le
  rw [List.length_range] at hle
  exact hle

theorem Lineage.child (h : d.Lineage n above) (hd : d.Linked) (hc : c ∈ d.children n) :
    d.Lineage c (n :: above) ∧ above.length + 1 < d.size := by
  have hunder : d.Under c n := (hd.agree n c).mpr hc
  have hlineage : d.Lineage c (n :: above) := .under hunder h
  exact ⟨hlineage, hlineage.length_lt hd (contains_of_parent? hunder)⟩

theorem Linked.childInduction (h : d.Linked) {motive : NodeId → Prop}
    (step : ∀ n, (∀ c ∈ d.children n, motive c) → motive n) (n : NodeId) : motive n := by
  -- by induction on how many nodes can still stand below
  have hbelow : ∀ (k : Nat) (n : NodeId) (above : List NodeId), d.Lineage n above →
      d.size ≤ k + above.length → motive n := by
    intro k
    induction k with
    | zero =>
        intro n above hn hsize
        refine step n fun c hc => ?_
        have hlt := (hn.child h hc).2
        omega
    | succ k ih =>
        intro n above hn hsize
        refine step n fun c hc => ih c (n :: above) (hn.child h hc).1 ?_
        rw [List.length_cons]
        omega
  obtain ⟨above, hn⟩ := h.lineage n
  exact hbelow d.size n above hn (Nat.le_add_right _ _)

/-! ## The tree under a node -/

/-- One level more shows nothing more, once as many levels are shown as nodes can
stand below. -/
theorem Lineage.treeWithin_succ (hd : d.Linked) {depth : Nat} (h : d.Lineage n above)
    (hdepth : d.size ≤ depth + above.length + 1) :
    d.treeWithin (depth + 1) n = d.treeWithin depth n := by
  induction depth generalizing n above with
  | zero =>
      have hnone : d.children n = [] := by
        rw [List.eq_nil_iff_forall_not_mem]
        intro c hc
        have hlt := (h.child hd hc).2
        omega
      rw [treeWithin, treeWithin, hnone, List.map_nil]
  | succ depth ih =>
      rw [treeWithin, treeWithin]
      congr 1
      refine List.map_congr_left fun c hc => ?_
      refine ih (h.child hd hc).1 ?_
      rw [List.length_cons]
      omega

/-- The tree under a node is the node with the trees under its children: nothing
is cut off. -/
theorem Linked.tree_eq (h : d.Linked) (n : NodeId) :
    d.tree n = .node ((d.kind? n).getD .fragment) (d.attributes n) (d.forest n) := by
  unfold tree forest
  cases hsize : d.size with
  | zero =>
      have hnone : d.children n = [] := by
        rw [List.eq_nil_iff_forall_not_mem]
        intro c hc
        have hlt : n < d.size := of_decide_eq_true (contains_of_mem_children hc)
        rw [hsize] at hlt
        exact Nat.not_lt_zero n hlt
      rw [treeWithin, hnone, List.map_nil]
  | succ depth =>
      rw [treeWithin]
      congr 1
      refine List.map_congr_left fun c hc => ?_
      obtain ⟨above, hn⟩ := h.lineage n
      refine ((hn.child h hc).1.treeWithin_succ h ?_).symm
      omega

theorem forest_eq (d : Document) (n : NodeId) : d.forest n = (d.children n).map d.tree := rfl

/-! ## Writing markup -/

mutual

/-- Writing a node: an element that is not void, and a fragment, write their
children one after another. -/
inductive Writes (d : Document) : NodeId → String → Prop
  | text {n : NodeId} {data : String} (hn : d.kind? n = some (.text data)) :
      Writes d n (Entity.encodeText data)
  | comment {n : NodeId} {data : String} (hn : d.kind? n = some (.comment data)) :
      Writes d n ("<!--" ++ data ++ "-->")
  | fragment {n : NodeId} {inner : String} (hn : d.kind? n = some .fragment)
      (hinner : WritesAll d (d.children n) inner) : Writes d n inner
  | void {n : NodeId} {tag : String} (hn : d.kind? n = some (.element tag))
      (hvoid : isVoidElement tag = true) :
      Writes d n ("<" ++ tag ++ (d.attributes n).markup ++ ">")
  | element {n : NodeId} {tag inner : String} (hn : d.kind? n = some (.element tag))
      (hvoid : isVoidElement tag = false) (hinner : WritesAll d (d.children n) inner) :
      Writes d n ("<" ++ tag ++ (d.attributes n).markup ++ ">" ++ inner ++ "</" ++ tag ++ ">")

inductive WritesAll (d : Document) : List NodeId → String → Prop
  | nil : WritesAll d [] ""
  | cons {n : NodeId} {ns : List NodeId} {first rest : String} (hfirst : Writes d n first)
      (hrest : WritesAll d ns rest) : WritesAll d (n :: ns) (first ++ rest)

end

theorem writesAll {ns : List NodeId} (h : ∀ n ∈ ns, d.Writes n (d.html n)) :
    d.WritesAll ns (Tree.htmlAll (ns.map d.tree)) := by
  induction ns with
  | nil => exact .nil
  | cons n ns ih =>
      exact .cons (h n List.mem_cons_self) (ih fun m hm => h m (List.mem_cons_of_mem n hm))

theorem Linked.writes (h : d.Linked) (hn : d.contains n = true) : d.Writes n (d.html n) := by
  revert hn
  refine h.childInduction (motive := fun n => d.contains n = true → d.Writes n (d.html n))
    (fun n ih hn => ?_) n
  have hinner : d.WritesAll (d.children n) (Tree.htmlAll ((d.children n).map d.tree)) :=
    writesAll fun c hc => ih c hc (contains_of_parent? ((h.agree n c).mpr hc))
  obtain ⟨data, hdata⟩ := exists_node hn
  have hkind : d.kind? n = some data.kind := kind?_of_node hdata
  unfold html
  rw [h.tree_eq n, forest_eq, hkind, Option.getD_some]
  cases hcase : data.kind with
  | text s => exact .text (hkind.trans (congrArg some hcase))
  | comment s => exact .comment (hkind.trans (congrArg some hcase))
  | fragment => exact .fragment (hkind.trans (congrArg some hcase)) hinner
  | element tag =>
      rw [hcase] at hkind
      simp only [Tree.html]
      cases hvoid : isVoidElement tag with
      | true => exact .void hkind hvoid
      | false => exact .element hkind hvoid hinner

/-! ## Collecting text -/

mutual

/-- Collecting the text under a node; comments have none. -/
inductive Collects (d : Document) : NodeId → String → Prop
  | text {n : NodeId} {data : String} (hn : d.kind? n = some (.text data)) : Collects d n data
  | comment {n : NodeId} {data : String} (hn : d.kind? n = some (.comment data)) :
      Collects d n ""
  | fragment {n : NodeId} {inner : String} (hn : d.kind? n = some .fragment)
      (hinner : CollectsAll d (d.children n) inner) : Collects d n inner
  | element {n : NodeId} {tag inner : String} (hn : d.kind? n = some (.element tag))
      (hinner : CollectsAll d (d.children n) inner) : Collects d n inner

inductive CollectsAll (d : Document) : List NodeId → String → Prop
  | nil : CollectsAll d [] ""
  | cons {n : NodeId} {ns : List NodeId} {first rest : String} (hfirst : Collects d n first)
      (hrest : CollectsAll d ns rest) : CollectsAll d (n :: ns) (first ++ rest)

end

theorem collectsAll {ns : List NodeId} (h : ∀ n ∈ ns, d.Collects n (d.textContent n)) :
    d.CollectsAll ns (Tree.textContentAll (ns.map d.tree)) := by
  induction ns with
  | nil => exact .nil
  | cons n ns ih =>
      exact .cons (h n List.mem_cons_self) (ih fun m hm => h m (List.mem_cons_of_mem n hm))

/-- Collecting the text under a node ends. -/
theorem Linked.collects (h : d.Linked) (hn : d.contains n = true) :
    d.Collects n (d.textContent n) := by
  revert hn
  refine h.childInduction
    (motive := fun n => d.contains n = true → d.Collects n (d.textContent n))
    (fun n ih hn => ?_) n
  have hinner : d.CollectsAll (d.children n) (Tree.textContentAll ((d.children n).map d.tree)) :=
    collectsAll fun c hc => ih c hc (contains_of_parent? ((h.agree n c).mpr hc))
  obtain ⟨data, hdata⟩ := exists_node hn
  have hkind : d.kind? n = some data.kind := kind?_of_node hdata
  unfold textContent
  rw [h.tree_eq n, forest_eq, hkind, Option.getD_some]
  cases hcase : data.kind with
  | text s => exact .text (hkind.trans (congrArg some hcase))
  | comment s => exact .comment (hkind.trans (congrArg some hcase))
  | fragment => exact .fragment (hkind.trans (congrArg some hcase)) hinner
  | element tag => exact .element (hkind.trans (congrArg some hcase)) hinner

/-! ## Taking out all children -/

/-- Taking out the first child as long as there is one. -/
inductive Clears (p : NodeId) : Document → Document → Prop
  | done {d : Document} (h : d.firstChild? p = none) : Clears p d d
  | step {d d' : Document} {c : NodeId} (hfirst : d.firstChild? p = some c)
      (hrest : Clears p (d.removeChild p c) d') : Clears p d d'

theorem Tied.children_removeChild (h : d.Tied) (hc : c ∈ d.children p) (q : NodeId) :
    (d.removeChild p c).children q = (d.children q).filter (· != c) := by
  have hunder : d.parent? c = some p := (h.agree p c).mpr hc
  rw [Document.removeChild, if_pos hunder]
  exact h.children_detach c q

theorem Linked.clears (h : d.Linked) (p : NodeId) : Clears p d (d.clearChildren p) := by
  unfold clearChildren
  generalize hcs : d.children p = cs
  induction cs generalizing d with
  | nil =>
      refine .done ?_
      rw [firstChild?, hcs]
      rfl
  | cons c cs ih =>
      have hfirst : d.firstChild? p = some c := by
        rw [firstChild?, hcs]
        rfl
      have hc : c ∈ d.children p := by
        rw [hcs]
        exact List.mem_cons_self
      have hrest : (d.removeChild p c).children p = cs := by
        have hnodup : ([] ++ c :: cs).Nodup := by
          rw [List.nil_append, ← hcs]
          exact h.nodup p
        rw [h.children_removeChild hc, hcs]
        exact filter_ne_append hnodup
      exact .step hfirst (ih (h.removeChild p c) hrest)

end LiveMarkup.Document
