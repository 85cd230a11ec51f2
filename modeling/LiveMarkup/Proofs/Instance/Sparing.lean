import LiveMarkup.Proofs.Document.Shapes
import LiveMarkup.Proofs.Instance.Nesting

/-!
# What a change spares

A change of some links leaves every other link alone, whatever other links
there are: their nodes keep their parents, and whoever of them stood first or
last under a node still does. So changes can be put one after the other, each
with the links of the others in its frame.
-/

namespace LiveMarkup

open Document (SameShape Extends)

variable {links links' : List Link} {d d' d'' : Document} {x y z m n p f : NodeId}

/-- A node that some links come from or lead to. -/
def Link.Meets (links : List Link) (z : NodeId) : Prop :=
  z ∈ links.map Link.source ∨ z ∈ links.map Link.target

theorem Link.Meets.mono (h : Link.Meets links z) (hsub : links ⊆ links') :
    Link.Meets links' z :=
  h.imp (fun hz => List.map_subset _ hsub hz) fun hz => List.map_subset _ hsub hz

/-- A change leaves the nodes of links where they are. -/
structure Spares (links : List Link) (d d' : Document) : Prop where
  size : d.size ≤ d'.size
  fragment : ∀ n, d.kind? n = some .fragment → d'.kind? n = some .fragment
  bare : ∀ p, p < d.size → d.children p = [] → d'.children p = []
  parent : ∀ z, Link.Meets links z → d'.parent? z = d.parent? z
  head : ∀ p z, Link.Meets links z → (d.children p).head? = some z →
    (d'.children p).head? = some z
  last : ∀ p z, Link.Meets links z → (d.children p).getLast? = some z →
    (d'.children p).getLast? = some z

theorem head?_filter_notMem {l w : List NodeId} (hhead : l.head? = some z) (hz : z ∉ w) :
    (l.filter (· ∉ w)).head? = some z := by
  obtain ⟨l, rfl⟩ := List.head?_eq_some_iff.mp hhead
  rw [List.filter_cons_of_pos (by simpa using hz), List.head?_cons]

theorem getLast?_filter_notMem {l w : List NodeId} (hlast : l.getLast? = some z) (hz : z ∉ w) :
    (l.filter (· ∉ w)).getLast? = some z := by
  obtain ⟨l, rfl⟩ := List.getLast?_eq_some_iff.mp hlast
  rw [List.filter_append, List.filter_cons_of_pos (by simpa using hz)]
  simp

namespace Spares

theorem refl (links : List Link) (d : Document) : Spares links d d :=
  ⟨Nat.le_refl _, fun _ => id, fun _ _ => id, fun _ _ => rfl, fun _ _ _ => id, fun _ _ _ => id⟩

theorem trans (h : Spares links d d') (h' : Spares links d' d'') : Spares links d d'' where
  size := Nat.le_trans h.size h'.size
  fragment n hn := h'.fragment n (h.fragment n hn)
  bare p hp hbare := h'.bare p (Nat.lt_of_lt_of_le hp h.size) (h.bare p hp hbare)
  parent z hz := (h'.parent z hz).trans (h.parent z hz)
  head p z hz hhead := h'.head p z hz (h.head p z hz hhead)
  last p z hz hlast := h'.last p z hz (h.last p z hz hlast)

theorem mono (h : Spares links' d d') (hsub : links ⊆ links') : Spares links d d' where
  size := h.size
  fragment := h.fragment
  bare := h.bare
  parent z hz := h.parent z (hz.mono hsub)
  head p z hz := h.head p z (hz.mono hsub)
  last p z hz := h.last p z (hz.mono hsub)

theorem of_shape (h : SameShape d d') : Spares links d d' where
  size := Nat.le_of_eq h.size.symm
  fragment n hn := (h.fragment_iff n).mpr hn
  bare p _ hbare := by rwa [h.children]
  parent z _ := by rw [h.parents]
  head p z _ hhead := by rwa [h.children]
  last p z _ hlast := by rwa [h.children]

theorem ends_kept {id : Option InstanceId} {w : List NodeId} (h : Spares links d d')
    (hends : Link.ends id w ⊆ links) (hf : f < d.size) (hw : d.children f = w) :
    (d'.children f).head? = w.head? ∧ (d'.children f).getLast? = w.getLast? := by
  cases hhead : w.head? with
  | none =>
      obtain rfl := List.head?_eq_none_iff.mp hhead
      rw [h.bare f hf hw]
      exact ⟨rfl, rfl⟩
  | some x =>
      obtain ⟨l, rfl⟩ := List.head?_eq_some_iff.mp hhead
      have hlast := List.getLast?_eq_some_getLast (List.cons_ne_nil x l)
      generalize (x :: l).getLast (List.cons_ne_nil x l) = e at hlast
      have hrun := hends (Link.mem_ends.mpr ⟨x, _, rfl, hhead, hlast⟩)
      rw [← hw] at hhead hlast
      rw [← hw, hlast]
      exact ⟨h.head f x (.inr (List.mem_map.mpr ⟨_, hrun, rfl⟩)) hhead,
        h.last f _ (.inl (List.mem_map.mpr ⟨_, hrun, rfl⟩)) hlast⟩

theorem notMem_children (h : Spares links d d') (hd : d.Tied) (hd' : d'.Tied)
    (hf : d.size ≤ f) (hz : Link.Meets links z) : z ∉ d'.children f := by
  intro hmem
  have hparent : d'.parent? z = some f := (hd'.agree f z).mpr hmem
  rw [h.parent z hz] at hparent
  have hold : f < d.size :=
    of_decide_eq_true (Document.contains_of_mem_children ((hd.agree f z).mp hparent))
  exact Nat.not_lt.mpr hf hold

theorem of_extends (h : Extends d d') (hold : ∀ z, Link.Meets links z → z < d.size) :
    Spares links d d' where
  size := h.size_le
  fragment n hn := by
    obtain ⟨data, hdata, hkind⟩ := Option.map_eq_some_iff.mp hn
    rw [Document.kind?_of_node (h.node hdata), hkind]
  bare p hp hbare := by rwa [Document.children_congr (h.same p hp)]
  parent z hz := by
    unfold Document.parent?
    rw [h.same z (hold z hz)]
  head p z hz hhead := by
    have hp := Document.contains_of_mem_children (List.mem_of_head? hhead)
    rwa [Document.children_congr (h.same p (of_decide_eq_true hp))]
  last p z hz hlast := by
    have hp := Document.contains_of_mem_children (List.mem_of_getLast? hlast)
    rwa [Document.children_congr (h.same p (of_decide_eq_true hp))]

theorem of_moved (h : Spares links d d') (htied' : d'.Tied) (htied'' : d''.Tied)
    (hsize : d''.size = d'.size) (hkind : d''.kind? = d'.kind?) {w : List NodeId}
    (hw : ∀ z ∈ w, ¬ Link.Meets links z)
    (hchildren : ∀ q, q < d.size → d''.children q = (d'.children q).filter (· ∉ w))
    (hmem : ∀ q z, z ∉ w → (z ∈ d''.children q ↔ z ∈ d'.children q)) :
    Spares links d d'' where
  size := by rw [hsize]; exact h.size
  fragment n hn := by rw [hkind]; exact h.fragment n hn
  bare p hp hbare := by rw [hchildren p hp, h.bare p hp hbare, List.filter_nil]
  parent z hz := by
    rw [← h.parent z hz]
    have hzw : z ∉ w := fun hmem => hw z hmem hz
    refine Option.ext fun q => ?_
    exact (htied''.agree q z).trans ((hmem q z hzw).trans (htied'.agree q z).symm)
  head p z hz hhead := by
    have hp := Document.contains_of_mem_children (List.mem_of_head? hhead)
    rw [hchildren p (of_decide_eq_true hp)]
    exact head?_filter_notMem (h.head p z hz hhead) fun hmem => hw z hmem hz
  last p z hz hlast := by
    have hp := Document.contains_of_mem_children (List.mem_of_getLast? hlast)
    rw [hchildren p (of_decide_eq_true hp)]
    exact getLast?_filter_notMem (h.last p z hz hlast) fun hmem => hw z hmem hz

theorem removeChildren (htied : d.Tied) {w : List NodeId} (hunder : ∀ z ∈ w, z ∈ d.children p)
    (hnodup : w.Nodup) (hw : ∀ z ∈ w, ¬ Link.Meets links z) :
    Spares links d (d.removeChildren p w) := by
  have hchildren := htied.children_removeChildren hunder hnodup
  refine (refl links d).of_moved htied (htied.removeChildren p w)
    (Document.size_removeChildren d p w) (Document.kind?_removeChildren d p w) hw
    (fun q _ => hchildren q) fun q z hz => ?_
  rw [hchildren, List.mem_filter]
  simp [hz]

theorem insertBetween (htied : d.Tied) (hf : d.contains f = true)
    (hbeside : Beside (d.children p) m n) {w : List NodeId} (hmoved : d.movedBy f = w)
    (hapart : ∀ z ∈ w, z ∉ d.children p) (hw : ∀ z ∈ w, ¬ Link.Meets links z) :
    Spares links d (d.insertBefore p f (some n)) := by
  obtain ⟨before, behind, hold, hnew, hothers⟩ :=
    htied.children_between (f := f) hbeside hmoved hapart
  refine ⟨Nat.le_of_eq (Document.size_insertBefore d p f (some n)).symm, ?_, ?_, ?_, ?_, ?_⟩
  · intro k hk
    rwa [Document.kind?_insertBefore]
  · intro q _ hbare
    have hq : q ≠ p := by
      rintro rfl
      rw [hbare] at hbeside
      cases hbeside.left_mem
    rw [hothers q hq, hbare, List.filter_nil]
  · intro z hz
    rw [htied.parent?_insertBefore hf, hmoved, if_neg fun hmem => hw z hmem hz]
  · intro q z hz hhead
    by_cases hq : q = p
    · subst hq
      rw [hnew]
      rw [hold] at hhead
      cases before with
      | nil => exact hhead
      | cons a before => exact hhead
    · rw [hothers q hq]
      exact head?_filter_notMem hhead fun hmem => hw z hmem hz
  · intro q z hz hlast
    by_cases hq : q = p
    · subst hq
      have hsplit : ∀ middle, before ++ m :: (middle ++ n :: behind) =
          (before ++ m :: middle) ++ n :: behind := by simp
      rw [hnew, hsplit, List.getLast?_append_of_ne_nil _ (by simp)]
      rwa [hold, ← List.nil_append (n :: behind), hsplit,
        List.getLast?_append_of_ne_nil _ (by simp)] at hlast
    · rw [hothers q hq]
      exact getLast?_filter_notMem hlast fun hmem => hw z hmem hz

theorem appended (h : Spares links d d') (htied' : d'.Tied) {w : List NodeId}
    (happended : Document.Appended d' d'' f w) (hf : d.size ≤ f)
    (hw : ∀ z ∈ w, ¬ Link.Meets links z) : Spares links d d'' := by
  refine h.of_moved htied' happended.tied happended.size happended.kinds hw ?_ ?_
  · intro q hq
    rw [happended.children, if_neg (Nat.ne_of_lt (Nat.lt_of_lt_of_le hq hf)), List.append_nil]
  · intro q z hz
    rw [happended.children, List.mem_append, List.mem_filter]
    have hnew : z ∉ if q = f then w.dedup else [] := by
      split
      · simpa using hz
      · simp
    simp [hz, hnew]

end Spares

end LiveMarkup
