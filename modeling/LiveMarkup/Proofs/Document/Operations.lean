import LiveMarkup.Proofs.Document.Rewriting

/-!
# Operations on a document

What can be done to a document from outside, one operation after the other. Where
a node goes is up to whoever inserts it, so nothing here says that no node is put
under itself; parents and children stay tied all the same, and what can be
inserted once can be inserted ever after.
-/

namespace LiveMarkup.Document

variable {d d' d'' source : Document} {p n : NodeId}

/-- A document whose parents and children are tied, with all nodes of another one, and in which
everything can be inserted that could be there. -/
structure Follows (d d' : Document) : Prop where
  tied : d'.Tied
  size_le : d.size ≤ d'.size
  kept : ∀ n, d.Insertable n → d'.Insertable n

namespace Follows

theorem refl (hd : d.Tied) : Follows d d :=
  ⟨hd, Nat.le_refl _, fun _ => id⟩

theorem trans (h : Follows d d') (h' : Follows d' d'') : Follows d d'' :=
  ⟨h'.tied, Nat.le_trans h.size_le h'.size_le, fun n hn => h'.kept n (h.kept n hn)⟩

theorem contains (h : Follows d d') (hn : d.contains n = true) : d'.contains n = true :=
  decide_eq_true (Nat.lt_of_lt_of_le (of_decide_eq_true hn) h.size_le)

theorem of_kinds (htied : d'.Tied) (hsize : d'.size = d.size) (hkinds : d'.kind? = d.kind?) :
    Follows d d' where
  tied := htied
  size_le := Nat.le_of_eq hsize.symm
  kept n hn := by
    rw [insertable_iff, hkinds]
    exact insertable_iff.mp hn

theorem of_extends (htied : d'.Tied) (hgrown : Extends d d') : Follows d d' where
  tied := htied
  size_le := hgrown.size_le
  kept := by
    rintro n ⟨data, hdata, hsolid⟩
    exact ⟨data, hgrown.node hdata, hsolid⟩

theorem of_sameShape (hd : d.Tied) (hshape : SameShape d d') : Follows d d' :=
  ⟨hshape.tied hd, Nat.le_of_eq hshape.size.symm, fun _ => hshape.insertable⟩

end Follows

namespace Tied

variable (hd : d.Tied)
include hd

theorem follows_create (kind : NodeKind) : Follows d (d.create kind).2 :=
  .of_extends (hd.create kind) (extends_create d kind)

theorem follows_insertBefore (hp : d.contains p = true) (hn : d.contains n = true)
    (r : Option NodeId) : Follows d (d.insertBefore p n r) :=
  .of_kinds (hd.insertBefore hp hn r) (size_insertBefore d p n r) (kind?_insertBefore d p n r)

theorem follows_removeChildren (p : NodeId) (doomed : List NodeId) :
    Follows d (d.removeChildren p doomed) :=
  .of_kinds (hd.removeChildren p doomed) (size_removeChildren d p doomed)
    (kind?_removeChildren d p doomed)

theorem follows_plant {dress : Dressing} (hdress : dress.Attaches) {t : Tree}
    (ht : Tree.isSolidAll t.children = true) : Follows d (Document.plant dress t d).2 := by
  obtain ⟨-, htied, hgrown, -⟩ := hd.plant hdress t ht
  exact .of_extends htied hgrown

theorem solid_tree (n : NodeId) : Tree.isSolidAll (d.tree n).children = true := by
  have hinsertable : ∀ p, ∀ c ∈ d.children p, d.Insertable c := fun _ _ hc => hd.insertable hc
  unfold Document.tree
  cases d.size with
  | zero => rfl
  | succ depth =>
      exact Tree.isSolidAll_map fun c hc =>
        solid_treeWithin hinsertable depth (hinsertable n c hc)

end Tied

/-- One operation on a document. Nodes that are copied come from the document itself or from
another one whose parents and children are tied. -/
inductive Operation (d : Document) : Document → Prop
  | create (kind : NodeKind) : Operation d (d.create kind).2
  | insertBefore {p n : NodeId} (hp : d.contains p = true) (hn : d.contains n = true)
      (r : Option NodeId) : Operation d (d.insertBefore p n r)
  | removeChild (p n : NodeId) : Operation d (d.removeChild p n)
  | clearChildren (p : NodeId) : Operation d (d.clearChildren p)
  | rewrite {d' : Document} (h : Rewrite d d') : Operation d d'
  | clone (n : NodeId) (deep : Bool) : Operation d (d.clone n deep).2
  | importFrom {source : Document} (hsource : source.Tied) (n : NodeId) :
      Operation d (d.importFrom source n).2

theorem Operation.follows (h : Operation d d') (hd : d.Tied) : Follows d d' := by
  cases h with
  | create kind => exact hd.follows_create kind
  | insertBefore hp hn r => exact hd.follows_insertBefore hp hn r
  | removeChild p n => exact hd.follows_removeChildren p [n]
  | clearChildren p => exact hd.follows_removeChildren p (d.children p)
  | rewrite h => exact .of_sameShape hd h.sameShape
  | clone n deep =>
      refine hd.follows_plant attaches_withAttributes ?_
      cases deep with
      | false => rfl
      | true => exact hd.solid_tree n
  | importFrom hsource n => exact hd.follows_plant attaches_writingAttributes (hsource.solid_tree n)

end LiveMarkup.Document
