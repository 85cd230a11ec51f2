import LiveMarkup.Proofs.Document.Scene
import LiveMarkup.Proofs.Document.Subtrees

/-!
# Strewn branches

Branches are strewn over a document if each of them is whole, wherever it
stands: the topmost nodes may stand under different parents, or nowhere. What
happens to the parents of the topmost nodes leaves strewn branches strewn, and
so does every edit of what stands under one of them.
-/

namespace LiveMarkup

namespace Branch

theorem idsAll_sublist {bs cs : List Branch} (h : cs.Sublist bs) :
    (idsAll cs).Sublist (idsAll bs) := by
  induction h with
  | slnil => exact .slnil
  | cons b _ ih => exact ih.trans (List.sublist_append_right _ _)
  | cons_cons b _ ih => exact ih.append_left _

/-- The kind of the topmost node. -/
def kind : Branch → NodeKind
  | node _ kind _ _ _ => kind

theorem mem_idsAll {bs : List Branch} {k : NodeId} : k ∈ idsAll bs ↔ ∃ b ∈ bs, k ∈ b.ids := by
  induction bs with
  | nil => simp
  | cons b bs ih => simp [ih]

end Branch

/-- What a node carries, wherever it stands and whatever stands under it. -/
def NodeData.carried (data : NodeData) : NodeKind × Attributes × Properties :=
  (data.kind, data.attributes, data.properties)

namespace Document

open Branch (idsAll tops)

variable {d d' : Document} {parent : Option NodeId} {p n c k t : NodeId}
  {xs bs ys cs : List Branch}

/-! ## Intact branches -/

@[simp] theorem intact_nil : d.Intact [] := nofun

@[simp] theorem intact_cons {b : Branch} :
    d.Intact (b :: bs) ↔ (∃ parent, d.GrowsOne parent b) ∧ d.Intact bs :=
  List.forall_mem_cons

@[simp] theorem intact_append : d.Intact (xs ++ ys) ↔ d.Intact xs ∧ d.Intact ys :=
  List.forall_mem_append

theorem Intact.exists_grows (h : d.Intact bs) (hk : k ∈ idsAll bs) :
    ∃ b ∈ bs, k ∈ idsAll [b] ∧ idsAll [b] ⊆ idsAll bs ∧ ∃ parent, d.Grows parent [b] := by
  obtain ⟨b, hb, hk⟩ := Branch.mem_idsAll.mp hk
  obtain ⟨parent, hone⟩ := h b hb
  exact ⟨b, hb, by simpa using hk,
    (Branch.idsAll_sublist (List.singleton_sublist.mpr hb)).subset, parent, hone, trivial⟩

theorem Intact.lt_size (h : d.Intact bs) : ∀ k ∈ idsAll bs, k < d.size := by
  intro k hk
  obtain ⟨b, -, hk, -, parent, hone⟩ := h.exists_grows hk
  exact hone.lt_size k hk

theorem Intact.within (h : d.Intact bs) (hk : k ∈ idsAll bs) : ∃ t ∈ tops bs, d.Within k t := by
  obtain ⟨b, hb, hk, -, parent, hone⟩ := h.exists_grows hk
  obtain ⟨t, ht, hwithin⟩ := hone.within hk
  obtain rfl : t = b.id := List.mem_singleton.mp ht
  exact ⟨b.id, List.mem_map_of_mem hb, hwithin⟩

theorem Intact.grows (h : d.Intact bs) (htops : ∀ t ∈ tops bs, d.parent? t = parent) :
    d.Grows parent bs := by
  induction bs with
  | nil => trivial
  | cons b bs ih =>
      obtain ⟨⟨q, hb⟩, hbs⟩ := intact_cons.mp h
      refine ⟨?_, ih hbs fun t ht => htops t (List.mem_cons_of_mem _ ht)⟩
      have hparent := htops b.id List.mem_cons_self
      obtain ⟨n, kind, attributes, properties, under⟩ := b
      rw [Branch.id_node, parent?_of_node hb.1] at hparent
      rwa [← hparent]

theorem Grows.parent_mem (h : d.Grows parent bs) (hk : k ∈ idsAll bs) (hnot : k ∉ tops bs) :
    ∃ q ∈ idsAll bs, d.parent? k = some q := by
  induction bs using Branch.forestInduction generalizing parent with
  | nil => cases hk
  | cons n kind attributes properties under rest ihUnder ihRest =>
      obtain ⟨⟨hnode, hunder⟩, hrest⟩ := h
      simp only [Branch.idsAll_cons, Branch.ids_node, List.cons_append, List.mem_cons,
        List.mem_append, Branch.tops_cons, Branch.id_node, not_or] at hk hnot ⊢
      rcases hk with rfl | hk | hk
      · exact absurd rfl hnot.1
      · by_cases htop : k ∈ tops under
        · obtain ⟨data, hdata, hparent⟩ := hunder.parent_top htop
          exact ⟨n, .inl rfl, (parent?_of_node hdata).trans hparent⟩
        · obtain ⟨q, hq, hparent⟩ := ihUnder hunder hk htop
          exact ⟨q, .inr (.inl hq), hparent⟩
      · obtain ⟨q, hq, hparent⟩ := ihRest hrest hk hnot.2
        exact ⟨q, .inr (.inr hq), hparent⟩

theorem Intact.parent_mem (h : d.Intact bs) (hk : k ∈ idsAll bs) (hnot : k ∉ tops bs) :
    ∃ q ∈ idsAll bs, d.parent? k = some q := by
  obtain ⟨b, hb, hk, hsub, parent, hone⟩ := h.exists_grows hk
  have hne : k ∉ tops [b] := fun heq =>
    hnot (List.mem_singleton.mp heq ▸ List.mem_map_of_mem hb)
  obtain ⟨q, hq, hparent⟩ := hone.parent_mem hk hne
  exact ⟨q, hsub hq, hparent⟩

theorem Grows.notMem_tops (h : d.Grows parent bs) (hdistinct : (idsAll bs).Nodup)
    (hn : n ∈ idsAll bs) (hc : c ∈ d.children n) : c ∉ tops bs := by
  induction bs using Branch.forestInduction generalizing parent with
  | nil => cases hn
  | cons m kind attributes properties under rest ihUnder ihRest =>
      obtain ⟨⟨hnode, hunder⟩, hrest⟩ := h
      have hsingle : d.Grows parent [.node m kind attributes properties under] :=
        ⟨⟨hnode, hunder⟩, trivial⟩
      obtain ⟨hown, hothers, hapart⟩ := List.nodup_append.mp hdistinct
      rw [Branch.ids_node, List.nodup_cons] at hown
      rcases List.mem_append.mp hn with hmem | hmem
      · -- everything under the first branch is strictly below its topmost node
        have hbelow : c ∈ idsAll under := by
          rcases List.mem_cons.mp hmem with rfl | hmem
          · rw [children_of_node hnode] at hc
            exact Branch.tops_subset_idsAll under hc
          · exact hunder.mem_of_mem_children hmem hc
        intro htop
        rcases List.mem_cons.mp htop with rfl | htop
        · exact hown.1 hbelow
        · exact hapart c (by simp [hbelow]) c (Branch.tops_subset_idsAll rest htop) rfl
      · intro htop
        rcases List.mem_cons.mp htop with rfl | htop
        · exact hapart c (by simp) c (hrest.mem_of_mem_children hmem hc) rfl
        · exact ihRest hrest hothers hmem htop

theorem Intact.mem_of_mem_children (h : d.Intact bs) (hn : n ∈ idsAll bs)
    (hc : c ∈ d.children n) : c ∈ idsAll bs := by
  obtain ⟨b, -, hn, hsub, parent, hone⟩ := h.exists_grows hn
  exact hsub (hone.mem_of_mem_children hn hc)

theorem Intact.notMem_tops (h : d.Intact bs) (hdistinct : (idsAll bs).Nodup)
    (hn : n ∈ idsAll bs) (hc : c ∈ d.children n) : c ∉ tops bs := by
  induction bs with
  | nil => cases hn
  | cons b bs ih =>
      obtain ⟨⟨parent, hb⟩, hbs⟩ := intact_cons.mp h
      have hone : d.Grows parent [b] := ⟨hb, trivial⟩
      obtain ⟨hown, hothers, hapart⟩ := List.nodup_append.mp hdistinct
      rw [Branch.tops_cons, List.mem_cons, not_or]
      rcases List.mem_append.mp hn with hn | hn
      · have hmem := hone.mem_of_mem_children (by simpa using hn) hc
        have hnot := hone.notMem_tops (by simpa using hown) (by simpa using hn) hc
        refine ⟨by simpa using hnot, fun htop => ?_⟩
        exact hapart c (by simpa using hmem) c (Branch.tops_subset_idsAll bs htop) rfl
      · refine ⟨fun heq => ?_, ih hbs hothers hn⟩
        exact hapart b.id b.id_mem_ids c (hbs.mem_of_mem_children hn hc) heq.symm

theorem Intact.moved (h : d.Intact bs) (hdistinct : (idsAll bs).Nodup)
    (htops : ∀ k ∈ tops bs, ∃ q, d'.nodes[k]? =
      (d.nodes[k]?).map fun data => { data with parent := q })
    (hsame : ∀ k ∈ idsAll bs, k ∉ tops bs → d'.nodes[k]? = d.nodes[k]?) : d'.Intact bs := by
  induction bs with
  | nil => exact intact_nil
  | cons b bs ih =>
      obtain ⟨⟨parent, hb⟩, hbs⟩ := intact_cons.mp h
      obtain ⟨hown, hothers, hapart⟩ := List.nodup_append.mp hdistinct
      have hone : d.Grows parent [b] := ⟨hb, trivial⟩
      obtain ⟨q, hq⟩ := htops b.id List.mem_cons_self
      refine intact_cons.mpr ⟨⟨q, ?_⟩, ih hbs hothers
        (fun k hk => htops k (List.mem_cons_of_mem _ hk)) fun k hk hnot => ?_⟩
      · refine (hone.reparent (by simpa using hown) ?_ fun k hk hnot => ?_).1
        · intro k hk
          rwa [List.mem_singleton.mp hk]
        · have hk : k ∈ b.ids := by simpa using hk
          refine hsame k (List.mem_append_left _ hk) fun htop => ?_
          rcases List.mem_cons.mp htop with rfl | htop
          · exact hnot List.mem_cons_self
          · exact hapart k hk k (Branch.tops_subset_idsAll bs htop) rfl
      · refine hsame k (List.mem_append_right _ hk) fun htop => ?_
        rcases List.mem_cons.mp htop with rfl | htop
        · exact hapart _ b.id_mem_ids _ hk rfl
        · exact hnot htop

/-! ## Strewn branches -/

/-- Whole branches without a repeated node, in a document whose parents and children agree.
None of them is a fragment, so each of them can stand among the children of a node. -/
structure Strewn (d : Document) (bs : List Branch) : Prop where
  tied : d.Tied
  intact : d.Intact bs
  distinct : (idsAll bs).Nodup
  solid : ∀ b ∈ bs, b.kind ≠ .fragment

namespace Strewn

theorem distinct_inner (h : d.Strewn (xs ++ bs ++ ys)) : (idsAll bs).Nodup :=
  h.distinct.sublist (Branch.idsAll_sublist
    ((List.sublist_append_right xs bs).trans (List.sublist_append_left _ ys)))

theorem focusHead (h : d.Strewn (xs ++ (bs ++ cs) ++ ys)) : d.Strewn (xs ++ bs ++ (cs ++ ys)) := by
  simpa using h

theorem focusTail (h : d.Strewn (xs ++ (bs ++ cs) ++ ys)) :
    d.Strewn ((xs ++ bs) ++ cs ++ ys) := by
  simpa using h

theorem sublist (h : d.Strewn bs) (hsub : cs.Sublist bs) : d.Strewn cs :=
  ⟨h.tied, fun b hb => h.intact b (hsub.subset hb),
    h.distinct.sublist (Branch.idsAll_sublist hsub), fun b hb => h.solid b (hsub.subset hb)⟩

/-- No node of the branches has one of the topmost nodes under it. -/
theorem parent_notMem (h : d.Strewn bs) (ht : t ∈ tops bs) (hp : d.parent? t = some p) :
    p ∉ idsAll bs := by
  intro hmem
  exact h.intact.notMem_tops h.distinct hmem ((h.tied.agree p t).mp hp) ht

theorem mem_of_within (h : d.Strewn bs) (ht : t ∈ idsAll bs) (hk : d.Within k t) :
    k ∈ idsAll bs := by
  induction hk using Relation.ReflTransGen.head_induction_on with
  | refl => exact ht
  | head hunder _ ih => exact h.intact.mem_of_mem_children ih ((h.tied.agree _ _).mp hunder)

theorem moved (h : d.Strewn bs) (hd : d'.Tied)
    (htops : ∀ k ∈ tops bs, ∃ q, d'.nodes[k]? =
      (d.nodes[k]?).map fun data => { data with parent := q })
    (hsame : ∀ k ∈ idsAll bs, k ∉ tops bs → d'.nodes[k]? = d.nodes[k]?) : d'.Strewn bs :=
  ⟨hd, h.intact.moved h.distinct htops hsame, h.distinct, h.solid⟩

theorem frame (h : d.Strewn bs) (hd : d'.Tied)
    (hsame : ∀ k ∈ idsAll bs, d'.nodes[k]? = d.nodes[k]?) : d'.Strewn bs := by
  refine h.moved hd (fun k hk => ?_) fun k hk _ => hsame k hk
  refine ⟨d.parent? k, (hsame k (Branch.tops_subset_idsAll bs hk)).trans ?_⟩
  cases hdata : d.nodes[k]? with
  | none => rfl
  | some data =>
      rw [parent?_of_node hdata]
      rfl

theorem grow (h : d.Strewn bs) (hd : d'.Tied) (hgrown : Extends d d') : d'.Strewn bs :=
  h.frame hd fun k hk => hgrown.same k (h.intact.lt_size k hk)

theorem removeChildren (h : d.Strewn bs) (hp : p ∉ idsAll bs) (doomed : List NodeId) :
    (d.removeChildren p doomed).Strewn bs := by
  have hne : ∀ k ∈ idsAll bs, k ≠ p := fun k hk heq => hp (heq ▸ hk)
  refine h.moved (h.tied.removeChildren p doomed) (fun k hk => ?_) fun k hk hnot => ?_
  · obtain ⟨data, hdata⟩ := exists_node (d := d) (n := k)
      (decide_eq_true (h.intact.lt_size k (Branch.tops_subset_idsAll bs hk)))
    rw [node_removeChildren_apart d doomed (hne k (Branch.tops_subset_idsAll bs hk)), hdata]
    exact ⟨_, rfl⟩
  · -- below the topmost nodes nobody stands under that parent
    obtain ⟨q, hq, hparent⟩ := h.intact.parent_mem hk hnot
    obtain ⟨data, hdata, hup⟩ := Option.bind_eq_some_iff.mp hparent
    have hqp : data.parent ≠ some p := fun heq =>
      hp (Option.some.inj (hup.symm.trans heq) ▸ hq)
    rw [node_removeChildren_apart d doomed (hne k hk), hdata]
    simp [hqp]

theorem add (h : d.Strewn (xs ++ ys)) (hbs : d.Strewn bs)
    (hapart : ∀ k ∈ idsAll bs, k ∉ idsAll (xs ++ ys)) : d.Strewn (xs ++ bs ++ ys) := by
  refine ⟨h.tied, ?_, ?_, fun b hb => ?_⟩
  · obtain ⟨hxs, hys⟩ := intact_append.mp h.intact
    exact intact_append.mpr ⟨intact_append.mpr ⟨hxs, hbs.intact⟩, hys⟩
  · have hperm : (idsAll (xs ++ bs ++ ys)).Perm (idsAll bs ++ idsAll (xs ++ ys)) := by
      simp only [Branch.idsAll_append, List.append_assoc]
      exact List.perm_append_comm_assoc _ _ _
    refine hperm.nodup_iff.mpr (List.nodup_append.mpr ⟨hbs.distinct, h.distinct, ?_⟩)
    rintro a ha b hb rfl
    exact hapart a ha hb
  · have hmem : b ∈ xs ++ ys ∨ b ∈ bs := by
      simp only [List.mem_append] at hb ⊢
      grind
    exact hmem.elim (h.solid b) (hbs.solid b)

/-- Branches under a node are no fragments. -/
theorem of_grows (hd : d.Tied) (hbs : d.Grows (some p) bs) (hdistinct : (idsAll bs).Nodup) :
    d.Strewn bs := by
  refine ⟨hd, hbs.intact, hdistinct, fun b hb hkind => ?_⟩
  obtain ⟨data, hdata, hparent⟩ := hbs.parent_top (List.mem_map_of_mem hb)
  have hup : d.parent? b.id = some p := (parent?_of_node hdata).trans hparent
  obtain ⟨parent, hone⟩ := hbs.intact b hb
  obtain ⟨n, kind, attributes, properties, under⟩ := b
  have hfragment : d.kind? n = some .fragment :=
    (kind?_of_node hone.1).trans (congrArg some hkind)
  cases hup.symm.trans (hd.loose n hfragment)

theorem insertable (h : d.Strewn bs) (ht : t ∈ tops bs) : d.Insertable t := by
  obtain ⟨b, hb, rfl⟩ := List.mem_map.mp ht
  obtain ⟨parent, hone⟩ := h.intact b hb
  have hkind := h.solid b hb
  obtain ⟨n, kind, attributes, properties, under⟩ := b
  exact ⟨_, hone.1, hkind⟩

theorem insert (h : d.Strewn (xs ++ ys)) (hr : Rendered d d' n bs) (hd : d'.Tied)
    (hp : d.contains p = true) (hnot : p ∉ idsAll (xs ++ ys)) (r : Option NodeId) :
    (d'.insertBefore p n r).Strewn (xs ++ bs ++ ys) := by
  have hlt : p < d.size := of_decide_eq_true hp
  have hpn : p ≠ n := Nat.ne_of_lt (Nat.lt_of_lt_of_le hlt hr.node_fresh)
  have hpb : p ∉ idsAll bs := fun hmem => Nat.not_lt.mpr (hr.fresh p hmem) hlt
  obtain ⟨data, hdata⟩ := exists_node hp
  obtain ⟨-, hgrows, hothers⟩ :=
    hr.loose.insertBefore hr.distinct (hr.grown.node hdata) hpn hpb r
  have hp' : d'.contains p = true := decide_eq_true (Nat.lt_of_lt_of_le hlt hr.grown.size_le)
  have htied := hd.insertBefore hp' hr.loose.contains r
  have hold : ∀ k ∈ idsAll (xs ++ ys), k ≠ n ∧ k ∉ idsAll bs := by
    intro k hk
    have hlt := h.intact.lt_size k hk
    exact ⟨Nat.ne_of_lt (Nat.lt_of_lt_of_le hlt hr.node_fresh),
      fun hmem => Nat.not_lt.mpr (hr.fresh k hmem) hlt⟩
  have hkept : (d'.insertBefore p n r).Strewn (xs ++ ys) :=
    (h.grow hd hr.grown).frame htied fun k hk =>
      hothers k (fun heq => hnot (heq ▸ hk)) (hold k hk).1 (hold k hk).2
  exact hkept.add (.of_grows htied hgrows hr.distinct) fun k hk hmem => (hold k hmem).2 hk

theorem placed (h : d.Strewn bs) {before behind : List NodeId} (hp : d.contains p = true)
    (hchildren : d.children p = before ++ tops bs ++ behind) (hnot : p ∉ idsAll bs) :
    d.Placed p before bs behind := by
  have hunder : ∀ k ∈ before ++ tops bs ++ behind, d.parent? k = some p := fun k hk =>
    (h.tied.agree p k).mpr (hchildren ▸ hk)
  have hnodup := h.tied.nodup p
  rw [hchildren] at hnodup
  obtain ⟨data, hdata⟩ := exists_node hp
  refine ⟨⟨data, hdata, by rw [← children_of_node hdata, hchildren]⟩,
    h.intact.grows fun t ht => hunder t (by simp [ht]), List.nodup_cons.mpr ⟨hnot, h.distinct⟩,
    hnodup.sublist ?_, fun k hk => ?_⟩
  · rw [List.append_assoc]
    exact (List.sublist_append_right _ _).append_left _
  · have hmem : k ∈ before ++ tops bs ++ behind := by
      rcases List.mem_append.mp hk with hk | hk <;> simp [hk]
    refine ⟨of_decide_eq_true (contains_of_parent? (hunder k hmem)), fun hids => ?_⟩
    by_cases htop : k ∈ tops bs
    · have hperm : (before ++ tops bs ++ behind).Perm (tops bs ++ (before ++ behind)) := by
        rw [List.append_assoc]
        exact List.perm_append_comm_assoc _ _ _
      exact (List.nodup_append.mp (hperm.nodup_iff.mp hnodup)).2.2 k htop k hk rfl
    · obtain ⟨q, hq, hparent⟩ := h.intact.parent_mem hids htop
      exact hnot (Option.some.inj (hparent.symm.trans (hunder k hmem)) ▸ hq)

/-- What can be seen of strewn branches, from where there is no deeper node. -/
theorem map_sceneWithin (h : d.Strewn bs) :
    (tops bs).map (d.sceneWithin d.size) = Branch.sceneAll bs := by
  induction bs with
  | nil => rfl
  | cons b bs ih =>
      obtain ⟨⟨parent, hb⟩, -⟩ := intact_cons.mp h.intact
      have hone : d.Grows parent [b] := ⟨hb, trivial⟩
      have hdistinct := (h.sublist (List.singleton_sublist.mpr List.mem_cons_self)).distinct
      have hfirst := Branch.map_sceneWithin hone (Branch.length_idsAll_le hone hdistinct)
      have hrest := ih (h.sublist (List.sublist_cons_self b bs))
      rw [Branch.tops_cons, List.map_cons, hrest, Branch.sceneAll, (List.cons.inj hfirst).1]

variable {kind kind' : NodeKind} {attributes attributes' : Attributes}
  {properties properties' : Properties} {under under' : List Branch}

/-- What stands under one of the topmost nodes is apart from all other branches, and none of
the topmost nodes is there. -/
theorem apart_under (h : d.Strewn (xs ++ .node n kind attributes properties under :: ys)) :
    (∀ k ∈ idsAll (xs ++ ys), k ≠ n ∧ k ∉ idsAll under) ∧ n ∉ idsAll under := by
  have hperm : (idsAll (xs ++ .node n kind attributes properties under :: ys)).Perm
      ((n :: idsAll under) ++ idsAll (xs ++ ys)) := by
    simp only [Branch.idsAll_append, Branch.idsAll_cons, Branch.ids_node]
    exact List.perm_append_comm_assoc _ _ _
  obtain ⟨hown, -, hapart⟩ := List.nodup_append.mp (hperm.nodup_iff.mp h.distinct)
  exact ⟨fun k hk => ⟨fun heq => hapart n (by simp) k hk heq.symm,
    fun hmem => hapart k (by simp [hmem]) k hk rfl⟩, (List.nodup_cons.mp hown).1⟩

theorem top_notMem_under (h : d.Strewn (xs ++ .node n kind attributes properties under :: ys))
    (ht : t ∈ tops (xs ++ .node n kind attributes properties under :: ys)) :
    t ∉ idsAll under := by
  obtain ⟨hothers, hn⟩ := h.apart_under
  by_cases htn : t = n
  · rwa [htn]
  · have hrest : t ∈ tops (xs ++ ys) := by simpa [htn] using ht
    exact (hothers t (Branch.tops_subset_idsAll _ hrest)).2

theorem descend (h : d.Strewn (xs ++ .node n kind attributes properties under :: ys)) :
    d.Placed n [] under [] := by
  have hsingle : d.Strewn [.node n kind attributes properties under] := h.sublist
    ((List.singleton_sublist.mpr List.mem_cons_self).trans (List.sublist_append_right _ _))
  obtain ⟨⟨parent, hnode, hunder⟩, -⟩ := intact_cons.mp hsingle.intact
  exact ⟨⟨_, hnode, by simp [tops]⟩, hunder, by simpa using hsingle.distinct, by simp, by simp⟩

theorem node (h : d.Strewn (xs ++ .node n kind attributes properties under :: ys)) :
    d.nodes[n]? = some ⟨kind, d.parent? n, tops under, attributes, properties⟩ := by
  obtain ⟨parent, hnode, -⟩ := h.intact (.node n kind attributes properties under) (by simp)
  rw [parent?_of_node hnode]
  exact hnode

theorem descendChanged (h : d.Strewn (xs ++ .node n kind attributes properties under :: ys))
    (hnode : d'.nodes[n]? = some ⟨kind', parent, tops under, attributes', properties'⟩)
    (hsame : ∀ k, k ≠ n → d'.nodes[k]? = d.nodes[k]?) : d'.Placed n [] under [] where
  node := ⟨_, hnode, by simp⟩
  grows := h.descend.grows.frame fun k hk =>
    hsame k fun heq => h.descend.parent_notMem (heq ▸ hk)
  distinct := h.descend.distinct
  around := by simp
  apart := by simp

theorem ascend (h : d.Strewn (xs ++ .node n kind attributes properties under :: ys))
    (hd : d'.Tied)
    (hnode : d'.nodes[n]? = some ⟨kind', d.parent? n, tops under', attributes', properties'⟩)
    (hunder : d'.Placed n [] under' [])
    (hsame : ∀ k, k < d.size → k ≠ n → k ∉ idsAll under → d'.nodes[k]? = d.nodes[k]?)
    (hfresh : ∀ k ∈ idsAll under', k ∈ idsAll under ∨ d.size ≤ k) (hsolid : kind' ≠ .fragment) :
    d'.Strewn (xs ++ .node n kind' attributes' properties' under' :: ys) := by
  have hrest : d.Strewn (xs ++ ys) := h.sublist ((List.sublist_cons_self _ _).append_left _)
  obtain ⟨hothers, -⟩ := h.apart_under
  have hkept : d'.Strewn (xs ++ ys) := hrest.frame hd fun k hk =>
    hsame k (hrest.intact.lt_size k hk) (hothers k hk).1 (hothers k hk).2
  have hone : d'.Strewn [.node n kind' attributes' properties' under'] :=
    ⟨hd, intact_cons.mpr ⟨⟨_, hnode, hunder.grows⟩, intact_nil⟩, by simpa using hunder.distinct,
      List.forall_mem_singleton.mpr hsolid⟩
  have hadded := hkept.add hone fun k hk hmem => ?_
  · simpa using hadded
  · obtain ⟨hkn, hold⟩ := hothers k hmem
    rcases List.mem_cons.mp (by simpa using hk : k ∈ n :: idsAll under') with rfl | hk
    · exact hkn rfl
    · rcases hfresh k hk with hk | hk
      · exact hold hk
      · exact Nat.not_lt.mpr hk (hrest.intact.lt_size k hmem)

end Strewn

/-! ## Moving the topmost nodes -/

theorem carried_insertBefore (d : Document) (p n : NodeId) (r : Option NodeId) (k : NodeId) :
    ((d.insertBefore p n r).nodes[k]?).map NodeData.carried =
      (d.nodes[k]?).map NodeData.carried := by
  have hrelease : ((d.release n).nodes[k]?).map NodeData.carried =
      (d.nodes[k]?).map NodeData.carried := by
    unfold release
    split
    · refine map_modify d n NodeData.carried (fun data => ?_) k
      rfl
    · unfold detach
      split
      · rfl
      · rw [map_modify _ _ NodeData.carried (by intro; rfl),
          map_modify _ _ NodeData.carried (by intro; rfl)]
  rw [← hrelease, ← map_modify (d.release n) p NodeData.carried (f := fun data =>
    { data with children := spliceBefore r (d.movedBy n) data.children }) (fun _ => rfl) k]
  unfold insertBefore
  rw [nodes_count, node_setParents]
  split
  · rw [Option.map_map]
    rfl
  · rfl

namespace Strewn

/-- Branches are strewn as long as their nodes carry what they carried, have the children
that they had and, below the topmost ones, the parents. -/
theorem of_views (h : d.Strewn bs) (hd : d'.Tied)
    (hcarried : ∀ k ∈ idsAll bs, (d'.nodes[k]?).map NodeData.carried =
      (d.nodes[k]?).map NodeData.carried)
    (hchildren : ∀ k ∈ idsAll bs, d'.children k = d.children k)
    (hparents : ∀ k ∈ idsAll bs, k ∉ tops bs → d'.parent? k = d.parent? k) : d'.Strewn bs := by
  have hnode : ∀ k ∈ idsAll bs, d'.nodes[k]? =
      (d.nodes[k]?).map fun data => { data with parent := d'.parent? k } := by
    intro k hk
    obtain ⟨data, hdata⟩ := exists_node (d := d) (n := k)
      (decide_eq_true (h.intact.lt_size k hk))
    have hsame := hcarried k hk
    rw [hdata, Option.map_some] at hsame
    obtain ⟨data', hdata', hcarries⟩ := Option.map_eq_some_iff.mp hsame
    have hunder := hchildren k hk
    rw [children_of_node hdata', children_of_node hdata] at hunder
    rw [hdata, Option.map_some, parent?_of_node hdata', hdata', ← hunder]
    obtain ⟨hkind, hattributes, hproperties⟩ := Prod.mk.inj hcarries |>.imp_right Prod.mk.inj
    rw [← hkind, ← hattributes, ← hproperties]
  refine h.moved hd (fun k hk => ⟨_, hnode k (Branch.tops_subset_idsAll bs hk)⟩)
    fun k hk hnot => ?_
  rw [hnode k hk, hparents k hk hnot]
  cases hdata : d.nodes[k]? with
  | none => rfl
  | some data =>
      rw [parent?_of_node hdata]
      rfl

/-- Inserting topmost nodes of the branches somewhere else. -/
theorem insertBefore (h : d.Strewn bs) (hp : d.contains p = true) (hnot : p ∉ idsAll bs)
    (hn : d.contains n = true) (hmoved : d.movedBy n ⊆ tops bs) (r : Option NodeId) :
    (d.insertBefore p n r).Strewn bs := by
  refine h.of_views (h.tied.insertBefore hp hn r) (fun k _ => carried_insertBefore d p n r k)
    (fun k hk => ?_) fun k _ htop => ?_
  · have hkp : k ≠ p := fun heq => hnot (heq ▸ hk)
    rw [h.tied.children_insertBefore hp, if_neg hkp]
    refine List.filter_eq_self.mpr fun c hc => decide_eq_true fun hmem => ?_
    exact h.intact.notMem_tops h.distinct hk hc (hmoved hmem)
  · rw [h.tied.parent?_insertBefore hn, if_neg fun hmem => htop (hmoved hmem)]

theorem gather (h : d.Strewn bs) {run : List NodeId} (hrun : run ⊆ tops bs) :
    (d.gather run).2.Strewn bs := by
  have hcreated := h.grow (h.tied.create .fragment) (extends_create d .fragment)
  have hf : d.size ∉ idsAll bs := fun hmem => Nat.lt_irrefl _ (h.intact.lt_size _ hmem)
  have hcontains : (d.create .fragment).2.contains d.size = true := decide_eq_true (by simp)
  have happend : ∀ (run : List NodeId) {d : Document} {f : NodeId}, d.Strewn bs →
      d.contains f = true → f ∉ idsAll bs → run ⊆ tops bs →
      (run.foldl (fun d n => d.append f n) d).Strewn bs := by
    intro run
    induction run with
    | nil => exact fun h _ _ _ => h
    | cons t run ih =>
        intro d f hd hf hnot hrun
        obtain ⟨ht, hrun⟩ := List.cons_subset.mp hrun
        have hinsertable := hd.insertable ht
        have hmoved : d.movedBy t ⊆ tops bs := by
          rw [hinsertable.movedBy]
          exact List.cons_subset.mpr ⟨ht, List.nil_subset _⟩
        refine ih (hd.insertBefore hf hnot hinsertable.contains hmoved none) ?_ hnot hrun
        unfold Document.append contains
        rwa [size_insertBefore]
  exact happend run hcreated hcontains hf hrun

end Strewn

/-! ## What nobody has changed -/

/-- Nothing in or under some nodes has changed, but for where the nodes themselves stand. -/
structure SameUnder (nodes : List NodeId) (d d' : Document) : Prop where
  self : ∀ z ∈ nodes, ∃ q, d'.nodes[z]? =
    (d.nodes[z]?).map fun data => { data with parent := q }
  below : ∀ z ∈ nodes, ∀ k, d.Within k z → k ∉ nodes → d'.nodes[k]? = d.nodes[k]?

theorem SameUnder.refl (nodes : List NodeId) (d : Document) : SameUnder nodes d d where
  self z _ := by
    refine ⟨d.parent? z, ?_⟩
    cases hdata : d.nodes[z]? with
    | none => rfl
    | some data =>
        rw [parent?_of_node hdata]
        rfl
  below _ _ _ _ _ := rfl

theorem Strewn.same (h : d.Strewn bs) (hd : d'.Tied) (hsame : SameUnder (tops bs) d d') :
    d'.Strewn bs := by
  refine h.moved hd hsame.self fun k hk hnot => ?_
  obtain ⟨t, ht, hwithin⟩ := h.intact.within hk
  exact hsame.below t ht k hwithin hnot

theorem Grows.node_eq (h : d.Grows parent bs) (h' : d'.Grows parent bs) (hk : k ∈ idsAll bs) :
    d'.nodes[k]? = d.nodes[k]? := by
  induction bs using Branch.forestInduction generalizing parent with
  | nil => cases hk
  | cons n kind attributes properties under rest ihUnder ihRest =>
      obtain ⟨⟨hnode, hunder⟩, hrest⟩ := h
      obtain ⟨⟨hnode', hunder'⟩, hrest'⟩ := h'
      simp only [Branch.idsAll_cons, Branch.ids_node, List.cons_append, List.mem_cons,
        List.mem_append] at hk
      rcases hk with rfl | hk | hk
      · exact hnode'.trans hnode.symm
      · exact ihUnder hunder hunder' hk
      · exact ihRest hrest hrest' hk

/-- Strewn twice, branches differ in where they stand only. -/
theorem Strewn.sameUnder (h : d.Strewn bs) (h' : d'.Strewn bs) : SameUnder (tops bs) d d' where
  self z hz := by
    obtain ⟨b, hb, rfl⟩ := List.mem_map.mp hz
    obtain ⟨n, kind, attributes, properties, under⟩ := b
    obtain ⟨q, hnode, -⟩ := h.intact _ hb
    obtain ⟨q', hnode', -⟩ := h'.intact _ hb
    refine ⟨q', ?_⟩
    rw [Branch.id_node, hnode, hnode']
    rfl
  below z hz k hk hnot := by
    obtain ⟨b, hb, hids⟩ := Branch.mem_idsAll.mp
      (h.mem_of_within (Branch.tops_subset_idsAll bs hz) hk)
    obtain ⟨n, kind, attributes, properties, under⟩ := b
    obtain ⟨q, -, hunder⟩ := h.intact _ hb
    obtain ⟨q', -, hunder'⟩ := h'.intact _ hb
    rcases List.mem_cons.mp hids with rfl | hids
    · exact absurd (List.mem_map.mpr ⟨_, hb, rfl⟩) hnot
    · exact hunder.node_eq hunder' hids

end Document

end LiveMarkup
