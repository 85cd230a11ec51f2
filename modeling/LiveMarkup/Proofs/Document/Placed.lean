import LiveMarkup.Proofs.Document.Moves

/-!
# Branches in their place

Branches are placed if they are a run of the children of a parent, with
nothing in common with what stands before and behind them. An edit of them may
change their own nodes, create new ones and put other children into their run;
whatever else was in the document stays as it was. An edit of a part is an
edit of the whole (`Placed.unfocus`, `Placed.ascend`), so that a program that
walks down a tree is followed one part at a time.
-/

namespace LiveMarkup.Document

open Branch (idsAll tops)

variable {d d' d'' : Document} {p n : NodeId}

/-- Branches between what stands before and behind them under a parent. -/
structure Placed (d : Document) (p : NodeId) (before : List NodeId) (bs : List Branch)
    (behind : List NodeId) : Prop where
  node : ∃ data, d.nodes[p]? = some data ∧ data.children = before ++ tops bs ++ behind
  grows : d.Grows (some p) bs
  distinct : (p :: idsAll bs).Nodup
  around : (before ++ behind).Nodup
  apart : ∀ k ∈ before ++ behind, k < d.size ∧ k ∉ idsAll bs

/-- A change that touches only the children of a parent and some nodes below
it; afterwards only those nodes and new ones stand there. -/
structure Edit (d d' : Document) (p : NodeId) (old new : List NodeId) : Prop where
  size_le : d.size ≤ d'.size
  same : ∀ k, k < d.size → k ≠ p → k ∉ old → d'.nodes[k]? = d.nodes[k]?
  parent : d'.nodes[p]? =
    (d.nodes[p]?).map fun data => { data with children := d'.children p }
  fresh : ∀ k ∈ new, k ∈ old ∨ d.size ≤ k

theorem Edit.refl (d : Document) (p : NodeId) (ids : List NodeId) : Edit d d p ids ids where
  size_le := Nat.le_refl _
  same := fun _ _ _ _ => rfl
  parent := by
    cases h : d.nodes[p]? with
    | none => rfl
    | some data => simp [children_of_node h]
  fresh := fun _ hk => Or.inl hk

theorem Edit.trans {old mid new : List NodeId} (h : Edit d d' p old mid)
    (h' : Edit d' d'' p mid new) : Edit d d'' p old new where
  size_le := Nat.le_trans h.size_le h'.size_le
  same := by
    intro k hk hkp hold
    have hmid : k ∉ mid := by
      intro hmem
      rcases h.fresh k hmem with hmem | hle
      · exact hold hmem
      · omega
    rw [h'.same k (Nat.lt_of_lt_of_le hk h.size_le) hkp hmid, h.same k hk hkp hold]
  parent := by
    rw [h'.parent, h.parent, Option.map_map]
    rfl
  fresh := by
    intro k hk
    rcases h'.fresh k hk with hmid | hle
    · exact h.fresh k hmid
    · exact Or.inr (Nat.le_trans h.size_le hle)

theorem Edit.parent?_eq {old new : List NodeId} {k : NodeId} (h : Edit d d' p old new)
    (hk : k < d.size) (hnot : k ∉ old) : d'.parent? k = d.parent? k := by
  unfold parent?
  by_cases hkp : k = p
  · rw [hkp, h.parent]
    cases d.nodes[p]? <;> rfl
  · rw [h.same k hk hkp hnot]

namespace Placed

variable {before behind : List NodeId} {xs ys zs bs : List Branch}

theorem children (h : d.Placed p before bs behind) :
    d.children p = before ++ tops bs ++ behind := by
  obtain ⟨data, hnode, hchildren⟩ := h.node
  rw [children_of_node hnode, hchildren]

theorem children_eq_tops (h : d.Placed p [] bs []) : d.children p = tops bs := by
  simpa using h.children

theorem lt_size (h : d.Placed p before bs behind) : p < d.size := by
  obtain ⟨data, hnode, -⟩ := h.node
  exact lt_size_of_node hnode

theorem ids_lt_size (h : d.Placed p before bs behind) : ∀ k ∈ idsAll bs, k < d.size :=
  h.grows.lt_size

theorem all_lt_size (h : d.Placed p before bs behind) : ∀ k ∈ p :: idsAll bs, k < d.size := by
  intro k hk
  rcases List.mem_cons.mp hk with rfl | hk
  · exact h.lt_size
  · exact h.ids_lt_size k hk

theorem ids_nodup (h : d.Placed p before bs behind) : (idsAll bs).Nodup :=
  (List.nodup_cons.mp h.distinct).2

theorem parent_notMem (h : d.Placed p before bs behind) : p ∉ idsAll bs :=
  (List.nodup_cons.mp h.distinct).1

theorem children_nodup (h : d.Placed p before bs behind) :
    (before ++ tops bs ++ behind).Nodup := by
  have htops := Branch.tops_nodup h.ids_nodup
  have hapart : ∀ k ∈ before ++ behind, k ∉ tops bs := fun k hk hmem =>
    (h.apart k hk).2 (Branch.tops_subset_idsAll bs hmem)
  have haround := List.nodup_append.mp h.around
  rw [List.append_assoc, List.nodup_append, List.nodup_append]
  refine ⟨haround.1, ⟨htops, haround.2.1, ?_⟩, ?_⟩
  · rintro a ha b hb rfl
    exact hapart a (List.mem_append_right _ hb) ha
  · rintro a ha b hb rfl
    rcases List.mem_append.mp hb with hb | hb
    · exact hapart a (List.mem_append_left _ ha) hb
    · exact haround.2.2 a ha a hb rfl

theorem unchanged (h : d.Placed p [] bs [])
    (hsame : ∀ k ∈ p :: idsAll bs, d'.nodes[k]? = d.nodes[k]?) : d'.Placed p [] bs [] where
  node := by
    obtain ⟨data, hnode, hchildren⟩ := h.node
    exact ⟨data, (hsame p List.mem_cons_self).trans hnode, hchildren⟩
  grows := h.grows.frame fun k hk => hsame k (List.mem_cons_of_mem p hk)
  distinct := h.distinct
  around := by simp
  apart := by simp

theorem focus (h : d.Placed p before (xs ++ ys ++ zs) behind) :
    d.Placed p (before ++ tops xs) ys (tops zs ++ behind) where
  node := by
    obtain ⟨data, hnode, hchildren⟩ := h.node
    exact ⟨data, hnode, by simpa using hchildren⟩
  grows := by
    have := h.grows
    simp only [grows_append] at this
    exact this.1.2
  distinct := by
    refine h.distinct.sublist (List.Sublist.cons_cons p ?_)
    simp only [Branch.idsAll_append]
    exact (List.sublist_append_right _ _).trans (List.sublist_append_left _ _)
  around := by
    refine h.children_nodup.sublist ?_
    simp only [Branch.tops_append, List.append_assoc, List.append_sublist_append_left]
    exact List.sublist_append_right _ _
  apart := by
    intro k hk
    obtain ⟨hx, hz, -⟩ := Branch.runs_apart h.ids_nodup
    simp only [List.mem_append] at hk
    rcases hk with (hk | hk) | hk | hk
    · have := h.apart k (List.mem_append_left _ hk)
      exact ⟨this.1, fun hy => this.2 (by simp [hy])⟩
    · have hmem := Branch.tops_subset_idsAll xs hk
      exact ⟨h.ids_lt_size k (by simp [hmem]), hx k hmem⟩
    · have hmem := Branch.tops_subset_idsAll zs hk
      exact ⟨h.ids_lt_size k (by simp [hmem]), hz k hmem⟩
    · have := h.apart k (List.mem_append_right _ hk)
      exact ⟨this.1, fun hy => this.2 (by simp [hy])⟩

theorem unfocus {ys' : List Branch} (h : d.Placed p before (xs ++ ys ++ zs) behind)
    (h' : d'.Placed p (before ++ tops xs) ys' (tops zs ++ behind))
    (he : Edit d d' p (idsAll ys) (idsAll ys')) :
    d'.Placed p before (xs ++ ys' ++ zs) behind ∧
      Edit d d' p (idsAll (xs ++ ys ++ zs)) (idsAll (xs ++ ys' ++ zs)) := by
  have hids : (idsAll xs ++ (idsAll ys ++ idsAll zs)).Nodup := by
    simpa using h.ids_nodup
  have hlt : ∀ k ∈ idsAll xs ++ (idsAll ys ++ idsAll zs), k < d.size := by
    simpa using h.ids_lt_size
  have hp : p ∉ idsAll xs ++ (idsAll ys ++ idsAll zs) := by simpa using h.parent_notMem
  obtain ⟨hxy, hzy, hxz⟩ := Branch.runs_apart h.ids_nodup
  have hnew : ∀ k ∈ idsAll ys', k ∉ idsAll ys → d.size ≤ k := fun k hk hnot =>
    (he.fresh k hk).resolve_left hnot
  have hgx : d'.Grows (some p) xs := by
    have hg := h.grows
    simp only [grows_append] at hg
    refine hg.1.1.frame fun k hk => he.same k (hlt k (by simp [hk])) ?_ (hxy k hk)
    exact fun heq => hp (heq ▸ by simp [hk])
  have hgz : d'.Grows (some p) zs := by
    have hg := h.grows
    simp only [grows_append] at hg
    refine hg.2.frame fun k hk => he.same k (hlt k (by simp [hk])) ?_ (hzy k hk)
    exact fun heq => hp (heq ▸ by simp [hk])
  have hx' : ∀ k ∈ idsAll xs, k ∉ idsAll ys' := fun k hx hy =>
    Nat.not_lt.mpr (hnew k hy (hxy k hx)) (hlt k (by simp [hx]))
  have hz' : ∀ k ∈ idsAll zs, k ∉ idsAll ys' := fun k hz hy =>
    Nat.not_lt.mpr (hnew k hy (hzy k hz)) (hlt k (by simp [hz]))
  refine ⟨⟨?_, ?_, ?_, h.around, ?_⟩, he.size_le, ?_, he.parent, ?_⟩
  · obtain ⟨data, hnode, hchildren⟩ := h'.node
    exact ⟨data, hnode, by simpa using hchildren⟩
  · simp only [grows_append]
    exact ⟨⟨hgx, h'.grows⟩, hgz⟩
  · have hids' := h'.ids_nodup
    have hp' := h'.parent_notMem
    simp only [List.mem_append, not_or] at hp
    simp only [Branch.idsAll_append, List.nodup_cons, List.mem_append, not_or,
      List.nodup_append, List.append_assoc]
    have hparts := List.nodup_append.mp hids
    refine ⟨⟨hp.1, hp', hp.2.2⟩, hparts.1, ⟨hids', (List.nodup_append.mp hparts.2.1).2.1, ?_⟩, ?_⟩
    · rintro a ha b hb rfl
      exact hz' a hb ha
    · rintro a ha b hb rfl
      rcases hb with hb | hb
      · exact hx' a ha hb
      · exact hxz a ha hb
  · intro k hk
    have hold := h.apart k hk
    refine ⟨Nat.lt_of_lt_of_le hold.1 he.size_le, fun hmem => ?_⟩
    simp only [Branch.idsAll_append, List.mem_append, not_or] at hold hmem
    rcases hmem with (hmem | hmem) | hmem
    · exact hold.2.1.1 hmem
    · exact Nat.not_lt.mpr (hnew k hmem hold.2.1.2) hold.1
    · exact hold.2.2 hmem
  · intro k hk hkp hnot
    simp only [Branch.idsAll_append, List.mem_append, not_or] at hnot
    exact he.same k hk hkp hnot.1.2
  · intro k hk
    simp only [Branch.idsAll_append, List.mem_append] at hk ⊢
    rcases hk with (hk | hk) | hk
    · exact Or.inl (Or.inl (Or.inl hk))
    · rcases he.fresh k hk with hk | hk
      · exact Or.inl (Or.inl (Or.inr hk))
      · exact Or.inr hk
    · exact Or.inl (Or.inr hk)

theorem focusFirst {b : Branch} (h : d.Placed p before (b :: bs) behind) :
    d.Placed p before [b] (tops bs ++ behind) := by
  have h' : d.Placed p before ([] ++ [b] ++ bs) behind := h
  simpa using h'.focus

theorem focusRest {b : Branch} (h : d.Placed p before (b :: bs) behind) :
    d.Placed p (before ++ [b.id]) bs behind := by
  have h' : d.Placed p before ([b] ++ bs ++ []) behind := by simpa using h
  simpa using h'.focus

theorem unfocusFirst {b : Branch} {bs' : List Branch}
    (h : d.Placed p before (b :: bs) behind) (h' : d'.Placed p before bs' (tops bs ++ behind))
    (he : Edit d d' p (idsAll [b]) (idsAll bs')) :
    d'.Placed p before (bs' ++ bs) behind ∧
      Edit d d' p (idsAll (b :: bs)) (idsAll (bs' ++ bs)) := by
  have hall : d.Placed p before ([] ++ [b] ++ bs) behind := h
  have hpart : d'.Placed p (before ++ tops []) bs' (tops bs ++ behind) := by simpa using h'
  exact hall.unfocus hpart he

theorem unfocusRest {b : Branch} {bs' : List Branch}
    (h : d.Placed p before (b :: bs) behind) (h' : d'.Placed p (before ++ [b.id]) bs' behind)
    (he : Edit d d' p (idsAll bs) (idsAll bs')) :
    d'.Placed p before (b :: bs') behind ∧
      Edit d d' p (idsAll (b :: bs)) (idsAll (b :: bs')) := by
  have hall : d.Placed p before ([b] ++ bs ++ []) behind := by simpa using h
  have hpart : d'.Placed p (before ++ tops [b]) bs' (tops [] ++ behind) := by simpa using h'
  simpa using hall.unfocus hpart he

theorem focusHead (h : d.Placed p before (xs ++ ys) behind) :
    d.Placed p before xs (tops ys ++ behind) := by
  have h' : d.Placed p before ([] ++ xs ++ ys) behind := by simpa using h
  simpa using h'.focus

theorem focusTail (h : d.Placed p before (xs ++ ys) behind) :
    d.Placed p (before ++ tops xs) ys behind := by
  have h' : d.Placed p before (xs ++ ys ++ []) behind := by simpa using h
  simpa using h'.focus

theorem unfocusHead {xs' : List Branch} (h : d.Placed p before (xs ++ ys) behind)
    (h' : d'.Placed p before xs' (tops ys ++ behind))
    (he : Edit d d' p (idsAll xs) (idsAll xs')) :
    d'.Placed p before (xs' ++ ys) behind ∧
      Edit d d' p (idsAll (xs ++ ys)) (idsAll (xs' ++ ys)) := by
  have hall : d.Placed p before ([] ++ xs ++ ys) behind := by simpa using h
  have hpart : d'.Placed p (before ++ tops []) xs' (tops ys ++ behind) := by simpa using h'
  simpa using hall.unfocus hpart he

theorem unfocusTail {ys' : List Branch} (h : d.Placed p before (xs ++ ys) behind)
    (h' : d'.Placed p (before ++ tops xs) ys' behind)
    (he : Edit d d' p (idsAll ys) (idsAll ys')) :
    d'.Placed p before (xs ++ ys') behind ∧
      Edit d d' p (idsAll (xs ++ ys)) (idsAll (xs ++ ys')) := by
  have hall : d.Placed p before (xs ++ ys ++ []) behind := by simpa using h
  have hpart : d'.Placed p (before ++ tops xs) ys' (tops [] ++ behind) := by simpa using h'
  simpa using hall.unfocus hpart he

variable {kind kind' : NodeKind} {attributes attributes' : Attributes}
  {properties properties' : Properties} {under under' : List Branch}

theorem descend
    (h : d.Placed p before [.node n kind attributes properties under] behind) :
    d.Placed n [] under [] where
  node := ⟨_, h.grows.1.1, by simp [tops]⟩
  grows := h.grows.1.2
  distinct := by simpa using h.ids_nodup
  around := by simp
  apart := by simp

/-- What stands under a placed node is still placed there when that node's own
data has changed. -/
theorem descendChanged
    (h : d.Placed p before [.node n kind attributes properties under] behind)
    (hnode : d'.nodes[n]? = some ⟨kind', some p, tops under, attributes', properties'⟩)
    (hsame : ∀ k, k ≠ n → d'.nodes[k]? = d.nodes[k]?) :
    d'.Placed n [] under [] where
  node := ⟨_, hnode, by simp⟩
  grows := h.descend.grows.frame fun k hk =>
    hsame k fun heq => h.descend.parent_notMem (heq ▸ hk)
  distinct := h.descend.distinct
  around := by simp
  apart := by simp

theorem ascend
    (h : d.Placed p before [.node n kind attributes properties under] behind)
    (hnode : d'.nodes[n]? =
      some ⟨kind', some p, tops under', attributes', properties'⟩)
    (h' : d'.Placed n [] under' []) (hsize : d.size ≤ d'.size)
    (hsame : ∀ k, k < d.size → k ≠ n → k ∉ idsAll under → d'.nodes[k]? = d.nodes[k]?)
    (hfresh : ∀ k ∈ idsAll under', k ∈ idsAll under ∨ d.size ≤ k) :
    d'.Placed p before [.node n kind' attributes' properties' under'] behind ∧
      Edit d d' p (idsAll [.node n kind attributes properties under])
        (idsAll [.node n kind' attributes' properties' under']) := by
  have hp := h.parent_notMem
  simp only [Branch.idsAll_cons, Branch.ids_node, Branch.idsAll_nil, List.append_nil,
    List.mem_cons, not_or] at hp
  have hpsame : d'.nodes[p]? = d.nodes[p]? := hsame p h.lt_size hp.1 hp.2
  -- what is new under the node is new in the document, so it is nowhere else
  have hnew : ∀ k, k < d.size → k ∉ n :: idsAll under → k ∉ n :: idsAll under' := by
    intro k hk hnot hmem
    rcases List.mem_cons.mp hmem with rfl | hmem
    · exact hnot List.mem_cons_self
    · rcases hfresh k hmem with hold | hle
      · exact hnot (List.mem_cons_of_mem n hold)
      · omega
  refine ⟨⟨?_, ⟨⟨hnode, h'.grows⟩, trivial⟩, ?_, h.around, ?_⟩, hsize, ?_, ?_, ?_⟩
  · obtain ⟨data, hdata, hchildren⟩ := h.node
    exact ⟨data, by rw [hpsame, hdata], by simpa using hchildren⟩
  · have := hnew p h.lt_size (by simpa using hp)
    simp only [Branch.idsAll_cons, Branch.ids_node, Branch.idsAll_nil, List.append_nil]
    exact List.nodup_cons.mpr ⟨this, h'.distinct⟩
  · intro k hk
    obtain ⟨hlt, hnot⟩ := h.apart k hk
    refine ⟨Nat.lt_of_lt_of_le hlt hsize, ?_⟩
    simpa using hnew k hlt (by simpa using hnot)
  · intro k hk _ hnot
    simp only [Branch.idsAll_cons, Branch.ids_node, Branch.idsAll_nil, List.append_nil,
      List.mem_cons, not_or] at hnot
    exact hsame k hk hnot.1 hnot.2
  · rw [hpsame]
    cases hdata : d.nodes[p]? with
    | none => rfl
    | some data =>
        have : d'.nodes[p]? = some data := by rw [hpsame, hdata]
        simp [children_of_node this]
  · intro k hk
    simp only [Branch.idsAll_cons, Branch.ids_node, Branch.idsAll_nil, List.append_nil,
      List.mem_cons] at hk ⊢
    rcases hk with hk | hk
    · exact Or.inl (Or.inl hk)
    · rcases hfresh k hk with hk | hk
      · exact Or.inl (Or.inr hk)
      · exact Or.inr hk

/-- A change of the first node's own data, followed by an edit of what stands
under it, is an edit of the whole. -/
theorem editFirst
    (h : d.Placed p before (.node n kind attributes properties under :: zs) behind)
    (hnode : d'.nodes[n]? = some ⟨kind', some p, tops under, attributes', properties'⟩)
    (hothers : ∀ k, k ≠ n → d'.nodes[k]? = d.nodes[k]?) (hsize : d'.size = d.size)
    (h' : d''.Placed n [] under' []) (he : Edit d' d'' n (idsAll under) (idsAll under')) :
    d''.Placed p before (.node n kind' attributes' properties' under' :: zs) behind ∧
      Edit d d'' p (idsAll (.node n kind attributes properties under :: zs))
        (idsAll (.node n kind' attributes' properties' under' :: zs)) := by
  have hself : d''.nodes[n]? =
      some ⟨kind', some p, tops under', attributes', properties'⟩ := by
    have hparent := he.parent
    rw [hnode, h'.children] at hparent
    simpa using hparent
  obtain ⟨hone, heone⟩ := h.focusFirst.ascend hself h' (hsize ▸ he.size_le)
    (fun k hk hkn hnot => (he.same k (hsize ▸ hk) hkn hnot).trans (hothers k hkn))
    (fun k hk => hsize ▸ he.fresh k hk)
  exact h.unfocusFirst hone heone

end Placed

end LiveMarkup.Document
