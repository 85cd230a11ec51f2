import LiveMarkup.Proofs.Document.Neighbours
import LiveMarkup.Proofs.Document.Runs
import LiveMarkup.Proofs.Document.Traversals

/-!
# Subtrees as branches

In a linked document every run of children is a run of branches in its place,
made of exactly the nodes that stand in or under the run.
-/

namespace LiveMarkup.Document

open Branch (idsAll tops)

variable {d d' : Document} {parent : Option NodeId} {p n c k t : NodeId} {bs : List Branch}

/-! ## In and under branches -/

theorem Grows.within (h : d.Grows parent bs) (hk : k ∈ idsAll bs) :
    ∃ t ∈ tops bs, d.Within k t := by
  induction bs using Branch.forestInduction generalizing parent with
  | nil => cases hk
  | cons n kind attributes properties under rest ihUnder ihRest =>
      obtain ⟨⟨hnode, hunder⟩, hrest⟩ := h
      simp only [Branch.idsAll_cons, Branch.ids_node, List.cons_append, List.mem_cons,
        List.mem_append] at hk
      rcases hk with rfl | hk | hk
      · exact ⟨k, List.mem_cons_self, .refl⟩
      · obtain ⟨t, ht, hwithin⟩ := ihUnder hunder hk
        obtain ⟨data, htop, hparent⟩ := hunder.parent_top ht
        have hup : d.Under t n := (parent?_of_node htop).trans hparent
        exact ⟨n, List.mem_cons_self, hwithin.tail hup⟩
      · obtain ⟨t, ht, hwithin⟩ := ihRest hrest hk
        exact ⟨t, List.mem_cons_of_mem n ht, hwithin⟩

theorem Grows.mem_of_mem_children (h : d.Grows parent bs) (hn : n ∈ idsAll bs)
    (hc : c ∈ d.children n) : c ∈ idsAll bs := by
  induction bs using Branch.forestInduction generalizing parent with
  | nil => cases hn
  | cons m kind attributes properties under rest ihUnder ihRest =>
      obtain ⟨⟨hnode, hunder⟩, hrest⟩ := h
      simp only [Branch.idsAll_cons, Branch.ids_node, List.cons_append, List.mem_cons,
        List.mem_append] at hn ⊢
      rcases hn with rfl | hn | hn
      · rw [children_of_node hnode] at hc
        exact .inr (.inl (Branch.tops_subset_idsAll under hc))
      · exact .inr (.inl (ihUnder hunder hn))
      · exact .inr (.inr (ihRest hrest hn))

/-- Branches of which each stands somewhere, or nowhere. -/
def Intact (d : Document) (bs : List Branch) : Prop :=
  ∀ b ∈ bs, ∃ parent, d.GrowsOne parent b

theorem Grows.intact (h : d.Grows parent bs) : d.Intact bs := by
  induction bs with
  | nil => nofun
  | cons b bs ih =>
      intro b' hb'
      rcases List.mem_cons.mp hb' with rfl | hb'
      · exact ⟨parent, h.1⟩
      · exact ih h.2 b' hb'

/-! ## Branches of a linked document -/

theorem Linked.eq_of_within (h : d.Linked) (hn : d.Under n p) (ht : d.Under t p)
    (hnt : d.Within n t) : n = t := by
  rcases hnt.cases_head with heq | ⟨q, hq, hqt⟩
  · exact heq
  · -- the way up from the one goes through the parent, and so back to it from the other
    have hpq : q = p := Option.some.inj (hq.symm.trans hn)
    rw [hpq] at hqt
    have hcycle : Relation.TransGen d.Under p p := .tail' hqt ht
    exact absurd hcycle (h.acyclic p)

theorem Linked.eq_of_within_both (h : d.Linked) (hn : d.Under n p) (ht : d.Under t p)
    (hkn : d.Within k n) (hkt : d.Within k t) : n = t := by
  have hunique : Relator.RightUnique d.Under := fun a b c hb hc =>
    Option.some.inj (hb.symm.trans hc)
  rcases Relation.ReflTransGen.total_of_right_unique hunique hkn hkt with hnt | htn
  · exact h.eq_of_within hn ht hnt
  · exact (h.eq_of_within ht hn htn).symm

theorem exists_grows_of_each {run : List NodeId}
    (h : ∀ n ∈ run, ∃ b, b.id = n ∧ d.GrowsOne parent b) :
    ∃ bs, tops bs = run ∧ d.Grows parent bs := by
  induction run with
  | nil => exact ⟨[], rfl, trivial⟩
  | cons n run ih =>
      obtain ⟨b, hid, hb⟩ := h n List.mem_cons_self
      obtain ⟨bs, htops, hbs⟩ := ih fun m hm => h m (List.mem_cons_of_mem n hm)
      exact ⟨b :: bs, by rw [Branch.tops_cons, hid, htops], hb, hbs⟩

theorem Linked.exists_growsOne (h : d.Linked) (hn : d.contains n = true) :
    ∃ b, b.id = n ∧ d.GrowsOne (d.parent? n) b := by
  induction n using h.childInduction with
  | step n ih =>
      have hbelow : ∀ c ∈ d.children n, ∃ b, b.id = c ∧ d.GrowsOne (some n) b := by
        intro c hc
        have hunder : d.parent? c = some n := (h.agree n c).mpr hc
        obtain ⟨b, hid, hb⟩ := ih c hc (contains_of_parent? hunder)
        rw [hunder] at hb
        exact ⟨b, hid, hb⟩
      obtain ⟨under, htops, hunder⟩ := exists_grows_of_each hbelow
      obtain ⟨⟨kind, parent, children, attributes, properties⟩, hdata⟩ := exists_node hn
      refine ⟨.node n kind attributes properties under, rfl, ?_, hunder⟩
      rw [hdata, parent?_of_node hdata]
      show some (NodeData.mk kind parent children attributes properties) =
        some ⟨kind, parent, tops under, attributes, properties⟩
      rw [htops, children_of_node hdata]

theorem Linked.nodup_of_grows (h : d.Linked) (hbs : d.Grows (some p) bs)
    (htops : (tops bs).Nodup) : (p :: idsAll bs).Nodup := by
  induction bs using Branch.forestInduction generalizing p with
  | nil => simp
  | cons n kind attributes properties under rest ihUnder ihRest =>
      have hall := hbs
      obtain ⟨⟨hnode, hunder⟩, hrest⟩ := hbs
      obtain ⟨hn, htops⟩ := List.nodup_cons.mp htops
      have hchildren : (tops under).Nodup := by
        have hnodup := h.nodup n
        rwa [children_of_node hnode] at hnodup
      have hself := ihUnder hunder hchildren
      have hothers := ihRest hrest htops
      -- all topmost nodes stand under the parent, so none of them is above another one
      have hup : ∀ t ∈ n :: tops rest, d.Under t p := by
        intro t ht
        obtain ⟨data, htop, hparent⟩ := hall.parent_top (n := t) ht
        exact (parent?_of_node htop).trans hparent
      have hbranch : d.Grows (some p) [.node n kind attributes properties under] :=
        ⟨⟨hnode, hunder⟩, trivial⟩
      have hwithin : ∀ k ∈ n :: idsAll under, d.Within k n := by
        intro k hk
        obtain ⟨t, ht, hkt⟩ := hbranch.within (k := k) (by simpa using hk)
        rwa [List.mem_singleton.mp ht] at hkt
      have happ : (n :: idsAll under ++ p :: idsAll rest).Nodup := by
        refine List.nodup_append.mpr ⟨hself, hothers, ?_⟩
        rintro k hk k' hk' rfl
        rcases List.mem_cons.mp hk' with rfl | hk'
        · exact h.acyclic k (.tail' (hwithin k hk) (hup n List.mem_cons_self))
        · obtain ⟨t, ht, hkt⟩ := hrest.within hk'
          refine hn ?_
          rwa [h.eq_of_within_both (hup n List.mem_cons_self)
            (hup t (List.mem_cons_of_mem n ht)) (hwithin k hk) hkt]
      have hperm : (p :: (n :: idsAll under ++ idsAll rest)).Perm
          (n :: idsAll under ++ p :: idsAll rest) := List.perm_middle.symm
      exact hperm.nodup_iff.mpr happ

theorem Linked.placed_of_grows (h : d.Linked) {before behind : List NodeId}
    (hp : d.contains p = true) (hchildren : d.children p = before ++ tops bs ++ behind)
    (hbs : d.Grows (some p) bs) : d.Placed p before bs behind := by
  have hnodup := h.nodup p
  rw [hchildren] at hnodup
  have htops : (tops bs).Nodup :=
    (List.nodup_append.mp (List.nodup_append.mp hnodup).1).2.1
  obtain ⟨data, hdata⟩ := exists_node hp
  refine ⟨⟨data, hdata, by rw [← children_of_node hdata, hchildren]⟩, hbs,
    h.nodup_of_grows hbs htops, ?_, ?_⟩
  · refine hnodup.sublist ?_
    rw [List.append_assoc]
    exact (List.sublist_append_right _ _).append_left _
  · intro k hk
    have hmem : k ∈ d.children p := by
      rw [hchildren]
      rcases List.mem_append.mp hk with hk | hk <;> simp [hk]
    have hup : d.Under k p := (h.agree p k).mpr hmem
    refine ⟨of_decide_eq_true (contains_of_parent? hup), fun hids => ?_⟩
    obtain ⟨t, ht, hkt⟩ := hbs.within hids
    obtain ⟨tdata, htop, hparent⟩ := hbs.parent_top ht
    have hsame : k = t := h.eq_of_within hup ((parent?_of_node htop).trans hparent) hkt
    subst hsame
    have hperm : (before ++ tops bs ++ behind).Perm (tops bs ++ (before ++ behind)) := by
      rw [List.append_assoc]
      exact List.perm_append_comm_assoc _ _ _
    exact (List.nodup_append.mp (hperm.nodup_iff.mp hnodup)).2.2 k ht k hk rfl

theorem Linked.placed (h : d.Linked) {before run behind : List NodeId}
    (hp : d.contains p = true) (hchildren : d.children p = before ++ run ++ behind) :
    ∃ bs, tops bs = run ∧ d.Placed p before bs behind := by
  have heach : ∀ n ∈ run, ∃ b, b.id = n ∧ d.GrowsOne (some p) b := by
    intro n hn
    have hunder : d.parent? n = some p := by
      refine (h.agree p n).mpr ?_
      rw [hchildren]
      simp [hn]
    have hone := h.exists_growsOne (contains_of_parent? hunder)
    rwa [hunder] at hone
  obtain ⟨bs, rfl, hbs⟩ := exists_grows_of_each heach
  exact ⟨bs, rfl, h.placed_of_grows hp hchildren hbs⟩

/-- What stands in or under a parent is the parent and the nodes of its branches. -/
theorem Placed.within_iff (h : d.Placed p [] bs []) (hd : d.Tied) :
    d.Within k p ↔ k ∈ p :: idsAll bs := by
  constructor
  · intro hk
    induction hk using Relation.ReflTransGen.head_induction_on with
    | refl => exact List.mem_cons_self
    | @head a c hunder _ ih =>
        have hchild := (hd.agree _ _).mp hunder
        rcases List.mem_cons.mp ih with rfl | ih
        · rw [h.children, List.nil_append, List.append_nil] at hchild
          exact List.mem_cons_of_mem _ (Branch.tops_subset_idsAll bs hchild)
        · exact List.mem_cons_of_mem _ (h.grows.mem_of_mem_children ih hchild)
  · intro hk
    rcases List.mem_cons.mp hk with rfl | hk
    · exact .refl
    · obtain ⟨t, ht, hkt⟩ := h.grows.within hk
      obtain ⟨data, htop, hparent⟩ := h.grows.parent_top ht
      exact hkt.tail ((parent?_of_node htop).trans hparent)

end LiveMarkup.Document
