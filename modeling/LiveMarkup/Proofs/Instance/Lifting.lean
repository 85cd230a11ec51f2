import LiveMarkup.Proofs.Instance.Coherence
import LiveMarkup.Proofs.Instance.Opening

/-!
# Gathering takes what stands there

Whatever values shared instances were given, gathering one of them takes exactly
the nodes that stand from its first one to its last one, if all shared instances
in between are still where they were put. A list that shows shared instances
remembers nodes and not instances: what such an instance shows later is left
behind.
-/

namespace LiveMarkup

variable {pool : SharedInstances} {d d' : Document} {seat : Seating} {links : List Link}
  {m n : NodeId} {t k id : InstanceId}

/-! ## Regions inside an instance -/

mutual

/-- The regions of an instance and of the instances that belong to them. -/
def Instance.allRegions : Instance → List Region
  | ⟨_, _, _, _, regions⟩ => Region.allRegions regions

def Region.allRegions : List Region → List Region
  | [] => []
  | ⟨path, placeholder, first, last, content⟩ :: rest =>
      ⟨path, placeholder, first, last, content⟩ :: (content.allRegions ++ Region.allRegions rest)

def Content.allRegions : Content → List Region
  | .own inner => inner.allRegions
  | .empty | .text _ _ | .shared _ | .nodes _ => []

end

mutual

theorem Instance.region_of_gap : (i : Instance) → .gap m t n ∈ i.links →
    ∃ r ∈ i.allRegions, r.first = m ∧ r.last = n ∧ r.content = .shared t
  | ⟨_, _, _, _, regions⟩, hk => by
      rw [Instance.links] at hk
      rw [Instance.allRegions]
      rcases List.mem_append.mp hk with hk | hk
      · exact absurd hk Link.gap_notMem_frame
      · exact Region.region_of_gap regions hk

theorem Region.region_of_gap : (regions : List Region) → .gap m t n ∈ Region.linksAll regions →
    ∃ r ∈ Region.allRegions regions, r.first = m ∧ r.last = n ∧ r.content = .shared t
  | ⟨path, placeholder, first, last, content⟩ :: rest, hk => by
      rw [Region.linksAll] at hk
      rw [Region.allRegions]
      rcases List.mem_append.mp hk with hk | hk
      · rcases Content.region_of_gap content hk with ⟨rfl, rfl, rfl⟩ | ⟨r, hr, hplace⟩
        · exact ⟨_, List.mem_cons_self, rfl, rfl, rfl⟩
        · exact ⟨r, List.mem_cons_of_mem _ (List.mem_append_left _ hr), hplace⟩
      · obtain ⟨r, hr, hplace⟩ := Region.region_of_gap rest hk
        exact ⟨r, List.mem_cons_of_mem _ (List.mem_append_right _ hr), hplace⟩

theorem Content.region_of_gap : (content : Content) → {first last : NodeId} →
    .gap m t n ∈ content.links first last →
    (first = m ∧ last = n ∧ content = .shared t) ∨
      ∃ r ∈ content.allRegions, r.first = m ∧ r.last = n ∧ r.content = .shared t
  | .empty, _, _, hk => absurd hk (Link.gap_notMem_around (w := []))
  | .text k _, _, _, hk => absurd hk (Link.gap_notMem_around (w := [k]))
  | .own inner, _, _, hk => by
      rw [Content.links] at hk
      rcases List.mem_append.mp hk with hk | hk
      · exact absurd hk Link.gap_notMem_around
      · exact .inr (Instance.region_of_gap inner hk)
  | .shared _, _, _, hk => by
      obtain ⟨rfl, rfl, rfl⟩ := Link.gap.inj (List.mem_singleton.mp hk)
      exact .inl ⟨rfl, rfl, rfl⟩
  | .nodes held, _, _, hk => by
      rw [Content.links] at hk
      rcases List.mem_append.mp hk with hk | hk
      · exact absurd hk Link.gap_notMem_around
      · exact absurd hk Link.gap_notMem_frame

end

mutual

theorem Instance.gap_of_region {r : Region} (hcontent : r.content = .shared t) : (i : Instance) →
    r ∈ i.allRegions → .gap r.first t r.last ∈ i.links
  | ⟨_, _, _, _, regions⟩, hr => by
      rw [Instance.allRegions] at hr
      rw [Instance.links]
      exact List.mem_append_right _ (Region.gap_of_region hcontent regions hr)

theorem Region.gap_of_region {r : Region} (hcontent : r.content = .shared t) :
    (regions : List Region) → r ∈ Region.allRegions regions →
      .gap r.first t r.last ∈ Region.linksAll regions
  | ⟨path, placeholder, first, last, content⟩ :: rest, hr => by
      rw [Region.allRegions] at hr
      rw [Region.linksAll]
      rcases List.mem_cons.mp hr with rfl | hr
      · obtain rfl : content = .shared t := hcontent
        exact List.mem_append_left _ List.mem_cons_self
      · rcases List.mem_append.mp hr with hr | hr
        · exact List.mem_append_left _ (Content.gap_of_region hcontent content first last hr)
        · exact List.mem_append_right _ (Region.gap_of_region hcontent rest hr)

theorem Content.gap_of_region {r : Region} (hcontent : r.content = .shared t) :
    (content : Content) → (first last : NodeId) → r ∈ content.allRegions →
      .gap r.first t r.last ∈ content.links first last
  | .own inner, _, _, hr => by
      rw [Content.allRegions] at hr
      rw [Content.links]
      exact List.mem_append_right _ (Instance.gap_of_region hcontent inner hr)

end

theorem SharedInstances.gap_of_region {j : Instance} {r : Region} (hj : j ∈ pool)
    (hr : r ∈ j.allRegions) (hcontent : r.content = .shared t) :
    .gap r.first t r.last ∈ pool.links := by
  obtain ⟨v, hv⟩ := List.mem_iff_getElem?.mp hj
  have hk : .gap r.first t r.last ∈ pool.linksAt v := by
    rw [linksAt_of_some hv]
    exact List.mem_append_right _ (j.gap_of_region hcontent hr)
  exact mem_links hk

/-- Whether a region that was given a shared instance still holds it. -/
def Region.isSettled (pool : SharedInstances) (d : Document) (r : Region) : Bool :=
  match r.content with
  | .shared t => r.holds (pool.span t) d
  | _ => true

theorem Standing.seat_of_holds (hs : Standing pool.tops d seat links) (hpool : pool.Sound)
    {r : Region} (hgap : .gap r.first t r.last ∈ links)
    (hholds : r.holds (pool.span t) d = true) : seat t = some r.first ∨ pool.tops t = [] := by
  by_cases hseat : seat t = some r.first
  · exact .inl hseat
  · refine .inr (List.head?_eq_none_iff.mp ?_)
    have hnothing : d.between r.first r.last = [] := by
      cases hparent : d.parent? r.first with
      | none => simp [Document.between, Document.siblingsAfter, hparent]
      | some p =>
          have hbeside := hs.joined (.apart hgap hseat) p (.inl ((hs.tied.agree p _).mp hparent))
          exact (hs.tied.between (w := []) hbeside).2.2
    rw [Region.holds, hnothing, hpool.head?_span] at hholds
    cases hhead : (pool.tops t).head? with
    | none => rfl
    | some h => simp [hhead] at hholds

/-! ## Lifting -/

/-- A run of siblings stands under a new fragment, in the same order, and nothing
else has changed its place. -/
structure Document.Lifts (d : Document) (p : NodeId) (run : List NodeId) (d' : Document)
    (fragment : NodeId) : Prop where
  unborn : d.contains fragment = false
  kind : d'.kind? fragment = some .fragment
  taken : d'.children fragment = run
  left : ∃ before behind, d.children p = before ++ (run ++ behind) ∧
    d'.children p = before ++ behind
  others : ∀ q, q ≠ p → q ≠ fragment → d'.children q = d.children q
  parents : ∀ c, d'.parent? c = if c ∈ run then some fragment else d.parent? c

theorem Document.Tied.lifts (hd : d.Tied) {p : NodeId} {run : List NodeId}
    (hrun : run <:+: d.children p) : d.Lifts p run (d.gather run).2 (d.gather run).1 := by
  have hexist : ∀ z ∈ run, d.Insertable z := fun z hz => hd.insertable (hrun.subset hz)
  obtain ⟨hfragment, happended⟩ := hd.gathered hexist
  have hunborn : d.contains d.size = false := decide_eq_false (Nat.lt_irrefl _)
  have hbare : d.children d.size = [] := List.eq_nil_iff_forall_not_mem.mpr fun c hc => by
    have hcontains := Document.contains_of_mem_children hc
    rw [hunborn] at hcontains
    cases hcontains
  obtain ⟨before, behind, hsplit⟩ := hrun
  rw [List.append_assoc] at hsplit
  have hnodup := hd.nodup p
  rw [← hsplit] at hnodup
  obtain ⟨-, hinner, hbefore⟩ := List.nodup_append.mp hnodup
  obtain ⟨hdistinct, -, hbehind⟩ := List.nodup_append.mp hinner
  have hchildren : ∀ q, (d.gather run).2.children q =
      (d.children q).filter (· ∉ run) ++ if q = d.size then run else [] := by
    intro q
    rw [happended.children, Document.children_create, hdistinct.dedup]
  rw [hfragment]
  refine ⟨hunborn, ?_, ?_, ⟨before, behind, hsplit.symm, ?_⟩, ?_, ?_⟩
  · rw [happended.kinds]
    exact Document.kind?_of_node (d.node_create_self .fragment)
  · rw [hchildren, hbare, if_pos rfl]
    rfl
  · -- only what is in the run is taken out, and nothing is put in
    have hnone : (if p = d.size then run else []) = [] := by
      split
      · rename_i heq
        rw [heq, hbare, List.append_eq_nil_iff, List.append_eq_nil_iff] at hsplit
        exact hsplit.2.1
      · rfl
    have hkeep : ∀ l : List NodeId, (∀ z ∈ l, z ∉ run) → l.filter (· ∉ run) = l := fun l hl =>
      List.filter_eq_self.mpr fun z hz => decide_eq_true (hl z hz)
    rw [hchildren, hnone, List.append_nil, ← hsplit, List.filter_append, List.filter_append,
      hkeep before fun z hz hmem => hbefore z hz z (List.mem_append_left _ hmem) rfl,
      hkeep behind fun z hz hmem => hbehind z hmem z hz rfl]
    simp
  · intro q hq hfresh
    rw [hchildren, if_neg hfresh, List.append_nil]
    refine List.filter_eq_self.mpr fun z hz => decide_eq_true fun hmem => hq ?_
    exact hd.parent_unique hz (hsplit ▸ List.mem_append_right _ (List.mem_append_left _ hmem))
  · intro c
    rw [happended.parents, Document.parent?_create]

/-! ## Exactness -/

namespace Stage

variable {s : Stage}

/-- Every shared instance whose place is among what is gathered with an instance
still sits there. -/
def Settled (s : Stage) (id : InstanceId) : Prop :=
  ∀ i ∈ s.shared, ∀ r ∈ i.allRegions, r.first ∈ s.shared.span id →
    r.isSettled s.shared s.document = true

instance (s : Stage) (id : InstanceId) : Decidable (s.Settled id) :=
  inferInstanceAs (Decidable (∀ i ∈ s.shared, ∀ r ∈ i.allRegions, r.first ∈ s.shared.span id →
    r.isSettled s.shared s.document = true))

theorem Settled.isChain (h : s.Settled id) (hsound : s.shared.Sound)
    (hs : Standing s.shared.tops s.document seat s.shared.links) :
    (s.shared.span id).IsChain (Joint seat s.shared.links) := by
  obtain ⟨w, hchain, -, -, -, hwhole⟩ :=
    hs.route hsound (k := id) fun _ => SharedInstances.LinkedIn.mem_links
  have hw : w = s.shared.span id := by
    refine hwhole fun {m t n} hlinked hm => ?_
    obtain ⟨v, -, hk⟩ := hlinked
    have hgap := SharedInstances.mem_links hk
    obtain ⟨q, hq⟩ : ∃ q, s.shared[v]? = some q :=
      ⟨_, List.getElem?_eq_getElem (SharedInstances.lt_length_of_mem_linksAt hk)⟩
    rw [SharedInstances.linksAt_of_some hq] at hk
    rcases List.mem_append.mp hk with hk | hk
    · exact absurd hk Link.gap_notMem_ends
    · obtain ⟨r, hr, rfl, rfl, hcontent⟩ := q.region_of_gap hk
      have hholds := h q (List.mem_of_getElem? hq) r hr hm
      rw [Region.isSettled, hcontent] at hholds
      exact hs.seat_of_holds hsound hgap hholds
  exact hw ▸ hchain

/-- The span of an instance that stands under one parent stands there in one run. -/
theorem Coherent.span_infix (h : s.Coherent) {i : Instance} {p : NodeId}
    (hi : s.shared[id]? = some i) (hstands : i.nodes.Sublist (s.document.children p))
    (hsettled : s.Settled id) : s.shared.span id <:+: s.document.children p := by
  obtain ⟨hsound, seat, hs⟩ := h
  have hchain := hsettled.isChain hsound hs
  have hhead := hsound.head?_span id
  rw [SharedInstances.tops_of_some hi] at hhead
  cases hfirst : (s.shared.span id).head? with
  | none =>
      rw [List.head?_eq_none_iff.mp hfirst]
      exact List.nil_infix
  | some x =>
      have hx : x ∈ s.document.children p :=
        hstands.subset (List.mem_of_head? (hhead.symm.trans hfirst))
      exact infix_of_isChain (hs.tied.nodup p) (hchain.imp fun _ _ hjoint => hs.joined hjoint p)
        (List.mem_of_head? hfirst) hx

theorem Coherent.between_eq (h : s.Coherent) {j : Instance} {r : Region} (hj : j ∈ s.shared)
    (hr : r ∈ j.allRegions) (hcontent : r.content = .shared id)
    (hholds : r.holds (s.shared.span id) s.document = true)
    (hstands : r.last ∈ s.document.siblingsAfter r.first) (hsettled : s.Settled id) :
    s.document.between r.first r.last = s.shared.span id := by
  obtain ⟨hsound, seat, hs⟩ := h
  have hchain := hsettled.isChain hsound hs
  have hgap := SharedInstances.gap_of_region hj hr hcontent
  have haround : (r.first :: (s.shared.span id ++ [r.last])).IsChain
      (Joint seat s.shared.links) := by
    rcases hs.seat_of_holds hsound hgap hholds with hseat | hnone
    · exact hs.through hgap hseat hchain (hsound.head?_span id) (hsound.getLast?_span id)
    · -- an instance without nodes sits nowhere
      have hseat : seat id ≠ some r.first := fun heq => hs.seated id (by simp [heq]) hnone
      rw [hsound.span_nil hnone]
      simpa using Joint.apart hgap hseat
  obtain ⟨p, hparent, -⟩ := hs.tied.run_of_mem_siblingsAfter hstands
  have hrun := infix_of_isChain (hs.tied.nodup p)
    (haround.imp fun _ _ hjoint => hs.joined hjoint p) List.mem_cons_self
    ((hs.tied.agree p _).mp hparent)
  exact (hs.tied.between hrun).2.2

/-- Gathering an instance that stands under one parent takes exactly the nodes
from its first one to its last one, whatever has been done with the shared
instances before. -/
theorem Tracked.gathers_exactly (h : s.Tracked) {i : Instance} {p : NodeId}
    (hi : s.shared[id]? = some i) (hstands : i.nodes.Sublist (s.document.children p))
    (hsettled : s.Settled id) :
    ∃ run, run.head? = i.nodes.head? ∧ run.getLast? = i.nodes.getLast? ∧
      s.document.Lifts p run (s.gather id).2.document (s.gather id).1 := by
  have hcoherent := h.coherent
  have hrun := hcoherent.span_infix hi hstands hsettled
  obtain ⟨hsound, seat, hs⟩ := hcoherent
  refine ⟨s.shared.span id, ?_, ?_, hs.tied.lifts hrun⟩
  · rw [hsound.head?_span, SharedInstances.tops_of_some hi]
  · rw [hsound.getLast?_span, SharedInstances.tops_of_some hi]

/-! ### Insets -/

/-- A template that is nothing but one place. -/
def inset : CompiledTemplate :=
  ⟨0, Template.ofNodes [.placeholder]⟩

theorem inset_hasNodes : inset.HasNodes := ⟨_, rfl⟩

/-- Two instances of it, the first with a text. -/
def textInset : Stage :=
  (((empty.create inset).2.create inset).2.patch 0 [.str "old"]).2

/-- The second instance is given a value, and then the first one another text, in
a list. -/
def insets (v : Value) : Stage :=
  ((textInset.patch 1 [v]).2.patch 0 [.list [.str "new"]]).2

theorem gathers_exactly_insets :
    (insets (.shared 0)).Tracked ∧ (insets (.shared 0)).Settled 1 ∧
      (insets (.shared 0)).document.Lifts 3 [4, 1, 9, 2, 5]
        ((insets (.shared 0)).gather 1).2.document ((insets (.shared 0)).gather 1).1 := by
  have htext : textInset.Tracked :=
    .patch (.create (.create .empty inset_hasNodes) inset_hasNodes)
      (by simp [Accepts, Value.AreTracked, Value.IsTracked])
  have hinside : ¬ textInset.shared.Inside 0 1 :=
    SharedInstances.not_inside (by decide +kernel) (by decide)
  have htracked : (insets (.shared 0)).Tracked :=
    .patch (.patch htext (by simp [Accepts, Value.AreTracked, Value.IsTracked, hinside]))
      (by simp [Accepts, Value.AreTracked, Value.IsTracked, Value.ArePlain, Value.IsPlain])
  have hsettled : (insets (.shared 0)).Settled 1 := by decide +kernel
  have hnodes : (insets (.shared 0)).shared[1]?.map Instance.nodes = some [4, 5] := by
    decide +kernel
  obtain ⟨i, hi, hnodes⟩ := Option.map_eq_some_iff.mp hnodes
  have hstands : i.nodes.Sublist ((insets (.shared 0)).document.children 3) := by
    rw [hnodes]
    decide +kernel
  obtain ⟨run, -, -, hlifts⟩ := Tracked.gathers_exactly htracked hi hstands hsettled
  have hrun : run = [4, 1, 9, 2, 5] := by
    rw [← hlifts.taken]
    decide +kernel
  exact ⟨htracked, hsettled, hrun ▸ hlifts⟩

/-- A list with a shared instance in it remembers the nodes that the instance
showed then: gathering takes the old text and leaves the new one behind. -/
theorem insets_leave_listed_behind :
    (insets (.list [.shared 0])).shared[1]?.map Instance.nodes = some [4, 5] ∧
      (insets (.list [.shared 0])).document.children 3 = [4, 1, 10, 2, 5] ∧
      ∀ run, ¬ (insets (.list [.shared 0])).document.Lifts 3 run
        ((insets (.list [.shared 0])).gather 1).2.document
        ((insets (.list [.shared 0])).gather 1).1 := by
  have hchildren : (insets (.list [.shared 0])).document.children 3 = [4, 1, 10, 2, 5] := by
    decide +kernel
  refine ⟨by decide +kernel, hchildren, fun run hlifts => ?_⟩
  obtain ⟨before, behind, hsplit, -⟩ := hlifts.left
  have hold : 6 ∈ run := by
    rw [← hlifts.taken]
    decide +kernel
  have hmem : 6 ∈ (insets (.list [.shared 0])).document.children 3 :=
    hsplit ▸ List.mem_append_right _ (List.mem_append_left _ hold)
  rw [hchildren] at hmem
  exact absurd hmem (by decide)

end Stage

end LiveMarkup
