import LiveMarkup.Proofs.Instance.Refinement
import LiveMarkup.Proofs.Instance.Replacing

/-!
# Links of new instances

An instance that was just made stands under its new fragment, each first marker
right before its last one, and no marker is there twice. So its links can be
added to any others.
-/

namespace LiveMarkup

open Branch (idsAll tops)
open Document (Extends SameShape)

variable {d d' : Document} {x y z m n : NodeId}

/-! ## Markers -/

/-- No marker stands anywhere else. -/
theorem Layout.markers_sublist {say : Nat → List Attribute → Attributes → Properties → Prop}
    {next : Nat} {ns : List Node} {elements : List NodeId} {marks : List Mark}
    {bs : List Branch} (h : Layout say next ns elements marks bs) :
    (marks.flatMap fun m => [m.first, m.last]).Sublist (idsAll bs) := by
  induction h with
  | nil => exact .slnil
  | text _ ih => exact ih.cons _
  | comment _ ih => exact ih.cons _
  | @placeholder m rest elements marks bs _ ih =>
      have hids : idsAll (m.branches ++ bs) = m.first :: (idsAll m.held ++ m.last :: idsAll bs) := by
        simp [Mark.branches, Branch.comment]
      rw [hids, List.flatMap_cons, List.cons_append, List.cons_append, List.nil_append]
      exact .cons_cons _ (.trans (.cons_cons _ ih) (List.sublist_append_right _ _))
  | @element next name as children rest n attributes properties inner elements held marks
      under bs _ _ _ ihUnder ihRest =>
      rw [List.flatMap_append, Branch.idsAll_cons, Branch.ids_node, List.cons_append]
      exact (ihUnder.append ihRest).cons _

theorem Region.FitAll.markers_eq {markup : CompiledTemplate → List Node} {regions : List Region}
    {marks : List Mark} (h : Region.FitAll markup regions marks) :
    regions.map Region.markers = marks.map fun m => (m.first, m.last) := by
  induction marks generalizing regions with
  | nil => rw [Region.fitAll_nil.mp h]; rfl
  | cons m marks ih =>
      cases regions with
      | nil => exact h.elim
      | cons r regions =>
          obtain ⟨hr, hrest⟩ := Region.fitAll_cons.mp h
          rw [List.map_cons, List.map_cons, ih hrest, Region.markers, hr.first, hr.last]

theorem Region.distinct_markers {regions : List Region}
    (h : ((regions.map Region.markers).flatMap fun pair => [pair.1, pair.2]).Nodup) :
    (regions.map Region.first).Nodup ∧ (regions.map Region.last).Nodup ∧
      ∀ r ∈ regions, ∀ q ∈ regions, q.first ≠ r.last := by
  induction regions with
  | nil => simp
  | cons r rest ih =>
      rw [List.map_cons, List.flatMap_cons, Region.markers, List.cons_append, List.cons_append,
        List.nil_append, List.nodup_cons, List.nodup_cons, List.mem_cons, not_or] at h
      obtain ⟨⟨hne, hfirst⟩, hlast, hrest⟩ := h
      obtain ⟨hfirsts, hlasts, hapart⟩ := ih hrest
      have hmem : ∀ q ∈ rest, ∀ k ∈ [q.first, q.last],
          k ∈ (rest.map Region.markers).flatMap fun pair => [pair.1, pair.2] := fun q hq k hk =>
        List.mem_flatMap.mpr ⟨q.markers, List.mem_map_of_mem hq, hk⟩
      refine ⟨List.nodup_cons.mpr ⟨fun hr => ?_, hfirsts⟩,
        List.nodup_cons.mpr ⟨fun hr => ?_, hlasts⟩, fun a ha b hb heq => ?_⟩
      · obtain ⟨q, hq, heq⟩ := List.mem_map.mp hr
        exact hfirst (hmem q hq r.first (by simp [heq]))
      · obtain ⟨q, hq, heq⟩ := List.mem_map.mp hr
        exact hlast (hmem q hq r.last (by simp [heq]))
      · rcases List.mem_cons.mp ha with rfl | ha' <;> rcases List.mem_cons.mp hb with rfl | hb'
        · exact hne heq
        · exact hlast (hmem b hb' a.last (by simp [heq]))
        · exact hfirst (hmem a ha' b.first (by simp [heq]))
        · exact hapart a ha' b hb' heq

theorem Document.beside_of_nextSibling? (h : d.nextSibling? m = some n) :
    ∃ p, Beside (d.children p) m n := by
  unfold nextSibling? siblingsAfter at h
  cases hp : d.parent? m with
  | none => simp [hp] at h
  | some p =>
      simp only [hp] at h
      refine ⟨p, ?_⟩
      have hsplit := List.takeWhile_append_dropWhile (p := (· != m)) (l := d.children p)
      cases hrest : (d.children p).dropWhile (· != m) with
      | nil => simp [hrest] at h
      | cons a rest =>
          have ha : a = m := by
            have hfirst := List.head?_dropWhile_not (· != m) (d.children p)
            simpa [hrest] using hfirst
          subst ha
          rw [hrest, List.drop_succ_cons, List.drop_zero] at h
          obtain ⟨rest, rfl⟩ := List.head?_eq_some_iff.mp h
          rw [← hsplit, hrest]
          exact beside_middle _ rest a n

namespace Instance

theorem findRegions_empty {root : NodeId} {bs : List ContentBinding} {regions : List Region}
    (h : findRegions d root bs = .ok regions) :
    ∀ r ∈ regions, r.content = .empty ∧ d.nextSibling? r.first = some r.last := by
  induction bs generalizing regions with
  | nil =>
      cases h
      simp
  | cons b bs ih =>
      rw [findRegions] at h
      split at h
      · cases h
      · split at h
        · cases h
        · rename_i last hlast
          cases hrest : findRegions d root bs with
          | error e =>
              rw [hrest] at h
              cases h
          | ok rest =>
              rw [hrest] at h
              cases h
              exact List.forall_mem_cons.mpr ⟨⟨rfl, hlast⟩, ih hrest⟩

/-- What is known of an instance that was just made. -/
structure Newborn (d d' : Document) (i : Instance) : Prop where
  tied : d'.Tied
  grown : Extends d d'
  unborn : d.size ≤ i.fragment
  kind : d'.kind? i.fragment = some .fragment
  nodes : i.nodes = d'.children i.fragment
  framed : i.Framed
  bare : ∀ r ∈ i.regions, r.content = .empty
  beside : ∀ r ∈ i.regions, ∃ p, Beside (d'.children p) r.first r.last
  lasts : (i.regions.map Region.last).Nodup
  fresh : ∀ r ∈ i.regions, d.size ≤ r.first ∧ d.size ≤ r.last

theorem create_parts {source : CompiledTemplate} {i : Instance}
    (hsource : source.HasNodes) (hd : d.Tied) (h : create source d = (.ok i, d')) :
    d'.Tied ∧ i.nodes = d'.children i.fragment ∧
      ∃ bs, findRegions d' i.fragment bs = .ok i.regions := by
  obtain ⟨ns, hns⟩ := hsource
  have hsolid : Tree.isSolidAll source.template.root.children = true := by
    rw [hns]
    exact Compile.isSolidAll_forest [] 0 0 ns
  obtain ⟨-, htied, -⟩ := hd.plant Document.attaches_writingAttributes source.template.root hsolid
  obtain ⟨-, hnodes, d₁, hplant, hwrite, -, hregions⟩ := create_eq_ok h
  rw [hplant] at htied
  have hshape := sameShape_writeProperties i.fragment source.template.properties d₁
  rw [hwrite] at hshape
  exact ⟨hshape.tied htied, hnodes, _, hregions⟩

theorem create_newborn {source : CompiledTemplate} (hsource : source.HasNodes) (hd : d.Tied) :
    ∃ i d', create source d = (.ok i, d') ∧ Newborn d d' i := by
  obtain ⟨ns, hns⟩ := id hsource
  obtain ⟨i, d', bs, hcreate, hfresh⟩ := create_fresh (fun _ => []) hns d
  obtain ⟨htied, hnodes, contents, hregions⟩ := create_parts hsource hd hcreate
  have hfound := findRegions_empty hregions
  obtain ⟨marks, hlayout, -, hfit⟩ := hfresh.fits.layout
  have hmarkers := hfit.markers_eq
  have hsublist := hlayout.markers_sublist
  have hdistinct : ((i.regions.map Region.markers).flatMap fun pair => [pair.1, pair.2]).Nodup := by
    rw [hmarkers, List.flatMap_map]
    exact hfresh.placed.ids_nodup.sublist hsublist
  have hnew : ∀ r ∈ i.regions, d.size ≤ r.first ∧ d.size ≤ r.last := by
    intro r hr
    have hmem : r.markers ∈ marks.map fun m => (m.first, m.last) :=
      hmarkers ▸ List.mem_map_of_mem hr
    obtain ⟨m, hm, heq⟩ := List.mem_map.mp hmem
    obtain ⟨hfirst, hlast⟩ := Prod.mk.inj heq
    have hids : ∀ k ∈ [m.first, m.last], d.size ≤ k := fun k hk =>
      hfresh.fresh k (hsublist.subset (List.mem_flatMap.mpr ⟨m, hm, hk⟩))
    exact ⟨hfirst ▸ hids _ (by simp), hlast ▸ hids _ (by simp)⟩
  have hbeside : ∀ r ∈ i.regions, ∃ p, Beside (d'.children p) r.first r.last := fun r hr =>
    Document.beside_of_nextSibling? (hfound r hr).2
  obtain ⟨hfirsts, hlasts, hapart⟩ := Region.distinct_markers hdistinct
  have hkind : d'.kind? i.fragment = some .fragment := Document.kind?_of_node hfresh.fragment
  refine ⟨i, d', hcreate, htied, hfresh.grown, hfresh.node_fresh, hkind, hnodes, ?_,
    fun r hr => (hfound r hr).1, hbeside, hlasts, hnew⟩
  obtain ⟨source', fragment, nodes, elements, regions⟩ := i
  obtain rfl : nodes = d'.children fragment := hnodes
  refine ⟨htied.nodup fragment, hfirsts, fun r hr hmem => ?_, hapart,
    Region.framedAll_iff.mpr fun r hr => ?_⟩
  · obtain ⟨p, hb⟩ := hbeside r hr
    rwa [htied.parent_unique hmem hb.left_mem]
  · rw [(hfound r hr).1]
    trivial

end Instance

/-! ## Links -/

/-- Links inside a list of nodes come from all but the last, and lead to all but
the first. -/
theorem Link.frame_sublist (firsts nodes : List NodeId) :
    ((Link.frame firsts nodes).map Link.source).Sublist nodes.dropLast ∧
      ((Link.frame firsts nodes).map Link.target).Sublist nodes.tail := by
  have hzip : (nodes.zip nodes.tail).map Prod.fst = nodes.dropLast ∧
      (nodes.zip nodes.tail).map Prod.snd = nodes.tail := by
    refine ⟨?_, List.map_snd_zip (by simp)⟩
    induction nodes with
    | nil => rfl
    | cons a nodes ih =>
        cases nodes with
        | nil => rfl
        | cons c nodes => simpa using ih
  rw [Link.frame, List.map_map, List.map_map, ← hzip.1]
  refine ⟨List.filter_sublist.map _, ?_⟩
  have htargets := List.Sublist.map Prod.snd
    (List.filter_sublist (l := nodes.zip nodes.tail) (p := fun pair => decide (pair.1 ∉ firsts)))
  rwa [hzip.2] at htargets

theorem Link.nodup_ends_frame {nodes : List NodeId} (hnodes : nodes.Nodup)
    (id : Option InstanceId) (firsts : List NodeId) :
    ((Link.ends id nodes ++ Link.frame firsts nodes).map Link.source).Nodup ∧
      ((Link.ends id nodes ++ Link.frame firsts nodes).map Link.target).Nodup := by
  obtain ⟨hsource, htarget⟩ := Link.frame_sublist firsts nodes
  rcases nodes with _ | ⟨h, nodes⟩
  · simp [Link.ends, Link.frame]
  · have hlast := List.getLast?_eq_some_getLast (List.cons_ne_nil h nodes)
    generalize (h :: nodes).getLast (List.cons_ne_nil h nodes) = e at hlast
    have hsplit := List.dropLast_append_getLast? e hlast
    simp only [Link.ends, List.head?_cons, hlast, List.cons_append, List.nil_append,
      List.map_cons, Link.source, Link.target]
    refine ⟨List.nodup_cons.mpr ⟨fun hmem => ?_, ?_⟩, List.nodup_cons.mpr ⟨fun hmem => ?_, ?_⟩⟩
    · rw [← hsplit] at hnodes
      exact (List.nodup_append.mp hnodes).2.2 e (hsource.subset hmem) e
        (List.mem_singleton_self e) rfl
    · exact hnodes.sublist (hsource.trans (List.dropLast_sublist _))
    · exact (List.nodup_cons.mp hnodes).1 (htarget.subset hmem)
    · exact (List.nodup_cons.mp hnodes).2.sublist htarget

theorem Link.mem_of_mem_ends_frame {nodes firsts : List NodeId} {id : Option InstanceId}
    {link : Link} (hk : link ∈ Link.ends id nodes ++ Link.frame firsts nodes) :
    link.source ∈ nodes ∧ link.target ∈ nodes := by
  rcases List.mem_append.mp hk with hk | hk
  · obtain ⟨head, last, rfl, hhead, hlast⟩ := Link.mem_ends.mp hk
    exact ⟨List.mem_of_getLast? hlast, List.mem_of_head? hhead⟩
  · obtain ⟨hsource, htarget⟩ := Link.frame_sublist firsts nodes
    exact ⟨(List.dropLast_sublist _).subset (hsource.subset (List.mem_map_of_mem hk)),
      (List.tail_sublist _).subset (htarget.subset (List.mem_map_of_mem hk))⟩

/-! ## A new instance beside others -/

theorem Region.linksAll_bare {regions : List Region} (h : ∀ r ∈ regions, r.content = .empty) :
    Region.linksAll regions = regions.map fun r => .next r.first r.last := by
  induction regions with
  | nil => rfl
  | cons r rest ih =>
      obtain ⟨hr, hrest⟩ := List.forall_mem_cons.mp h
      rw [Region.linksAll_cons, ih hrest, Region.links, hr]
      rfl

namespace Instance

variable {pool : SharedInstances} {kept links : List Link} {tops : InstanceId → List NodeId}
  {seat : Seating} {i : Instance}

theorem Newborn.tidy (h : Newborn d d' i) : i.Tidy pool kept where
  framed := h.framed
  steady := by
    rw [links_eq, Region.linksAll_bare h.bare]
    refine (Link.steady_frame _ _).append (Link.steady_of_next fun link hk => ?_)
    obtain ⟨r, -, rfl⟩ := List.mem_map.mp hk
    exact ⟨_, _, rfl⟩

theorem Newborn.places_nothing (h : Newborn d d' i) (m : NodeId) (t : InstanceId) (n : NodeId) :
    .gap m t n ∉ i.links := by
  rw [links_eq, Region.linksAll_bare h.bare]
  intro hk
  rcases List.mem_append.mp hk with hk | hk
  · exact Link.gap_notMem_frame hk
  · obtain ⟨r, -, heq⟩ := List.mem_map.mp hk
    cases heq

/-- No node of a new instance is there twice. -/
theorem Newborn.distinct (h : Newborn d d' i) :
    ((Link.ends none i.nodes ++ i.links).map Link.source).Nodup ∧
      ((Link.ends none i.nodes ++ i.links).map Link.target).Nodup := by
  rw [links_eq, Region.linksAll_bare h.bare, ← List.append_assoc]
  have hnodes : i.nodes.Nodup := by
    rw [h.nodes]
    exact h.tied.nodup _
  obtain ⟨hsources, htargets⟩ :=
    Link.nodup_ends_frame hnodes none (i.regions.map Region.first)
  have hbeside : ∀ r ∈ i.regions, r.first ∈ i.nodes ∨ r.last ∈ i.nodes →
      Beside i.nodes r.first r.last := by
    intro r hr hmem
    obtain ⟨p, hb⟩ := h.beside r hr
    rw [h.nodes] at hmem ⊢
    exact h.tied.joined hb _ hmem
  rw [List.map_append (f := Link.source), List.map_append (f := Link.target), List.map_map,
    List.map_map]
  constructor
  · refine List.nodup_append.mpr ⟨hsources, (framed_iff.mp h.framed).2.1, ?_⟩
    rintro _ hx _ hy rfl
    obtain ⟨r, hr, hfirst⟩ := List.mem_map.mp hy
    obtain ⟨link, hk, hsource⟩ := List.mem_map.mp hx
    have hfirst : link.source = r.first := hsource.trans hfirst.symm
    have hb := hbeside r hr (.inl (hfirst ▸ (Link.mem_of_mem_ends_frame hk).1))
    rcases List.mem_append.mp hk with hk | hk
    · obtain ⟨head, last, rfl, -, hlast⟩ := Link.mem_ends.mp hk
      exact hb.getLast?_ne hnodes (hlast.trans (congrArg some hfirst))
    · obtain ⟨a, c, rfl⟩ := Link.next_of_mem_frame hk
      exact (Link.mem_frame.mp hk).2 (List.mem_map.mpr ⟨r, hr, hfirst.symm⟩)
  · refine List.nodup_append.mpr ⟨htargets, h.lasts, ?_⟩
    rintro _ hx _ hy rfl
    obtain ⟨r, hr, hlast⟩ := List.mem_map.mp hy
    obtain ⟨link, hk, htarget⟩ := List.mem_map.mp hx
    have hlast : link.target = r.last := htarget.trans hlast.symm
    have hb := hbeside r hr (.inr (hlast ▸ (Link.mem_of_mem_ends_frame hk).2))
    rcases List.mem_append.mp hk with hk | hk
    · obtain ⟨head, e, rfl, hhead, -⟩ := Link.mem_ends.mp hk
      exact hb.head?_ne hnodes (hhead.trans (congrArg some hlast))
    · obtain ⟨a, c, rfl⟩ := Link.next_of_mem_frame hk
      obtain ⟨hb', ha⟩ := Link.mem_frame.mp hk
      have hc : c = r.last := hlast
      subst hc
      exact ha (List.mem_map.mpr ⟨r, hr, hb.previous_unique hb' hnodes⟩)

theorem Newborn.node (h : Newborn d d' i) (hd : d.Tied) {link : Link}
    (hk : link ∈ Link.ends none i.nodes ++ i.links) :
    (d.size ≤ link.source ∧ d.size ≤ link.target) ∧
      d'.Insertable link.source ∧ d'.Insertable link.target := by
  rw [links_eq, Region.linksAll_bare h.bare, ← List.append_assoc] at hk
  rcases List.mem_append.mp hk with hk | hk
  · obtain ⟨hsource, htarget⟩ := Link.mem_of_mem_ends_frame hk
    have hnew : ∀ z ∈ i.nodes, d.size ≤ z ∧ d'.Insertable z := by
      intro z hz
      rw [h.nodes] at hz
      refine ⟨Nat.le_of_not_lt fun hlt => ?_, h.tied.insertable hz⟩
      exact h.grown.notMem_children hd h.tied hlt h.unborn hz
    exact ⟨⟨(hnew _ hsource).1, (hnew _ htarget).1⟩, (hnew _ hsource).2, (hnew _ htarget).2⟩
  · obtain ⟨r, hr, rfl⟩ := List.mem_map.mp hk
    obtain ⟨p, hb⟩ := h.beside r hr
    exact ⟨h.fresh r hr, h.tied.insertable hb.left_mem, h.tied.insertable hb.right_mem⟩

theorem Newborn.standing (h : Newborn d d' i) (hs : Standing tops d seat links) :
    Standing tops d' seat ((Link.ends none i.nodes ++ i.links) ++ links) := by
  obtain ⟨hsources, htargets⟩ := h.distinct
  refine (hs.extend h.grown h.tied).add ?_ hsources htargets ?_ (fun k hk => (h.node hs.tied hk).2) ?_
  · intro k hk
    rw [links_eq, Region.linksAll_bare h.bare] at hk
    rcases List.mem_append.mp hk with hk | hk
    · exact .inr (Link.eq_of_mem_ends hk)
    · rcases List.mem_append.mp hk with hk | hk
      · exact .inl (Link.next_of_mem_frame hk)
      · obtain ⟨r, -, rfl⟩ := List.mem_map.mp hk
        exact .inl ⟨_, _, rfl⟩
  · intro k hk
    obtain ⟨⟨hsource, htarget⟩, -⟩ := h.node hs.tied hk
    constructor
    · intro hmem
      obtain ⟨k', hk', heq⟩ := List.mem_map.mp hmem
      have hold := of_decide_eq_true (hs.exist k' hk').1.contains
      exact Nat.not_lt.mpr hsource (heq ▸ hold)
    · intro hmem
      obtain ⟨k', hk', heq⟩ := List.mem_map.mp hmem
      have hold := of_decide_eq_true (hs.exist k' hk').2.contains
      exact Nat.not_lt.mpr htarget (heq ▸ hold)
  · intro x y hk
    rw [links_eq, Region.linksAll_bare h.bare] at hk
    rcases List.mem_append.mp hk with hk | hk
    · exact absurd hk Link.next_notMem_ends
    · rcases List.mem_append.mp hk with hk | hk
      · exact ⟨i.fragment, h.nodes ▸ (Link.mem_frame.mp hk).1⟩
      · obtain ⟨r, hr, heq⟩ := List.mem_map.mp hk
        cases heq
        exact h.beside r hr

end Instance

end LiveMarkup
