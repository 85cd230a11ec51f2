import LiveMarkup.Proofs.Instance.Placing

/-!
# Stages that stand as their instances say

Making, patching and gathering shared instances keeps a stage coherent: the
document stands as the links of all shared instances say, and no instance sits
inside itself. A patch changes the links of one instance only; gathering changes
none, and only seats shared instances elsewhere.
-/

namespace LiveMarkup

variable {pool : SharedInstances} {d d' : Document} {i i' : Instance} {seat : Seating}
  {rest : List Link} {m n : NodeId} {t v id : InstanceId}

/-! ## The links of all shared instances -/

namespace SharedInstances

/-- The links of all shared instances. -/
def links (pool : SharedInstances) : List Link :=
  (List.range pool.length).flatMap pool.linksAt

/-- The links of all shared instances but one. -/
def linksApart (pool : SharedInstances) (id : InstanceId) : List Link :=
  ((List.range pool.length).erase id).flatMap pool.linksAt

theorem lt_length_of_mem_linksAt {link : Link} (h : link ∈ pool.linksAt v) : v < pool.length := by
  unfold linksAt at h
  cases hv : pool[v]? with
  | none =>
      rw [hv] at h
      cases h
  | some i => exact (List.getElem?_eq_some_iff.mp hv).1

theorem mem_linksApart {link : Link} (h : link ∈ pool.linksAt v) (hv : v ≠ id) :
    link ∈ pool.linksApart id := by
  have hrange := List.mem_range.mpr (lt_length_of_mem_linksAt h)
  exact List.mem_flatMap.mpr ⟨v, (List.mem_erase_of_ne hv).mpr hrange, h⟩

theorem mem_links {link : Link} (h : link ∈ pool.linksAt v) : link ∈ pool.links :=
  List.mem_flatMap.mpr ⟨v, List.mem_range.mpr (lt_length_of_mem_linksAt h), h⟩

theorem LinkedIn.mem_links {link : Link} (h : pool.LinkedIn t link) : link ∈ pool.links := by
  obtain ⟨v, -, hk⟩ := h
  exact SharedInstances.mem_links hk

theorem links_perm (hi : pool[id]? = some i) :
    pool.links.Perm (i.links ++ (Link.ends (some id) i.nodes ++ pool.linksApart id)) := by
  have hlt := (List.getElem?_eq_some_iff.mp hi).1
  have hperm := (List.perm_cons_erase (List.mem_range.mpr hlt)).flatMap_right pool.linksAt
  rw [List.flatMap_cons, linksAt_of_some hi, List.append_assoc] at hperm
  exact hperm.trans (List.perm_append_comm_assoc _ _ _)

/-! ### One more instance -/

theorem linksAt_concat_of_lt (hv : v < pool.length) :
    linksAt (pool ++ [i]) v = pool.linksAt v := by
  simp only [linksAt, List.getElem?_append_left hv]

theorem linksAt_concat_self :
    linksAt (pool ++ [i]) pool.length = Link.ends (some pool.length) i.nodes ++ i.links :=
  linksAt_of_some List.getElem?_concat_length

theorem links_concat :
    links (pool ++ [i]) = pool.links ++ (Link.ends (some pool.length) i.nodes ++ i.links) := by
  have hsame : (List.range pool.length).flatMap (linksAt (pool ++ [i])) = pool.links :=
    List.flatMap_congr fun v hv => linksAt_concat_of_lt (List.mem_range.mp hv)
  rw [links, List.length_append, List.length_singleton, List.range_succ, List.flatMap_append, hsame,
    List.flatMap_singleton, linksAt_concat_self]

theorem tops_concat (t : InstanceId) :
    tops (pool ++ [i]) t = if t = pool.length then i.nodes else pool.tops t := by
  rcases Nat.lt_trichotomy t pool.length with ht | rfl | ht
  · rw [if_neg (Nat.ne_of_lt ht), tops, tops, List.getElem?_append_left ht]
  · rw [if_pos rfl, tops, List.getElem?_concat_length]
  · have hnone : (pool ++ [i])[t]? = none :=
      List.getElem?_eq_none (by simpa [Nat.succ_le_iff] using ht)
    rw [if_neg (Nat.ne_of_gt ht), tops, tops, hnone, List.getElem?_eq_none (Nat.le_of_lt ht)]

theorem tops_length : pool.tops pool.length = [] := by
  rw [tops, List.getElem?_eq_none (Nat.le_refl _)]

theorem Sound.concat (h : pool.Sound) (hframed : i.Framed)
    (hbare : ∀ m t n, .gap m t n ∉ i.links) : Sound (pool ++ [i]) where
  framed := by
    intro q hq
    rcases List.mem_append.mp hq with hq | hq
    · exact h.framed q hq
    · exact List.mem_singleton.mp hq ▸ hframed
  grounded := by
    refine Subrelation.wf ?_ h.grounded
    rintro t v ⟨m, n, hk⟩
    have hv := lt_length_of_mem_linksAt hk
    rw [List.length_append, List.length_singleton, Nat.lt_succ_iff] at hv
    rcases Nat.lt_or_eq_of_le hv with hv | rfl
    · exact ⟨m, n, by rwa [linksAt_concat_of_lt hv] at hk⟩
    · rw [linksAt_concat_self] at hk
      rcases List.mem_append.mp hk with hk | hk
      · exact absurd hk Link.gap_notMem_ends
      · exact absurd hk (hbare m t n)

/-! ### Another instance in one place -/

theorem linksAt_set_of_ne (hv : v ≠ id) : linksAt (pool.set id i') v = pool.linksAt v := by
  simp only [linksAt, List.getElem?_set_ne hv.symm]

theorem getElem?_set (hi : pool[id]? = some i) (i' : Instance) :
    (pool.set id i')[id]? = some i' :=
  List.getElem?_set_self (List.getElem?_eq_some_iff.mp hi).1

theorem tops_set (hi : pool[id]? = some i) (hnodes : i'.nodes = i.nodes) :
    tops (pool.set id i') = pool.tops := by
  funext t
  by_cases ht : t = id
  · subst ht
    rw [tops_of_some (getElem?_set hi i'), tops_of_some hi, hnodes]
  · simp only [tops, List.getElem?_set_ne (Ne.symm ht)]

theorem linksApart_set : linksApart (pool.set id i') id = pool.linksApart id := by
  rw [linksApart, linksApart, List.length_set]
  refine List.flatMap_congr fun v hv => linksAt_set_of_ne ?_
  exact (List.nodup_range.mem_erase_iff.mp hv).1

theorem holds_set_of_ne (hv : v ≠ id) (h : Holds (pool.set id i') v t) : pool.Holds v t := by
  obtain ⟨m, n, hk⟩ := h
  exact ⟨m, n, by rwa [linksAt_set_of_ne hv] at hk⟩

theorem Sound.set (h : pool.Sound) (hframed : i'.Framed)
    (hplaces : ∀ t, Holds (pool.set id i') id t → ¬ pool.Inside t id) :
    Sound (pool.set id i') where
  framed := by
    intro q hq
    exact (List.mem_or_eq_of_mem_set hq).elim (h.framed q) (· ▸ hframed)
  grounded := by
    -- first whoever does not lead to the instance, then itself, then all others
    have haway : ∀ v, ¬ pool.Inside v id → Acc (fun t v => Holds (pool.set id i') v t) v := by
      intro v
      induction v using h.grounded.induction with
      | _ v ih =>
          intro hv
          refine .intro v fun t hheld => ?_
          have hne : v ≠ id := fun heq => hv (heq ▸ .refl)
          have hold := holds_set_of_ne hne hheld
          exact ih t hold fun ht => hv (.head hold ht)
    have hself : Acc (fun t v => Holds (pool.set id i') v t) id :=
      .intro id fun t hheld => haway t (hplaces t hheld)
    refine ⟨fun v => ?_⟩
    induction v using h.grounded.induction with
    | _ v ih =>
        by_cases hv : v = id
        · exact hv ▸ hself
        · exact .intro v fun t hheld => ih t (holds_set_of_ne hv hheld)

end SharedInstances

/-! ## Numbering a new instance -/

theorem Standing.number {tops : InstanceId → List NodeId} (tops' : InstanceId → List NodeId)
    {k : InstanceId} {w : List NodeId} (hs : Standing tops d seat (Link.ends none w ++ rest))
    (hnone : tops k = []) (hself : tops' k = w) (hother : ∀ t, t ≠ k → tops' t = tops t) :
    Standing tops' d seat (Link.ends (some k) w ++ rest) := by
  have hseat : seat k = none := by
    by_contra hseat
    exact hs.seated k hseat hnone
  have hrest : ∀ t head last, .run (some t) head last ∈ rest ↔
      (tops t).head? = some head ∧ (tops t).getLast? = some last := by
    intro t head last
    rw [← hs.runs, List.mem_append]
    refine ⟨.inr, fun hk => hk.resolve_left fun hk => ?_⟩
    obtain ⟨_, _, heq⟩ := Link.eq_of_mem_ends hk
    cases heq
  have hsame : (Link.ends (some k) w).map Link.source = (Link.ends none w).map Link.source ∧
      (Link.ends (some k) w).map Link.target = (Link.ends none w).map Link.target := by
    unfold Link.ends
    split <;> exact ⟨rfl, rfl⟩
  refine ⟨hs.tied, ?_, ?_, ?_, ?_, ?_, ?_⟩
  · have hsources := hs.sources
    rwa [List.map_append, ← hsame.1, ← List.map_append] at hsources
  · have htargets := hs.targets
    rwa [List.map_append, ← hsame.2, ← List.map_append] at htargets
  · intro link hk
    rcases List.mem_append.mp hk with hk | hk
    · obtain ⟨head, last, rfl, hhead, hlast⟩ := Link.mem_ends.mp hk
      exact hs.exist (.run none head last)
        (List.mem_append_left _ (Link.mem_ends.mpr ⟨head, last, rfl, hhead, hlast⟩))
    · exact hs.exist link (List.mem_append_right _ hk)
  · intro t head last
    rw [List.mem_append, hrest]
    by_cases ht : t = k
    · subst ht
      rw [hself, hnone, Link.mem_ends]
      simp
    · rw [hother t ht, Link.mem_ends]
      refine ⟨fun hk => hk.resolve_left ?_, .inr⟩
      rintro ⟨_, _, heq, -⟩
      cases heq
      exact ht rfl
  · intro t ht
    rw [hother t fun heq => ht (heq ▸ hseat)]
    exact hs.seated t ht
  · intro x y hjoint p
    refine hs.joined ?_ p
    have hold : ∀ {link}, link ∈ Link.ends (some k) w ++ rest →
        (∀ head last, link ≠ .run (some k) head last) → link ∈ Link.ends none w ++ rest := by
      intro link hk hne
      rcases List.mem_append.mp hk with hk | hk
      · obtain ⟨head, last, rfl, -⟩ := Link.mem_ends.mp hk
        exact absurd rfl (hne head last)
      · exact List.mem_append_right _ hk
    cases hjoint with
    | next hk => exact .next (hold hk nofun)
    | apart hk hseat => exact .apart (hold hk nofun) hseat
    | @into m n t head last hk hsits hrun =>
        refine .into (hold hk nofun) hsits (hold hrun ?_)
        rintro head' last' ⟨⟩
        rw [hseat] at hsits
        cases hsits
    | @out m n t head last hk hsits hrun =>
        refine .out (hold hk nofun) hsits (hold hrun ?_)
        rintro head' last' ⟨⟩
        rw [hseat] at hsits
        cases hsits

/-! ## Patching -/

theorem Instance.Tidy.not_inside {tops : InstanceId → List NodeId} {kept : List Link}
    (hi : pool[id]? = some i) (hs : Standing tops d seat (i.links ++ kept))
    (hmarkers : i'.regions.map Region.markers = i.regions.map Region.markers)
    (htidy : i'.Tidy pool kept) (hgap : .gap m t n ∈ i'.links) : ¬ pool.Inside t id := by
  intro hinside
  have hregion : i'.regions ≠ [] := by
    intro hnil
    rw [Instance.links_eq, hnil] at hgap
    rcases List.mem_append.mp hgap with hk | hk
    · exact Link.gap_notMem_frame hk
    · cases hk
  obtain ⟨r, hr⟩ : ∃ r, r ∈ i.regions := by
    refine List.exists_mem_of_ne_nil _ fun hnil => hregion ?_
    rwa [hnil, List.map_nil, List.map_eq_nil_iff] at hmarkers
  obtain ⟨link, hlink, -⟩ := List.mem_map.mp r.markers_mem.1
  have hown : link ∈ i.links := by
    rw [Instance.links_eq]
    exact List.mem_append_right _ (Region.mem_linksAll.mpr ⟨r, hr, hlink⟩)
  have hkept : link ∈ kept := by
    refine htidy.steady m t n hgap link ⟨id, hinside, ?_⟩
    rw [SharedInstances.linksAt_of_some hi]
    exact List.mem_append_right _ hown
  exact hs.source_ne (List.mem_map_of_mem hown) (List.mem_map_of_mem hkept) rfl

/-! ## Coherent stages -/

namespace Stage

variable {s : Stage}

/-- The document of a stage stands as its shared instances say. -/
structure Coherent (s : Stage) : Prop where
  sound : s.shared.Sound
  standing : ∃ seat, Standing s.shared.tops s.document seat s.shared.links

theorem coherent_empty : Coherent .empty where
  sound := ⟨nofun, ⟨fun v => .intro v fun t hheld => nomatch hheld⟩⟩
  standing := by
    refine ⟨fun _ => none, Document.tied_empty, .nil, .nil, nofun, fun t head last => ?_,
      fun t ht => absurd rfl ht, fun hjoint => nomatch hjoint.source⟩
    exact iff_of_false nofun nofun

theorem Coherent.create (h : s.Coherent) {source : CompiledTemplate}
    (hsource : source.HasNodes) : (s.create source).2.Coherent := by
  obtain ⟨hsound, seat, hs⟩ := h
  obtain ⟨i, d', hcreate, hnew⟩ := Instance.create_newborn hsource hs.tied
  simp only [Stage.create, hcreate]
  refine ⟨hsound.concat hnew.framed hnew.places_nothing, seat, ?_⟩
  have hadded := hnew.standing hs
  rw [List.append_assoc] at hadded
  have hnumbered := hadded.number (SharedInstances.tops (s.shared ++ [i]))
    SharedInstances.tops_length (by rw [SharedInstances.tops_concat, if_pos rfl])
    fun t ht => by rw [SharedInstances.tops_concat, if_neg ht]
  rw [← List.append_assoc] at hnumbered
  rw [SharedInstances.links_concat]
  exact hnumbered.perm List.perm_append_comm

/-- What may be given to a shared instance: values that name no node, whose lists
hold plain values, and whose shared instances the instance does not sit in. -/
def Accepts (s : Stage) (id : InstanceId) (values : List Value) : Prop :=
  Value.AreTracked (fun t => ¬ s.shared.Inside t id) values

theorem Coherent.patch (h : s.Coherent) {values : List Value} (hvalues : s.Accepts id values) :
    (s.patch id values).2.Coherent := by
  obtain ⟨hsound, seat, hs⟩ := h
  cases hi : s.shared[id]? with
  | none =>
      simp only [Stage.patch, hi]
      exact ⟨hsound, seat, hs⟩
  | some i =>
      let kept := Link.ends (some id) i.nodes ++ s.shared.linksApart id
      have hstays : ∀ t, ¬ s.shared.Inside t id → s.shared.Stays kept t := by
        rintro t ht link ⟨v, hinside, hk⟩
        have hne : v ≠ id := fun heq => ht (heq ▸ hinside)
        exact List.mem_append_right _ (SharedInstances.mem_linksApart hk hne)
      have htidy : i.Tidy s.shared kept := by
        refine ⟨hsound.framed i (List.mem_of_getElem? hi), fun m t n hk => hstays t ?_⟩
        refine hsound.not_inside ⟨m, n, ?_⟩
        rw [SharedInstances.linksAt_of_some hi]
        exact List.mem_append_right _ hk
      have hs : Standing s.shared.tops s.document seat (i.links ++ ([] ++ kept)) :=
        hs.perm (SharedInstances.links_perm hi)
      have hturned := Instance.supply_turned hsound s.shared.span
        (turns_supplyAt (Value.turns_all hsound values kept (Value.AreTracked.mono hstays hvalues)))
        htidy hs
      simp only [Stage.patch, hi, Instance.patch]
      generalize i.supply s.shared.span (Value.supplies s.shared.span values) s.document =
        supplied at hturned
      obtain ⟨i', e, d'⟩ := supplied
      obtain ⟨-, hnodes, hmarkers, htidy', ⟨seat', hs'⟩, -⟩ := hturned
      have hlinks := SharedInstances.links_perm (SharedInstances.getElem?_set hi i')
      rw [SharedInstances.linksApart_set, hnodes] at hlinks
      refine ⟨hsound.set htidy'.framed ?_, seat', ?_⟩
      · rintro t ⟨m, n, hk⟩
        rw [SharedInstances.linksAt_of_some (SharedInstances.getElem?_set hi i')] at hk
        rcases List.mem_append.mp hk with hk | hk
        · exact absurd hk Link.gap_notMem_ends
        · exact htidy'.not_inside hi hs hmarkers hk
      · rw [SharedInstances.tops_set hi hnodes]
        exact hs'.perm hlinks.symm

theorem Coherent.gather (h : s.Coherent) (id : InstanceId) : (s.gather id).2.Coherent := by
  obtain ⟨hsound, seat, hs⟩ := h
  have hgatherable := hs.gatherable (k := id) hsound fun _ =>
    SharedInstances.LinkedIn.mem_links
  obtain ⟨seat', hs', -⟩ := hs.gather hgatherable
  exact ⟨hsound, seat', hs'⟩

/-- The stages that shared instances of compiled templates make, however they
are patched and gathered. -/
inductive Tracked : Stage → Prop
  | empty : Tracked .empty
  | create {s : Stage} (h : Tracked s) {source : CompiledTemplate} (hsource : source.HasNodes) :
      Tracked (s.create source).2
  | patch {s : Stage} (h : Tracked s) {id : InstanceId} {values : List Value}
      (hvalues : s.Accepts id values) : Tracked (s.patch id values).2
  | gather {s : Stage} (h : Tracked s) (id : InstanceId) : Tracked (s.gather id).2

theorem Tracked.coherent (h : s.Tracked) : s.Coherent := by
  induction h with
  | empty => exact coherent_empty
  | create _ hsource ih => exact ih.create hsource
  | patch _ hvalues ih => exact ih.patch hvalues
  | gather _ id ih => exact ih.gather id

end Stage

end LiveMarkup
