import LiveMarkup.Proofs.Instance.Sparing

/-!
# Replacing what regions hold

Whatever happens while an instance is supplied, a document still stands as its
instances say. A region that is cleared stands empty, and one that is filled
holds what was made or gathered meanwhile; a failure on the way leaves it empty.
All the while the links that are kept tell how shared instances look that may
be put there.
-/

namespace LiveMarkup

variable {pool : SharedInstances} {kept others links new : List Link} {d d' : Document}
  {seat : Seating} {x y z m n : NodeId} {t : InstanceId}

/-! ## Tidy instances -/

/-- Nothing inside a shared instance has links that may change. -/
def SharedInstances.Stays (pool : SharedInstances) (kept : List Link) (t : InstanceId) : Prop :=
  ∀ link, pool.LinkedIn t link → link ∈ kept

/-- Only shared instances that stay as they are have a place among links. -/
def Link.Steady (pool : SharedInstances) (kept links : List Link) : Prop :=
  ∀ m t n, .gap m t n ∈ links → pool.Stays kept t

theorem Link.Steady.mono (h : Link.Steady pool kept links) {links' : List Link}
    (hsub : links' ⊆ links) : Link.Steady pool kept links' :=
  fun m t n hk => h m t n (hsub hk)

/-- The markers of a region. -/
def Region.markers (r : Region) : NodeId × NodeId := (r.first, r.last)

theorem Region.firsts_eq {regions regions' : List Region}
    (h : regions'.map markers = regions.map markers) :
    regions'.map Region.first = regions.map Region.first := by
  have hfirsts := congrArg (List.map Prod.fst) h
  simpa only [List.map_map, Function.comp_def, markers] using hfirsts

/-- An instance with its markers around what it holds, and with places only for
shared instances that stay. -/
structure Instance.Tidy (pool : SharedInstances) (kept : List Link) (i : Instance) : Prop where
  framed : i.Framed
  steady : Link.Steady pool kept i.links

/-- A region of such an instance. -/
structure Region.Tidy (pool : SharedInstances) (kept : List Link) (r : Region) : Prop where
  framed : r.content.Framed
  apart : r.first ≠ r.last
  steady : Link.Steady pool kept r.links

theorem Region.Tidy.no_run {r : Region} (hr : r.Tidy pool kept) (t : InstanceId)
    (head last : NodeId) : .run (some t) head last ∉ r.links := by
  intro hk
  rcases Content.links_cases r.content hr.framed hr.apart hk with ⟨x, y, heq⟩ | ⟨m, u, n, heq, -⟩
  · cases heq
  · cases heq

theorem Link.source_mem_around (m : NodeId) (w : List NodeId) (n : NodeId) :
    m ∈ (Link.around m w n).map Link.source ∧ n ∈ (Link.around m w n).map Link.target := by
  unfold Link.around
  split <;> simp [Link.source, Link.target]

theorem Region.markers_mem (r : Region) :
    r.first ∈ r.links.map Link.source ∧ r.last ∈ r.links.map Link.target := by
  have haround : ∀ w more, r.links = Link.around r.first w r.last ++ more →
      r.first ∈ r.links.map Link.source ∧ r.last ∈ r.links.map Link.target := by
    intro w more hlinks
    obtain ⟨hfirst, hlast⟩ := Link.source_mem_around r.first w r.last
    rw [hlinks, List.map_append, List.map_append]
    exact ⟨List.mem_append_left _ hfirst, List.mem_append_left _ hlast⟩
  rw [Region.links] at haround ⊢
  cases hcontent : r.content with
  | empty =>
      rw [hcontent] at haround
      exact haround [] [] (List.append_nil _).symm
  | text n data =>
      rw [hcontent] at haround
      exact haround [n] [] (List.append_nil _).symm
  | own inner =>
      rw [hcontent] at haround
      exact haround inner.nodes inner.links rfl
  | shared t => simp [Content.links, Link.source, Link.target]
  | nodes w =>
      rw [hcontent] at haround
      exact haround w _ rfl

namespace Standing

theorem route_region (hs : Standing pool.tops d seat links) (hpool : pool.Sound) {r : Region}
    (hr : r.Tidy pool kept) (hlinks : r.links ⊆ links) (hkept : kept ⊆ links) :
    ∃ w, (r.first :: (w ++ [r.last])).IsChain (Joint seat links) ∧
      w.Sublist (r.content.spanWith pool.span) := by
  have hwalk : Walk pool.span (· ∈ r.links) r.first (r.content.spanWith pool.span ++ [r.last])
      r.last := Content.walk r.content hr.framed fun k hk => hk
  obtain ⟨w, hchain, hlast, hsub, -⟩ := hwalk.route (fun _ _ => False)
    (fun hk => Joint.next (hlinks hk)) fun {m t n} hk => by
      obtain ⟨w, hchain, hwhead, hwlast, hsub, -⟩ := hs.route hpool
        fun link hlink => hkept (hr.steady m t n hk link hlink)
      by_cases hseat : seat t = some m
      · exact ⟨w, hs.through (hlinks hk) hseat hchain hwhead hwlast, hsub, False.elim⟩
      · exact ⟨[], by simpa using .apart (hlinks hk) hseat, List.nil_sublist _, False.elim⟩
  rcases w.eq_nil_or_concat with rfl | ⟨w, e, rfl⟩
  · exact absurd (Option.some.inj hlast) hr.apart
  · rw [List.concat_eq_append] at hchain hlast hsub
    obtain rfl : e = r.last := by simpa [List.getLast?_cons] using hlast
    exact ⟨w, hchain, List.append_sublist_append_right _ |>.mp hsub⟩

theorem strange {old : List Link} (hs : Standing pool.tops d seat (old ++ (others ++ kept)))
    (hsource : z ∈ (old ++ kept).map Link.source) (htarget : z ∈ (old ++ kept).map Link.target) :
    ¬ Link.Meets others z := by
  have hsplit : ∀ {f : Link → NodeId}, ((old ++ (others ++ kept)).map f).Nodup →
      z ∈ (old ++ kept).map f → z ∉ others.map f := by
    intro f hnodup hz hz'
    rw [List.map_append, List.map_append] at hnodup
    obtain ⟨-, hrest, hold⟩ := List.nodup_append.mp hnodup
    rw [List.map_append] at hz
    rcases List.mem_append.mp hz with hz | hz
    · exact hold z hz z (List.mem_append_left _ hz') rfl
    · exact (List.nodup_append.mp hrest).2.2 z hz' z hz rfl
  rintro (hz | hz)
  · exact hsplit hs.sources hsource hz
  · exact hsplit hs.targets htarget hz

end Standing

/-- Nodes of a region come from and lead to its own links or links that are
kept. -/
theorem Region.mem_span (hpool : pool.Sound) {r : Region} (hr : r.Tidy pool kept)
    (hz : z ∈ r.content.spanWith pool.span) :
    z ∈ (r.links ++ kept).map Link.source ∧ z ∈ (r.links ++ kept).map Link.target := by
  have hwalk : Walk pool.span (· ∈ r.links) r.first (r.content.spanWith pool.span ++ [r.last])
      r.last := Content.walk r.content hr.framed fun k hk => hk
  have hown : ∀ {link : Link}, link ∈ r.links → link ∈ r.links ++ kept :=
    fun hk => List.mem_append_left _ hk
  have hinside : ∀ {m t n link}, .gap m t n ∈ r.links → pool.LinkedIn t link →
      link ∈ r.links ++ kept :=
    fun hk hlink => List.mem_append_right _ (hr.steady _ _ _ hk _ hlink)
  constructor
  · have hmem : z ∈ (r.first :: (r.content.spanWith pool.span ++ [r.last])).dropLast := by
      rw [← List.cons_append, List.dropLast_concat]
      exact List.mem_cons_of_mem _ hz
    rcases hwalk.source hmem with ⟨u, hk⟩ | ⟨t, n, hk⟩ | ⟨m, t, n, hk, hz⟩
    · exact List.mem_map.mpr ⟨_, hown hk, rfl⟩
    · exact List.mem_map.mpr ⟨_, hown hk, rfl⟩
    · obtain ⟨link, hlink, rfl⟩ := hpool.mem_span_source hz
      exact List.mem_map_of_mem (hinside hk hlink)
  · rcases hwalk.target (List.mem_append_left _ hz) with ⟨u, hk⟩ | ⟨m, t, hk⟩ | ⟨m, t, n, hk, hz⟩
    · exact List.mem_map.mpr ⟨_, hown hk, rfl⟩
    · exact List.mem_map.mpr ⟨_, hown hk, rfl⟩
    · obtain ⟨link, hlink, rfl⟩ := hpool.mem_span_target hz
      exact List.mem_map_of_mem (hinside hk hlink)

/-! ## Clearing -/

namespace Region

theorem clear_standing (hpool : pool.Sound) {r : Region} (hr : r.Tidy pool kept)
    (hs : Standing pool.tops d seat (r.links ++ (others ++ kept))) :
    Standing pool.tops (r.clear d).2 seat (.next r.first r.last :: (others ++ kept)) ∧
      Spares others d (r.clear d).2 := by
  obtain ⟨hfirst, hlast⟩ := r.markers_mem
  obtain ⟨w, hchain, hsub⟩ := hs.route_region hpool hr (List.subset_append_left _ _)
    fun k hk => List.mem_append_right _ (List.mem_append_right _ hk)
  have hjoined : ∀ p, (r.first :: (w ++ [r.last])).IsChain (Joined (d.children p)) :=
    fun p => hchain.imp fun _ _ hjoint => hs.joined hjoint p
  cases hparent : d.parent? r.first with
  | none =>
      have hclear : (r.clear d).2 = d := by simp only [clear, hparent]
      rw [hclear]
      refine ⟨hs.rejoin hr.no_run hfirst hlast hs.tied (fun _ => id) ?_ ?_, .refl others d⟩
      · exact fun hjoint => hs.joined (hjoint.mono (List.subset_append_right _ _))
      · -- the last marker stands nowhere either
        intro p
        have hnone := (all_or_none (hjoined p)).resolve_left fun hall =>
          hs.tied.notMem_children hparent p (hall _ List.mem_cons_self)
        exact .of_notMem (hnone _ List.mem_cons_self) (hnone _ (by simp))
  | some p =>
      have hmem : r.first ∈ d.children p := (hs.tied.agree p _).mp hparent
      have hrun := infix_of_isChain (hs.tied.nodup p) (hjoined p) List.mem_cons_self hmem
      obtain ⟨-, hafter, hbetween⟩ := hs.tied.between hrun
      have hclear : (r.clear d).2 = d.removeChildren p w := by
        simp only [clear, hparent, hbetween, hafter, if_true]
      have hunder : ∀ z ∈ w, z ∈ d.children p := fun z hz =>
        hrun.subset (List.mem_cons_of_mem _ (List.mem_append_left _ hz))
      have hnodup : w.Nodup := by
        have hwhole := (hs.tied.nodup p).sublist hrun.sublist
        exact (List.nodup_append.mp (List.nodup_cons.mp hwhole).2).1
      rw [hclear]
      refine ⟨hs.cut hr.no_run hfirst hlast hrun, .removeChildren hs.tied hunder hnodup ?_⟩
      intro z hz
      obtain ⟨hsource, htarget⟩ := mem_span hpool hr (hsub.subset hz)
      exact hs.strange hsource htarget

end Region

/-! ## Filling -/

/-- Something that was made is ready to be inserted: `w` is what an insertion
moves, and nothing else stands beside it. -/
structure Ready (d : Document) (seat : Seating) (links others : List Link) (n : NodeId)
    (w : List NodeId) : Prop where
  moved : d.movedBy n = w
  strange : ∀ z ∈ w, ¬ Link.Meets others z
  apart : ∀ z ∈ w, ∀ q, z ∈ d.children q → ∀ y, Link.Meets others y → y ∉ d.children q
  whole : ∀ {x y}, Joint seat links x y → Joined w x y

/-- What a region is to remember of what was made, with the links that came
with it. A shared instance is taken from wherever it sat. -/
inductive Offer (pool : SharedInstances) (kept : List Link) (seat : Seating)
    (w : List NodeId) : Content → List Link → Prop
  | text {n : NodeId} {data : String} (hw : w = [n]) :
      Offer pool kept seat w (.text n data) (Link.ends none [n])
  | own {i : Instance} (hhead : w.head? = i.nodes.head?)
      (hlast : w.getLast? = i.nodes.getLast?) (htidy : i.Tidy pool kept) :
      Offer pool kept seat w (.own i) (Link.ends none i.nodes ++ i.links)
  | nodes {l : List NodeId} : Offer pool kept seat w (.nodes l) (Link.ends none w ++ Link.frame [] w)
  | shared {t : InstanceId} (hseat : seat t = none) (hhead : w.head? = (pool.tops t).head?)
      (hlast : w.getLast? = (pool.tops t).getLast?) (hstays : pool.Stays kept t) :
      Offer pool kept seat w (.shared t) []

/-- A region after a change: its markers are the same, and the document stands
as it says now. -/
structure Region.Turned (pool : SharedInstances) (kept others : List Link) (r : Region)
    (d : Document) (r' : Region) (d' : Document) : Prop where
  first : r'.first = r.first
  last : r'.last = r.last
  tidy : r'.Tidy pool kept
  standing : ∃ seat', Standing pool.tops d' seat' (r'.links ++ (others ++ kept))
  spares : Spares others d d'

theorem Link.steady_of_next (h : ∀ link ∈ links, ∃ x y, link = .next x y) :
    Link.Steady pool kept links := by
  intro m t n hk
  obtain ⟨x, y, heq⟩ := h _ hk
  cases heq

theorem Link.Steady.append {links' : List Link} (h : Link.Steady pool kept links)
    (h' : Link.Steady pool kept links') : Link.Steady pool kept (links ++ links') := by
  intro m t n hk
  exact (List.mem_append.mp hk).elim (h m t n) (h' m t n)

theorem Link.steady_around (m : NodeId) (w : List NodeId) (n : NodeId) :
    Link.Steady pool kept (Link.around m w n) :=
  Link.steady_of_next fun _ hk => Link.next_of_mem_around hk

theorem Link.steady_frame (firsts nodes : List NodeId) :
    Link.Steady pool kept (Link.frame firsts nodes) :=
  Link.steady_of_next fun _ hk => Link.next_of_mem_frame hk

theorem Offer.no_run {w : List NodeId} {content : Content}
    (h : Offer pool kept seat w content new) (t : InstanceId) (head last : NodeId) :
    .run (some t) head last ∉ new := by
  have hends : ∀ w, .run (some t) head last ∉ Link.ends none w := by
    intro w hk
    obtain ⟨x, y, heq⟩ := Link.eq_of_mem_ends hk
    cases heq
  cases h with
  | text _ => exact hends _
  | @own i _ _ htidy =>
      rw [List.mem_append, not_or]
      refine ⟨hends _, fun hk => ?_⟩
      rcases Instance.links_cases i htidy.framed hk with ⟨x, y, heq⟩ | ⟨m, u, n, heq, -⟩
      · cases heq
      · cases heq
  | nodes =>
      rw [List.mem_append, not_or]
      exact ⟨hends _, Link.run_notMem_frame⟩
  | shared _ _ _ _ => exact List.not_mem_nil

theorem Standing.fill_made {w : List NodeId} {inner rest : List Link} {f p : NodeId}
    (hs : Standing pool.tops d seat ((Link.ends none w ++ inner) ++ (.next m n :: rest)))
    (hf : d.contains f = true) (hparent : d.parent? n = some p) (hmoved : d.movedBy f = w)
    (hapart : ∀ z ∈ w, z ∉ d.children p)
    (hw : ∀ {x y}, Joint seat ((Link.ends none w ++ inner) ++ (.next m n :: rest)) x y →
      Joined w x y) :
    Standing pool.tops (d.insertBefore p f (some n)) seat
      ((Link.around m w n ++ inner) ++ rest) := by
  have hperm : ((Link.ends none w ++ inner) ++ (.next m n :: rest)).Perm
      (.next m n :: (Link.ends none w ++ (inner ++ rest))) := by
    rw [← List.append_assoc (Link.ends none w)]
    exact List.perm_middle
  rw [List.append_assoc]
  refine (hs.perm hperm).fill hf hparent hmoved hapart fun hjoint => hw (hjoint.mono ?_)
  intro k hk
  rcases List.mem_append.mp hk with hk | hk <;> simp [hk]

namespace Region

theorem turned_empty {r : Region} (hapart : r.first ≠ r.last)
    (hs : Standing pool.tops d' seat (.next r.first r.last :: (others ++ kept)))
    (hspares : Spares others d d') :
    r.Turned pool kept others d { r with content := .empty } d' where
  first := rfl
  last := rfl
  tidy := ⟨trivial, hapart, fun m t n hk => by simp [links, Content.links, Link.around] at hk⟩
  standing := ⟨seat, hs⟩
  spares := hspares

theorem fill_turned {r : Region} (hapart : r.first ≠ r.last) {n : NodeId} {content : Content}
    {w : List NodeId}
    (hs : Standing pool.tops d seat (new ++ (.next r.first r.last :: (others ++ kept))))
    (hready : Ready d seat (new ++ (.next r.first r.last :: (others ++ kept)))
      (.next r.first r.last :: others) n w)
    (hoffer : Offer pool kept seat w content new) :
    r.Turned pool kept others d ({ r with content := .empty }.fill n content d).1
      ({ r with content := .empty }.fill n content d).2.2 := by
  have hempty := turned_empty hapart (hs.drop hoffer.no_run) (.refl others d)
  cases hparent : d.parent? r.last with
  | none => simpa only [fill, hparent] using hempty
  | some p =>
      cases hcontains : d.contains n with
      | false => simpa only [fill, hparent, hcontains, Bool.false_eq_true, if_false] using hempty
      | true =>
          have hbeside : Beside (d.children p) r.first r.last :=
            hs.joined (.next (by simp)) p (.inr ((hs.tied.agree p _).mp hparent))
          have hoff : ∀ z ∈ w, z ∉ d.children p := by
            intro z hz hmem
            refine hready.apart z hz p hmem r.last (.inr (by simp [Link.target])) ?_
            exact (hs.tied.agree p _).mp hparent
          have hspares : Spares others d (d.insertBefore p n (some r.last)) := by
            refine .insertBetween hs.tied hcontains hbeside hready.moved hoff fun z hz hmeets => ?_
            exact hready.strange z hz (hmeets.mono (List.subset_cons_self _ _))
          simp only [fill, hparent, hcontains, if_true]
          cases hoffer with
          | @text k data hw =>
              subst hw
              rw [← List.append_nil (Link.ends none [k])] at hs hready
              have hstanding := hs.fill_made hcontains hparent hready.moved hoff hready.whole
              rw [List.append_nil] at hstanding
              exact ⟨rfl, rfl, ⟨trivial, hapart, Link.steady_around r.first [k] r.last⟩,
                ⟨seat, hstanding⟩, hspares⟩
          | @own i hhead hlast htidy =>
              rw [← Link.ends_congr hhead hlast] at hs hready
              have hstanding := hs.fill_made hcontains hparent hready.moved hoff hready.whole
              rw [Link.around_congr hhead hlast] at hstanding
              exact ⟨rfl, rfl, ⟨htidy.framed, hapart, (Link.steady_around _ _ _).append htidy.steady⟩,
                ⟨seat, hstanding⟩, hspares⟩
          | nodes =>
              have hstanding := hs.fill_made hcontains hparent hready.moved hoff hready.whole
              obtain ⟨before, behind, -, hchildren, -⟩ :=
                hs.tied.children_between (f := n) hbeside hready.moved hoff
              have hrun : r.first :: (w ++ [r.last]) <:+:
                  (d.insertBefore p n (some r.last)).children p :=
                ⟨before, behind, by simp [hchildren]⟩
              have hbetween := (hstanding.tied.between hrun).2.2
              simp only [hbetween]
              exact ⟨rfl, rfl, ⟨trivial, hapart,
                (Link.steady_around _ _ _).append (Link.steady_frame _ _)⟩, ⟨seat, hstanding⟩,
                hspares⟩
          | @shared t hseat hhead hlast hstays =>
              obtain ⟨seat', hstanding⟩ := Standing.seat_shared (t := t) hs hcontains hparent
                hready.moved hoff (fun hjoint => hready.whole (hjoint.mono (by simp))) hseat hhead
                hlast
              refine ⟨rfl, rfl, ⟨trivial, hapart, ?_⟩, ⟨seat', hstanding⟩, hspares⟩
              intro m u n hk
              obtain ⟨-, rfl, -⟩ := Link.gap.inj (List.mem_singleton.mp hk)
              exact hstays

end Region

/-! ## Renderings -/

/-- A rendering makes something that is ready to be inserted, or fails, and
touches nothing else. -/
def Rendering.Places (pool : SharedInstances) (kept : List Link) (rendering : Rendering) :
    Prop :=
  ∀ (others : List Link) {d : Document} {seat : Seating},
    Standing pool.tops d seat (others ++ kept) →
    match rendering.fresh d with
    | (.error _, d') =>
        ∃ seat', Standing pool.tops d' seat' (others ++ kept) ∧ Spares others d d'
    | (.ok (n, content), d') =>
        ∃ seat' w new, Standing pool.tops d' seat' (new ++ (others ++ kept)) ∧
          Ready d' seat' (new ++ (others ++ kept)) others n w ∧
          Offer pool kept seat' w content new ∧ Spares others d d'

/-- An instance after a change: its top-level nodes and its markers are the same,
and the document stands as it says now. -/
structure Instance.Turned (pool : SharedInstances) (kept others : List Link) (i : Instance)
    (d : Document) (i' : Instance) (d' : Document) : Prop where
  fragment : i'.fragment = i.fragment
  nodes : i'.nodes = i.nodes
  markers : i'.regions.map Region.markers = i.regions.map Region.markers
  tidy : i'.Tidy pool kept
  standing : ∃ seat', Standing pool.tops d' seat' (i'.links ++ (others ++ kept))
  spares : Spares others d d'

/-- A supply renders a value, and changes an instance of the value's template. -/
structure Supply.Turns (pool : SharedInstances) (kept : List Link) (s : Supply) : Prop where
  places : s.2.Places pool kept
  again : ∀ {source values}, s.1 = .template source values →
    ∀ {i : Instance} {d : Document} {seat : Seating} {others : List Link},
      i.Tidy pool kept → Standing pool.tops d seat (i.links ++ (others ++ kept)) →
      i.Turned pool kept others d (s.2.again i d).1 (s.2.again i d).2.2

namespace Region

theorem Turned.after {r r' : Region} {d'' : Document} (h : r.Turned pool kept others d' r' d'')
    (hspares : Spares others d d') : r.Turned pool kept others d r' d'' :=
  ⟨h.first, h.last, h.tidy, h.standing, hspares.trans h.spares⟩

theorem replace_turned (hpool : pool.Sound) {r : Region} (hr : r.Tidy pool kept)
    {rendering : Rendering} (hplaces : rendering.Places pool kept)
    (hs : Standing pool.tops d seat (r.links ++ (others ++ kept))) :
    r.Turned pool kept others d (r.replace rendering d).1 (r.replace rendering d).2.2 := by
  obtain ⟨hcleared, hspares⟩ := clear_standing hpool hr hs
  have hclear : { r with content := .empty }.clear d = r.clear d := rfl
  rw [replace, hclear]
  generalize r.clear d = cleared at hcleared hspares
  obtain ⟨e, d₁⟩ := cleared
  cases e with
  | some e => exact turned_empty hr.apart hcleared hspares
  | none =>
      have hfresh := hplaces (.next r.first r.last :: others) hcleared
      generalize hrendered : rendering.fresh d₁ = rendered at hfresh
      obtain ⟨e | ⟨n, content⟩, d₂⟩ := rendered
      · obtain ⟨seat', hs₂, hspares₂⟩ := hfresh
        simp only [hrendered]
        exact turned_empty hr.apart hs₂ (hspares.trans (hspares₂.mono (List.subset_cons_self _ _)))
      · obtain ⟨seat', w, new, hs₂, hready, hoffer, hspares₂⟩ := hfresh
        simp only [hrendered]
        exact (fill_turned hr.apart hs₂ hready hoffer).after
          (hspares.trans (hspares₂.mono (List.subset_cons_self _ _)))

theorem update_turned (hpool : pool.Sound) (spans : InstanceId → List NodeId) {r : Region}
    (hr : r.Tidy pool kept) {s : Supply} (hturns : s.Turns pool kept)
    (hs : Standing pool.tops d seat (r.links ++ (others ++ kept))) :
    r.Turned pool kept others d (r.update spans s d).1 (r.update spans s d).2.2 := by
  have hreplace := replace_turned hpool hr hturns.places hs
  have hself : r.Turned pool kept others d r d := ⟨rfl, rfl, hr, ⟨seat, hs⟩, .refl others d⟩
  rw [update]
  split
  · split
    · exact hself
    · exact hreplace
  · rename_i inner source values hcontent hvalue
    split
    · -- the instance of the region turns, with the rest of the links beside it
      obtain ⟨path, placeholder, first, last, content⟩ := r
      subst hcontent
      have hinner : inner.Tidy pool kept :=
        ⟨hr.framed, hr.steady.mono (List.subset_append_right _ _)⟩
      have hperm (i : Instance) :=
        Link.perm_aside (Link.around first i.nodes last) i.links others kept
      obtain ⟨-, hnodes, -, htidy, ⟨seat', hs'⟩, hspares⟩ :=
        hturns.again hvalue hinner (hs.perm (hperm inner))
      refine ⟨rfl, rfl, ⟨htidy.framed, hr.apart, (Link.steady_around _ _ _).append htidy.steady⟩,
        ⟨seat', ?_⟩, hspares.mono (List.subset_append_right _ _)⟩
      rw [← hnodes] at hs'
      exact hs'.perm (hperm _).symm
    · exact hreplace
  · rename_i _ _ n data hcontent
    split
    · split
      · exact hself
      · obtain ⟨path, placeholder, first, last, content⟩ := r
        subst hcontent
        have hshape := Document.sameShape_setText d n s.1.text
        refine ⟨rfl, rfl, ⟨trivial, hr.apart, hr.steady⟩, ⟨seat, ?_⟩, .of_shape hshape⟩
        exact hs.of_views (hshape.tied hs.tied) hshape.children fun _ => hshape.insertable
    · exact hreplace
  · exact hreplace

theorem updateAll_turned (hpool : pool.Sound) (spans : InstanceId → List NodeId)
    {supplies : List Supply} (hturns : ∀ k, (supplyAt supplies k).Turns pool kept)
    {regions : List Region} (hregions : ∀ r ∈ regions, r.Tidy pool kept)
    (hs : Standing pool.tops d seat (linksAll regions ++ (others ++ kept))) :
    (updateAll spans supplies regions d).1.map markers = regions.map markers ∧
      (∀ r ∈ (updateAll spans supplies regions d).1, r.Tidy pool kept) ∧
      (∃ seat', Standing pool.tops (updateAll spans supplies regions d).2.2 seat'
        (linksAll (updateAll spans supplies regions d).1 ++ (others ++ kept))) ∧
      Spares others d (updateAll spans supplies regions d).2.2 := by
  induction regions generalizing d seat others with
  | nil => exact ⟨rfl, by simp [updateAll], ⟨seat, hs⟩, .refl others d⟩
  | cons r rest ih =>
      obtain ⟨hr, hrest⟩ := List.forall_mem_cons.mp hregions
      rw [linksAll_cons, List.append_assoc, ← List.append_assoc (linksAll rest)] at hs
      have hturned := update_turned hpool spans hr (hturns r.placeholder) hs
      rw [updateAll]
      generalize r.update spans (supplyAt supplies r.placeholder) d = updated at hturned
      obtain ⟨r', e, d₁⟩ := updated
      obtain ⟨hfirst, hlast, htidy, ⟨seat₁, hs₁⟩, hspares⟩ := hturned
      have hmarkers : r'.markers = r.markers := by
        simp only [markers]
        exact Prod.ext hfirst hlast
      cases e with
      | some e =>
          refine ⟨by simp [hmarkers], List.forall_mem_cons.mpr ⟨htidy, hrest⟩, ⟨seat₁, ?_⟩,
            hspares.mono (List.subset_append_right _ _)⟩
          rw [linksAll_cons, List.append_assoc, ← List.append_assoc (linksAll rest)]
          exact hs₁
      | none =>
          -- the first region stays as it is now while the others are updated
          have hperm : ∀ rest : List Link, (r'.links ++ ((rest ++ others) ++ kept)).Perm
              (rest ++ ((r'.links ++ others) ++ kept)) := fun rest => by
            simpa only [List.append_assoc] using Link.perm_aside r'.links rest others kept
          obtain ⟨hmarkers', htidy', ⟨seat₂, hs₂⟩, hspares'⟩ := ih hrest (hs₁.perm (hperm _))
          refine ⟨by simp [hmarkers, hmarkers'], List.forall_mem_cons.mpr ⟨htidy, htidy'⟩,
            ⟨seat₂, ?_⟩, (hspares.mono (List.subset_append_right _ _)).trans
              (hspares'.mono (List.subset_append_right _ _))⟩
          rw [linksAll_cons, List.append_assoc, ← List.append_assoc (linksAll _)]
          exact hs₂.perm (hperm _).symm

end Region

/-! ## Supplying -/

namespace Instance

theorem Tidy.region {i : Instance} (hi : i.Tidy pool kept) {r : Region} (hr : r ∈ i.regions) :
    r.Tidy pool kept := by
  obtain ⟨source, fragment, nodes, elements, regions⟩ := i
  obtain ⟨hframed, hsteady⟩ := hi
  refine ⟨Region.framedAll_iff.mp hframed.2.2.2.2 r hr, hframed.2.2.2.1 r hr r hr, ?_⟩
  refine hsteady.mono fun k hk => ?_
  rw [links_eq]
  exact List.mem_append_right _ (Region.mem_linksAll.mpr ⟨r, hr, hk⟩)

theorem Tidy.of_markers {i : Instance} (hi : i.Tidy pool kept) {regions : List Region}
    (hmarkers : regions.map Region.markers = i.regions.map Region.markers)
    (hregions : ∀ r ∈ regions, r.Tidy pool kept) :
    { i with regions := regions }.Tidy pool kept := by
  obtain ⟨source, fragment, nodes, elements, old⟩ := i
  obtain ⟨⟨hnodes, hdistinct, hbeside, hapart, -⟩, hsteady⟩ := hi
  have hfirsts := Region.firsts_eq hmarkers
  have hold : ∀ r ∈ regions, ∃ q ∈ old, q.first = r.first ∧ q.last = r.last := by
    intro r hr
    have hmem : r.markers ∈ old.map Region.markers := hmarkers ▸ List.mem_map_of_mem hr
    obtain ⟨q, hq, heq⟩ := List.mem_map.mp hmem
    exact ⟨q, hq, (Prod.mk.inj heq).1, (Prod.mk.inj heq).2⟩
  refine ⟨⟨hnodes, hfirsts ▸ hdistinct, ?_, ?_, ?_⟩, ?_⟩
  · intro r hr hmem
    obtain ⟨q, hq, hfirst, hlast⟩ := hold r hr
    rw [← hfirst, ← hlast]
    exact hbeside q hq (hfirst ▸ hmem)
  · intro r hr r' hr'
    obtain ⟨q, hq, -, hlast⟩ := hold r hr
    obtain ⟨q', hq', hfirst, -⟩ := hold r' hr'
    rw [← hfirst, ← hlast]
    exact hapart q hq q' hq'
  · exact Region.framedAll_iff.mpr fun r hr => (hregions r hr).framed
  · rw [links_eq]
    refine (Link.steady_frame _ _).append fun m t n hk => ?_
    obtain ⟨r, hr, hk⟩ := Region.mem_linksAll.mp hk
    exact (hregions r hr).steady m t n hk

theorem supply_turned (hpool : pool.Sound) (spans : InstanceId → List NodeId)
    {supplies : List Supply} (hturns : ∀ k, (supplyAt supplies k).Turns pool kept)
    {i : Instance} (hi : i.Tidy pool kept)
    (hs : Standing pool.tops d seat (i.links ++ (others ++ kept))) :
    i.Turned pool kept others d (i.supply spans supplies d).1 (i.supply spans supplies d).2.2 := by
  have hshape := sameShape_applyBindings (fun index => (supplyAt supplies index).1)
    (i.source.template.attributes.zip i.elements) d
  rw [supply]
  generalize applyBindings (fun index => (supplyAt supplies index).1)
    (i.source.template.attributes.zip i.elements) d = d₁ at hshape
  have hs₁ := hs.of_views (hshape.tied hs.tied) hshape.children fun _ => hshape.insertable
  have hperm (links : List Link) :=
    Link.perm_aside (Link.frame (i.regions.map Region.first) i.nodes) links others kept
  rw [links_eq] at hs₁
  obtain ⟨hmarkers, htidy, ⟨seat', hs'⟩, hspares⟩ :=
    Region.updateAll_turned hpool spans hturns (fun r => hi.region) (hs₁.perm (hperm _))
  refine ⟨rfl, rfl, hmarkers, hi.of_markers hmarkers htidy, ⟨seat', ?_⟩,
    Spares.trans (.of_shape hshape) (hspares.mono (List.subset_append_right _ _))⟩
  rw [links_eq, Region.firsts_eq hmarkers]
  exact hs'.perm (hperm _).symm

end Instance

end LiveMarkup
