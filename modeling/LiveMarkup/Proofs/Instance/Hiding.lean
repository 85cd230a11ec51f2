import LiveMarkup.Proofs.Instance.Lifting
import LiveMarkup.Proofs.Instance.Lives

/-!
# Hiding and showing

A region that is given a shared instance puts its nodes between the markers,
wherever they were before. Giving the region something else takes them out one by
one, and leaves what is in and under each of them as it is; so the instance can be
shown again, in any region, exactly as it was.
-/

namespace LiveMarkup

open Branch (idsAll tops)

variable {d d' : Document} {r r' : Region} {id : InstanceId} {bs : List Branch}
  {spans : InstanceId → List NodeId}

namespace Region

/-- Gives a region a value. -/
def give (spans : InstanceId → List NodeId) (v : Value) (r : Region) (d : Document) :
    Region × Option PatchError × Document :=
  r.update spans (v, v.rendering spans) d

/-- The markers of a region. -/
def marks (r : Region) : List Branch :=
  [.comment r.first "", .comment r.last ""]

/-- A region with its last marker behind its first one, neither of them in or under some
nodes. -/
structure Open (r : Region) (d : Document) (span : List NodeId) : Prop where
  marked : d.Intact r.marks
  stands : r.last ∈ d.siblingsAfter r.first
  outside : ∀ z ∈ span, ¬ d.Within r.first z ∧ ¬ d.Within r.last z

/-- A region that an instance can be given to whole: where the region would be left alone since
the instance begins between its markers, the instance is there and nothing else. -/
structure Receives (r : Region) (d : Document) (id : InstanceId) (span : List NodeId) : Prop
    extends r.Open d span where
  whole : r.content = .shared id → r.holds span d = true → d.between r.first r.last = span

/-- A region right under a node that stands nowhere. -/
theorem open_of_root {p : NodeId} {span : List NodeId} (hmarked : d.Grows (some p) r.marks)
    (hstands : r.last ∈ d.siblingsAfter r.first) (hroot : d.parent? p = none)
    (hapart : r.first ∉ span ∧ r.last ∉ span ∧ p ∉ span) : r.Open d span := by
  have hfirst : d.parent? r.first = some p := by simp [Document.parent?, hmarked.1.1]
  have hlast : d.parent? r.last = some p := by simp [Document.parent?, hmarked.2.1.1]
  have hup : ∀ k z, d.parent? k = some p → d.Within k z → z = k ∨ z = p := by
    intro k z hk hwithin
    rcases hwithin.cases_head with rfl | ⟨q, hq, hqz⟩
    · exact .inl rfl
    · obtain rfl : q = p := Option.some.inj (hq.symm.trans hk)
      rcases hqz.cases_head with rfl | ⟨q', hq', -⟩
      · exact .inr rfl
      · cases hroot.symm.trans hq'
  refine ⟨hmarked.intact, hstands, fun z hz => ⟨fun hwithin => ?_, fun hwithin => ?_⟩⟩
  · rcases hup _ z hfirst hwithin with rfl | rfl
    · exact hapart.1 hz
    · exact hapart.2.2 hz
  · rcases hup _ z hlast hwithin with rfl | rfl
    · exact hapart.2.1 hz
    · exact hapart.2.2 hz

/-! ## Showing -/

theorem give_shared
    (h : ¬ (r.content = .shared id ∧ r.holds (spans id) d = true)) :
    r.give spans (.shared id) d = r.replace ((Value.shared id).rendering spans) d := by
  rw [give, update]
  split
  · rename_i current next hcontent hvalue
    obtain rfl : id = next := Value.shared.inj hvalue
    rw [if_neg]
    rintro ⟨rfl, hholds⟩
    exact h ⟨hcontent, hholds⟩
  · rename_i hvalue
    cases hvalue
  · rfl
  · rfl

theorem Open.strewn (h : r.Open d (tops bs)) (hs : d.Strewn bs) : d.Strewn (r.marks ++ bs) := by
  obtain ⟨p, hparent, hrun⟩ := hs.tied.run_of_mem_siblingsAfter h.stands
  have hnodup := (hs.tied.nodup p).sublist hrun.sublist
  have hne : r.first ≠ r.last := by
    rintro heq
    simp [heq] at hnodup
  have hmarks : d.Strewn r.marks := by
    refine ⟨hs.tied, h.marked, ?_, ?_⟩
    · simpa [marks, Branch.comment] using hne
    · simp [marks, Branch.comment, Branch.kind]
  have hbeside : d.Strewn ([] ++ bs) := hs
  have hadded := hbeside.add hmarks fun k hk hmem => ?_
  · exact hadded
  · obtain ⟨t, ht, hwithin⟩ := hs.intact.within hmem
    have hk : k = r.first ∨ k = r.last := by simpa [marks, Branch.comment] using hk
    rcases hk with rfl | rfl
    · exact (h.outside t ht).1 hwithin
    · exact (h.outside t ht).2 hwithin

/-- Giving a region a shared instance never fails and changes nothing in or under its nodes.
They are between the markers afterwards, in their order, exactly if the region receives them
whole. -/
theorem Open.give (h : r.Open d (tops bs)) (hs : d.Strewn bs) (hspan : spans id = tops bs) :
    ∃ d', r.give spans (.shared id) d = ({ r with content := .shared id }, none, d') ∧
      d'.Strewn (r.marks ++ bs) ∧ r.last ∈ d'.siblingsAfter r.first ∧
      (d'.between r.first r.last = tops bs ↔ r.Receives d id (tops bs)) := by
  have hall := h.strewn hs
  by_cases hthere : r.content = .shared id ∧ r.holds (spans id) d = true
  · obtain ⟨hcontent, hholds⟩ := hthere
    refine ⟨d, ?_, hall, h.stands, fun hbetween => ⟨h, fun _ _ => hbetween⟩,
      fun hr => hr.whole hcontent (hspan ▸ hholds)⟩
    rw [Region.give, update, hcontent]
    simp only [hholds, and_self, if_true]
    obtain ⟨path, placeholder, first, last, content⟩ := r
    obtain rfl : content = .shared id := hcontent
    rfl
  · have hreceives : r.Receives d id (tops bs) :=
      ⟨h, fun hcontent hholds => absurd ⟨hcontent, hspan ▸ hholds⟩ hthere⟩
    rw [give_shared hthere]
    obtain ⟨p, hparent, hclear, hbeside⟩ :=
      clear_of_mem (r := { r with content := .empty }) hs.tied h.stands
    dsimp only at hparent hclear hbeside
    have hfirst : r.first ∈ tops (r.marks ++ bs) := by simp [marks, Branch.comment]
    have hp := hall.parent_notMem hfirst hparent
    have hcleared := hall.removeChildren hp (d.between r.first r.last)
    generalize d.removeChildren p (d.between r.first r.last) = d₁ at hclear hbeside hcleared
    have hsub : tops bs ⊆ tops (r.marks ++ bs) := by simp
    have hdistinct : (tops bs).Nodup := Branch.tops_nodup hs.distinct
    obtain ⟨hfragment, hmoved, hparents, hothers⟩ := hcleared.tied.gather_moved
      (fun t ht => hcleared.insertable (hsub ht)) hdistinct
    have hgathered := hcleared.gather hsub
    have hcontains : d₁.contains p = true := Document.contains_of_mem_children hbeside.left_mem
    have hpf : p ≠ d₁.size := Nat.ne_of_lt (of_decide_eq_true hcontains)
    have hapart : ∀ k ∈ idsAll r.marks, k ∉ tops bs := by
      have hnodup := hall.distinct
      rw [Branch.idsAll_append] at hnodup
      exact fun k hk hmem => (List.nodup_append.mp hnodup).2.2 k hk k
        (Branch.tops_subset_idsAll bs hmem) rfl
    have hbeside' : Beside ((d₁.gather (tops bs)).2.children p) r.first r.last := by
      rw [hothers p hpf]
      refine beside_filter (w := []) hbeside (List.nil_subset _) (hapart _ ?_) (hapart _ ?_)
      all_goals simp [marks, Branch.comment]
    have hloose : ∀ z ∈ tops bs, z ∉ (d₁.gather (tops bs)).2.children p := by
      intro z hz hmem
      have hunder := (hgathered.tied.agree p z).mpr hmem
      exact hpf (Option.some.inj (hunder.symm.trans (hparents z hz)))
    obtain ⟨hfill, -, hstands, hbetween⟩ := fill_beside (r := { r with content := .empty })
      hgathered.tied hbeside' hfragment hmoved hloose (.shared id)
    have hp' : (d₁.gather (tops bs)).2.contains p = true :=
      Document.contains_of_mem_children hbeside'.left_mem
    have hmoves : (d₁.gather (tops bs)).2.movedBy d₁.size ⊆ tops (r.marks ++ bs) := by
      rw [hmoved]
      exact hsub
    refine ⟨(d₁.gather (tops bs)).2.insertBefore p d₁.size (some r.last), ?_,
      hgathered.insertBefore hp' hp hfragment hmoves _, hstands, iff_of_true hbetween hreceives⟩
    rw [replace, hclear]
    simp only [Value.rendering, hspan]
    exact hfill

/-! ## Hiding -/

/-- The nodes of a region, markers included, but for those of a shared instance. -/
def span (r : Region) : List NodeId :=
  r.first :: (r.content.spanWith (fun _ => []) ++ [r.last])

/-- A region is given plain values one after the other, whether that fails or not, while the
document may change as long as nobody else changes what is in or under the nodes of the
region or those of an instance. -/
inductive Course (span : List NodeId) (r : Region) (d : Document) :
    List Value → Region → Document → Prop
  | start : Course span r d [] r d
  | give {values : List Value} {r' : Region} {d' : Document} (h : Course span r d values r' d')
      (spans : InstanceId → List NodeId) {v : Value}
      (hplain : v.IsPlain CompiledTemplate.HasNodes) :
      Course span r d (values ++ [v]) (r'.give spans v d').1 (r'.give spans v d').2.2
  | meanwhile {values : List Value} {r' : Region} {d' d'' : Document}
      (h : Course span r d values r' d') (hd : d''.Tied)
      (hsame : Document.SameUnder (r'.span ++ span) d' d'') : Course span r d values r' d''

theorem give_plain {v : Value} (hcontent : r.content = .shared id)
    (hplain : v.IsPlain CompiledTemplate.HasNodes) :
    r.give spans v d = { r with content := .empty }.replace (v.rendering spans) d := by
  have hreplace : r.give spans v d = r.replace (v.rendering spans) d := by
    rw [Region.give, update, hcontent]
    cases v <;> first | rfl | exact hplain.elim
  exact hreplace

/-- Giving a plain value to a region that holds a shared instance takes out all that is between
the markers. -/
theorem hides (hd : d.Tied) (hstands : r.last ∈ d.siblingsAfter r.first)
    (hcontent : r.content = .shared id) (spans : InstanceId → List NodeId) {v : Value}
    (hplain : v.IsPlain CompiledTemplate.HasNodes) :
    ∃ r' d', r.give spans v d = (r', none, d') ∧
      ∀ z ∈ d.between r.first r.last, d'.parent? z = none := by
  have hshows := Value.shows spans v (hplain.mono fun _ => CompiledTemplate.HasNodes.compiled)
  obtain ⟨p, n, content, d₂, held, hparent, hrendered, hd₂, -, -, hreplace⟩ :=
    replace_of_mem (r := { r with content := .empty }) hshows.fresh
      (hplain.showable.ties spans).fresh hd hstands
  rw [give_plain hcontent hplain, hreplace]
  refine ⟨_, _, rfl, fun z hz => ?_⟩
  obtain ⟨q, hq, hrun⟩ := hd.run_of_mem_siblingsAfter hstands
  obtain rfl : p = q := Option.some.inj (hparent.symm.trans hq)
  have hunder : ∀ z ∈ d.between r.first r.last, z ∈ d.children p := fun z hz =>
    hrun.subset (List.mem_cons_of_mem _ (List.mem_append_left _ hz))
  have hdistinct : (d.between r.first r.last).Nodup :=
    (hd.nodup p).sublist (((List.sublist_append_left _ _).cons _).trans hrun.sublist)
  have hz' : z < d.size := of_decide_eq_true
    (Document.contains_of_parent? ((hd.agree p z).mpr (hunder z hz)))
  have hsize := Document.size_removeChildren d p (d.between r.first r.last)
  -- clearing leaves it without a parent, and nothing that is there is inserted
  have hnone := hd.parent?_removeChildren hunder hdistinct hz
  have hsame := hrendered.grown.same z (hsize ▸ hz')
  have hfresh : z ∉ d₂.movedBy n := by
    rw [hrendered.loose.movedBy]
    intro hmem
    have hge := hrendered.fresh z (Branch.tops_subset_idsAll held hmem)
    exact Nat.not_lt.mpr hge (hsize ▸ hz')
  rw [hd₂.parent?_insertBefore hrendered.loose.contains, if_neg hfresh, Document.parent?, hsame]
  exact hnone

/-- A region with what is between its markers, strewn beside an instance. The region
remembers the instance until it is given a plain value. -/
structure Alongside (bs : List Branch) (id : InstanceId) (values : List Value) (r : Region)
    (d : Document) (m : Mark) : Prop where
  strewn : d.Strewn (m.branches ++ bs)
  placeholder : r.placeholder = m.placeholder
  first : r.first = m.first
  last : r.last = m.last
  content : values = [] ∧ r.content = .shared id ∧ m.held = [] ∨
    values ≠ [] ∧ r.content.Fits CompiledTemplate.someNodes m.held

theorem Alongside.span_eq {values : List Value} {m : Mark}
    (h : r.Alongside bs id values d m) : r.span = tops m.branches := by
  have hspan : r.content.spanWith (fun _ => []) = tops m.held := by
    rcases h.content with ⟨-, hcontent, hheld⟩ | ⟨-, hfit⟩
    · rw [hcontent, hheld]
      rfl
    · refine Content.spanWith_of_fits _ _ hfit (h.strewn.distinct.sublist ?_)
      refine Branch.idsAll_sublist ?_
      exact (((List.sublist_append_left _ _).cons _).trans (List.sublist_append_left _ _))
  rw [span, hspan, h.first, h.last]
  simp [Mark.branches, Branch.comment]

theorem Alongside.give {values : List Value} {m : Mark} (h : r.Alongside bs id values d m)
    (spans : InstanceId → List NodeId) {v : Value}
    (hplain : v.IsPlain CompiledTemplate.HasNodes) :
    ∃ held, (r.give spans v d).1.Alongside bs id (values ++ [v]) (r.give spans v d).2.2
      { m with held := held } := by
  have hshows := Value.shows spans v (hplain.mono fun _ => CompiledTemplate.HasNodes.compiled)
  have hserves := hplain.showable.serves spans
  have hs : d.Strewn ([] ++ m.branches ++ bs) := h.strewn
  rcases h.content with ⟨-, hcontent, hheld⟩ | ⟨-, hfit⟩
  · have hfit : Region.Fits CompiledTemplate.someNodes { r with content := .empty } m :=
      ⟨h.placeholder, h.first, h.last, hheld⟩
    obtain ⟨r', e, d', held, hreplace, hfit', hdrift⟩ :=
      drift_replace hshows.fresh hserves.ties.fresh hfit hs
    rw [give_plain hcontent hplain, hreplace]
    exact ⟨held, hdrift.strewn, hfit'.placeholder, hfit'.first, hfit'.last,
      .inr ⟨by simp, hfit'.content⟩⟩
  · obtain ⟨r', e, d', held, hupdate, hfit', hdrift⟩ :=
      drift_update spans hshows hserves.ties.fresh hserves.drifts
        (r := r) ⟨h.placeholder, h.first, h.last, hfit⟩ hs
    rw [Region.give, hupdate]
    exact ⟨held, hdrift.strewn, hfit'.placeholder, hfit'.first, hfit'.last,
      .inr ⟨by simp, hfit'.content⟩⟩

/-- Once a region was given something else, the instance can be given to it again as soon as
its markers stand where something can be. -/
theorem Alongside.receives {values : List Value} {m : Mark}
    (h : r.Alongside bs id values d m) (hvalues : values ≠ [])
    (hstands : r.last ∈ d.siblingsAfter r.first) : r.Receives d id (tops bs) := by
  have hmarks : ∀ b ∈ r.marks, b ∈ m.branches := by
    rw [marks, h.first, h.last]
    simp [Mark.branches]
  have hs := h.strewn.sublist (List.sublist_append_right m.branches bs)
  have hdistinct := h.strewn.distinct
  rw [Branch.idsAll_append] at hdistinct
  have hapart : ∀ k ∈ idsAll m.branches, ∀ z ∈ tops bs, ¬ d.Within k z := fun k hk z hz hwithin =>
    (List.nodup_append.mp hdistinct).2.2 k hk k
      (hs.mem_of_within (Branch.tops_subset_idsAll bs hz) hwithin) rfl
  refine ⟨⟨fun b hb => h.strewn.intact b (List.mem_append_left _ (hmarks b hb)), hstands,
    fun z hz => ⟨hapart _ ?_ z hz, hapart _ ?_ z hz⟩⟩, fun hcontent => ?_⟩
  · simp [h.first, Mark.branches, Branch.comment]
  · simp [h.last, Mark.branches, Branch.comment]
  · rcases h.content with ⟨hnil, -⟩ | ⟨-, hfit⟩
    · exact absurd hnil hvalues
    · rw [hcontent] at hfit
      exact hfit.elim

theorem Course.alongside {values : List Value} (h : r.Course (tops bs) d values r' d')
    (hcontent : r.content = .shared id) (hs : d.Strewn (r.marks ++ bs)) :
    ∃ m, r'.Alongside bs id values d' m ∧ m.first = r.first ∧ m.last = r.last := by
  induction h with
  | start =>
      exact ⟨⟨r.placeholder, r.first, r.last, []⟩, ⟨hs, rfl, rfl, rfl, .inl ⟨rfl, hcontent, rfl⟩⟩,
        rfl, rfl⟩
  | give _ spans hplain ih =>
      obtain ⟨m, hbeside, hfirst, hlast⟩ := ih
      obtain ⟨held, hgiven⟩ := hbeside.give spans hplain
      exact ⟨_, hgiven, hfirst, hlast⟩
  | meanwhile _ hd hsame ih =>
      obtain ⟨m, hbeside, hfirst, hlast⟩ := ih
      rw [hbeside.span_eq, ← Branch.tops_append] at hsame
      exact ⟨m, ⟨hbeside.strewn.same hd hsame, hbeside.placeholder, hbeside.first, hbeside.last,
        hbeside.content⟩, hfirst, hlast⟩

theorem lives_on {i : Instance} {pool : SharedInstances} (hlives : i.Lives d)
    (hi : pool[id]? = some i) (hr : r.Open d i.span) {values : List Value}
    (hcourse : Course i.span (r.give pool.span (.shared id) d).1
      (r.give pool.span (.shared id) d).2.2 values r' d') : i.Lives d' := by
  obtain ⟨bs, hfit, hs⟩ := hlives.strewn
  have hspan := Instance.span_of_fits hfit hs.distinct
  rw [hspan] at hr hcourse
  obtain ⟨d₁, hgive, hs₁, -⟩ := hr.give hs (SharedInstances.span_of_fits hi hfit hs.distinct)
  rw [hgive] at hcourse
  obtain ⟨m, hbeside, -⟩ := hcourse.alongside rfl hs₁
  have hs' : d'.Strewn bs := hbeside.strewn.sublist (List.sublist_append_right m.branches bs)
  exact hlives.meanwhile hs'.tied (hspan ▸ hs.sameUnder hs')

end Region

/-! ## Places in a coherent stage -/

section

variable {markup : CompiledTemplate → List Node} {t : InstanceId}

mutual

theorem Instance.content_ne_shared : (i : Instance) → {bs : List Branch} → i.Fits markup bs →
    ∀ r ∈ i.allRegions, r.content ≠ .shared t
  | ⟨_, _, _, _, regions⟩, _, hfit => by
      rw [Instance.Fits] at hfit
      rw [Instance.allRegions]
      obtain ⟨-, marks, -, -, hregions⟩ := hfit
      exact Region.content_ne_shared regions hregions

theorem Region.content_ne_shared : (regions : List Region) → {marks : List Mark} →
    Region.FitAll markup regions marks → ∀ r ∈ Region.allRegions regions, r.content ≠ .shared t
  | [], _, _ => nofun
  | ⟨_, _, _, _, _⟩ :: _, [], hfit => by cases hfit
  | ⟨path, placeholder, first, last, content⟩ :: rest, m :: marks, hfit => by
      rw [Region.FitAll] at hfit
      rw [Region.allRegions]
      obtain ⟨-, -, -, hcontent, hrest⟩ := hfit
      intro r hr
      rcases List.mem_cons.mp hr with rfl | hr
      · rintro rfl
        exact hcontent.elim
      · rcases List.mem_append.mp hr with hr | hr
        · exact Content.content_ne_shared content hcontent r hr
        · exact Region.content_ne_shared rest hrest r hr

theorem Content.content_ne_shared : (content : Content) → {bs : List Branch} →
    content.Fits markup bs → ∀ r ∈ content.allRegions, r.content ≠ .shared t
  | .own inner, _, hfit => by
      rw [Content.Fits] at hfit
      rw [Content.allRegions]
      exact inner.content_ne_shared hfit
  | .empty, _, _ | .text _ _, _, _ | .nodes _, _, _ => nofun
  | .shared _, _, hfit => hfit.elim

end

end

namespace Stage

variable {s : Stage} {i j : Instance}

/-- Nothing sits in an instance that was given plain values only. -/
theorem Coherent.settled (h : s.Coherent) (hi : s.shared[id]? = some i)
    (hlives : i.Lives s.document) : s.Settled id := by
  obtain ⟨bs, hfit, -⟩ := hlives.strewn
  obtain ⟨hsound, seat, hs⟩ := h
  have hnone : ∀ m t n, .gap m t n ∉ s.shared.linksAt id := by
    intro m t n hk
    rw [SharedInstances.linksAt_of_some hi] at hk
    rcases List.mem_append.mp hk with hk | hk
    · exact Link.gap_notMem_ends hk
    · obtain ⟨r, hr, -, -, hcontent⟩ := i.region_of_gap hk
      exact i.content_ne_shared hfit r hr hcontent
  intro j hj r hr hfirst
  unfold Region.isSettled
  split
  · -- the place would be one inside the instance
    rename_i t hcontent
    have hgap := SharedInstances.gap_of_region hj hr hcontent
    obtain ⟨link, hlink, hsource⟩ := hsound.mem_span_source hfirst
    obtain rfl := hs.eq_of_source hlink.mem_links hgap hsource
    obtain ⟨u, hinside, hk⟩ := hlink
    rcases hinside.cases_head with rfl | ⟨u', ⟨m, n, hheld⟩, -⟩
    · exact absurd hk (hnone _ _ _)
    · exact absurd hheld (hnone _ _ _)
  · rfl

/-- A region of a coherent stage receives an instance that was given plain values only. -/
theorem Coherent.receives (h : s.Coherent) {r : Region} (hi : s.shared[id]? = some i)
    (hlives : i.Lives s.document) (hj : j ∈ s.shared) (hr : r ∈ j.allRegions)
    (hopen : r.Open s.document i.span) : r.Receives s.document id i.span := by
  refine ⟨hopen, fun hcontent hholds => ?_⟩
  have hspan := hlives.span_eq hi
  rw [← hspan] at hholds ⊢
  exact h.between_eq hj hr hcontent hholds hopen.stands (h.settled hi hlives)

end Stage

/-! ## Showing again -/

/-- Giving a region a shared instance, hiding it by plain values and giving it to any region
again never fails and changes nothing in or under the nodes of the instance. The regions show
the same nodes in the same order exactly if each of them received the instance whole. One that
was given something else meanwhile does, and so does every region of a stage in which no nodes
were supplied to instances. -/
theorem Region.shows_again {i : Instance} {pool : SharedInstances} (hlives : i.Lives d)
    (hi : pool[id]? = some i) (hr : r.Open d i.span) :
    (∀ {s : Stage} {j : Instance} {q : Region}, s.Tracked → s.shared[id]? = some i →
      i.Lives s.document → j ∈ s.shared → q ∈ j.allRegions → q.Open s.document i.span →
        q.Receives s.document id i.span) ∧
    ∃ r₁ d₁, r.give pool.span (.shared id) d = (r₁, none, d₁) ∧
      (d₁.between r.first r.last = i.span ↔ r.Receives d id i.span) ∧
      (∀ (spans : InstanceId → List NodeId) {v : Value}, v.IsPlain CompiledTemplate.HasNodes →
        ∃ r' d', r₁.give spans v d₁ = (r', none, d') ∧
          ∀ z ∈ d₁.between r.first r.last, d'.parent? z = none) ∧
      ∀ {values : List Value} {r₂ : Region} {d₂ : Document}, values ≠ [] →
        r₁.Course i.span d₁ values r₂ d₂ →
        (r₂.first = r.first ∧ r₂.last = r.last ∧
          (r₂.last ∈ d₂.siblingsAfter r₂.first → r₂.Receives d₂ id i.span)) ∧
        ∀ {pool' : SharedInstances} {r₃ : Region}, pool'[id]? = some i → r₃.Open d₂ i.span →
          ∃ r₄ d₄, r₃.give pool'.span (.shared id) d₂ = (r₄, none, d₄) ∧
            Document.SameUnder i.span d₁ d₄ ∧
            (r.Receives d id i.span ∨ r₃.Receives d₂ id i.span →
              (d₄.between r₃.first r₃.last = d₁.between r.first r.last ↔
                r.Receives d id i.span ∧ r₃.Receives d₂ id i.span)) := by
  refine ⟨fun hs hi hlives hj hq hopen => hs.coherent.receives hi hlives hj hq hopen, ?_⟩
  obtain ⟨bs, hfit, hs⟩ := hlives.strewn
  have hspan := Instance.span_of_fits hfit hs.distinct
  rw [hspan] at hr ⊢
  obtain ⟨d₁, hgive, hs₁, hstands, hbetween⟩ :=
    hr.give hs (SharedInstances.span_of_fits hi hfit hs.distinct)
  refine ⟨_, d₁, hgive, hbetween, fun spans v hplain =>
    hides (r := { r with content := .shared id }) hs₁.tied hstands rfl spans hplain,
    fun {values r₂ d₂} hvalues hcourse => ?_⟩
  obtain ⟨m, hbeside, hfirst, hlast⟩ := hcourse.alongside rfl hs₁
  refine ⟨⟨hbeside.first.trans hfirst, hbeside.last.trans hlast, hbeside.receives hvalues⟩,
    fun {pool' r₃} hi' hr' => ?_⟩
  have hs₂ : d₂.Strewn bs := hbeside.strewn.sublist (List.sublist_append_right m.branches bs)
  obtain ⟨d₄, hgive', hs₄, -, hbetween'⟩ :=
    hr'.give hs₂ (SharedInstances.span_of_fits hi' hfit hs.distinct)
  have hsame := (hs₁.sublist (List.sublist_append_right r.marks bs)).sameUnder
    (hs₄.sublist (List.sublist_append_right r₃.marks bs))
  refine ⟨_, d₄, hgive', hsame, fun hwhole => ?_⟩
  rw [← hbetween, ← hbetween'] at hwhole ⊢
  constructor
  · intro heq
    rcases hwhole with hwhole | hwhole
    · exact ⟨hwhole, heq.trans hwhole⟩
    · exact ⟨heq.symm.trans hwhole, hwhole⟩
  · exact fun h => h.2.trans h.1.symm

/-! ### An inset in another one -/

namespace Stage

/-- Two insets, the second one with a text. -/
def insetBeside : Stage :=
  (((empty.create inset).2.create inset).2.patch 1 [.str "old"]).2

/-- The place in the first one. -/
def vacancy : Region := ⟨[0], 0, 1, 2, .empty⟩

theorem insetBeside_lives :
    ∃ i, insetBeside.shared[1]? = some i ∧ i.Lives insetBeside.document ∧
      i.span = [4, 6, 5] := by
  have hplain : Value.ArePlain CompiledTemplate.HasNodes [.str "old"] := ⟨trivial, trivial⟩
  obtain ⟨seat, hs⟩ := (Tracked.create .empty inset_hasNodes).coherent.standing
  obtain ⟨i, hi, hlives⟩ := create_lives inset_hasNodes hs.tied
  obtain ⟨i', hi', hlives'⟩ := patch_lives hi hlives hplain
  have hi' : insetBeside.shared[1]? = some i' := hi'
  refine ⟨i', hi', hlives', ?_⟩
  rw [← hlives'.span_eq hi']
  decide +kernel

theorem vacancy_open : vacancy.Open insetBeside.document [4, 6, 5] := by
  exact Region.open_of_root (p := 0) ⟨⟨by rfl, trivial⟩, ⟨by rfl, trivial⟩, trivial⟩
    (by decide +kernel) (by decide +kernel) (by decide)

/-- The second inset given to the first one. -/
def insetShown : Stage := (insetBeside.patch 0 [.shared 1]).2

/-- The place in the first one then. -/
def occupancy : Region := ⟨[0], 0, 1, 2, .shared 1⟩

theorem insetShown_lives :
    ∃ i, insetShown.shared[1]? = some i ∧ i.Lives insetShown.document ∧ i.span = [4, 6, 5] := by
  obtain ⟨i, hi, hlives, hspan⟩ := insetBeside_lives
  exact ⟨i, hi, Region.lives_on hlives hi (hspan ▸ vacancy_open) .start, hspan⟩

theorem insetShown_tracked : insetShown.Tracked := by
  have hbeside : insetBeside.Tracked :=
    .patch (.create (.create .empty inset_hasNodes) inset_hasNodes)
      (by simp [Accepts, Value.AreTracked, Value.IsTracked])
  have hinside : ¬ insetBeside.shared.Inside 1 0 :=
    SharedInstances.not_inside (by decide +kernel) (by decide)
  exact .patch hbeside (by simp [Accepts, Value.AreTracked, Value.IsTracked, hinside])

/-- The place is given the inset that it shows, a text, and the inset again. -/
theorem vacancy_shows_again :
    occupancy.holds (insetShown.shared.span 1) insetShown.document = true ∧
      ∃ r₁ d₁ r₂ d₂ r₃ d₃,
        occupancy.give insetShown.shared.span (.shared 1) insetShown.document = (r₁, none, d₁) ∧
        r₁.give insetShown.shared.span (.str "x") d₁ = (r₂, none, d₂) ∧
        (∀ z ∈ [4, 6, 5], d₂.parent? z = none) ∧
        r₂.give insetShown.shared.span (.shared 1) d₂ = (r₃, none, d₃) ∧
        d₁.between 1 2 = [4, 6, 5] ∧ d₃.between 1 2 = [4, 6, 5] ∧
        Document.SameUnder [4, 6, 5] d₁ d₃ := by
  obtain ⟨i, hi, hlives, hspan⟩ := insetShown_lives
  have hopen : occupancy.Open insetShown.document i.span := by
    rw [hspan]
    exact Region.open_of_root (p := 0) ⟨⟨by rfl, trivial⟩, ⟨by rfl, trivial⟩, trivial⟩
      (by decide +kernel) (by decide +kernel) (by decide)
  obtain ⟨hall, r₁, d₁, hgive, hshown, hhides, hagain⟩ := Region.shows_again hlives hi hopen
  obtain ⟨j, hj, hregion⟩ : ∃ j ∈ insetShown.shared, occupancy ∈ j.allRegions :=
    ⟨_, List.mem_cons_self, List.mem_cons_self⟩
  have hreceives := hall insetShown_tracked hi hlives hj hregion hopen
  have hbetween := hshown.mpr hreceives
  rw [hspan] at hbetween
  have hplain : (Value.str "x").IsPlain CompiledTemplate.HasNodes := trivial
  obtain ⟨r₂, d₂, hgive₂, hnowhere⟩ := hhides insetShown.shared.span hplain
  have hcourse : r₁.Course i.span d₁ ([] ++ [.str "x"]) r₂ d₂ := by
    have hgiven := Region.Course.give (.start : r₁.Course i.span d₁ [] r₁ d₁)
      insetShown.shared.span hplain
    rwa [hgive₂] at hgiven
  obtain ⟨⟨hfirst, hlast, hwhole⟩, hshows⟩ := hagain (List.cons_ne_nil _ _) hcourse
  have hstands : r₂.last ∈ d₂.siblingsAfter r₂.first := by
    obtain rfl := congrArg Prod.fst hgive₂
    obtain rfl := congrArg (fun result => result.2.2) hgive₂
    obtain rfl := congrArg Prod.fst hgive
    obtain rfl := congrArg (fun result => result.2.2) hgive
    decide +kernel
  have hreceives₂ := hwhole hstands
  obtain ⟨r₃, d₃, hgive₃, hsame, hexact⟩ := hshows hi hreceives₂.toOpen
  have heq := (hexact (.inl hreceives)).mpr ⟨hreceives, hreceives₂⟩
  rw [hfirst, hlast] at heq
  exact ⟨by decide +kernel, r₁, d₁, r₂, d₂, r₃, d₃, hgive, hgive₂, hbetween ▸ hnowhere, hgive₃,
    hbetween, heq.trans hbetween, hspan ▸ hsame⟩

/-- The text of the second inset was given to a third one, and then the second inset to the
first one again, which still shows the rest of it. -/
def insetParted : Stage :=
  (((insetShown.create inset).2.patch 2 [.node 6]).2.patch 0 [.shared 1]).2

/-- Then the first one was given a text. -/
def insetPartedHidden : Stage := (insetParted.patch 0 [.str "x"]).2

/-- Only the first node of an instance is looked at, so a region is left alone without the
text that was taken away; hidden and shown again, it has it. -/
theorem insetParted_shows_more :
    ((insetShown.create inset).2.patch 2 [.node 6]).1 = none ∧
      (((insetShown.create inset).2.patch 2 [.node 6]).2.patch 0 [.shared 1]).1 = none ∧
      insetParted.document.between 1 2 = [4, 5] ∧
      (insetParted.patch 0 [.str "x"]).1 = none ∧
      (insetPartedHidden.patch 0 [.shared 1]).1 = none ∧
      (insetPartedHidden.patch 0 [.shared 1]).2.document.between 1 2 = [4, 6, 5] := by
  decide +kernel

end Stage

/-! ## Patching what is hidden -/

/-- Giving plain values to an instance whose topmost nodes stand nowhere fails exactly if a
region among them cannot keep what it holds. Unless it fails, the instance looks like a new
one that was given the same values as soon as it is shown again. -/
theorem Instance.patch_hidden {i : Instance} (hlives : i.Lives d)
    (hhidden : ∀ z ∈ i.span, d.parent? z = none) {values : List Value}
    (hplain : Value.ArePlain CompiledTemplate.HasNodes values)
    (spans : InstanceId → List NodeId) (e : Document) :
    ∃ i' failure d', i.patch spans values d = (i', failure, d') ∧
      (if i.keeps (Value.supplied values) = true then failure = none
        else ∃ path, failure = some (.detachedMarker path)) ∧
      (failure = none → ∃ j e₁ j' e₂, create i.source e = (.ok j, e₁) ∧
        j.patch spans values e₁ = (j', none, e₂) ∧
        ∀ {pool : SharedInstances} {id : InstanceId} {r : Region} {d₁ : Document},
          pool[id]? = some i' → d₁.Tied → Document.SameUnder i'.span d' d₁ →
          r.Receives d₁ id i'.span →
          ∃ r' d₂, r.give pool.span (.shared id) d₁ = (r', none, d₂) ∧
            Scene.AlikeAll ((d₂.between r.first r.last).map (d₂.sceneWithin d₂.size))
              (e₂.scenes j'.fragment)) := by
  obtain ⟨bs, hfit, hs⟩ := hlives.strewn
  have hfitAs := fits_iff.mp hfit
  rw [span_of_fits hfit hs.distinct] at hhidden
  obtain ⟨i', failure, d', bs', hpatch, hsource, hfitAs', hdrift⟩ :=
    Value.drifts_patch spans hplain hfitAs d [] []
      (by simpa using hs)
  refine ⟨i', failure, d', hpatch, (hdrift.nowhere (by simpa using hhidden)).2, fun hnone => ?_⟩
  have hlast : ∀ vs ∈ [] ++ [values],
      Value.ArePlain (Value.Compiled CompiledTemplate.someNodes) vs := by
    simpa using hplain.mono fun _ => CompiledTemplate.HasNodes.compiled
  obtain ⟨j, e₁, j', e₂, hcreate, hnew, halike⟩ :=
    create_patchEach CompiledTemplate.someNodes hfitAs.template spans hlast e
  rw [List.nil_append, patchEach_singleton] at hnew
  refine ⟨j, e₁, j', e₂, hcreate, hnew, fun {pool id r d₁} hi hd hsame hr => ?_⟩
  have hfit' : i'.Fits CompiledTemplate.someNodes bs' := by
    rw [fits_iff, hsource]
    exact hfitAs'
  have hs' : d'.Strewn bs' := by simpa using hdrift.strewn
  have hspan := span_of_fits hfit' hs'.distinct
  rw [hspan] at hsame hr
  obtain ⟨d₂, hgive, hs₂, -, hbetween⟩ :=
    hr.toOpen.give (hs'.same hd hsame) (SharedInstances.span_of_fits hi hfit' hs'.distinct)
  refine ⟨_, d₂, hgive, ?_⟩
  have hbranches := hs₂.sublist (List.sublist_append_right r.marks bs')
  rw [hbetween.mpr hr, hbranches.map_sceneWithin]
  exact (hdrift.shown hnone).trans halike.symm

/-! ### An inset that was in another one -/

namespace Stage

/-- The second inset was given to the first one, which was given a text then. -/
def insetHidden : Stage :=
  ((insetBeside.patch 0 [.shared 1]).2.patch 0 [.str "x"]).2

theorem insetHidden_lives :
    ∃ i, insetHidden.shared[1]? = some i ∧ i.Lives insetHidden.document ∧
      i.span = [4, 6, 5] := by
  obtain ⟨i, hi, hlives, hspan⟩ := insetBeside_lives
  have hplain : (Value.str "x").IsPlain CompiledTemplate.HasNodes := trivial
  have hlives' : i.Lives insetHidden.document :=
    Region.lives_on hlives hi (hspan ▸ vacancy_open)
      (.give .start insetBeside.shared.span hplain)
  exact ⟨i, hi, hlives', hspan⟩

/-- Another text stays where the first one was, and is shown when the inset is. -/
theorem insetHidden_patch :
    (insetHidden.patch 1 [.str "new"]).1 = none ∧
      ∃ j e₁ j' e₂ r d, Instance.create inset .empty = (.ok j, e₁) ∧
        j.patch insetHidden.shared.span [.str "new"] e₁ = (j', none, e₂) ∧
        Region.give (insetHidden.patch 1 [.str "new"]).2.shared.span (.shared 1)
          ⟨[0], 0, 1, 2, .text 7 "x"⟩ (insetHidden.patch 1 [.str "new"]).2.document =
            (r, none, d) ∧
        Scene.AlikeAll ((d.between 1 2).map (d.sceneWithin d.size)) (e₂.scenes j'.fragment) := by
  obtain ⟨i, hi, hlives, hspan⟩ := insetHidden_lives
  have hplain : Value.ArePlain CompiledTemplate.HasNodes [.str "new"] := ⟨trivial, trivial⟩
  have hhidden : ∀ z ∈ i.span, insetHidden.document.parent? z = none := by
    rw [hspan]
    decide +kernel
  have hkeeps : insetHidden.shared[1]?.map (Instance.keeps (Value.supplied [.str "new"])) =
      some true := by decide +kernel
  have hsource : insetHidden.shared[1]?.map Instance.source = some inset := by rfl
  rw [hi] at hkeeps hsource
  obtain ⟨i', failure, d', hpatch, hfails, hshows⟩ := Instance.patch_hidden hlives hhidden hplain
    insetHidden.shared.span .empty
  rw [if_pos (Option.some.inj hkeeps)] at hfails
  obtain ⟨j, e₁, j', e₂, hcreate, hnew, hagain⟩ := hshows hfails
  rw [Option.some.inj hsource] at hcreate
  have hstage : insetHidden.patch 1 [.str "new"] =
      (none, ⟨d', insetHidden.shared.set 1 i'⟩) := by
    simp only [Stage.patch, hi, hpatch, hfails]
  have hi' : (insetHidden.patch 1 [.str "new"]).2.shared[1]? = some i' := by
    rw [hstage]
    exact List.getElem?_set_self (List.getElem?_eq_some_iff.mp hi).1
  have hd : (insetHidden.patch 1 [.str "new"]).2.document = d' := by rw [hstage]
  have hlives' : i'.Lives (insetHidden.patch 1 [.str "new"]).2.document := by
    have hpatched := hlives.patch insetHidden.shared.span hplain
    rwa [hpatch, ← hd] at hpatched
  have hspan' : i'.span = [4, 6, 5] := by
    rw [← hlives'.span_eq hi']
    decide +kernel
  have hreceives : Region.Receives ⟨[0], 0, 1, 2, .text 7 "x"⟩
      (insetHidden.patch 1 [.str "new"]).2.document 1 i'.span := by
    rw [hspan']
    exact ⟨Region.open_of_root (p := 0) ⟨⟨by rfl, trivial⟩, ⟨by rfl, trivial⟩, trivial⟩
      (by decide +kernel) (by decide +kernel) (by decide), nofun⟩
  obtain ⟨bs, -, hs⟩ := hlives'.strewn
  obtain ⟨r, d, hgive, halike⟩ := hagain hi' hs.tied (hd ▸ .refl _ _) hreceives
  exact ⟨by rw [hstage], j, e₁, j', e₂, r, d, hcreate, hnew, hgive, halike⟩

/-- A list cannot be put where the text was. -/
theorem insetHidden_fails :
    (insetBeside.patch 0 [.shared 1]).2.document.between 1 2 = insetBeside.shared.span 1 ∧
      (∀ z ∈ insetHidden.shared.span 1, insetHidden.document.parent? z = none) ∧
      (insetHidden.patch 1 [.list [.str "new"]]).1 = some (.detachedMarker [0]) := by
  decide +kernel

end Stage

end LiveMarkup
