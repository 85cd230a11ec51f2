import LiveMarkup.Proofs.Document.Rewriting
import LiveMarkup.Proofs.Instance.Tending

/-!
# Values of one shape

Two texts have one shape, and so have two values of the same template if the
values in them that feed its regions have one shape. An instance that shows
values comes to show other ones of the same shapes without a region being
cleared anywhere in it: whatever it carries is written where it stands.
-/

namespace LiveMarkup

open Branch (idsAll tops sceneAll)
open Scene (AlikeAll)

variable {markup : CompiledTemplate → List Node}

/-- Whether the same nodes can show both of two values. What a template supplies to attributes
and properties only does not matter. -/
inductive Value.SameShape : Value → Value → Prop
  | text {v w : Value} (hv : v.isTextLike = true) (hw : w.isTextLike = true) : SameShape v w
  | template {source : CompiledTemplate} {vs ws : List Value}
      (h : ∀ k, source.template.Feeds k →
        SameShape (Value.supplied vs k) (Value.supplied ws k)) :
      SameShape (.template source vs) (.template source ws)

/-- What has the shape of a value that can be shown can be shown. -/
theorem Value.SameShape.showable {compiled : CompiledTemplate → Prop} {v w : Value}
    (h : v.SameShape w) (hv : v.Showable compiled) : w.Showable compiled := by
  induction h with
  | text _ hw => exact .text hw
  | template _ ih =>
      cases hv with
      | text hlike => cases hlike
      | template hsource hvs => exact .template hsource fun k hk => ih k hk (hvs k hk)

/-! ## Showing another value in its place -/

/-- A supply by which every region that shows a value comes to show another one in its place. -/
def Supply.TakesPlaceOf (markup : CompiledTemplate → List Node) (s : Supply) (v : Value) : Prop :=
  ∀ (spans : InstanceId → List NodeId) (r : Region) (held : List Branch) (d : Document),
    r.content.Fits markup held → r.content.Records v →
      ∃ content d', r.update spans s d = ({ r with content := content }, none, d') ∧
        d.Rewrites d' ∧ ∀ shared, content.spanWith shared = r.content.spanWith shared

theorem Region.updateAll_inPlace (spans : InstanceId → List NodeId) {supplies : List Supply}
    {value : Nat → Value} {regions : List Region} {marks : List Mark}
    (hfit : Region.FitAll markup regions marks) (hrecords : Region.RecordAll value regions)
    (hplace : ∀ r ∈ regions,
      (supplyAt supplies r.placeholder).TakesPlaceOf markup (value r.placeholder))
    (d : Document) :
    ∃ regions' d', Region.updateAll spans supplies regions d = (regions', none, d') ∧
      d.Rewrites d' ∧
      ∀ shared, Region.spansWith shared regions' = Region.spansWith shared regions := by
  induction regions generalizing marks d with
  | nil => exact ⟨[], d, rfl, .refl, fun _ => rfl⟩
  | cons r rest ih =>
      obtain ⟨hr, hrest⟩ := List.forall_mem_cons.mp hplace
      obtain ⟨hrecord, hrecords⟩ := Region.recordAll_cons.mp hrecords
      cases marks with
      | nil => cases Region.fitAll_nil.mp hfit
      | cons m marks =>
          obtain ⟨hfirst, hothers⟩ := Region.fitAll_cons.mp hfit
          obtain ⟨content, d₁, hupdate, hwrites, hspan⟩ :=
            hr spans r m.held d hfirst.content hrecord
          obtain ⟨rest', d₂, hupdates, hwrites', hspans⟩ := ih hothers hrecords hrest d₁
          refine ⟨{ r with content := content } :: rest', d₂, ?_, hwrites.trans hwrites',
            fun shared => ?_⟩
          · rw [Region.updateAll, hupdate]
            simp only [hupdates]
          · obtain ⟨path, placeholder, first, last, old⟩ := r
            rw [Region.spansWith, Region.spansWith, hspan shared, hspans shared]

theorem Instance.supply_inPlace (spans : InstanceId → List NodeId) {supplies : List Supply}
    {value : Nat → Value} {i : Instance} {ns : List Node} {bs : List Branch}
    (hfit : i.FitsAs markup ns bs) (hrecords : i.Records value)
    (hplace : ∀ k, i.source.template.Feeds k →
      (supplyAt supplies k).TakesPlaceOf markup (value k)) (d : Document) :
    ∃ i' d', i.supply spans supplies d = (i', none, d') ∧ d.Rewrites d' ∧
      ∀ shared, i'.spanWith shared = i.spanWith shared := by
  obtain ⟨marks, -, -, hregions⟩ := hfit.layout
  have hbindings := rewrites_applyBindings (fun index => (supplyAt supplies index).1)
    (i.source.template.attributes.zip i.elements) d
  obtain ⟨regions', d', hupdate, hwrites, hspans⟩ :=
    Region.updateAll_inPlace spans hregions (Instance.records_iff.mp hrecords)
      (fun r hr => hplace _ (hfit.feeds r hr)) _
  refine ⟨{ i with regions := regions' }, d', ?_, hbindings.trans hwrites, fun shared => ?_⟩
  · simp only [Instance.supply, hupdate]
  · obtain ⟨source, fragment, nodes, elements, regions⟩ := i
    rw [Instance.spanWith, Instance.spanWith, hspans shared]

/-- A value takes the place of every value of its shape, at every depth. -/
theorem Value.SameShape.takesPlaceOf {v w : Value} (h : v.SameShape w)
    (spans : InstanceId → List NodeId) :
    Supply.TakesPlaceOf markup (w, w.rendering spans) v := by
  induction h with
  | @text v w hv hw =>
      intro spans' r held d hfit hrecords
      obtain ⟨n, hcontent⟩ := hrecords.of_isTextLike hv
      simp only [Region.update, hcontent, hw, if_true]
      split
      · refine ⟨.text n v.text, d, ?_, .refl, fun _ => rfl⟩
        cases r
        rw [← hcontent]
      · exact ⟨.text n w.text, d.setText n w.text, rfl, .single (.setText n w.text),
          fun _ => rfl⟩
  | @template source vs ws _ ih =>
      intro spans' r held d hfit hrecords
      obtain ⟨inner, hcontent, hsource, hinner⟩ := hrecords.of_template
      rw [hcontent] at hfit
      have hplace : ∀ k, inner.source.template.Feeds k →
          (supplyAt (Value.supplies spans ws) k).TakesPlaceOf markup (Value.supplied vs k) := by
        intro k hk
        rw [Value.supplyAt_supplies]
        exact ih k (hsource ▸ hk)
      obtain ⟨inner', d', hsupply, hwrites, hspan⟩ :=
        Instance.supply_inPlace spans (Instance.fits_iff.mp hfit) hinner hplace d
      refine ⟨.own inner', d', ?_, hwrites, fun shared => ?_⟩
      · simp only [Region.update, hcontent, hsource, if_true, Value.rendering, hsupply]
      · rw [hcontent]
        exact hspan shared

/-! ## Tended instances -/

namespace Instance

variable {i : Instance} {d : Document} {values next : List Value}

/-- An instance shows the values of its last patch if that took effect. Giving it values of the
same shapes then creates, inserts and removes no node and moves none, and afterwards it looks
like a new instance that was given them. -/
theorem patch_inPlace (h : i.Tended (some values) d)
    (hsame : ∀ k, i.source.template.Feeds k →
      (Value.supplied values k).SameShape (Value.supplied next k))
    (spans : InstanceId → List NodeId) (e : Document) :
    ∃ i' d' j e₁ j' e₂, i.patch spans next d = (i', none, d') ∧ d.SameShape d' ∧
      d'.nodeCounts = d.nodeCounts ∧ i'.span = i.span ∧
      create i.source e = (.ok j, e₁) ∧ j.patch spans next e₁ = (j', none, e₂) ∧
      AlikeAll (i'.span.map (d'.sceneWithin d'.size)) (e₂.scenes j'.fragment) := by
  obtain ⟨bs, hfit, hs, hdisplays⟩ := h.stands
  obtain ⟨hshown, hrecords, -⟩ := hdisplays values rfl
  have hshape : (Value.template i.source values).SameShape (.template i.source next) :=
    .template hsame
  have hshow := hshape.showable hshown
  have hsource : i.source.HasNodes := by
    cases hshow with
    | text hlike => cases hlike
    | template hsource _ => exact hsource
  have hplace : ∀ k, i.source.template.Feeds k → (supplyAt (Value.supplies spans next)
      k).TakesPlaceOf CompiledTemplate.someNodes (Value.supplied values k) := by
    intro k hk
    rw [Value.supplyAt_supplies]
    exact (hsame k hk).takesPlaceOf spans
  obtain ⟨i', d', hpatch, hwrites, hspan⟩ :=
    supply_inPlace spans (fits_iff.mp hfit) hrecords hplace d
  obtain ⟨i₁, e', d₁, bs', hpatch', hsource', hfit', hs', hdisplays'⟩ :=
    drifts_showable spans hshow hfit hs
  cases hpatch.symm.trans hpatch'
  obtain ⟨j, e₁, j', e₂, hcreate, hnew, -, -, halike⟩ := create_shows hsource hshow spans e
  refine ⟨i', d', j, e₁, j', e₂, hpatch, hwrites.sameShape, hwrites.nodeCounts_eq, hspan _,
    hcreate, hnew, ?_⟩
  rw [span_of_fits hfit' hs'.distinct, hs'.map_sceneWithin]
  have halike' := (hdisplays' rfl).alike
  rw [hsource'] at halike'
  exact halike'.trans halike.symm

theorem patch_inPlace_paragraph :
    ∃ (i : Instance) (d : Document) (i' : Instance) (d' : Document) (j : Instance)
      (e₁ : Document) (j' : Instance) (e₂ : Document), i.Tended (some [.node 7, .str "a"]) d ∧
      i.patch (fun _ => []) [.list [], .bool true] d = (i', none, d') ∧ d.SameShape d' ∧
      d'.nodeCounts = d.nodeCounts ∧ i'.span = i.span ∧
      create i.source .empty = (.ok j, e₁) ∧
      j.patch (fun _ => []) [.list [], .bool true] e₁ = (j', none, e₂) ∧
      AlikeAll (i'.span.map (d'.sceneWithin d'.size)) (e₂.scenes j'.fragment) := by
  obtain ⟨source, hsource, hfeeds⟩ : ∃ source : CompiledTemplate, source.HasNodes ∧
      ∀ k, source.template.Feeds k → k = 1 :=
    ⟨⟨0, Template.ofNodes [.element "p" [⟨"title", [.placeholder]⟩] [.placeholder]]⟩, ⟨_, rfl⟩,
      fun k hk => List.mem_singleton.mp hk⟩
  have hshow : (Value.template source [.node 7, .str "a"]).Showable
      CompiledTemplate.HasNodes :=
    .template hsource fun k hk => hfeeds k hk ▸ .text rfl
  obtain ⟨-, -, i, d, -, -, hsame, htended, -⟩ :=
    create_tended hsource hshow (fun _ => []) Document.tied_empty
  have hshapes : ∀ k, i.source.template.Feeds k →
      (Value.supplied [.node 7, .str "a"] k).SameShape
        (Value.supplied [.list [], .bool true] k) :=
    fun k hk => hfeeds k (hsame ▸ hk) ▸ .text rfl rfl
  obtain ⟨i', d', j, e₁, j', e₂, hall⟩ := patch_inPlace htended hshapes (fun _ => []) .empty
  exact ⟨i, d, i', d', j, e₁, j', e₂, htended, hall⟩

end Instance

end LiveMarkup
