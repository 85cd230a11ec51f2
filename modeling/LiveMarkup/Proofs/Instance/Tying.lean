import LiveMarkup.Proofs.Document.Operations
import LiveMarkup.Proofs.Instance.Newborn

/-!
# Values that keep a document tied

Wherever the markers of a region or an instance stand, giving it values that can
be shown leaves parents and children in step. This holds for a region that
cannot be cleared or filled as well: the changes made up to the failure are
whole ones.
-/

namespace LiveMarkup

open Branch (idsAll tops)

variable {d : Document} {markup : CompiledTemplate → List Node}

/-- A rendering that keeps parents and children in step, whether it fails or not. -/
def Rendering.Ties (rendering : Rendering) : Prop :=
  ∀ d : Document, d.Tied → (rendering.fresh d).2.Tied

/-- A supply that keeps parents and children in step, also where it changes an instance of its
own template. -/
structure Supply.Ties (markup : CompiledTemplate → List Node) (s : Supply) : Prop where
  fresh : s.2.Ties
  again : ∀ source values, s.1 = .template source values → ∀ (i : Instance) (bs : List Branch),
    i.source = source → i.Fits markup bs → ∀ d : Document, d.Tied → (s.2.again i d).2.2.Tied

theorem Rendering.text_ties (data : String) : (Rendering.text data).Ties :=
  fun _ hd => hd.create (.text data)

/-! ## Regions -/

namespace Region

theorem follows_clear (r : Region) (hd : d.Tied) : d.Follows (r.clear d).2 := by
  unfold clear
  split
  · exact .refl hd
  · rename_i parent _
    have hfollows := hd.follows_removeChildren parent (d.between r.first r.last)
    dsimp only
    split <;> exact hfollows

theorem follows_fill (r : Region) (n : NodeId) (content : Content) (hd : d.Tied) :
    d.Follows (r.fill n content d).2.2 := by
  unfold fill
  split
  · exact .refl hd
  · rename_i parent hparent
    split
    · rename_i hn
      have hp := Document.contains_of_mem_children ((hd.agree parent r.last).mp hparent)
      exact hd.follows_insertBefore hp hn (some r.last)
    · exact .refl hd

theorem tied_replace (r : Region) {rendering : Rendering} (hties : rendering.Ties)
    (hd : d.Tied) : (r.replace rendering d).2.2.Tied := by
  unfold replace
  dsimp only
  have hcleared := (follows_clear { r with content := .empty } hd).tied
  generalize { r with content := .empty }.clear d = cleared at hcleared
  obtain ⟨e, d₁⟩ := cleared
  cases e with
  | some e => exact hcleared
  | none =>
      have hfresh := hties d₁ hcleared
      dsimp only
      generalize rendering.fresh d₁ = made at hfresh
      obtain ⟨result, d₂⟩ := made
      cases result with
      | error e => exact hfresh
      | ok node => exact (follows_fill _ node.1 node.2 hfresh).tied

theorem tied_update (spans : InstanceId → List NodeId) {r : Region} {m : Mark} {s : Supply}
    (hfit : r.Fits markup m) (hties : s.Ties markup) (hd : d.Tied) :
    (r.update spans s d).2.2.Tied := by
  have hreplace := r.tied_replace hties.fresh hd
  have hcontent := hfit.content
  unfold update
  split
  · split
    · exact hd
    · exact hreplace
  · rename_i inner source values hown hvalue
    rw [hown] at hcontent
    split
    · rename_i hsource
      exact hties.again source values hvalue inner m.held hsource hcontent d hd
    · exact hreplace
  · rename_i n _ _
    split
    · split
      · exact hd
      · exact (Document.sameShape_setText d n _).tied hd
    · exact hreplace
  · exact hreplace

theorem tied_updateAll (spans : InstanceId → List NodeId) {supplies : List Supply}
    {regions : List Region} {marks : List Mark} (hfit : FitAll markup regions marks)
    (hties : ∀ r ∈ regions, (supplyAt supplies r.placeholder).Ties markup) (hd : d.Tied) :
    (updateAll spans supplies regions d).2.2.Tied := by
  induction fitAll_iff.mp hfit generalizing d with
  | nil => exact hd
  | @cons r m rest marks hr hrest ih =>
      obtain ⟨hs, hothers⟩ := List.forall_mem_cons.mp hties
      have hfirst := tied_update spans hr hs hd
      rw [updateAll]
      generalize r.update spans (supplyAt supplies r.placeholder) d = updated at hfirst
      obtain ⟨r', e, d₁⟩ := updated
      cases e with
      | some e => exact hfirst
      | none => exact ih (fitAll_iff.mpr hrest) hothers hfirst

end Region

/-! ## Instances -/

namespace Instance

theorem tied_supply (spans : InstanceId → List NodeId) {supplies : List Supply} {i : Instance}
    {ns : List Node} {bs : List Branch} (hfit : i.FitsAs markup ns bs)
    (hties : ∀ k, i.source.template.Feeds k → (supplyAt supplies k).Ties markup)
    (hd : d.Tied) : (i.supply spans supplies d).2.2.Tied := by
  have hshape := sameShape_applyBindings (fun index => (supplyAt supplies index).1)
    (i.source.template.attributes.zip i.elements) d
  obtain ⟨marks, -, -, hregions⟩ := hfit.layout
  exact Region.tied_updateAll spans hregions (fun r hr => hties _ (hfit.feeds r hr))
    (hshape.tied hd)

theorem tied_createWith (spans : InstanceId → List NodeId) {source : CompiledTemplate}
    (hsource : source.HasNodes) {supplies : List Supply}
    (hties : ∀ k, source.template.Feeds k →
      (supplyAt supplies k).Ties CompiledTemplate.someNodes) (hd : d.Tied) :
    (createWith spans source supplies d).2.Tied := by
  obtain ⟨i, d₁, bs, hcreate, hfresh⟩ :=
    create_fresh CompiledTemplate.someNodes hsource.compiled d
  obtain ⟨htied, -⟩ := create_parts hsource hd hcreate
  rw [← hfresh.source] at hties
  have hsupplied := tied_supply spans hfresh.fits hties htied
  simp only [createWith, hcreate]
  generalize i.supply spans supplies d₁ = supplied at hsupplied
  obtain ⟨i', e, d₂⟩ := supplied
  cases e <;> exact hsupplied

end Instance

/-! ## Values -/

theorem tied_renderItems {n : NodeId} {supplies : List Supply}
    (hties : ∀ s ∈ supplies, s.2.Ties)
    (hgrown : ∀ s ∈ supplies, ∀ d : Document, d.size ≤ (s.2.fresh d).2.size) (hd : d.Tied)
    (hn : d.contains n = true) : (renderItems n supplies d).2.Tied := by
  induction supplies generalizing d with
  | nil => exact hd
  | cons item rest ih =>
      have hfresh := hties item List.mem_cons_self d hd
      have hsize := hgrown item List.mem_cons_self d
      rw [renderItems]
      generalize item.2.fresh d = made at hfresh hsize
      obtain ⟨result, d₁⟩ := made
      cases result with
      | error e => exact hfresh
      | ok node =>
          have hn₁ : d₁.contains n = true :=
            decide_eq_true (Nat.lt_of_lt_of_le (of_decide_eq_true hn) hsize)
          dsimp only
          split
          · rename_i hnode
            refine ih (fun s hs => hties s (List.mem_cons_of_mem item hs))
              (fun s hs => hgrown s (List.mem_cons_of_mem item hs))
              (hfresh.insertBefore hn₁ hnode none) ?_
            rwa [Document.append, Document.contains, Document.size_insertBefore]
          · exact hfresh

theorem Rendering.Makes.size_le {rendering : Rendering} {ss : List Scene}
    (h : rendering.Makes markup ss) (d : Document) : d.size ≤ (rendering.fresh d).2.size := by
  obtain ⟨n, content, d', bs, hfresh, hrendered, -⟩ := h d
  rw [hfresh]
  exact hrendered.grown.size_le

namespace Value

variable {spans : InstanceId → List NodeId}

theorem mem_supplies {values : List Value} {s : Supply} (hs : s ∈ supplies spans values) :
    ∃ v ∈ values, s = (v, v.rendering spans) := by
  induction values with
  | nil => cases hs
  | cons v values ih =>
      rcases List.mem_cons.mp hs with rfl | hs
      · exact ⟨v, List.mem_cons_self, rfl⟩
      · obtain ⟨w, hw, heq⟩ := ih hs
        exact ⟨w, List.mem_cons_of_mem v hw, heq⟩

theorem ties_text {v : Value} (hlike : v.isTextLike = true) :
    Supply.Ties markup (v, v.rendering spans) where
  fresh := by
    cases v with
    | undefined | null | bool | number | str => exact Rendering.text_ties _
    | _ => cases hlike
  again := by
    rintro source values rfl
    cases hlike

theorem ties_list {items : List Value}
    (hshow : ∀ v ∈ items, v.Showable CompiledTemplate.HasNodes)
    (h : ∀ v ∈ items, Supply.Ties CompiledTemplate.someNodes (v, v.rendering spans)) :
    Supply.Ties CompiledTemplate.someNodes (.list items, (list items).rendering spans) where
  fresh d hd := by
    have hitem : ∀ s ∈ supplies spans items,
        s.2.Ties ∧ ∀ d : Document, d.size ≤ (s.2.fresh d).2.size := by
      intro s hs
      obtain ⟨v, hv, rfl⟩ := mem_supplies hs
      have hshows := ((hshow v hv).mono fun _ => CompiledTemplate.HasNodes.compiled).shows spans
      exact ⟨(h v hv).fresh, hshows.fresh.size_le⟩
    have hcontains : (d.create .fragment).2.contains d.size = true := decide_eq_true (by simp)
    have hitems := tied_renderItems (fun s hs => (hitem s hs).1) (fun s hs => (hitem s hs).2)
      (hd.create .fragment) hcontains
    simp only [rendering]
    rw [Document.create_fst]
    generalize renderItems d.size (supplies spans items) (d.create .fragment).2 = rendered
      at hitems
    obtain ⟨e, d'⟩ := rendered
    cases e <;> exact hitems
  again := by simp

theorem ties_template {source : CompiledTemplate} (hsource : source.HasNodes)
    {values : List Value}
    (h : ∀ k, source.template.Feeds k → Supply.Ties CompiledTemplate.someNodes
      (supplied values k, (supplied values k).rendering spans)) :
    Supply.Ties CompiledTemplate.someNodes
      (.template source values, (template source values).rendering spans) where
  fresh d hd := by
    simp only [← supplyAt_supplies] at h
    have hcreated := Instance.tied_createWith spans hsource h hd
    simp only [rendering]
    generalize Instance.createWith spans source (supplies spans values) d = created at hcreated
    obtain ⟨result, d'⟩ := created
    cases result <;> exact hcreated
  again := by
    rintro source' values' heq i bs rfl hfit d hd
    obtain ⟨rfl, rfl⟩ := Value.template.inj heq
    simp only [← supplyAt_supplies] at h
    exact Instance.tied_supply spans (Instance.fits_iff.mp hfit) h hd

theorem Showable.ties {v : Value} (h : v.Showable CompiledTemplate.HasNodes)
    (spans : InstanceId → List NodeId) :
    Supply.Ties CompiledTemplate.someNodes (v, v.rendering spans) := by
  induction h with
  | text h => exact ties_text h
  | list h ih => exact ties_list h ih
  | template hsource _ ih => exact ties_template hsource ih

end Value

theorem Instance.tied_patch (spans : InstanceId → List NodeId) {values : List Value}
    {i : Instance} {bs : List Branch} (hfit : i.Fits CompiledTemplate.someNodes bs)
    (hshow : ∀ k, i.source.template.Feeds k →
      (Value.supplied values k).Showable CompiledTemplate.HasNodes) (hd : d.Tied) :
    (i.patch spans values d).2.2.Tied := by
  refine Instance.tied_supply spans (fits_iff.mp hfit) (fun k hk => ?_) hd
  rw [Value.supplyAt_supplies]
  exact (hshow k hk).ties spans

end LiveMarkup
