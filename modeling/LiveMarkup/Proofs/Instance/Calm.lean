import LiveMarkup.Proofs.Instance.Agreement
import LiveMarkup.Proofs.Instance.Tending

/-!
# Values that leave an instance alone

An instance that remembers values and looks like them carries, at every one of
its bindings, what the binding says. So nothing is written anywhere in it when
it is given values that agree with those: every comparison before a write finds
what is there already. Lists are rendered anew each time, a property that is
not a number is written each time, and of two bindings of one name the first one
is written each time; values and templates without these are quiet.
-/

namespace LiveMarkup

open Branch (idsAll tops sceneAll)
open PropertyValue (Agree)
open Scene (AlikeAll)
open Substitution (bound lastBound)

variable {markup : CompiledTemplate → List Node} {d : Document}

/-! ## Quiet values -/

/-- Whether no element binds one name of one kind twice. -/
def Template.BindsOnce (t : Template) : Prop :=
  (t.attributes.map fun b => (b.path, b.target, b.name)).Nodup

/-- Whether no list feeds a region, everything that is bound to a property is a number if it is
to be one, and every template binds a name once. -/
inductive Value.Quiet : Value → Prop
  | text {v : Value} (h : v.isTextLike = true) : Quiet v
  | template {source : CompiledTemplate} {values : List Value}
      (honce : source.template.BindsOnce)
      (hfree : ∀ b ∈ source.template.attributes, b.target = .property →
        (b.property (Value.supplied values)).nanFree = true)
      (h : ∀ k, source.template.Feeds k → Quiet (Value.supplied values k)) :
      Quiet (.template source values)

/-! ## One binding -/

namespace AttributeBinding

/-- Whether an element carries what a binding says. -/
def HoldsIn (d : Document) (n : NodeId) (value : Nat → Value) (b : AttributeBinding) : Prop :=
  match b.target with
  | .attribute => d.attribute? n b.name = b.attribute? value
  | .property => Agree (d.property? n b.name) (some (b.property value))

theorem apply_of_holdsIn {b : AttributeBinding} {n : NodeId} {value value' : Nat → Value}
    (h : b.HoldsIn d n value) (hagrees : ∀ k ∈ b.numbers, (value k).Agrees (value' k))
    (hfree : b.target = .property → (b.property value).nanFree = true) :
    b.apply n value' d = d := by
  unfold HoldsIn at h
  unfold apply
  rcases htarget : b.target with _ | _
  · rw [htarget] at h
    dsimp only at h ⊢
    simp only [Document.updateAttribute, h, attribute?_congr hagrees, if_true]
  · rw [htarget] at h
    dsimp only at h ⊢
    have halike := property_alike hagrees
    have hfree' := PropertyValue.nanFree_of_alike halike (hfree htarget)
    cases hcurrent : d.property? n b.name with
    | none =>
        rw [hcurrent] at h
        cases h
    | some current =>
        rw [hcurrent] at h
        cases h with
        | some h =>
            have hequals :=
              PropertyValue.equals_of_alike (PropertyValue.alike_trans h halike) hfree'
            rw [Document.updateProperty, hcurrent]
            simp only [hequals, if_true]

end AttributeBinding

theorem applyBindings_calm {value : Nat → Value}
    {bindings : List (AttributeBinding × NodeId)}
    (h : ∀ s ∈ bindings, s.1.apply s.2 value d = d) : applyBindings value bindings d = d := by
  induction bindings with
  | nil => rfl
  | cons s bindings ih =>
      obtain ⟨hs, hrest⟩ := List.forall_mem_cons.mp h
      rw [applyBindings, List.foldl_cons, hs]
      exact ih hrest

/-! ## Layouts of what looks like values -/

namespace Substitution

theorem lastBound_of_mem {next : Nat} {as : List Attribute}
    (honce : ((bound next as).map fun o => Compile.targetOf o.2.name).Nodup)
    {o : Nat × Attribute} (ho : o ∈ bound next as) :
    lastBound (Compile.targetOf o.2.name) next as = some o := by
  have hself : o ∈ (bound next as).filter fun o' =>
      Compile.targetOf o'.2.name = Compile.targetOf o.2.name :=
    List.mem_filter.mpr ⟨ho, by simp⟩
  unfold lastBound
  cases hlast : ((bound next as).filter fun o' =>
      Compile.targetOf o'.2.name = Compile.targetOf o.2.name).getLast? with
  | none =>
      rw [List.getLast?_eq_none_iff.mp hlast] at hself
      cases hself
  | some o' =>
      obtain ⟨hmem, heq⟩ := List.mem_filter.mp (List.mem_of_getLast? hlast)
      rw [List.inj_on_of_nodup_map honce hmem ho (of_decide_eq_true heq)]

end Substitution

/-- What looks like a substitution says what values make it say. -/
theorem Fixed.settled {value : Nat → Value} {next : Nat} {as : List Attribute}
    {attributes : Attributes} {properties : Properties}
    (h : Fixed next as attributes properties)
    (hperm : attributes.Perm (Substitution.attributes value next as))
    (hproperty : ∀ name,
      Agree (properties.get? name) (Substitution.property? value next as name)) :
    Settled value next as attributes properties where
  keys := h.keys
  text name := (Attributes.value?_of_perm hperm h.keys name).trans
    (Substitution.value?_attributes value next as name)
  property := hproperty

theorem Scene.AlikeAll.split : ∀ {ss ss' ts ts' : List Scene}, ss.length = ts.length →
    AlikeAll (ss ++ ss') (ts ++ ts') → AlikeAll ss ts ∧ AlikeAll ss' ts'
  | [], _, [], _, _, h => ⟨trivial, h⟩
  | [], _, _ :: _, _, hlength, _ => by cases hlength
  | _ :: _, _, [], _, hlength, _ => by cases hlength
  | _ :: _, _, _ :: _, _, hlength, h =>
      have hrest := Scene.AlikeAll.split (Nat.succ.inj hlength) h.2
      ⟨⟨h.1, hrest.1⟩, hrest.2⟩

theorem Branch.length_sceneAll (bs : List Branch) : (sceneAll bs).length = bs.length := by
  induction bs with
  | nil => rfl
  | cons b bs ih => rw [sceneAll, List.length_cons, ih, List.length_cons]

namespace Layout

variable {say : Nat → List Attribute → Attributes → Properties → Prop} {value : Nat → Value}
  {content : Nat → List Scene} {next : Nat} {ns : List Node} {elements : List NodeId}
  {marks : List Mark} {bs : List Branch}

theorem length_nodes (h : Layout say next ns elements marks bs)
    (hheld : ∀ m ∈ marks, m.held.length = (content m.placeholder).length) :
    bs.length = (Substitution.nodes value content next ns).length := by
  induction h with
  | nil => rfl
  | text _ ih | comment _ ih =>
      rw [List.length_cons, ih hheld]
      simp [Substitution.nodes, Substitution.node, Node.placeholders, Nat.add_comm]
  | @placeholder m rest elements marks bs _ ih =>
      obtain ⟨hm, hrest⟩ := List.forall_mem_cons.mp hheld
      simp [Substitution.nodes, Substitution.node, Node.placeholders, Mark.branches, hm,
        ih hrest, Nat.add_comm]
  | element _ _ _ _ ihRest =>
      obtain ⟨-, hrest⟩ := List.forall_mem_append.mp hheld
      rw [List.length_cons, ihRest hrest]
      simp [Substitution.nodes, Substitution.node, Node.placeholders, Nat.add_comm]

theorem settled_of_alike (h : Layout Fixed next ns elements marks bs)
    (hheld : ∀ m ∈ marks, m.held.length = (content m.placeholder).length)
    (halike : AlikeAll (sceneAll bs) (Substitution.nodes value content next ns)) :
    Layout (Settled value) next ns elements marks bs ∧
      ∀ m ∈ marks, AlikeAll (sceneAll m.held) (content m.placeholder) := by
  induction h with
  | nil => exact ⟨.nil, nofun⟩
  | text _ ih =>
      obtain ⟨hlayout, hmarks⟩ := ih hheld halike.2
      exact ⟨.text hlayout, hmarks⟩
  | comment _ ih =>
      obtain ⟨hlayout, hmarks⟩ := ih hheld halike.2
      exact ⟨.comment hlayout, hmarks⟩
  | @placeholder m rest elements marks bs _ ih =>
      obtain ⟨hm, hrest⟩ := List.forall_mem_cons.mp hheld
      have hscenes : sceneAll (m.branches ++ bs) =
          .comment "" :: (sceneAll m.held ++ (.comment "" :: sceneAll bs)) := by
        simp [Mark.branches, Branch.comment, sceneAll, Branch.scene, Scene.comment]
        rfl
      have hnodes : Substitution.nodes value content m.placeholder (.placeholder :: rest) =
          .comment "" :: (content m.placeholder ++
            (.comment "" :: Substitution.nodes value content (m.placeholder + 1) rest)) := by
        simp [Substitution.nodes, Substitution.node, Node.placeholders]
      rw [hscenes, hnodes] at halike
      obtain ⟨hinside, hbehind⟩ :=
        halike.2.split ((Branch.length_sceneAll m.held).trans hm)
      obtain ⟨hlayout, hmarks⟩ := ih hrest hbehind.2
      exact ⟨.placeholder hlayout, List.forall_mem_cons.mpr ⟨hinside, hmarks⟩⟩
  | element hfixed _ _ ihUnder ihRest =>
      obtain ⟨hbelow, hbeside⟩ := List.forall_mem_append.mp hheld
      obtain ⟨⟨-, hperm, hproperty, hunder⟩, hrest⟩ := halike
      obtain ⟨hlayout₁, hmarks₁⟩ := ihUnder hbelow hunder
      obtain ⟨hlayout₂, hmarks₂⟩ := ihRest hbeside hrest
      exact ⟨.element (hfixed.settled hperm hproperty) hlayout₁ hlayout₂,
        List.forall_mem_append.mpr ⟨hmarks₁, hmarks₂⟩⟩

theorem holdsIn (h : Layout (Settled value) next ns elements marks bs) (path : NodePath)
    (index : Nat)
    (honce : ((Compile.nodes path index next ns).attributes.map fun b =>
      (b.path, b.target, b.name)).Nodup) (hintact : d.Intact bs) :
    ∀ s ∈ (Compile.nodes path index next ns).attributes.zip elements,
      s.1.HoldsIn d s.2 value := by
  induction h generalizing path index with
  | nil => simp [Compile.nodes]
  | text _ ih =>
      simp only [Compile.nodes, Compile.node] at honce ⊢
      exact ih path (index + 1) honce (Document.intact_cons.mp hintact).2
  | comment _ ih =>
      simp only [Compile.nodes, Compile.node] at honce ⊢
      exact ih path (index + 1) honce (Document.intact_cons.mp hintact).2
  | placeholder _ ih =>
      simp only [Compile.nodes, Compile.node] at honce ⊢
      exact ih path (index + 2) honce (Document.intact_append.mp hintact).2
  | @element next name as children rest n attributes properties inner elements held marks
      under bs hsettled hunder _ ihUnder ihRest =>
      rw [attributes_element, List.map_append, List.map_append] at honce
      obtain ⟨hown, hothers, -⟩ := List.nodup_append.mp honce
      obtain ⟨hbelow, hbeside, -⟩ := List.nodup_append.mp hothers
      obtain ⟨⟨parent, hnode, hgrows⟩, hrest⟩ := Document.intact_cons.mp hintact
      rw [zip_element path index next name as rest hunder]
      refine List.forall_mem_append.mpr ⟨?_, List.forall_mem_append.mpr
        ⟨ihUnder (path ++ [index]) 0 hbelow hgrows.intact, ihRest path (index + 1) hbeside hrest⟩⟩
      intro s hs
      obtain ⟨⟨k, a⟩, ho, rfl⟩ := List.mem_map.mp hs
      have hdistinct : ((bound next as).map fun o => Compile.targetOf o.2.name).Nodup := by
        rw [List.map_map] at hown
        refine List.Nodup.of_map (fun t => (path ++ [index], t)) ?_
        rw [List.map_map]
        exact hown
      have hlast := Substitution.lastBound_of_mem hdistinct ho
      dsimp only at hlast
      simp only [AttributeBinding.HoldsIn, Compile.attribute?_bindingOf,
        Compile.property_bindingOf]
      rcases htarget : Compile.targetOf a.name with ⟨_ | _, name'⟩
      · rw [htarget] at hlast
        simp only [Compile.bindingOf, htarget]
        rw [Document.attribute?_of_node name' hnode, hsettled.text name',
          Substitution.attribute?, Substitution.deciding_eq, hlast]
        rfl
      · rw [htarget] at hlast
        simp only [Compile.bindingOf, htarget]
        rw [Document.property?_of_node name' hnode]
        have hproperty := hsettled.property name'
        rw [Substitution.property?, Substitution.deciding_eq, hlast] at hproperty
        exact hproperty

theorem intact_held (h : Layout say next ns elements marks bs) (hintact : d.Intact bs) :
    ∀ m ∈ marks, d.Intact m.held := by
  induction h with
  | nil => nofun
  | text _ ih | comment _ ih => exact ih (Document.intact_cons.mp hintact).2
  | @placeholder m rest elements marks bs _ ih =>
      obtain ⟨hmark, hrest⟩ := Document.intact_append.mp hintact
      obtain ⟨-, hinside⟩ := Document.intact_cons.mp hmark
      exact List.forall_mem_cons.mpr ⟨(Document.intact_append.mp hinside).1, ih hrest⟩
  | element _ _ _ ihUnder ihRest =>
      obtain ⟨⟨parent, -, hgrows⟩, hrest⟩ := Document.intact_cons.mp hintact
      exact List.forall_mem_append.mpr ⟨ihUnder hgrows.intact, ihRest hrest⟩

end Layout

/-! ## Regions -/

/-- A value that agrees with what a region shows does not change it. -/
def Value.LeavesAlone (markup : CompiledTemplate → List Node) (v : Value) : Prop :=
  ∀ {w : Value}, v.Agrees w → ∀ (spans spans' : InstanceId → List NodeId) (r : Region)
    (held : List Branch) (d : Document), r.content.Fits markup held →
    r.content.Records v → AlikeAll (sceneAll held) (v.scenes markup) → d.Intact held →
      r.update spans (w, w.rendering spans') d = (r, none, d)

theorem Region.FitAll.forall₂ {P : Region → Mark → Prop} {regions : List Region}
    {marks : List Mark} (h : Region.FitAll markup regions marks)
    (hP : ∀ r ∈ regions, ∀ m ∈ marks, r.Fits markup m → P r m) :
    List.Forall₂ P regions marks := by
  induction Region.fitAll_iff.mp h with
  | nil => exact .nil
  | @cons r m regions marks hr hrest ih =>
      obtain ⟨hfirst, hothers⟩ := List.forall_mem_cons.mp hP
      exact .cons (hfirst m List.mem_cons_self hr) (ih (Region.fitAll_iff.mpr hrest)
        fun r hr m hm => hothers r hr m (List.mem_cons_of_mem _ hm))

theorem Region.updateAll_calm {spans : InstanceId → List NodeId} {supplies : List Supply}
    {regions : List Region} {marks : List Mark}
    (h : List.Forall₂ (fun r _ =>
      r.update spans (supplyAt supplies r.placeholder) d = (r, none, d)) regions marks) :
    Region.updateAll spans supplies regions d = (regions, none, d) := by
  induction h with
  | nil => rfl
  | cons hr _ ih =>
      rw [Region.updateAll, hr]
      simp only [ih]

theorem Region.recordAll_iff {value : Nat → Value} {regions : List Region} :
    Region.RecordAll value regions ↔
      ∀ r ∈ regions, r.content.Records (value r.placeholder) := by
  induction regions with
  | nil => exact ⟨fun _ => nofun, fun _ => trivial⟩
  | cons r rest ih => rw [Region.recordAll_cons, ih, List.forall_mem_cons]

/-! ## Instances -/

namespace Instance

variable {i : Instance} {values next : List Value} {ns : List Node} {bs : List Branch}

theorem FitsAs.length_held {marks : List Mark} (hfit : i.FitsAs markup ns bs)
    (hrecords : i.Records (Value.supplied values))
    (hlength : ∀ k, i.source.template.Feeds k → ∀ {content : Content} {held : List Branch},
      content.Fits markup held → content.Records (Value.supplied values k) →
        held.length = ((Value.supplied values k).scenes markup).length)
    (hregions : Region.FitAll markup i.regions marks) :
    ∀ m ∈ marks, m.held.length = (Value.suppliedScenes markup values m.placeholder).length := by
  intro m hm
  obtain ⟨r, hr, hfits⟩ := hregions.exists_region hm
  rw [← hfits.placeholder]
  exact hlength _ (hfit.feeds r hr) hfits.content
    (Region.recordAll_iff.mp (records_iff.mp hrecords) r hr)

end Instance

theorem Value.Quiet.length_scenes {v : Value} (h : v.Quiet) : ∀ {content : Content}
    {held : List Branch}, content.Fits markup held → content.Records v →
      held.length = (v.scenes markup).length := by
  induction h with
  | text hlike =>
      intro content held hfit hrecords
      obtain ⟨n, rfl⟩ := hrecords.of_isTextLike hlike
      obtain rfl := hfit
      rw [Value.scenes_of_isTextLike markup hlike]
      rfl
  | template _ _ _ ih =>
      intro content held hfit hrecords
      obtain ⟨inner, rfl, rfl, hinner⟩ := hrecords.of_template
      have hfitAs := Instance.fits_iff.mp hfit
      obtain ⟨marks, hlayout, -, hregions⟩ := hfitAs.layout
      rw [Value.scenes_template]
      exact hlayout.length_nodes (hfitAs.length_held hinner ih hregions)

namespace Instance

variable {i : Instance} {values next : List Value} {ns : List Node} {bs : List Branch}

/-- The bindings of an instance with the elements that they write to. -/
def sites (i : Instance) : List (AttributeBinding × NodeId) :=
  i.source.template.attributes.zip i.elements

/-- An instance that remembers quiet values and looks like them does so at all elements and
between the markers of each region. -/
theorem FitsAs.settled (hfit : i.FitsAs markup ns bs)
    (hrecords : i.Records (Value.supplied values))
    (hquiet : ∀ k, i.source.template.Feeds k → (Value.supplied values k).Quiet)
    (halike : AlikeAll (sceneAll bs)
      (Substitution.nodes (Value.supplied values) (Value.suppliedScenes markup values) 0 ns)) :
    ∃ marks, Layout (Settled (Value.supplied values)) 0 ns i.elements marks bs ∧
      Region.FitAll markup i.regions marks ∧ ∀ m ∈ marks,
        AlikeAll (sceneAll m.held) (Value.suppliedScenes markup values m.placeholder) := by
  obtain ⟨marks, hlayout, -, hregions⟩ := hfit.layout
  have hlength := hfit.length_held hrecords (fun k hk => (hquiet k hk).length_scenes) hregions
  obtain ⟨hsettled, hmarks⟩ := hlayout.settled_of_alike hlength halike
  exact ⟨marks, hsettled, hregions, hmarks⟩

theorem FitsAs.template_attributes (hfit : i.FitsAs markup ns bs) :
    i.source.template.attributes = (Compile.nodes [] 0 0 ns).attributes := by
  rw [hfit.template]
  rfl

theorem FitsAs.holdsIn {value : Nat → Value} {marks : List Mark} (hfit : i.FitsAs markup ns bs)
    (hlayout : Layout (Settled value) 0 ns i.elements marks bs)
    (honce : i.source.template.BindsOnce) (hintact : d.Intact bs) :
    ∀ s ∈ i.sites, s.1.HoldsIn d s.2 value := by
  rw [Template.BindsOnce, hfit.template_attributes] at honce
  rw [sites, hfit.template_attributes]
  exact hlayout.holdsIn [] 0 honce hintact

/-- Giving an instance values that agree with the quiet ones that it shows changes nothing. -/
theorem supply_calm (hfit : i.FitsAs markup ns bs) (hrecords : i.Records (Value.supplied values))
    (hquiet : (Value.template i.source values).Quiet)
    (halone : ∀ k, i.source.template.Feeds k → (Value.supplied values k).LeavesAlone markup)
    (halike : AlikeAll (sceneAll bs)
      (Substitution.nodes (Value.supplied values) (Value.suppliedScenes markup values) 0 ns))
    (hintact : d.Intact bs)
    (hagrees : ∀ k, (Value.supplied values k).Agrees (Value.supplied next k))
    (spans spans' : InstanceId → List NodeId) :
    i.supply spans (Value.supplies spans' next) d = (i, none, d) := by
  cases hquiet with
  | text hlike => cases hlike
  | template honce hfree hquiet =>
      obtain ⟨marks, hlayout, hregions, hmarks⟩ := hfit.settled hrecords hquiet halike
      have hholds := hfit.holdsIn hlayout honce hintact
      have hbindings : applyBindings (Value.supplied next) i.sites d = d :=
        applyBindings_calm fun s hs =>
          AttributeBinding.apply_of_holdsIn (hholds s hs) (fun k _ => hagrees k)
            (hfree s.1 (List.of_mem_zip hs).1)
      have hremembers := Region.recordAll_iff.mp (records_iff.mp hrecords)
      have hall := Region.updateAll_calm
        (hregions.forall₂ fun r hr m hm hfits => by
          have hshown := hmarks m hm
          rw [← hfits.placeholder] at hshown
          rw [Value.supplyAt_supplies]
          exact halone _ (hfit.feeds r hr) (hagrees _) spans spans' r m.held d hfits.content
            (hremembers r hr) hshown (hlayout.intact_held hintact m hm))
      rw [sites] at hbindings
      simp only [supply, Value.supplyAt_supplies, hbindings, hall]
      cases i
      rfl

end Instance

/-- A quiet value leaves a region alone that shows it, at every depth. -/
theorem Value.Quiet.leavesAlone {v : Value} (h : v.Quiet) : v.LeavesAlone markup := by
  induction h with
  | @text v hlike =>
      intro w hagrees spans spans' r held d hfit hrecords _ _
      obtain ⟨n, hcontent⟩ := hrecords.of_isTextLike hlike
      have hlike' : w.isTextLike = true := hagrees.isTextLike ▸ hlike
      simp only [Region.update, hcontent, hlike', hagrees.text, if_true]
  | @template source values honce hfree hquiet ih =>
      intro w hagrees spans spans' r held d hfit hrecords halike hintact
      obtain ⟨next, rfl, hnext⟩ := hagrees.of_template
      obtain ⟨inner, hcontent, rfl, hinner⟩ := hrecords.of_template
      rw [hcontent] at hfit
      rw [Value.scenes_template] at halike
      have hcalm := Instance.supply_calm (Instance.fits_iff.mp hfit) hinner
        (.template honce hfree hquiet) ih halike hintact hnext spans' spans'
      simp only [Region.update, hcontent, if_true, Value.rendering, hcalm]
      cases r
      rw [← hcontent]

end LiveMarkup
