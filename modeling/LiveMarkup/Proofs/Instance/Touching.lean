import LiveMarkup.Proofs.Instance.Calm
import Mathlib.Logic.Relation

/-!
# What a patch touches

Giving an instance values is a sequence of writes, each of them at a place that
is fed by a placeholder whose value is another one than before: an attribute or
a property of one element, or what stands between the markers of one region.
What other placeholders feed is compared and found to be there already, since
no two bindings write to one place.
-/

namespace LiveMarkup

open Branch (idsAll tops sceneAll)
open Document (Edit)
open PropertyValue (Agree)
open Scene (AlikeAll)
open Substitution (bound)

variable {markup : CompiledTemplate → List Node} {d d' : Document}

/-! ## Writes to one place -/

namespace Document

/-- One write of an attribute or a property of a node. -/
inductive WritesAt (d : Document) (n : NodeId) : BindingTarget → String → Document → Prop
  | setAttribute (name value : String) :
      WritesAt d n .attribute name (d.setAttribute n name value)
  | removeAttribute (name : String) :
      WritesAt d n .attribute name (d.removeAttribute n name)
  | setProperty (name : String) (value : PropertyValue) :
      WritesAt d n .property name (d.setProperty n name value)

variable {n k : NodeId} {f : NodeData → NodeData} {name : String}
  (counts : MutationCounts → MutationCounts)

theorem attribute?_modify_other
    (h : k = n → ∀ data, (f data).attributes.value? name = data.attributes.value? name) :
    ((d.modify n f).count counts).attribute? k name = d.attribute? k name := by
  by_cases hk : k = n
  · simp only [attribute?, attributes, nodes_count, node_modify, if_pos hk]
    cases d.nodes[k]? with
    | none => rfl
    | some data => exact h hk data
  · simp only [attribute?, attributes, nodes_count, node_modify, if_neg hk]

theorem property?_modify_other
    (h : k = n → ∀ data, (f data).properties.get? name = data.properties.get? name) :
    ((d.modify n f).count counts).property? k name = d.property? k name := by
  by_cases hk : k = n
  · simp only [property?, nodes_count, node_modify, if_pos hk]
    cases d.nodes[k]? with
    | none => rfl
    | some data => exact h hk data
  · simp only [property?, nodes_count, node_modify, if_neg hk]

variable {target : BindingTarget} {name' : String}

theorem WritesAt.attribute?_eq (h : d.WritesAt n target name d')
    (hother : (k, BindingTarget.attribute, name') ≠ (n, target, name)) :
    d'.attribute? k name' = d.attribute? k name' := by
  cases h with
  | setAttribute _ value =>
      refine attribute?_modify_other _ fun hk data => ?_
      rw [Attributes.value?_write, if_neg fun hname => hother (by rw [hk, hname])]
  | removeAttribute =>
      unfold Document.removeAttribute
      split
      · refine attribute?_modify_other _ fun hk data => ?_
        rw [Attributes.value?_remove, if_neg fun hname => hother (by rw [hk, hname])]
      · rfl
  | setProperty => exact attribute?_modify_other _ fun _ _ => rfl

theorem WritesAt.property?_eq (h : d.WritesAt n target name d')
    (hother : (k, BindingTarget.property, name') ≠ (n, target, name)) :
    d'.property? k name' = d.property? k name' := by
  cases h with
  | setAttribute => exact property?_modify_other _ fun _ _ => rfl
  | removeAttribute =>
      unfold Document.removeAttribute
      split
      · exact property?_modify_other _ fun _ _ => rfl
      · rfl
  | setProperty _ value =>
      refine property?_modify_other _ fun hk data => ?_
      rw [OrderedMap.get?_insert]
      simp only [Std.LawfulEqCmp.compare_eq_iff_eq]
      exact if_neg fun hname => hother (by rw [hk, hname])

end Document

/-- Where a binding writes to. -/
def AttributeBinding.place (s : AttributeBinding × NodeId) : NodeId × BindingTarget × String :=
  (s.2, s.1.target, s.1.name)

namespace AttributeBinding

variable {b : AttributeBinding} {n : NodeId} {value : Nat → Value}

theorem apply_writesAt (b : AttributeBinding) (n : NodeId) (value : Nat → Value)
    (d : Document) :
    b.apply n value d = d ∨ d.WritesAt n b.target b.name (b.apply n value d) := by
  unfold apply
  rcases htarget : b.target with _ | _
  · dsimp only
    unfold Document.updateAttribute
    split
    · exact .inl rfl
    · split
      · exact .inr (.removeAttribute b.name)
      · exact .inr (.setAttribute b.name _)
  · have hwrite := Document.WritesAt.setProperty (d := d) (n := n) b.name (b.property value)
    dsimp only
    unfold Document.updateProperty
    split
    · split
      · exact .inl rfl
      · exact .inr hwrite
    · exact .inr hwrite

theorem HoldsIn.writesAt (h : b.HoldsIn d n value) {k : NodeId} {target : BindingTarget}
    {name : String} (hwrite : d.WritesAt k target name d')
    (hother : place (b, n) ≠ (k, target, name)) : b.HoldsIn d' n value := by
  unfold HoldsIn at h ⊢
  rcases htarget : b.target with _ | _ <;> rw [htarget] at h <;> dsimp only at h ⊢ <;>
    rw [place, htarget] at hother
  · rw [hwrite.attribute?_eq hother]
    exact h
  · rw [hwrite.property?_eq hother]
    exact h

end AttributeBinding

/-! ## Places in a layout -/

namespace Layout

variable {say : Nat → List Attribute → Attributes → Properties → Prop} {next : Nat}
  {ns : List Node} {elements : List NodeId} {marks : List Mark} {bs : List Branch}

theorem elements_subset (h : Layout say next ns elements marks bs) : elements ⊆ idsAll bs := by
  induction h with
  | nil => exact List.Subset.refl _
  | text _ ih | comment _ ih => exact fun k hk => List.mem_cons_of_mem _ (ih hk)
  | placeholder _ ih =>
      rw [Branch.idsAll_append]
      exact fun k hk => List.mem_append_right _ (ih hk)
  | element _ _ _ ihUnder ihRest =>
      intro k hk
      simp only [List.mem_append, List.mem_replicate] at hk
      rw [Branch.idsAll_cons, Branch.ids_node]
      rcases hk with (⟨-, rfl⟩ | hk) | hk
      · exact List.mem_cons_self
      · exact List.mem_append_left _ (List.mem_cons_of_mem _ (ihUnder hk))
      · exact List.mem_append_right _ (ihRest hk)

theorem places_nodup (h : Layout say next ns elements marks bs) (path : NodePath) (index : Nat)
    (honce : ((Compile.nodes path index next ns).attributes.map fun b =>
      (b.path, b.target, b.name)).Nodup) (hdistinct : (idsAll bs).Nodup) :
    (((Compile.nodes path index next ns).attributes.zip elements).map
      AttributeBinding.place).Nodup := by
  induction h generalizing path index with
  | nil => simp [Compile.nodes]
  | text _ ih =>
      simp only [Compile.nodes, Compile.node] at honce ⊢
      exact ih path (index + 1) honce (List.nodup_cons.mp hdistinct).2
  | comment _ ih =>
      simp only [Compile.nodes, Compile.node] at honce ⊢
      exact ih path (index + 1) honce (List.nodup_cons.mp hdistinct).2
  | placeholder _ ih =>
      simp only [Compile.nodes, Compile.node] at honce ⊢
      rw [Branch.idsAll_append] at hdistinct
      exact ih path (index + 2) honce (List.nodup_append.mp hdistinct).2.1
  | @element next name as children rest n attributes properties inner elements held marks
      under bs _ hunder hlayout ihUnder ihRest =>
      rw [attributes_element, List.map_append, List.map_append] at honce
      obtain ⟨hown, hothers, -⟩ := List.nodup_append.mp honce
      obtain ⟨hbelow, hbeside, -⟩ := List.nodup_append.mp hothers
      rw [Branch.idsAll_cons] at hdistinct
      obtain ⟨hself, hrest, hapart⟩ := List.nodup_append.mp hdistinct
      obtain ⟨hn, hinner⟩ := List.nodup_cons.mp hself
      have hnode : ∀ {bindings : List AttributeBinding} {ids : List NodeId}
          {place : NodeId × BindingTarget × String},
          place ∈ (bindings.zip ids).map AttributeBinding.place → place.1 ∈ ids := by
        intro bindings ids place hplace
        obtain ⟨s, hs, rfl⟩ := List.mem_map.mp hplace
        exact (List.of_mem_zip hs).2
      rw [zip_element path index next name as rest hunder, List.map_append, List.map_append]
      refine List.nodup_append.mpr ⟨?_, List.nodup_append.mpr
        ⟨ihUnder (path ++ [index]) 0 hbelow hinner, ihRest path (index + 1) hbeside hrest, ?_⟩, ?_⟩
      · rw [List.map_map] at hown ⊢
        refine List.Nodup.of_map (fun p : NodeId × BindingTarget × String =>
          (path ++ [index], p.2)) ?_
        rw [List.map_map]
        exact hown
      · rintro p hp _ hq rfl
        exact hapart p.1 (List.mem_cons_of_mem n (hunder.elements_subset (hnode hp))) p.1
          (hlayout.elements_subset (hnode hq)) rfl
      · rintro p hp _ hq rfl
        obtain ⟨s, hs, rfl⟩ := List.mem_map.mp hp
        obtain ⟨o, -, rfl⟩ := List.mem_map.mp hs
        rcases List.mem_append.mp hq with hq | hq
        · exact hn (hunder.elements_subset (hnode hq))
        · exact hapart n (by simp) n (hlayout.elements_subset (hnode hq)) rfl

end Layout

/-! ## Touching -/

namespace Instance

variable {i : Instance} {values next : List Value} {ns : List Node} {bs : List Branch}
  {touched : Nat → Prop} {spans : InstanceId → List NodeId}

/-- One write of a patch where a placeholder of some is fed: of an attribute or a property that
it is bound to, or of what stands between the markers of its region. -/
inductive Touches (i : Instance) (spans : InstanceId → List NodeId) (next : List Value)
    (touched : Nat → Prop) (d d' : Document) : Prop
  | binding {s : AttributeBinding × NodeId} (hs : s ∈ i.sites) {k : Nat}
      (hk : k ∈ s.1.numbers) (htouched : touched k)
      (hwrite : d.WritesAt s.2 s.1.target s.1.name d')
  | region {r : Region} (hr : r ∈ i.regions) (htouched : touched r.placeholder)
      (hupdate : (r.update spans (supplyAt (Value.supplies spans next) r.placeholder) d).2.2 = d')
      {p : NodeId} {before behind : List NodeId} {held held' : List Branch}
      (hbefore : r.Encloses d p before held behind)
      (hafter : r.Encloses d' p before held' behind)
      (hedit : Edit d d' p (idsAll held) (idsAll held'))

/-- Bringing up to date bindings that write to different places and hold for values, by other
values: only those are written that a placeholder feeds whose value does not agree. -/
theorem applyBindings_touches {R : Document → Document → Prop} {value : Nat → Value}
    (hagrees : ∀ k, ¬ touched k → (value k).Agrees (Value.supplied next k))
    {bindings : List (AttributeBinding × NodeId)}
    (hwrites : ∀ s ∈ bindings, ∀ k ∈ s.1.numbers, touched k → ∀ {d d' : Document},
      d.WritesAt s.2 s.1.target s.1.name d' → R d d')
    (hplaces : (bindings.map AttributeBinding.place).Nodup)
    (hfree : ∀ s ∈ bindings, s.1.target = .property → (s.1.property value).nanFree = true)
    (hholds : ∀ s ∈ bindings, s.1.HoldsIn d s.2 value) :
    Relation.ReflTransGen R d (applyBindings (Value.supplied next) bindings d) := by
  induction bindings generalizing d with
  | nil => exact .refl
  | cons s bindings ih =>
      obtain ⟨hswrites, hwrites⟩ := List.forall_mem_cons.mp hwrites
      obtain ⟨hapart, hplaces⟩ := List.nodup_cons.mp hplaces
      obtain ⟨hsfree, hfree⟩ := List.forall_mem_cons.mp hfree
      obtain ⟨hself, hothers⟩ := List.forall_mem_cons.mp hholds
      rw [applyBindings, List.foldl_cons]
      by_cases hk : ∃ k ∈ s.1.numbers, touched k
      · obtain ⟨k, hk, htouched⟩ := hk
        rcases s.1.apply_writesAt s.2 (Value.supplied next) d with hsame | hwrite
        · rw [hsame]
          exact ih hwrites hplaces hfree hothers
        · -- the others still hold after a write to another place
          refine .head (hswrites k hk htouched hwrite)
            (ih hwrites hplaces hfree fun t ht => ?_)
          refine (hothers t ht).writesAt hwrite fun heq => hapart ?_
          have heq : AttributeBinding.place t = AttributeBinding.place s := heq
          exact heq ▸ List.mem_map_of_mem ht
      · rw [AttributeBinding.apply_of_holdsIn hself
          (fun k hmem => hagrees k fun htouched => hk ⟨k, hmem, htouched⟩) hsfree]
        exact ih hwrites hplaces hfree hothers

theorem FitsAs.sites_touched {R : Document → Document → Prop} {value : Nat → Value}
    {marks : List Mark} (hfit : i.FitsAs markup ns bs)
    (hlayout : Layout (Settled value) 0 ns i.elements marks bs)
    (honce : i.source.template.BindsOnce)
    (hfree : ∀ b ∈ i.source.template.attributes, b.target = .property →
      (b.property value).nanFree = true)
    (hintact : d.Intact bs) (hdistinct : (idsAll bs).Nodup)
    (hagrees : ∀ k, ¬ touched k → (value k).Agrees (Value.supplied next k))
    (hwrites : ∀ s ∈ i.sites, ∀ k ∈ s.1.numbers, touched k → ∀ {d d' : Document},
      d.WritesAt s.2 s.1.target s.1.name d' → R d d') :
    Relation.ReflTransGen R d (applyBindings (Value.supplied next) i.sites d) := by
  have hholds := hfit.holdsIn hlayout honce hintact
  refine applyBindings_touches hagrees hwrites ?_ (fun s hs => hfree s.1 (List.of_mem_zip hs).1)
    hholds
  rw [Template.BindsOnce, hfit.template_attributes] at honce
  rw [sites, hfit.template_attributes]
  exact hlayout.places_nodup [] 0 honce hdistinct

/-- Giving a region of an instance a value: nothing happens unless its placeholder is one of
some. -/
theorem steps_touches {r : Region} {m : Mark} (hr : r ∈ i.regions)
    (hfits : r.Fits markup m) (hrecords : r.content.Records (Value.supplied values r.placeholder))
    (halike : AlikeAll (sceneAll m.held) ((Value.supplied values r.placeholder).scenes markup))
    (halone : (Value.supplied values r.placeholder).LeavesAlone markup)
    (hagrees : ¬ touched r.placeholder →
      (Value.supplied values r.placeholder).Agrees (Value.supplied next r.placeholder))
    (hshows : (supplyAt (Value.supplies spans next) r.placeholder).Shows markup
      (Value.suppliedScenes markup next r.placeholder)) :
    Region.Steps spans (Value.supplies spans next)
      (Relation.ReflGen (i.Touches spans next touched)) (fun _ _ => True) r m := by
  intro d p before behind hplaced
  by_cases htouched : touched r.placeholder
  · have hencloses := hfits.encloses hplaced
    obtain ⟨content, d', held', hupdate, -, hafter, hedit, -⟩ :=
      hencloses.update hfits.content spans hshows
    obtain ⟨r', d₁, held, hupdate', -, hplaced', hedit', -⟩ :=
      Region.updates_update spans hshows hfits hplaced
    cases hupdate.symm.trans hupdate'
    exact ⟨_, d', held, hupdate, trivial, hplaced', hedit',
      .single (.region hr htouched (by rw [hupdate]) hencloses hafter hedit)⟩
  · obtain ⟨hheld, -⟩ := Document.grows_append.mp hplaced.grows.2
    refine ⟨r, d, m.held, ?_, trivial, hplaced, .refl _ _ _, .refl⟩
    rw [Value.supplyAt_supplies]
    exact halone (hagrees htouched) spans spans r m.held d hfits.content hrecords halike
      hheld.intact

/-- Giving values to an instance that shows quiet ones writes only where a placeholder feeds
something whose value does not agree. -/
theorem FitsAs.touches (hfit : i.FitsAs markup ns bs)
    (hrecords : i.Records (Value.supplied values))
    (hquiet : (Value.template i.source values).Quiet)
    (halike : AlikeAll (sceneAll bs)
      (Substitution.nodes (Value.supplied values) (Value.suppliedScenes markup values) 0 ns))
    {p : NodeId} {before behind : List NodeId} (hplaced : d.Placed p before bs behind)
    (hshows : ∀ k, i.source.template.Feeds k →
      (supplyAt (Value.supplies spans next) k).Shows markup (Value.suppliedScenes markup next k))
    (hagrees : ∀ k, ¬ touched k → (Value.supplied values k).Agrees (Value.supplied next k)) :
    ∃ i' d', i.patch spans next d = (i', none, d') ∧
      Relation.ReflTransGen (i.Touches spans next touched) d d' := by
  cases hquiet with
  | text hlike => cases hlike
  | template honce hfree hquiet =>
      obtain ⟨marks, hlayout, hregions, hmarks⟩ := hfit.settled hrecords hquiet halike
      have hbindings : Relation.ReflTransGen (i.Touches spans next touched) d
          (LiveMarkup.applyBindings (Value.supplied next) i.sites d) :=
        hfit.sites_touched hlayout honce hfree hplaced.grows.intact hplaced.ids_nodup hagrees
          fun s hs k hk htouched _ _ hwrite => .binding hs hk htouched hwrite
      obtain ⟨d₁, bs₁, happly, hlayout₁, -, hplaced₁, -⟩ :=
        (hlayout.mono Settled.fixed).applyBindings (Value.supplied next) [] 0 hplaced
      rw [← hfit.template_attributes] at happly
      rw [sites, happly] at hbindings
      have hremembers := Region.recordAll_iff.mp (records_iff.mp hrecords)
      have hsteps := hregions.forall₂ fun r hr m hm hfits => by
        have hshown := hmarks m hm
        rw [← hfits.placeholder] at hshown
        have hfed := hfit.feeds r hr
        exact steps_touches hr hfits (hremembers r hr) hshown
          (hquiet _ hfed).leavesAlone (hagrees _) (hshows _ hfed)
      obtain ⟨regions', d₂, -, -, hupdate, -, -, -, -, -, htouches⟩ :=
        hlayout₁.updateAll_of_steps hsteps hplaced₁
      rw [Relation.reflTransGen_reflGen] at htouches
      refine ⟨{ i with regions := regions' }, d₂, ?_, hbindings.trans htouches⟩
      simp only [patch, supply, Value.supplyAt_supplies, happly, hupdate]

end Instance

end LiveMarkup
