import LiveMarkup.Proofs.Instance.Hiding
import LiveMarkup.Proofs.Instance.Refilling
import LiveMarkup.Proofs.Mount.Reached

/-!
# Leaving a shared instance alone

A region that is given the shared instance that it shows already is left alone if
the first node of the instance still stands between its markers, and refilled
otherwise. Looking at one node does not tell where the others are: the two ways
come to the same exactly if what stands between the markers is what refilling
would put there. This is said of every region that a patch comes to, with the
document as the regions before it left it.
-/

namespace LiveMarkup

variable {spans : InstanceId → List NodeId} {d d' : Document} {i : Instance}
  {values : List Value} {r : Region} {v : Value}

/-! ## Regions that are come to -/

namespace Instance

/-- A region that patching an instance comes to, with the value that it is given and with the
document as it is by then. Regions of instances that are made meanwhile hold nothing yet, so
these are left out. -/
inductive Visits (spans : InstanceId → List NodeId) :
    List Value → Instance → Document → Region → Value → Document → Prop
  | here {values : List Value} {i : Instance} {d d' : Document} {before before' rest : List Region}
      {r : Region} (hregions : i.regions = before ++ r :: rest)
      (hbefore : Region.updateAll spans (Value.supplies spans values) before
        (applyBindings (Value.supplied values)
          (i.source.template.attributes.zip i.elements) d) = (before', none, d')) :
      Visits spans values i d r (Value.supplied values r.placeholder) d'
  | inside {values values' : List Value} {i inner : Instance} {d d' d'' : Document}
      {r r' : Region} {v : Value}
      (h : Visits spans values i d r (.template inner.source values') d')
      (hcontent : r.content = .own inner) (hinner : Visits spans values' inner d' r' v d'') :
      Visits spans values i d r' v d''

theorem Visits.remembers (h : i.Visits spans values d r v d')
    (hvalues : Value.AreCompiled values) (hd : d.Hosts spans) (hi : i.All d.Insertable) :
    v.IsCompiled ∧ d'.Hosts spans ∧ r.content.All d'.Insertable := by
  induction h with
  | @here values i d d' before before' rest r hregions hbefore =>
      have hbound : d.Follows (applyBindings (Value.supplied values)
          (i.source.template.attributes.zip i.elements) d) :=
        .of_sameShape hd.tied (sameShape_applyBindings _ _ d)
      -- The regions before this one may have moved its nodes away, but did not lose them.
      obtain ⟨-, hall⟩ := all_iff.mp hi
      rw [hregions] at hall
      obtain ⟨hfront, hback⟩ := List.forall_mem_append.mp hall
      obtain ⟨hdocument, -⟩ := Region.follows_updateAll
        (Value.follows_supplyAt (hvalues.follows spans)) (hd.follow hbound)
        fun r hr => (hfront r hr).mono hbound.kept
      rw [hbefore] at hdocument
      have hfollows := hbound.trans hdocument
      exact ⟨hvalues.supplied _, hd.follow hfollows,
        (hback _ List.mem_cons_self).mono hfollows.kept⟩
  | inside _ hcontent _ ih ihinner =>
      obtain ⟨hv, hd', hr⟩ := ih hvalues hd hi
      rw [hcontent, Content.All] at hr
      exact ihinner hv.2 hd' hr

end Instance

/-! ## Two ways to show what is shown already -/

/-- What is between the markers of a region that is given the instance that it shows already. -/
theorem Region.between_give_shown {t : InstanceId} (hcontent : r.content = .shared t)
    (hd : d.Hosts spans) :
    (r.give spans (.shared t) d).2.2.between r.first r.last =
      if r.holds (spans t) d = true then d.between r.first r.last
      else r.refilled (spans t) d := by
  by_cases hholds : r.holds (spans t) d = true
  · rw [Region.give, update, hcontent]
    simp only [hholds, and_self, if_true]
  · rw [give_shared fun hthere => hholds hthere.2, if_neg hholds,
      between_replace_shared hd.tied (hd.insertable t)]

/-- Whatever happened to a stage, and wherever the nodes of a shared instance are by now: a region
that is given the instance that it shows already would be refilled with the nodes that
`Region.refilled` tells from the document as it is. Leaving the region alone while the first
node stands there comes to the same exactly if these nodes, in this order, are all that stands
there as long as the first one does. -/
theorem Stage.Reached.shortcut_agrees_iff {s : Stage} {m : MountSites} (h : Reached s m)
    (hi : s.Has m i) (hvalues : Value.AreCompiled values) {t : InstanceId}
    (hvisit : i.Visits s.shared.span values s.document r (.shared t) d)
    (hcontent : r.content = .shared t) :
    (r.replace ((Value.shared t).rendering s.shared.span) d).2.2.between r.first r.last =
        r.refilled (s.shared.span t) d ∧
      ((r.give s.shared.span (.shared t) d).2.2.between r.first r.last =
          (r.replace ((Value.shared t).rendering s.shared.span) d).2.2.between r.first r.last ↔
        (r.holds (s.shared.span t) d = true →
          d.between r.first r.last = r.refilled (s.shared.span t) d)) := by
  have hremembers := h.remembers
  obtain ⟨-, hd, -⟩ := hvisit.remembers hvalues hremembers.hosts (hremembers.has hi)
  have hrefilled := Region.between_replace_shared (r := r) hd.tied (hd.insertable t)
  refine ⟨hrefilled, ?_⟩
  rw [hrefilled, Region.between_give_shown hcontent hd]
  split
  · rename_i hholds
    exact ⟨fun heq _ => heq, fun heq => heq hholds⟩
  · rename_i hholds
    exact ⟨fun _ hthere => absurd hthere hholds, fun _ => rfl⟩

/-! ### Two elements, one of them taken out -/

namespace Stage

/-- A template of two elements. -/
def twoElements : CompiledTemplate :=
  ⟨1, Template.ofNodes [.element "b" [] [], .element "i" [] []]⟩

/-- The two elements in an inset. -/
def insetElements : Stage :=
  (((empty.create twoElements).2.create inset).2.patch 1 [.shared 0]).2

/-- The second element was taken out of there. -/
def insetElement : Stage :=
  { insetElements with document := insetElements.document.removeChild 3 2 }

/-- The place of the inset. -/
def elementsPlace : Region := ⟨[0], 0, 4, 5, .shared 0⟩

theorem reached_insetElement : Reached insetElement .empty := by
  have hreached : Reached insetElements .empty :=
    .patch (.create (.create .start ⟨_, rfl⟩) ⟨_, rfl⟩) 1 ⟨trivial, trivial⟩
  exact hreached.operate (.removeChild 3 2)

theorem visits_elementsPlace :
    ∃ i, insetElement.Has .empty i ∧
      i.Visits insetElement.shared.span [.shared 0] insetElement.document elementsPlace
        (.shared 0) insetElement.document := by
  have hfound : insetElement.shared[1]?.map (fun i => (i.regions, i.elements)) =
      some ([elementsPlace], []) := by rfl
  obtain ⟨i, hi, hparts⟩ := Option.map_eq_some_iff.mp hfound
  obtain ⟨hregions, helements⟩ := Prod.mk.inj hparts
  have hsplit : i.regions = [] ++ elementsPlace :: [] := hregions
  have hbefore : Region.updateAll insetElement.shared.span
      (Value.supplies insetElement.shared.span [.shared 0]) []
        (applyBindings (Value.supplied [.shared 0])
          (i.source.template.attributes.zip i.elements) insetElement.document) =
      ([], none, insetElement.document) := by
    rw [helements, List.zip_nil_right]
    rfl
  exact ⟨i, .inl (List.mem_of_getElem? hi), .here hsplit hbefore⟩

/-- The place is left alone with one element, and would be refilled with both. -/
theorem shortcut_agrees_iff_insetElement :
    elementsPlace.refilled (insetElement.shared.span 0) insetElement.document = [1, 2] ∧
      ((elementsPlace.give insetElement.shared.span (.shared 0)
            insetElement.document).2.2.between 4 5 =
          (elementsPlace.replace ((Value.shared 0).rendering insetElement.shared.span)
            insetElement.document).2.2.between 4 5 ↔
        (elementsPlace.holds (insetElement.shared.span 0) insetElement.document = true →
          insetElement.document.between 4 5 = [1, 2])) := by
  obtain ⟨i, hi, hvisit⟩ := visits_elementsPlace
  have hrefilled : elementsPlace.refilled (insetElement.shared.span 0) insetElement.document =
      [1, 2] := by decide +kernel
  have hvalues : Value.AreCompiled [.shared 0] := ⟨trivial, trivial⟩
  obtain ⟨-, hagree⟩ := reached_insetElement.shortcut_agrees_iff hi hvalues hvisit rfl
  rw [hrefilled] at hagree
  exact ⟨hrefilled, hagree⟩

/-- The element that was taken out is not brought back. -/
theorem shortcut_leaves_element_out :
    ∃ (s : Stage) (m : MountSites) (i : Instance) (r : Region) (d : Document),
      Reached s m ∧ s.Has m i ∧
        i.Visits s.shared.span [.shared 0] s.document r (.shared 0) d ∧ r.content = .shared 0 ∧
        (r.give s.shared.span (.shared 0) d).2.2.between r.first r.last = [1] ∧
        (r.replace ((Value.shared 0).rendering s.shared.span) d).2.2.between r.first r.last =
          [1, 2] := by
  obtain ⟨i, hi, hvisit⟩ := visits_elementsPlace
  exact ⟨insetElement, .empty, i, elementsPlace, insetElement.document, reached_insetElement, hi,
    hvisit, rfl, by decide +kernel, by decide +kernel⟩

end Stage

end LiveMarkup
