import LiveMarkup.Instance.Patch
import LiveMarkup.Proofs.Document.Neighbours

/-!
# Changes that move nothing

Writing attributes, properties and data leaves the shape of a document: who
stands where, and what is an element, a text, a comment or a fragment.
-/

namespace LiveMarkup

theorem NodeKind.name_eq_fragment {kind : NodeKind} : kind.name = "fragment" ↔ kind = .fragment := by
  cases kind <;> simp [NodeKind.name]

namespace Document

variable {d d' d'' : Document} {n : NodeId}

/-- The same nodes of the same kinds at the same places. -/
structure SameShape (d d' : Document) : Prop where
  size : d'.size = d.size
  parents : d'.parent? = d.parent?
  children : d'.children = d.children
  kinds : ∀ n, (d'.kind? n).map NodeKind.name = (d.kind? n).map NodeKind.name

namespace SameShape

theorem refl (d : Document) : SameShape d d :=
  ⟨rfl, rfl, rfl, fun _ => rfl⟩

theorem trans (h : SameShape d d') (h' : SameShape d' d'') : SameShape d d'' where
  size := h'.size.trans h.size
  parents := h'.parents.trans h.parents
  children := h'.children.trans h.children
  kinds n := (h'.kinds n).trans (h.kinds n)

theorem fragment_iff (h : SameShape d d') (n : NodeId) :
    d'.kind? n = some .fragment ↔ d.kind? n = some .fragment := by
  have hname : ∀ kind? : Option NodeKind,
      kind? = some .fragment ↔ kind?.map NodeKind.name = some "fragment" := by
    intro kind?
    cases kind? with
    | none => simp
    | some kind => simp [NodeKind.name_eq_fragment]
  rw [hname, hname, h.kinds]

theorem insertable (h : SameShape d d') (hn : d.Insertable n) : d'.Insertable n := by
  obtain ⟨kind, hkind, hsolid⟩ := insertable_iff.mp hn
  have hsame := h.kinds n
  rw [hkind, Option.map_some] at hsame
  obtain ⟨kind', hkind', hname⟩ := Option.map_eq_some_iff.mp hsame
  refine insertable_iff.mpr ⟨kind', hkind', ?_⟩
  rintro rfl
  exact hsolid (NodeKind.name_eq_fragment.mp hname.symm)

theorem tied (h : SameShape d d') (hd : d.Tied) : d'.Tied := by
  refine hd.of_views h.parents h.children fun n hn => ?_
  rw [h.parents]
  exact hd.loose n ((h.fragment_iff n).mp hn)

theorem modify (d : Document) (n : NodeId) {f : NodeData → NodeData}
    (hparent : ∀ data, (f data).parent = data.parent)
    (hchildren : ∀ data, (f data).children = data.children)
    (hkind : ∀ data, d.nodes[n]? = some data → (f data).kind.name = data.kind.name)
    (g : MutationCounts → MutationCounts) : SameShape d ((d.modify n f).count g) where
  size := by rw [size_count, size_modify]
  parents := parent?_modify d n hparent
  children := children_modify d n hchildren
  kinds k := by
    have hnode := node_modify d n k f
    unfold kind?
    rw [nodes_count, hnode]
    split
    · rename_i hk
      subst hk
      cases hdata : d.nodes[k]? with
      | none => rfl
      | some data =>
          simp only [Option.map_some]
          rw [hkind data hdata]
    · rfl

end SameShape

theorem sameShape_setProperty (d : Document) (n : NodeId) (name : String)
    (value : PropertyValue) : SameShape d (d.setProperty n name value) := by
  refine .modify d n ?_ ?_ ?_ _ <;> intros <;> rfl

theorem sameShape_setAttribute (d : Document) (n : NodeId) (name value : String) :
    SameShape d (d.setAttribute n name value) := by
  refine .modify d n ?_ ?_ ?_ _ <;> intros <;> rfl

theorem sameShape_removeAttribute (d : Document) (n : NodeId) (name : String) :
    SameShape d (d.removeAttribute n name) := by
  unfold removeAttribute
  split
  · refine .modify d n ?_ ?_ ?_ _ <;> intros <;> rfl
  · exact .refl d

theorem sameShape_setText (d : Document) (n : NodeId) (s : String) :
    SameShape d (d.setText n s) := by
  unfold setText
  split
  · exact .refl d
  · rename_i changed hchanged
    refine .modify d n (by intros; rfl) (by intros; rfl) (fun data hdata => ?_) _
    obtain ⟨old, hold, hwith⟩ := Option.bind_eq_some_iff.mp hchanged
    rw [kind?_of_node hdata] at hold
    cases hold
    cases hkind : data.kind <;> rw [hkind] at hwith <;> cases hwith <;> rfl

theorem sameShape_updateProperty (d : Document) (n : NodeId) (name : String)
    (next : PropertyValue) : SameShape d (d.updateProperty n name next) := by
  unfold updateProperty
  split
  · split
    · exact .refl d
    · exact sameShape_setProperty d n name next
  · exact sameShape_setProperty d n name next

theorem sameShape_updateAttribute (d : Document) (n : NodeId) (name : String)
    (next : Option String) : SameShape d (d.updateAttribute n name next) := by
  unfold updateAttribute
  split
  · exact .refl d
  · split
    · exact sameShape_removeAttribute d n name
    · exact sameShape_setAttribute d n name _

end Document

open Document (SameShape)

theorem sameShape_applyBindings (value : Nat → Value)
    (bindings : List (AttributeBinding × NodeId)) (d : Document) :
    SameShape d (applyBindings value bindings d) := by
  unfold applyBindings
  induction bindings generalizing d with
  | nil => exact .refl d
  | cons b bindings ih =>
      refine SameShape.trans ?_ (ih _)
      simp only [AttributeBinding.apply]
      split
      · exact Document.sameShape_updateProperty d b.2 b.1.name _
      · exact Document.sameShape_updateAttribute d b.2 b.1.name _

/-- Writing literal properties moves nothing. -/
theorem Instance.sameShape_writeProperties (fragment : NodeId) (ps : List LiteralProperty)
    (d : Document) : SameShape d (Instance.writeProperties fragment ps d).2 := by
  induction ps generalizing d with
  | nil => exact .refl d
  | cons p ps ih =>
      rw [Instance.writeProperties]
      split
      · exact .refl d
      · exact (Document.sameShape_setProperty d _ p.name _).trans (ih _)

end LiveMarkup
