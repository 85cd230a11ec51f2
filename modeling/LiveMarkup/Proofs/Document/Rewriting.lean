import LiveMarkup.Proofs.Document.Shapes
import Mathlib.Logic.Relation

/-!
# Rewriting what nodes carry

Attributes, properties and data can be written one at a time. Any number of
such writes creates, inserts and removes no node and leaves every node of its
kind where it stands.
-/

namespace LiveMarkup

namespace Document

variable {d d' : Document}

/-- One write of what a node carries. -/
inductive Rewrite (d : Document) : Document → Prop
  | setAttribute (n : NodeId) (name value : String) : Rewrite d (d.setAttribute n name value)
  | removeAttribute (n : NodeId) (name : String) : Rewrite d (d.removeAttribute n name)
  | setProperty (n : NodeId) (name : String) (value : PropertyValue) :
      Rewrite d (d.setProperty n name value)
  | setText (n : NodeId) (s : String) : Rewrite d (d.setText n s)

/-- Any number of writes of what nodes carry. -/
def Rewrites : Document → Document → Prop :=
  Relation.ReflTransGen Rewrite

/-- How many nodes were created, inserted and removed. -/
def nodeCounts (d : Document) : Nat × Nat × Nat :=
  (d.counts.created, d.counts.inserted, d.counts.removed)

theorem Rewrite.sameShape (h : Rewrite d d') : SameShape d d' := by
  cases h with
  | setAttribute n name value => exact sameShape_setAttribute d n name value
  | removeAttribute n name => exact sameShape_removeAttribute d n name
  | setProperty n name value => exact sameShape_setProperty d n name value
  | setText n s => exact sameShape_setText d n s

theorem Rewrite.nodeCounts_eq (h : Rewrite d d') : d'.nodeCounts = d.nodeCounts := by
  cases h with
  | setAttribute | setProperty => rfl
  | removeAttribute n name =>
      unfold Document.removeAttribute
      split <;> rfl
  | setText n s =>
      unfold Document.setText
      split <;> rfl

theorem Rewrites.sameShape (h : Rewrites d d') : SameShape d d' := by
  induction h with
  | refl => exact .refl d
  | tail _ hstep ih => exact ih.trans hstep.sameShape

theorem Rewrites.nodeCounts_eq (h : Rewrites d d') : d'.nodeCounts = d.nodeCounts := by
  induction h with
  | refl => rfl
  | tail _ hstep ih => exact hstep.nodeCounts_eq.trans ih

/-! ## Bringing up to date -/

theorem rewrites_updateProperty (d : Document) (n : NodeId) (name : String)
    (next : PropertyValue) : Rewrites d (d.updateProperty n name next) := by
  have hwrite : Rewrites d (d.setProperty n name next) := .single (.setProperty n name next)
  unfold updateProperty
  split
  · split
    · exact .refl
    · exact hwrite
  · exact hwrite

theorem rewrites_updateAttribute (d : Document) (n : NodeId) (name : String)
    (next : Option String) : Rewrites d (d.updateAttribute n name next) := by
  unfold updateAttribute
  split
  · exact .refl
  · split
    · exact .single (.removeAttribute n name)
    · exact .single (.setAttribute n name _)

end Document

theorem rewrites_applyBindings (value : Nat → Value)
    (bindings : List (AttributeBinding × NodeId)) (d : Document) :
    d.Rewrites (applyBindings value bindings d) := by
  unfold applyBindings
  induction bindings generalizing d with
  | nil => exact .refl
  | cons b bindings ih =>
      refine Relation.ReflTransGen.trans ?_ (ih _)
      simp only [AttributeBinding.apply]
      split
      · exact d.rewrites_updateProperty b.2 b.1.name _
      · exact d.rewrites_updateAttribute b.2 b.1.name _

end LiveMarkup
