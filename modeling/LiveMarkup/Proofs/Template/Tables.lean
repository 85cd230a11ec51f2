import LiveMarkup.Proofs.Document.Attributes
import LiveMarkup.Proofs.Document.Planted
import LiveMarkup.Proofs.Template.Substitution
import Mathlib.Data.List.Induction

/-!
# The tables of a template

What compiling the attributes of an element yields, in terms of its attributes
with their numbers: a binding for each that a placeholder feeds, and for each
other a written attribute or a literal property. Over all nodes, placeholders
are numbered without gaps, and the forest that is compiled has no fragments.
-/

namespace LiveMarkup

open Substitution (joined numbered deciding attributeText propertyValue)

/-! ## Values of attributes -/

namespace Compile

theorem literal?_eq (value : Nat → Value) (k : Nat) (parts : List ValuePart) :
    literal? parts =
      if parts.contains .placeholder then none else some (joined value k parts) := by
  induction parts with
  | nil => rfl
  | cons part parts ih =>
      cases part with
      | placeholder => simp [literal?]
      | literal text =>
          rw [literal?, ih]
          by_cases h : ValuePart.placeholder ∈ parts <;> simp [joined, h]

theorem numberParts_snd (k : Nat) (parts : List ValuePart) :
    (numberParts k parts).2 = k + parts.count .placeholder := by
  induction parts generalizing k with
  | nil => rfl
  | cons part parts ih =>
      cases part with
      | placeholder =>
          rw [numberParts, ih, List.count_cons_self]
          omega
      | literal text => simp [numberParts, ih]

theorem join_numberParts (value : Nat → Value) (k : Nat) (parts : List ValuePart) :
    String.join ((numberParts k parts).1.map fun
      | .literal text => text
      | .placeholder index => (value index).text) = joined value k parts := by
  induction parts generalizing k with
  | nil => rfl
  | cons part parts ih =>
      cases part <;> simp only [numberParts, List.map_cons, String.join_cons, joined, ih]

/-- The binding that an attribute becomes. -/
def bindingOf (path : NodePath) (o : Nat × Attribute) : AttributeBinding :=
  ⟨path, (targetOf o.2.name).2, (targetOf o.2.name).1, (numberParts o.1 o.2.value).1⟩

/-- A binding has a single placeholder exactly if that is the attribute's whole
value. -/
theorem single?_bindingOf (path : NodePath) (k : Nat) (a : Attribute) :
    (bindingOf path (k, a)).single? =
      if a.value = [.placeholder] then some k else none := by
  obtain ⟨name, parts⟩ := a
  match parts with
  | [] => rfl
  | [.placeholder] => rfl
  | .literal _ :: _ => simp [bindingOf, AttributeBinding.single?, numberParts]
  | .placeholder :: .placeholder :: _ =>
      simp [bindingOf, AttributeBinding.single?, numberParts]
  | .placeholder :: .literal _ :: _ =>
      simp [bindingOf, AttributeBinding.single?, numberParts]

theorem joined_bindingOf (value : Nat → Value) (path : NodePath) (o : Nat × Attribute) :
    (bindingOf path o).joined value = joined value o.1 o.2.value :=
  join_numberParts value o.1 o.2.value

theorem attribute?_bindingOf (value : Nat → Value) (path : NodePath) (k : Nat)
    (a : Attribute) :
    (bindingOf path (k, a)).attribute? value = attributeText value (k, a) := by
  rw [AttributeBinding.attribute?, single?_bindingOf, joined_bindingOf, attributeText]
  by_cases h : a.value = [.placeholder] <;> simp [h]

theorem property_bindingOf (value : Nat → Value) (path : NodePath) (k : Nat)
    (a : Attribute) :
    (bindingOf path (k, a)).property value = propertyValue value (k, a) := by
  rw [AttributeBinding.property, single?_bindingOf, joined_bindingOf, propertyValue]
  by_cases h : a.value = [.placeholder] <;> simp [h]

end Compile

/-! ## Attributes of an element -/

namespace Substitution

theorem placeholdersAll_append (as bs : List Attribute) :
    Attribute.placeholdersAll (as ++ bs) =
      Attribute.placeholdersAll as + Attribute.placeholdersAll bs := by
  induction as with
  | nil => simp [Attribute.placeholdersAll]
  | cons a as ih => simp [Attribute.placeholdersAll, ih, Nat.add_assoc]

theorem numbered_append (next : Nat) (as bs : List Attribute) :
    numbered next (as ++ bs) =
      numbered next as ++ numbered (next + Attribute.placeholdersAll as) bs := by
  induction as generalizing next with
  | nil => rfl
  | cons a as ih =>
      simp [numbered, ih, Attribute.placeholdersAll, Nat.add_assoc]

theorem map_snd_numbered (next : Nat) (as : List Attribute) :
    (numbered next as).map Prod.snd = as := by
  induction as generalizing next with
  | nil => rfl
  | cons a as ih => rw [numbered, List.map_cons, ih]

theorem add_placeholders_le {next : Nat} {as : List Attribute} {o : Nat × Attribute}
    (h : o ∈ numbered next as) :
    o.1 + o.2.placeholders ≤ next + Attribute.placeholdersAll as := by
  induction as generalizing next with
  | nil => cases h
  | cons a as ih =>
      rw [Attribute.placeholdersAll, ← Nat.add_assoc]
      rcases List.mem_cons.mp h with rfl | h
      · exact Nat.le_add_right _ _
      · exact ih h

/-- The attributes that placeholders feed, with their numbers. -/
def bound (next : Nat) (as : List Attribute) : List (Nat × Attribute) :=
  (numbered next as).filter (·.2.isBound)

theorem map_snd_bound (next : Nat) (as : List Attribute) :
    (bound next as).map Prod.snd = as.filter Attribute.isBound := by
  conv => rhs; rw [← map_snd_numbered next as, List.filter_map]
  rfl

theorem length_bound (next : Nat) (as : List Attribute) :
    (bound next as).length = as.countP Attribute.isBound := by
  rw [List.countP_eq_length_filter, ← map_snd_bound next as, List.length_map]

/-- The last attribute of a name that a placeholder feeds. -/
def lastBound (target : BindingTarget × String) (next : Nat) (as : List Attribute) :
    Option (Nat × Attribute) :=
  ((bound next as).filter fun o => Compile.targetOf o.2.name = target).getLast?

/-- The last attribute of a name. -/
def lastWritten (target : BindingTarget × String) (next : Nat) (as : List Attribute) :
    Option (Nat × Attribute) :=
  ((numbered next as).filter fun o => Compile.targetOf o.2.name = target).getLast?

theorem deciding_eq (target : BindingTarget × String) (next : Nat)
    (as : List Attribute) :
    deciding target next as =
      (lastBound target next as).or (lastWritten target next as) := by
  simp only [deciding, lastBound, lastWritten, bound, List.filter_filter, Bool.and_comm]

theorem lastWritten_append_singleton (target : BindingTarget × String) (next : Nat)
    (as : List Attribute) (a : Attribute) :
    lastWritten target next (as ++ [a]) =
      if Compile.targetOf a.name = target then
        some (next + Attribute.placeholdersAll as, a)
      else lastWritten target next as := by
  rw [lastWritten, numbered_append, List.filter_append]
  by_cases h : Compile.targetOf a.name = target <;> simp [numbered, h, lastWritten]

theorem isBound_lastWritten {target : BindingTarget × String} {next : Nat}
    {as : List Attribute} {o : Nat × Attribute} (h : lastWritten target next as = some o)
    (hnone : lastBound target next as = none) : o.2.isBound = false := by
  obtain ⟨hmem, htarget⟩ := List.mem_filter.mp (List.mem_of_getLast? h)
  have hempty := List.getLast?_eq_none_iff.mp hnone
  rw [Bool.eq_false_iff]
  intro hbound
  exact List.filter_eq_nil_iff.mp hempty o (List.mem_filter.mpr ⟨hmem, hbound⟩) htarget

theorem lastBound_append_singleton (target : BindingTarget × String) (next : Nat)
    (as : List Attribute) (a : Attribute) :
    lastBound target next (as ++ [a]) =
      if a.isBound = true ∧ Compile.targetOf a.name = target then
        some (next + Attribute.placeholdersAll as, a)
      else lastBound target next as := by
  rw [lastBound, bound, numbered_append, List.filter_append, List.filter_append]
  by_cases hbound : a.isBound = true
  · by_cases h : Compile.targetOf a.name = target <;>
      simp [numbered, hbound, h, lastBound, bound]
  · simp [numbered, hbound, lastBound, bound]

/-! ## What an element says -/

theorem keys_filterMap (f : String → Option String) (ks : List String) :
    Attributes.keys (ks.filterMap fun name => (f name).map (name, ·)) =
      ks.filter fun name => (f name).isSome := by
  induction ks with
  | nil => rfl
  | cons k ks ih =>
      cases hk : f k with
      | none => simpa [List.filterMap_cons, hk] using ih
      | some v => simpa [List.filterMap_cons, hk, Attributes.keys] using ih

theorem value?_filterMap (f : String → Option String) (ks : List String)
    (name : String) :
    Attributes.value? (ks.filterMap fun name => (f name).map (name, ·)) name =
      if name ∈ ks then f name else none := by
  induction ks with
  | nil => rfl
  | cons k ks ih =>
      by_cases hname : name = k
      · subst hname
        cases hk : f name with
        | none => simp [hk, ih]
        | some v => simp [hk, Attributes.value?_cons]
      · cases hk : f k with
        | none => simp [hk, ih, hname]
        | some v => simp [hk, Attributes.value?_cons, ih, hname]

theorem nodup_attributes (value : Nat → Value) (next : Nat) (as : List Attribute) :
    (attributes value next as).keys.Nodup := by
  rw [attributes, keys_filterMap]
  exact (List.nodup_dedup _).filter _

theorem attribute?_of_notMem (value : Nat → Value) (next : Nat) {as : List Attribute}
    {name : String} (h : name ∉ names as) : attribute? value next as name = none := by
  -- no attribute of that name is written, so none can decide
  have hnone : ((numbered next as).filter fun o =>
      Compile.targetOf o.2.name = (.attribute, name)) = [] := by
    refine List.filter_eq_nil_iff.mpr fun o ho htarget => h ?_
    have hmem : o.2 ∈ as := by
      rw [← map_snd_numbered next as]
      exact List.mem_map_of_mem ho
    refine List.mem_dedup.mpr (List.mem_map.mpr ⟨o.2, hmem, ?_⟩)
    rw [of_decide_eq_true htarget]
  rw [attribute?, deciding, hnone]
  rfl

theorem value?_attributes (value : Nat → Value) (next : Nat) (as : List Attribute)
    (name : String) :
    (attributes value next as).value? name = attribute? value next as name := by
  rw [attributes, value?_filterMap]
  by_cases h : name ∈ names as
  · rw [if_pos h]
  · rw [if_neg h, attribute?_of_notMem value next h]

end Substitution

/-- The name under which an element has an attribute, if it is no property. -/
def Attribute.key? (a : Attribute) : Option String :=
  match Compile.targetOf a.name with
  | (.attribute, name) => some name
  | (.property, _) => none

theorem Attribute.name_of_key? {a : Attribute} {name : String} (h : a.key? = some name) :
    a.name = name ∧ name.toList.head? ≠ some '.' := by
  unfold key? Compile.targetOf at h
  split at h
  · rename_i htarget
    split at htarget
    · cases htarget
    · rename_i hpoint
      cases h
      cases htarget
      refine ⟨rfl, ?_⟩
      intro hhead
      obtain ⟨rest, hrest⟩ := List.head?_eq_some_iff.mp hhead
      exact hpoint rest hrest
  · cases h

namespace Compile

open Substitution (bound lastBound lastWritten)

theorem attributes_append_singleton (path : NodePath) (next : Nat) (as : List Attribute)
    (a : Attribute) :
    attributes path next (as ++ [a]) = addAttribute path (attributes path next as) a := by
  simp [attributes, List.foldl_append]

theorem addAttribute_bound {a : Attribute} (h : a.isBound = true) (path : NodePath)
    (acc : CompiledAttributes) :
    addAttribute path acc a =
      { acc with bindings := acc.bindings ++ [bindingOf path (acc.next, a)]
                 next := acc.next + a.placeholders } := by
  have hliteral : literal? a.value = none := by
    rw [literal?_eq (fun _ => .undefined) 0]
    exact if_pos h
  simp only [addAttribute, hliteral, bindingOf]
  rw [show (numberParts acc.next a.value) =
    ((numberParts acc.next a.value).1, (numberParts acc.next a.value).2) from rfl]
  simp only [numberParts_snd, Attribute.placeholders]

/-- An attribute without a placeholder is written, or becomes a literal
property. -/
theorem addAttribute_literal {a : Attribute} (h : a.isBound = false) (path : NodePath)
    (value : Nat → Value) (k : Nat) (acc : CompiledAttributes) :
    addAttribute path acc a =
      match targetOf a.name with
      | (.attribute, name) =>
          { acc with written := Attributes.write name (joined value k a.value) acc.written }
      | (.property, name) =>
          { acc with
            properties := acc.properties ++ [⟨path, name, joined value k a.value⟩] } := by
  have hliteral : literal? a.value = some (joined value k a.value) := by
    rw [literal?_eq value k, if_neg (by simpa [Attribute.isBound] using h)]
  rw [addAttribute]
  obtain ⟨target, name⟩ := targetOf a.name
  cases target <;> simp only [hliteral]

theorem placeholders_of_literal {a : Attribute} (h : a.isBound = false) :
    a.placeholders = 0 := by
  refine List.count_eq_zero.mpr ?_
  simpa [Attribute.isBound] using h

theorem next_attributes (path : NodePath) (next : Nat) (as : List Attribute) :
    (attributes path next as).next = next + Attribute.placeholdersAll as := by
  induction as using List.reverseRecOn with
  | nil => rfl
  | append_singleton as a ih =>
      rw [attributes_append_singleton, Substitution.placeholdersAll_append]
      cases hbound : a.isBound with
      | true =>
          rw [addAttribute_bound hbound]
          simp [ih, Attribute.placeholdersAll, Nat.add_assoc]
      | false =>
          have hnone : Attribute.placeholdersAll [a] = 0 := placeholders_of_literal hbound
          rw [addAttribute_literal hbound path (fun _ => .undefined) 0, hnone]
          split <;> exact ih

/-- The bindings of an element are its attributes with placeholders, in
order. -/
theorem bindings_attributes (path : NodePath) (next : Nat) (as : List Attribute) :
    (attributes path next as).bindings = (bound next as).map (bindingOf path) := by
  induction as using List.reverseRecOn with
  | nil => rfl
  | append_singleton as a ih =>
      rw [attributes_append_singleton, bound, Substitution.numbered_append,
        List.filter_append]
      cases hbound : a.isBound with
      | true =>
          rw [addAttribute_bound hbound]
          simp [Substitution.numbered, hbound, ih, bound, next_attributes]
      | false =>
          rw [addAttribute_literal hbound path (fun _ => .undefined) 0]
          split <;> simp [Substitution.numbered, hbound, ih, bound]

theorem nodup_written (path : NodePath) (next : Nat) (as : List Attribute) :
    (Attributes.keys (attributes path next as).written).Nodup := by
  induction as using List.reverseRecOn with
  | nil => exact List.nodup_nil
  | append_singleton as a ih =>
      rw [attributes_append_singleton]
      cases hbound : a.isBound with
      | true =>
          rw [addAttribute_bound hbound]
          exact ih
      | false =>
          rw [addAttribute_literal hbound path (fun _ => .undefined) 0]
          split
          · exact Attributes.nodup_write _ _ ih
          · exact ih

theorem keys_written (path : NodePath) (next : Nat) (as : List Attribute) :
    Attributes.keys (attributes path next as).written =
      ((as.filter (!·.isBound)).filterMap Attribute.key?).foldl Attributes.named [] := by
  induction as using List.reverseRecOn with
  | nil => rfl
  | append_singleton as a ih =>
      rw [attributes_append_singleton, List.filter_append, List.filterMap_append,
        List.foldl_append, ← ih]
      cases hbound : a.isBound with
      | true =>
          rw [addAttribute_bound hbound, List.filter_cons_of_neg (by simp [hbound])]
          rfl
      | false =>
          rw [addAttribute_literal hbound path (fun _ => .undefined) 0,
            List.filter_cons_of_pos (by simp [hbound])]
          rcases htarget : targetOf a.name with ⟨_ | _, name⟩
          · simp [Attribute.key?, htarget, Attributes.keys_write]
          · simp [Attribute.key?, htarget]

theorem value?_written (value : Nat → Value) (path : NodePath) (next : Nat)
    (as : List Attribute) {name : String}
    (hnone : lastBound (.attribute, name) next as = none) :
    (attributes path next as).written.value? name =
      (lastWritten (.attribute, name) next as).map fun o =>
        joined value o.1 o.2.value := by
  induction as using List.reverseRecOn with
  | nil => rfl
  | append_singleton as a ih =>
      rw [Substitution.lastBound_append_singleton] at hnone
      split at hnone
      · simp at hnone
      · rename_i hother
        have ih := ih hnone
        rw [attributes_append_singleton, Substitution.lastWritten_append_singleton]
        cases hbound : a.isBound with
        | true =>
            rw [addAttribute_bound hbound, if_neg fun h => hother ⟨hbound, h⟩]
            exact ih
        | false =>
            rw [addAttribute_literal hbound path value
              (next + Attribute.placeholdersAll as)]
            split
            · rename_i name' htarget
              rw [Attributes.value?_write, htarget]
              by_cases h : name = name'
              · simp [h]
              · simp [h, Ne.symm h, ih]
            · rename_i name' htarget
              simp [htarget, ih]

/-- The properties that writing literal properties one by one leaves. -/
def written (table : List LiteralProperty) : Properties :=
  table.foldl (fun properties p => properties.insert p.name (.str p.value)) ∅

theorem get?_written (value : Nat → Value) (path : NodePath) (next : Nat)
    (as : List Attribute) {name : String}
    (hnone : lastBound (.property, name) next as = none) :
    (written (attributes path next as).properties).get? name =
      (lastWritten (.property, name) next as).map fun o =>
        .str (joined value o.1 o.2.value) := by
  induction as using List.reverseRecOn with
  | nil => rfl
  | append_singleton as a ih =>
      rw [Substitution.lastBound_append_singleton] at hnone
      split at hnone
      · simp at hnone
      · rename_i hother
        have ih := ih hnone
        rw [attributes_append_singleton, Substitution.lastWritten_append_singleton]
        cases hbound : a.isBound with
        | true =>
            rw [addAttribute_bound hbound, if_neg fun h => hother ⟨hbound, h⟩]
            exact ih
        | false =>
            rw [addAttribute_literal hbound path value
              (next + Attribute.placeholdersAll as)]
            split
            · rename_i name' htarget
              simp [htarget, ih]
            · rename_i name' htarget
              simp only [written, List.foldl_append, List.foldl_cons, List.foldl_nil,
                OrderedMap.get?_insert, htarget] at ih ⊢
              by_cases h : name = name'
              · simp [h]
              · simp [h, Ne.symm h, ih]

end Compile

/-! ## Nodes, one after the other -/

/-- Nodes are taken apart node by node: what stands under the first node, and
what stands beside it. -/
@[elab_as_elim]
theorem Node.forestInduction {motive : List Node → Prop} (nil : motive [])
    (text : ∀ data rest, motive rest → motive (.text data :: rest))
    (comment : ∀ data rest, motive rest → motive (.comment data :: rest))
    (placeholder : ∀ rest, motive rest → motive (.placeholder :: rest))
    (element : ∀ name as children rest, motive children → motive rest →
      motive (.element name as children :: rest)) : ∀ nodes, motive nodes
  | [] => nil
  | .text data :: rest =>
      text data rest (forestInduction nil text comment placeholder element rest)
  | .comment data :: rest =>
      comment data rest (forestInduction nil text comment placeholder element rest)
  | .placeholder :: rest =>
      placeholder rest (forestInduction nil text comment placeholder element rest)
  | .element name as children :: rest =>
      element name as children rest
        (forestInduction nil text comment placeholder element children)
        (forestInduction nil text comment placeholder element rest)

namespace Compile

theorem next_nodes (path : NodePath) (index next : Nat) (ns : List Node) :
    (nodes path index next ns).next = next + Node.placeholdersAll ns := by
  induction ns using Node.forestInduction generalizing path index next with
  | nil => rfl
  | text data rest ih => simp [nodes, node, ih, Node.placeholdersAll, Node.placeholders]
  | comment data rest ih => simp [nodes, node, ih, Node.placeholdersAll, Node.placeholders]
  | placeholder rest ih =>
      simp [nodes, node, ih, Node.placeholdersAll, Node.placeholders, Nat.add_assoc]
  | element name as children rest ihChildren ihRest =>
      simp [nodes, node, ihChildren, ihRest, next_attributes, Node.placeholdersAll,
        Node.placeholders, Nat.add_assoc]

theorem isSolidAll_forest (path : NodePath) (index next : Nat) (ns : List Node) :
    Tree.isSolidAll (nodes path index next ns).forest = true := by
  induction ns using Node.forestInduction generalizing path index next with
  | nil => rfl
  | text data rest ih =>
      simp [nodes, node, ih, Tree.isSolidAll, Tree.isSolid, Tree.text]
  | comment data rest ih =>
      simp [nodes, node, ih, Tree.isSolidAll, Tree.isSolid, Tree.comment]
  | placeholder rest ih =>
      simp [nodes, node, ih, Tree.isSolidAll, Tree.isSolid, Tree.comment]
  | element name as children rest ihChildren ihRest =>
      simp [nodes, node, ihChildren, ihRest, Tree.isSolidAll, Tree.isSolid]

end Compile

end LiveMarkup
