import LiveMarkup.Proofs.Instance.Layout

/-!
# Bringing bindings up to date

Bindings are applied to their elements in order and only where something
differs. Of several bindings of one name the last one counts, so that
afterwards every element says what the values make it say, whatever other
values were written before.
-/

namespace LiveMarkup

open Branch (idsAll tops)
open PropertyValue (Agree)
open Substitution (attributeText propertyValue bound lastBound)

/-! ## One binding -/

namespace Document

/-- A change of the data of one node and of nothing else. -/
structure Changes (d d' : Document) (n : NodeId) (data : NodeData) : Prop where
  node : d'.nodes[n]? = some data
  others : ∀ k, k ≠ n → d'.nodes[k]? = d.nodes[k]?
  size : d'.size = d.size

theorem Changes.refl {d : Document} {n : NodeId} {data : NodeData}
    (h : d.nodes[n]? = some data) : Changes d d n data :=
  ⟨h, fun _ _ => rfl, rfl⟩

theorem Changes.trans {d d' d'' : Document} {n : NodeId} {data data' : NodeData}
    (h : Changes d d' n data) (h' : Changes d' d'' n data') : Changes d d'' n data' where
  node := h'.node
  others := fun k hk => (h'.others k hk).trans (h.others k hk)
  size := h'.size.trans h.size

theorem changes_modify {d : Document} {n : NodeId} {data : NodeData}
    (f : NodeData → NodeData) (counts : MutationCounts → MutationCounts)
    (h : d.nodes[n]? = some data) : Changes d ((d.modify n f).count counts) n (f data) where
  node := node_modify_self d f h
  others := fun _ hk => node_modify_other d f hk
  size := size_modify d n f

/-- An attribute is afterwards what it should be. Unless it is taken away, names are in the
order in which they were written first. -/
theorem changes_updateAttribute {d : Document} {n : NodeId} {data : NodeData}
    (hnode : d.nodes[n]? = some data) (hkeys : data.attributes.keys.Nodup) (name : String)
    (next : Option String) :
    ∃ attributes, Changes d (d.updateAttribute n name next) n
        { data with attributes := attributes } ∧ attributes.keys.Nodup ∧
      (∀ k, attributes.value? k = if k = name then next else data.attributes.value? k) ∧
      (next.isSome = true → attributes.keys = Attributes.named data.attributes.keys name) := by
  simp only [updateAttribute, attribute?_of_node name hnode]
  split
  case isTrue hsame =>
      refine ⟨data.attributes, .refl hnode, hkeys, fun k => ?_, fun hsome => ?_⟩
      · by_cases hk : k = name
        · rw [if_pos hk, hk, hsame]
        · rw [if_neg hk]
      · obtain ⟨value, hvalue⟩ := Option.isSome_iff_exists.mp (hsame ▸ hsome)
        have hmem := List.mem_map_of_mem (f := Prod.fst)
          ((Attributes.mem_iff_value? hkeys name value).mpr hvalue)
        exact (if_pos hmem).symm
  case isFalse hother =>
      cases next with
      | none =>
          have hthere : (data.attributes.value? name).isSome = true :=
            Option.ne_none_iff_isSome.mp hother
          simp only [removeAttribute, attribute?_of_node name hnode, hthere, if_true]
          exact ⟨_, changes_modify _ _ hnode, Attributes.nodup_remove name hkeys,
            Attributes.value?_remove name data.attributes, by simp⟩
      | some value =>
          exact ⟨_, changes_modify _ _ hnode, Attributes.nodup_write name value hkeys,
            Attributes.value?_write name value data.attributes,
            fun _ => Attributes.keys_write name value data.attributes⟩

theorem changes_updateProperty {d : Document} {n : NodeId} {data : NodeData}
    (hnode : d.nodes[n]? = some data) (name : String) (next : PropertyValue) :
    ∃ properties, Changes d (d.updateProperty n name next) n
        { data with properties := properties } ∧
      Agree (properties.get? name) (some next) ∧
      ∀ k, k ≠ name → properties.get? k = data.properties.get? k := by
  have hwrite : ∃ properties, Changes d (d.setProperty n name next) n
        { data with properties := properties } ∧
      Agree (properties.get? name) (some next) ∧
      ∀ k, k ≠ name → properties.get? k = data.properties.get? k := by
    refine ⟨_, changes_modify _ _ hnode, ?_, fun k hk => ?_⟩
    · simpa [OrderedMap.get?_insert] using PropertyValue.alike_refl next
    · simp [OrderedMap.get?_insert, hk]
  rw [updateProperty, property?_of_node name hnode]
  cases hcurrent : data.properties.get? name with
  | none => exact hwrite
  | some current =>
      by_cases hequals : current.equals next = true
      · simp only [hequals, if_true]
        refine ⟨data.properties, .refl hnode, ?_, fun _ _ => rfl⟩
        rw [hcurrent]
        exact .some (PropertyValue.alike_of_equals hequals)
      · simp only [hequals]
        exact hwrite

end Document

/-! ## The bindings of one element -/

theorem applyBindings_append (value : Nat → Value) (bs cs : List (AttributeBinding × NodeId))
    (d : Document) :
    applyBindings value (bs ++ cs) d = applyBindings value cs (applyBindings value bs d) :=
  List.foldl_append

/-- The last attribute of a name. -/
def lastOf (target : BindingTarget × String) (os : List (Nat × Attribute)) :
    Option (Nat × Attribute) :=
  (os.filter fun o => Compile.targetOf o.2.name = target).getLast?

theorem lastOf_append_singleton (target : BindingTarget × String)
    (os : List (Nat × Attribute)) (o : Nat × Attribute) :
    lastOf target (os ++ [o]) =
      if Compile.targetOf o.2.name = target then some o else lastOf target os := by
  rw [lastOf, List.filter_append]
  by_cases h : Compile.targetOf o.2.name = target <;> simp [h, lastOf]

/-- What one element holds after bindings were applied to it: the last binding
of each name counts, and names without a binding are left alone. -/
structure Follows (value : Nat → Value) (os : List (Nat × Attribute)) (data : NodeData)
    (attributes : Attributes) (properties : Properties) : Prop where
  keys : attributes.keys.Nodup
  text : ∀ name, attributes.value? name =
    (lastOf (.attribute, name) os).elim (data.attributes.value? name) (attributeText value)
  property : ∀ name, Agree (properties.get? name)
    ((lastOf (.property, name) os).elim (data.properties.get? name)
      fun o => some (propertyValue value o))
  /-- Unless an attribute is taken away, new names stand behind the old ones, in order. -/
  order : (∀ o ∈ os, (attributeText value o).isSome = true) →
    attributes.keys =
      (os.filterMap fun o => o.2.key?).foldl Attributes.named data.attributes.keys

theorem Follows.nil (value : Nat → Value) {data : NodeData}
    (hkeys : data.attributes.keys.Nodup) :
    Follows value [] data data.attributes data.properties where
  keys := hkeys
  order := fun _ => rfl
  text := fun _ => rfl
  property := fun name => Agree.refl (data.properties.get? name)

theorem Follows.snoc {value : Nat → Value} {os : List (Nat × Attribute)} {data : NodeData}
    {attributes : Attributes} {properties : Properties}
    (h : Follows value os data attributes properties) (path : NodePath) (o : Nat × Attribute)
    {d : Document} {n : NodeId}
    (hnode : d.nodes[n]? =
      some { data with attributes := attributes, properties := properties }) :
    ∃ attributes' properties',
      Document.Changes d ((Compile.bindingOf path o).apply n value d) n
        { data with attributes := attributes', properties := properties' } ∧
      Follows value (os ++ [o]) data attributes' properties' := by
  rw [AttributeBinding.apply, Compile.attribute?_bindingOf, Compile.property_bindingOf]
  rcases htarget : Compile.targetOf o.2.name with ⟨_ | _, name⟩
  · obtain ⟨attributes', hchanges, hkeys, htext, horder⟩ :=
      Document.changes_updateAttribute hnode h.keys name (attributeText value o)
    refine ⟨attributes', properties, ?_, hkeys, fun k => ?_, fun k => ?_, fun hall => ?_⟩
    · simpa only [Compile.bindingOf, htarget] using hchanges
    · rw [htext, lastOf_append_singleton, htarget]
      by_cases hk : k = name
      · simp [hk]
      · simp [hk, Ne.symm hk, h.text]
    · rw [lastOf_append_singleton, htarget]
      simpa using h.property k
    · obtain ⟨hothers, hown⟩ := List.forall_mem_append.mp hall
      rw [horder (hown o List.mem_cons_self), h.order hothers]
      simp [Attribute.key?, htarget]
  · obtain ⟨properties', hchanges, hself, hothers⟩ :=
      Document.changes_updateProperty hnode name (propertyValue value o)
    refine ⟨attributes, properties', ?_, h.keys, fun k => ?_, fun k => ?_, fun hall => ?_⟩
    · simpa only [Compile.bindingOf, htarget] using hchanges
    · rw [lastOf_append_singleton, htarget]
      simpa using h.text k
    · rw [lastOf_append_singleton, htarget]
      by_cases hk : k = name
      · simpa [hk] using hself
      · rw [hothers k hk]
        simpa [Ne.symm hk] using h.property k
    · rw [h.order (List.forall_mem_append.mp hall).1]
      simp [Attribute.key?, htarget]

theorem follows_applyBindings (value : Nat → Value) (path : NodePath)
    (os : List (Nat × Attribute)) {d : Document} {n : NodeId} {data : NodeData}
    (hnode : d.nodes[n]? = some data) (hkeys : data.attributes.keys.Nodup) :
    ∃ attributes properties,
      Document.Changes d
        (applyBindings value (os.map fun o => (Compile.bindingOf path o, n)) d) n
        { data with attributes := attributes, properties := properties } ∧
      Follows value os data attributes properties := by
  induction os using List.reverseRecOn with
  | nil => exact ⟨data.attributes, data.properties, .refl hnode, .nil value hkeys⟩
  | append_singleton os o ih =>
      obtain ⟨attributes, properties, hchanges, hfollows⟩ := ih
      obtain ⟨attributes', properties', hchanges', hfollows'⟩ :=
        hfollows.snoc path o hchanges.node
      refine ⟨attributes', properties', ?_, hfollows'⟩
      rw [List.map_append, applyBindings_append]
      exact hchanges.trans hchanges'

/-- An element with its literal values says what values make it say once all
of its bindings were applied. -/
theorem Follows.settled {value : Nat → Value} {next : Nat} {as : List Attribute}
    {data : NodeData} {attributes : Attributes} {properties : Properties}
    (h : Follows value (bound next as) data attributes properties)
    (hfixed : Fixed next as data.attributes data.properties) :
    Settled value next as attributes properties where
  keys := h.keys
  text := by
    intro name
    have htext : attributes.value? name = (lastBound (.attribute, name) next as).elim
        (data.attributes.value? name) (attributeText value) := h.text name
    cases hlast : lastBound (.attribute, name) next as with
    | none =>
        rw [hlast] at htext
        rw [htext]
        exact hfixed.text name hlast value
    | some o =>
        rw [hlast] at htext
        rw [htext, Substitution.attribute?, Substitution.deciding_eq, hlast]
        rfl
  property := by
    intro name
    have hproperty : Agree (properties.get? name)
        ((lastBound (.property, name) next as).elim (data.properties.get? name)
          fun o => some (propertyValue value o)) := h.property name
    cases hlast : lastBound (.property, name) next as with
    | none =>
        rw [hlast] at hproperty
        exact hproperty.trans (hfixed.property name hlast value)
    | some o =>
        rw [hlast] at hproperty
        rw [Substitution.property?, Substitution.deciding_eq, hlast]
        exact hproperty

/-! ## All bindings of a template -/

theorem Layout.length_elements {say : Nat → List Attribute → Attributes → Properties → Prop}
    {next : Nat} {ns : List Node} {elements : List NodeId} {marks : List Mark}
    {bs : List Branch} (h : Layout say next ns elements marks bs) (path : NodePath)
    (index : Nat) :
    (Compile.nodes path index next ns).attributes.length = elements.length := by
  induction h generalizing path index with
  | nil => rfl
  | text _ ih => simpa [Compile.nodes, Compile.node] using ih path (index + 1)
  | comment _ ih => simpa [Compile.nodes, Compile.node] using ih path (index + 1)
  | placeholder _ ih => simpa [Compile.nodes, Compile.node] using ih path (index + 2)
  | @element next name as children rest n attributes properties inner elements held marks
      under bs _ _ _ ihUnder ihRest =>
      simp [Compile.nodes, Compile.node, Compile.bindings_attributes,
        Substitution.length_bound, Compile.next_attributes, Compile.next_nodes, ihUnder,
        ihRest, Nat.add_assoc]

theorem zip_bindings (path : NodePath) (n : NodeId) (os : List (Nat × Attribute)) :
    (os.map (Compile.bindingOf path)).zip (List.replicate os.length n) =
      os.map fun o => (Compile.bindingOf path o, n) := by
  induction os with
  | nil => rfl
  | cons o os ih => simp [List.replicate_succ, ih]

/-- The table of an element has its own bindings first, then those under it and those beside
it. -/
theorem attributes_element (path : NodePath) (index next : Nat) (name : String)
    (as : List Attribute) (children rest : List Node) :
    (Compile.nodes path index next (.element name as children :: rest)).attributes =
      (bound next as).map (Compile.bindingOf (path ++ [index])) ++
        ((Compile.nodes (path ++ [index]) 0 (next + Attribute.placeholdersAll as)
          children).attributes ++
        (Compile.nodes path (index + 1)
          (next + (Attribute.placeholdersAll as + Node.placeholdersAll children))
          rest).attributes) := by
  simp [Compile.nodes, Compile.node, Compile.bindings_attributes, Compile.next_attributes,
    Compile.next_nodes, Nat.add_assoc]

theorem zip_element {say : Nat → List Attribute → Attributes → Properties → Prop}
    (path : NodePath) (index next : Nat) (name : String) (as : List Attribute)
    {children : List Node} (rest : List Node) {inner : List NodeId} {held : List Mark}
    {under : List Branch}
    (hunder : Layout say (next + Attribute.placeholdersAll as) children inner held under)
    (n : NodeId) (elements : List NodeId) :
    (Compile.nodes path index next (.element name as children :: rest)).attributes.zip
        (List.replicate (as.countP Attribute.isBound) n ++ inner ++ elements) =
      ((bound next as).map fun o => (Compile.bindingOf (path ++ [index]) o, n)) ++
        ((Compile.nodes (path ++ [index]) 0 (next + Attribute.placeholdersAll as)
          children).attributes.zip inner ++
        (Compile.nodes path (index + 1)
          (next + (Attribute.placeholdersAll as + Node.placeholdersAll children))
          rest).attributes.zip elements) := by
  rw [attributes_element, List.append_assoc,
    List.zip_append (by simp [Substitution.length_bound]),
    List.zip_append (hunder.length_elements _ _), ← Substitution.length_bound next as,
    zip_bindings]

theorem applyBindings_element {say : Nat → List Attribute → Attributes → Properties → Prop}
    (value : Nat → Value) (path : NodePath) (index next : Nat) (name : String)
    (as : List Attribute) {children : List Node} (rest : List Node) {inner : List NodeId}
    {held : List Mark} {under : List Branch}
    (hunder : Layout say (next + Attribute.placeholdersAll as) children inner held under)
    (n : NodeId) (elements : List NodeId) (d : Document) :
    applyBindings value
        ((Compile.nodes path index next (.element name as children :: rest)).attributes.zip
          (List.replicate (as.countP Attribute.isBound) n ++ inner ++ elements)) d =
      applyBindings value
        ((Compile.nodes path (index + 1)
          (next + (Attribute.placeholdersAll as + Node.placeholdersAll children))
          rest).attributes.zip elements)
        (applyBindings value
          ((Compile.nodes (path ++ [index]) 0 (next + Attribute.placeholdersAll as)
            children).attributes.zip inner)
          (applyBindings value
            ((bound next as).map fun o => (Compile.bindingOf (path ++ [index]) o, n)) d)) := by
  rw [zip_element path index next name as rest hunder, applyBindings_append,
    applyBindings_append]

/-- Applying the bindings of a template to its elements, whatever is said of each of them
before and after its own bindings. -/
theorem Layout.applyBindings_of {say say' : Nat → List Attribute → Attributes → Properties → Prop}
    {value : Nat → Value}
    (hown : ∀ (next : Nat) (as : List Attribute) (path : NodePath) (d : Document) (n : NodeId)
      (data : NodeData), say next as data.attributes data.properties → d.nodes[n]? = some data →
      ∃ attributes properties,
        Document.Changes d (LiveMarkup.applyBindings value
          ((bound next as).map fun o => (Compile.bindingOf path o, n)) d) n
          { data with attributes := attributes, properties := properties } ∧
        say' next as attributes properties)
    {next : Nat} {ns : List Node} {elements : List NodeId} {marks : List Mark}
    {bs : List Branch} (h : Layout say next ns elements marks bs) (path : NodePath)
    (index : Nat) {d : Document} {p : NodeId} {before behind : List NodeId}
    (hplaced : d.Placed p before bs behind) :
    ∃ d' bs', LiveMarkup.applyBindings value
        ((Compile.nodes path index next ns).attributes.zip elements) d = d' ∧
      Layout say' next ns elements marks bs' ∧
      Layout.roots ns marks bs' = Layout.roots ns marks bs ∧ d'.Placed p before bs' behind ∧
      Document.Edit d d' p (idsAll bs) (idsAll bs') := by
  induction h generalizing path index d p before behind with
  | nil => exact ⟨d, [], rfl, .nil, rfl, hplaced, .refl d p []⟩
  | @text next data n rest elements marks bs _ ih =>
      obtain ⟨d', bs', happly, hlayout, hroots, hplaced', hedit⟩ :=
        ih path (index + 1) hplaced.focusRest
      obtain ⟨hwhole, hedit'⟩ := hplaced.unfocusRest hplaced' hedit
      exact ⟨d', _, by simpa [Compile.nodes, Compile.node] using happly, .text hlayout,
        congrArg (n :: ·) hroots, hwhole, hedit'⟩
  | @comment next data n rest elements marks bs _ ih =>
      obtain ⟨d', bs', happly, hlayout, hroots, hplaced', hedit⟩ :=
        ih path (index + 1) hplaced.focusRest
      obtain ⟨hwhole, hedit'⟩ := hplaced.unfocusRest hplaced' hedit
      exact ⟨d', _, by simpa [Compile.nodes, Compile.node] using happly, .comment hlayout,
        congrArg (n :: ·) hroots, hwhole, hedit'⟩
  | @placeholder m rest elements marks bs _ ih =>
      obtain ⟨d', bs', happly, hlayout, hroots, hplaced', hedit⟩ :=
        ih path (index + 2) hplaced.focusTail
      obtain ⟨hwhole, hedit'⟩ := hplaced.unfocusTail hplaced' hedit
      refine ⟨d', _, by simpa [Compile.nodes, Compile.node] using happly,
        .placeholder hlayout, ?_, hwhole, hedit'⟩
      rw [Layout.roots_placeholder, Layout.roots_placeholder, hroots]
  | @element next name as children rest n attributes properties inner elements held marks
      under bs hsay hunder _ ihUnder ihRest =>
      obtain ⟨attributes', properties', hchanges, hsay'⟩ :=
        hown next as (path ++ [index]) d n _ hsay hplaced.grows.1.1
      have hfirst := hplaced.focusFirst
      obtain ⟨d₂, under', happly₂, hlayout₂, -, hplaced₂, hedit₂⟩ := ihUnder (path ++ [index]) 0
        (hfirst.descendChanged hchanges.node hchanges.others)
      obtain ⟨hwhole₂, hedit₂'⟩ := hplaced.editFirst hchanges.node hchanges.others
        hchanges.size hplaced₂ hedit₂
      obtain ⟨d₃, bs', happly₃, hlayout₃, hroots₃, hplaced₃, hedit₃⟩ := ihRest path (index + 1)
        hwhole₂.focusRest
      obtain ⟨hwhole₃, hedit₃'⟩ :=
        hwhole₂.unfocusRest hplaced₃ hedit₃
      have hroots : Layout.roots (.element name as children :: rest) (held ++ marks)
          (.node n (.element name) attributes' properties' under' :: bs') =
            Layout.roots (.element name as children :: rest) (held ++ marks)
              (.node n (.element name) attributes properties under :: bs) := by
        rw [Layout.roots_element hlayout₂, Layout.roots_element hunder, hroots₃]
        rfl
      refine ⟨d₃, _, ?_, .element hsay' hlayout₂ hlayout₃, hroots, hwhole₃,
        hedit₂'.trans hedit₃'⟩
      rw [applyBindings_element value path index next name as rest hunder, happly₂, happly₃]

/-- Applying the bindings of a template to its elements makes all of them say
what the values make them say. -/
theorem Layout.applyBindings {next : Nat} {ns : List Node} {elements : List NodeId}
    {marks : List Mark} {bs : List Branch} (h : Layout Fixed next ns elements marks bs)
    (value : Nat → Value) (path : NodePath) (index : Nat) {d : Document} {p : NodeId}
    {before behind : List NodeId} (hplaced : d.Placed p before bs behind) :
    ∃ d' bs', LiveMarkup.applyBindings value
        ((Compile.nodes path index next ns).attributes.zip elements) d = d' ∧
      Layout (Settled value) next ns elements marks bs' ∧
      Layout.roots ns marks bs' = Layout.roots ns marks bs ∧ d'.Placed p before bs' behind ∧
      Document.Edit d d' p (idsAll bs) (idsAll bs') := by
  refine h.applyBindings_of (fun next as path d n data hfixed hnode => ?_) path index hplaced
  obtain ⟨attributes, properties, hchanges, hfollows⟩ :=
    follows_applyBindings value path (bound next as) hnode hfixed.keys
  exact ⟨attributes, properties, hchanges, hfollows.settled hfixed⟩

end LiveMarkup
