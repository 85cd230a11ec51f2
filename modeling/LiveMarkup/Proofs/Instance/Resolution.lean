import LiveMarkup.Proofs.Instance.Newborn

/-!
# Where the paths of a template lead

The paths of a template's tables are positions among nodes, where a placeholder counts
twice. The nodes of a document, on the other hand, are numbered in the order in which they
are created. Here both are compared: in the template's own document and in every copy of
it, each path leads to the node that was created for the attribute's own element, or to
the first of the two comments that were created for the placeholder.
-/

namespace LiveMarkup

open Branch (idsAll tops ofForest)
open Document (Extends)

/-! ## What is created for the nodes of the markup -/

mutual

/-- How many nodes of a document are created for a node. -/
def Node.takes : Node → Nat
  | .text _ | .comment _ => 1
  | .placeholder => 2
  | .element _ _ children => 1 + Node.takesAll children

def Node.takesAll : List Node → Nat
  | [] => 0
  | n :: ns => n.takes + Node.takesAll ns

end

/-- A node of the markup with the first node of a document that was created for it, and
the one which that stands under. -/
structure Origin where
  node : Node
  parent : NodeId
  number : NodeId

mutual

/-- A node and all nodes in it, in document order, if what is created for them is numbered
from `number` on. -/
def Node.origins (parent number : NodeId) : Node → List Origin
  | .text data => [⟨.text data, parent, number⟩]
  | .comment data => [⟨.comment data, parent, number⟩]
  | .placeholder => [⟨.placeholder, parent, number⟩]
  | .element name as children =>
      ⟨.element name as children, parent, number⟩ :: Node.originsAll number (number + 1) children

def Node.originsAll (parent number : NodeId) : List Node → List Origin
  | [] => []
  | n :: ns => n.origins parent number ++ Node.originsAll parent (number + n.takes) ns

end

namespace Origin

/-- The attributes of an element, as they are written. -/
def attributes (o : Origin) : List Attribute :=
  match o.node with
  | .element _ as _ => as
  | _ => []

/-- The literal properties of an element, each with the node that it should be written to. -/
def properties (o : Origin) : List (Option NodeId × String × String) :=
  o.attributes.filterMap fun a =>
    match Compile.targetOf a.name, Compile.literal? a.value with
    | (.property, name), some value => some (some o.number, name, value)
    | _, _ => none

/-- The attributes of an element that placeholders feed, each with the node that it should
be written to. -/
def bindings (o : Origin) : List (Option NodeId × BindingTarget × String) :=
  (o.attributes.filter Attribute.isBound).map fun a => (some o.number, Compile.targetOf a.name)

/-- The two markers of a placeholder. -/
def markers (o : Origin) : List (NodeId × NodeId) :=
  match o.node with
  | .placeholder => [(o.number, o.number + 1)]
  | _ => []

/-- What was created for a node is there: text and comments decoded, elements with their
names, and two empty comments, one right behind the other one, for a placeholder. -/
def StandsIn (d : Document) (o : Origin) : Prop :=
  d.parent? o.number = some o.parent ∧
    match o.node with
    | .text data => d.kind? o.number = some (.text (Entity.decode data))
    | .comment data => d.kind? o.number = some (.comment (Entity.decode data))
    | .element name _ _ => d.kind? o.number = some (.element name)
    | .placeholder =>
        d.kind? o.number = some (.comment "") ∧ d.kind? (o.number + 1) = some (.comment "") ∧
          d.nextSibling? o.number = some (o.number + 1)

end Origin

/-- The paths of tables lead to what was created for the nodes that they were compiled
from. -/
structure Leads (d : Document) (root : NodeId) (literals : List LiteralProperty)
    (bindings : List AttributeBinding) (contents : List ContentBinding)
    (origins : List Origin) : Prop where
  properties : literals.map (fun p => (d.resolvePath? root p.path, p.name, p.value)) =
    origins.flatMap Origin.properties
  attributes : bindings.map (fun b => (d.resolvePath? root b.path, b.target, b.name)) =
    origins.flatMap Origin.bindings
  regions : contents.map (fun b => d.resolvePath? root b.path) =
    (origins.flatMap Origin.markers).map fun m => some m.1
  stands : ∀ o ∈ origins, o.StandsIn d

/-- The paths of a template of nodes lead where they should, from a fragment behind which
what was created for the nodes is numbered. -/
def Template.LeadsFrom (t : Template) (ns : List Node) (d : Document) (fragment : NodeId) : Prop :=
  Leads d fragment t.properties t.attributes t.contents
    (Node.originsAll fragment (fragment + 1) ns)

namespace Leads

variable {d d' : Document} {root : NodeId} {ps qs : List LiteralProperty}
  {bs cs : List AttributeBinding} {rs ss : List ContentBinding} {os us : List Origin}

theorem nil : Leads d root [] [] [] [] :=
  ⟨rfl, rfl, rfl, nofun⟩

theorem leaf {o : Origin} (hattributes : o.attributes = []) (hmarkers : o.markers = [])
    (h : o.StandsIn d) : Leads d root [] [] [] [o] := by
  refine ⟨?_, ?_, ?_, List.forall_mem_singleton.mpr h⟩ <;>
    simp [Origin.properties, Origin.bindings, hattributes, hmarkers]

theorem append (h : Leads d root ps bs rs os) (h' : Leads d root qs cs ss us) :
    Leads d root (ps ++ qs) (bs ++ cs) (rs ++ ss) (os ++ us) where
  properties := by rw [List.map_append, h.properties, h'.properties, List.flatMap_append]
  attributes := by rw [List.map_append, h.attributes, h'.attributes, List.flatMap_append]
  regions := by
    rw [List.map_append, h.regions, h'.regions, List.flatMap_append, List.map_append]
  stands := List.forall_mem_append.mpr ⟨h.stands, h'.stands⟩

theorem congr (h : Leads d root ps bs rs os) (hchildren : d'.children = d.children)
    (hparents : d'.parent? = d.parent?) (hkinds : d'.kind? = d.kind?) :
    Leads d' root ps bs rs os := by
  have hpath := Document.resolvePath?_congr (congrFun hchildren) root
  have hnext : d'.nextSibling? = d.nextSibling? := by
    funext n
    simp only [Document.nextSibling?, Document.siblingsAfter, hchildren, hparents]
  refine ⟨?_, ?_, ?_, fun o ho => ?_⟩
  · simp only [hpath, h.properties]
  · simp only [hpath, h.attributes]
  · simp only [hpath, h.regions]
  · have hstands := h.stands o ho
    unfold Origin.StandsIn at hstands ⊢
    rw [hparents, hkinds, hnext]
    exact hstands

end Leads

/-! ## Tables of one element -/

namespace Compile

variable {d : Document} {root n : NodeId} {path : NodePath}

/-- As many nodes are created as the forest has. -/
theorem sizeAll_forest (path : NodePath) (index next : Nat) (ns : List Node) :
    Tree.sizeAll (nodes path index next ns).forest = Node.takesAll ns := by
  induction ns using Node.forestInduction generalizing path index next with
  | nil => rfl
  | text data rest ih | comment data rest ih =>
      simp [nodes, node, Tree.sizeAll, Tree.size, Tree.text, Tree.comment, ih, Node.takesAll,
        Node.takes]
  | placeholder rest ih =>
      simp [nodes, node, Tree.sizeAll, Tree.size, Tree.comment, ih, Node.takesAll, Node.takes]
      omega
  | element name as children rest ihChildren ihRest =>
      simp [nodes, node, Tree.sizeAll, Tree.size, ihChildren, ihRest, Node.takesAll, Node.takes]

theorem map_properties_attributes (hpath : d.resolvePath? root path = some n) (next : Nat)
    (name : String) (as : List Attribute) (children : List Node) (p : NodeId) :
    (attributes path next as).properties.map
        (fun l => (d.resolvePath? root l.path, l.name, l.value)) =
      Origin.properties ⟨.element name as children, p, n⟩ := by
  unfold Origin.properties Origin.attributes
  induction as using List.reverseRecOn with
  | nil => rfl
  | append_singleton as a ih =>
      rw [attributes_append_singleton, List.filterMap_append, ← ih]
      unfold addAttribute
      cases hliteral : literal? a.value with
      | none => rcases htarget : targetOf a.name with ⟨_ | _, name⟩ <;> simp [hliteral, htarget]
      | some value =>
          rcases htarget : targetOf a.name with ⟨_ | _, name⟩ <;> simp [hliteral, htarget, hpath]

theorem map_bindings_attributes (hpath : d.resolvePath? root path = some n) (next : Nat)
    (name : String) (as : List Attribute) (children : List Node) (p : NodeId) :
    (attributes path next as).bindings.map
        (fun b => (d.resolvePath? root b.path, b.target, b.name)) =
      Origin.bindings ⟨.element name as children, p, n⟩ := by
  rw [bindings_attributes, List.map_map, Origin.bindings, Origin.attributes,
    ← Substitution.map_snd_bound next as, List.map_map]
  refine List.map_congr_left fun o _ => ?_
  simp [bindingOf, hpath]

end Compile

/-! ## Tables of all nodes -/

/-- Where the branches of a compiled forest are placed, the paths of the tables lead to
what was created for the nodes. -/
theorem Compile.leads_placed {d : Document} {root p base : NodeId} {path : NodePath}
    {before behind : List NodeId} {k next : Nat} {ns : List Node} (hk : before.length = k)
    (hplaced : d.Placed p before (ofForest base (nodes path k next ns).forest) behind)
    (hpath : d.resolvePath? root path = some p) :
    Leads d root (nodes path k next ns).properties (nodes path k next ns).attributes
      (nodes path k next ns).contents (Node.originsAll p base ns) := by
  induction ns using Node.forestInduction generalizing p base path before behind k next with
  | nil => exact .nil
  | text data rest ih =>
      have hall : d.Placed p before (.text base (Entity.decode data) ::
          ofForest (base + 1) (nodes path (k + 1) next rest).forest) behind := hplaced
      have hrest := ih (by rw [List.length_append, hk]; rfl) hall.focusRest hpath
      have hnode := hall.grows.1.1
      have hone : Leads d root [] [] [] (Node.origins p base (.text data)) :=
        .leaf rfl rfl ⟨Document.parent?_of_node hnode, Document.kind?_of_node hnode⟩
      simpa [nodes, node, Node.originsAll, Node.takes] using hone.append hrest
  | comment data rest ih =>
      have hall : d.Placed p before (.comment base (Entity.decode data) ::
          ofForest (base + 1) (nodes path (k + 1) next rest).forest) behind := hplaced
      have hrest := ih (by rw [List.length_append, hk]; rfl) hall.focusRest hpath
      have hnode := hall.grows.1.1
      have hone : Leads d root [] [] [] (Node.origins p base (.comment data)) :=
        .leaf rfl rfl ⟨Document.parent?_of_node hnode, Document.kind?_of_node hnode⟩
      simpa [nodes, node, Node.originsAll, Node.takes] using hone.append hrest
  | placeholder rest ih =>
      have hall : d.Placed p before (.comment base "" :: .comment (base + 1) "" ::
          ofForest (base + 2) (nodes path (k + 2) (next + 1) rest).forest) behind :=
        hplaced
      have hrest := ih (by rw [List.length_append, List.length_append, hk]; rfl)
        hall.focusRest.focusRest hpath
      have hfirst : d.resolvePath? root (path ++ [k]) = some base :=
        Document.resolvePath?_append hpath (hk ▸ hall.childAt?)
      have hnext : d.nextSibling? base = some (base + 1) := by
        have hafter := hall.siblingsAfter
        simp only [Branch.comment, Branch.id_node, Branch.tops_cons] at hafter
        simp [Document.nextSibling?, hafter]
      have hone : Leads d root [] [] [⟨path ++ [k], next⟩]
          (Node.origins p base .placeholder) := by
        refine ⟨rfl, rfl, ?_, fun o ho => ?_⟩
        · rw [List.map_singleton, hfirst]
          rfl
        · obtain rfl := List.mem_singleton.mp ho
          have hnode := hall.grows.1.1
          exact ⟨Document.parent?_of_node hnode, Document.kind?_of_node hnode,
            Document.kind?_of_node hall.grows.2.1.1, hnext⟩
      simpa [nodes, node, Node.originsAll, Node.takes] using hone.append hrest
  | element name as children rest ihChildren ihRest =>
      let own := attributes (path ++ [k]) next as
      let under := nodes (path ++ [k]) 0 own.next children
      have hsize : (Tree.node (.element name) own.written under.forest).size =
          1 + Node.takesAll children := by
        rw [Tree.size, sizeAll_forest]
      have hall : d.Placed p before (.node base (.element name)
          (NodeKind.written (.element name) own.written) ∅ (ofForest (base + 1) under.forest) ::
          ofForest (base + (1 + Node.takesAll children))
            (nodes path (k + 1) under.next rest).forest) behind := by
        rw [← hsize]
        exact hplaced
      have hhere : d.resolvePath? root (path ++ [k]) = some base :=
        Document.resolvePath?_append hpath (hk ▸ hall.childAt?)
      have hunder := ihChildren rfl hall.focusFirst.descend hhere
      have hrest := ihRest (by rw [List.length_append, hk]; rfl) hall.focusRest hpath
      have hone : Leads d root own.properties own.bindings []
          [⟨.element name as children, p, base⟩] := by
        refine ⟨?_, ?_, rfl, fun o ho => ?_⟩
        · rw [map_properties_attributes hhere next name as children p, List.flatMap_singleton]
        · rw [map_bindings_attributes hhere next name as children p, List.flatMap_singleton]
        · obtain rfl := List.mem_singleton.mp ho
          have hnode := hall.grows.1.1
          exact ⟨Document.parent?_of_node hnode, Document.kind?_of_node hnode⟩
      simpa [nodes, node, Node.originsAll, Node.origins, Node.takes, own, under] using
        (hone.append hunder).append hrest

/-! ## The whole -/

/-- In a template's own document all paths lead where they should. -/
theorem Template.leadsFrom_document (ns : List Node) :
    (Template.ofNodes ns).LeadsFrom ns (Template.ofNodes ns).document 0 := by
  obtain ⟨d₁, hplant, -, -, -, hplaced⟩ := Template.planted ns .empty
  have hdocument : (Template.ofNodes ns).document = d₁ := congrArg Prod.snd hplant
  rw [hdocument]
  exact Compile.leads_placed rfl hplaced rfl

namespace Instance

variable {d d' : Document} {i : Instance} {root : NodeId}

theorem kind?_writeProperties (fragment : NodeId) (ps : List LiteralProperty) (d : Document) :
    (writeProperties fragment ps d).2.kind? = d.kind? := by
  induction ps generalizing d with
  | nil => rfl
  | cons p ps ih =>
      rw [writeProperties]
      split
      · rfl
      · exact (ih _).trans (Document.kind?_modify d _ fun _ => rfl)

/-- The elements that are found are where the paths lead. -/
theorem findElements_eq_ok {bs : List AttributeBinding} {es : List NodeId}
    (h : findElements d root bs = .ok es) :
    es.map some = bs.map fun b => d.resolvePath? root b.path := by
  induction bs generalizing es with
  | nil =>
      cases h
      rfl
  | cons b bs ih =>
      rw [findElements] at h
      split at h
      · cases h
      · rename_i n hn
        cases hrest : findElements d root bs with
        | error e =>
            rw [hrest] at h
            cases h
        | ok rest =>
            rw [hrest] at h
            cases h
            rw [List.map_cons, List.map_cons, ih hrest, hn]

/-- The first markers of the regions that are found are where the paths lead. -/
theorem findRegions_eq_ok {bs : List ContentBinding} {rs : List Region}
    (h : findRegions d root bs = .ok rs) :
    rs.map (fun r => some r.first) = bs.map fun b => d.resolvePath? root b.path := by
  induction bs generalizing rs with
  | nil =>
      cases h
      rfl
  | cons b bs ih =>
      rw [findRegions] at h
      split at h
      · cases h
      · rename_i first hfirst
        split at h
        · cases h
        · cases hrest : findRegions d root bs with
          | error e =>
              rw [hrest] at h
              cases h
          | ok rest =>
              rw [hrest] at h
              cases h
              rw [List.map_cons, List.map_cons, ih hrest, hfirst]

end Instance

/-- The markers of all placeholders, pair by pair, are among what is created for the nodes, each
of them once. -/
theorem Node.markers_sublist (parent number : NodeId) (ns : List Node) :
    (((Node.originsAll parent number ns).flatMap Origin.markers).flatMap
      fun m => [m.1, m.2]).Sublist (List.range' number (Node.takesAll ns)) := by
  induction ns using Node.forestInduction generalizing parent number with
  | nil => exact .slnil
  | text data rest ih | comment data rest ih =>
      have hrest := ih parent (number + 1)
      rw [Node.takesAll, Node.takes, Nat.add_comm, List.range'_succ]
      exact hrest.cons number
  | placeholder rest ih =>
      have hrest := ih parent (number + 2)
      rw [Node.takesAll, Node.takes, Nat.add_comm, List.range'_succ, List.range'_succ]
      exact (hrest.cons_cons (number + 1)).cons_cons number
  | element name as children rest ihChildren ihRest =>
      have hunder := ihChildren number (number + 1)
      have hrest := ihRest parent (number + (1 + Node.takesAll children))
      have hown : List.range' number (1 + Node.takesAll children) =
          number :: List.range' (number + 1) (Node.takesAll children) := by
        rw [Nat.add_comm, List.range'_succ]
      rw [Node.takesAll, Node.takes, ← List.range'_append_1, hown, Node.originsAll,
        List.flatMap_append, List.flatMap_append]
      exact (hunder.cons number).append hrest

/-- Behind the first marker of a placeholder stands its second one. -/
theorem Origin.StandsIn.nextSibling? {d : Document} {o : Origin} (h : o.StandsIn d)
    {m : NodeId × NodeId} (hm : m ∈ o.markers) : d.nextSibling? m.1 = some m.2 := by
  obtain ⟨node, parent, number⟩ := o
  cases node with
  | placeholder =>
      obtain rfl := List.mem_singleton.mp hm
      exact h.2.2.2
  | text data | comment data | element name as children => cases hm

/-- Regions whose first markers are known, and whose last ones stand right behind them. -/
theorem Region.map_markers_eq {d : Document} {rs : List Region} {ms : List (NodeId × NodeId)}
    (hfirsts : rs.map (fun r => some r.first) = ms.map fun m => some m.1)
    (hrs : ∀ r ∈ rs, d.nextSibling? r.first = some r.last)
    (hms : ∀ m ∈ ms, d.nextSibling? m.1 = some m.2) : rs.map Region.markers = ms := by
  induction rs generalizing ms with
  | nil => exact (List.map_eq_nil_iff.mp hfirsts.symm).symm
  | cons r rs ih =>
      cases ms with
      | nil => cases hfirsts
      | cons m ms =>
          obtain ⟨hfirst, hrest⟩ := List.cons.inj hfirsts
          have hfirst : r.first = m.1 := Option.some.inj hfirst
          have hlast : r.last = m.2 := by
            have hr := hrs r List.mem_cons_self
            rw [hfirst, hms m List.mem_cons_self] at hr
            exact (Option.some.inj hr).symm
          rw [List.map_cons, ih hrest (fun q hq => hrs q (List.mem_cons_of_mem r hq))
            fun q hq => hms q (List.mem_cons_of_mem m hq), Region.markers, hfirst, hlast]

/-- Whatever the nodes, an instance of their template is made in every document; all paths lead
where they should, in the template's own document and in the copy, no two markers of regions
are the same node, and the instance's nodes are the children of its fragment. -/
theorem Instance.create_resolves (id : Nat) (ns : List Node) (d : Document) :
    (Template.ofNodes ns).LeadsFrom ns (Template.ofNodes ns).document 0 ∧
      ∃ i d', Instance.create ⟨id, .ofNodes ns⟩ d = (.ok i, d') ∧ i.fragment = d.size ∧
        Extends d d' ∧ d'.size = d.size + (1 + Node.takesAll ns) ∧
        (Template.ofNodes ns).LeadsFrom ns d' i.fragment ∧
        i.elements.map some = ((Node.originsAll i.fragment (i.fragment + 1) ns).flatMap
          Origin.bindings).map Prod.fst ∧
        i.regions.map Region.markers =
          (Node.originsAll i.fragment (i.fragment + 1) ns).flatMap Origin.markers ∧
        (i.regions.flatMap fun r => [r.first, r.last]).Nodup ∧
        i.nodes = d'.children i.fragment := by
  refine ⟨Template.leadsFrom_document ns, ?_⟩
  have hcompiled : Value.Compiled (fun _ => ns) ⟨id, .ofNodes ns⟩ := rfl
  obtain ⟨i, d', bs, hcreate, hfresh⟩ := Instance.create_fresh (fun _ => ns) hcompiled d
  obtain ⟨-, hnodes, d₁, hplant, hwrite, helements, hregions⟩ := Instance.create_eq_ok hcreate
  obtain ⟨d₁', hplant', hsize, -, -, hplaced⟩ := Template.planted ns d
  rw [Compile.sizeAll_forest] at hsize
  obtain ⟨hfragment, rfl⟩ := Prod.mk.inj (hplant'.symm.trans hplant)
  have hshape := Instance.sameShape_writeProperties i.fragment (Template.ofNodes ns).properties d₁'
  have hkinds := Instance.kind?_writeProperties i.fragment (Template.ofNodes ns).properties d₁'
  rw [hwrite] at hshape hkinds
  have hleads : (Template.ofNodes ns).LeadsFrom ns d' i.fragment := by
    rw [← hfragment]
    exact (Compile.leads_placed rfl hplaced rfl).congr hshape.children hshape.parents hkinds
  have hfound := Instance.findRegions_empty hregions
  have hmarkers : i.regions.map Region.markers =
      (Node.originsAll i.fragment (i.fragment + 1) ns).flatMap Origin.markers := by
    refine Region.map_markers_eq ((Instance.findRegions_eq_ok hregions).trans hleads.regions)
      (fun r hr => (hfound r hr).2) fun m hm => ?_
    obtain ⟨o, ho, hmo⟩ := List.mem_flatMap.mp hm
    exact (hleads.stands o ho).nextSibling? hmo
  refine ⟨i, d', hcreate, hfragment.symm, hfresh.grown, hshape.size.trans hsize, hleads, ?_, ?_,
    ?_, hnodes⟩
  · rw [Instance.findElements_eq_ok helements, ← hleads.attributes, List.map_map]
    rfl
  · exact hmarkers
  · have hall : i.regions.flatMap (fun r => [r.first, r.last]) =
        (i.regions.map Region.markers).flatMap fun m => [m.1, m.2] := by
      rw [List.flatMap_map]
      rfl
    rw [hall, hmarkers]
    exact List.Nodup.sublist (Node.markers_sublist i.fragment (i.fragment + 1) ns) List.nodup_range'

end LiveMarkup
