import LiveMarkup.Proofs.Document.Runs
import LiveMarkup.Proofs.Instance.Layout

/-!
# Making an instance

An instance of a compiled template is always made: every path of the
template's tables leads to the element or to the marker that it was made for.
What was in the document before does not change.
-/

namespace LiveMarkup

open Branch (idsAll tops ofForest)
open Document (Extends Edit)

/-! ## Planted templates -/

/-- An element that was just planted: its literal attributes are written, its
properties are not. -/
def Planted (next : Nat) (as : List Attribute) (attributes : Attributes)
    (properties : Properties) : Prop :=
  ∃ path, attributes = (Compile.attributes path next as).written ∧ properties = ∅

/-- An element of a new instance: its literal attributes and properties are written, and
nothing else. -/
def Written (next : Nat) (as : List Attribute) (attributes : Attributes)
    (properties : Properties) : Prop :=
  ∃ path path', attributes = (Compile.attributes path next as).written ∧
    properties = Compile.written (Compile.attributes path' next as).properties

theorem Written.fixed {next : Nat} {as : List Attribute} {attributes : Attributes}
    {properties : Properties} (h : Written next as attributes properties) :
    Fixed next as attributes properties := by
  obtain ⟨path, path', rfl, rfl⟩ := h
  refine ⟨Compile.nodup_written path next as, fun name hnone value => ?_,
    fun name hnone value => ?_⟩
  · rw [Compile.value?_written value path next as hnone,
      Substitution.attribute?_unbound value value hnone]
  · rw [Compile.get?_written value path' next as hnone,
      Substitution.property?_unbound value value hnone]
    cases Substitution.lastWritten (.property, name) next as with
    | none => exact .none
    | some o => exact .some (PropertyValue.alike_refl _)

/-- The forest of a template, once planted, is laid out as its nodes say, with
nothing between markers. -/
theorem layout_planted (path : NodePath) (index next base : Nat) (ns : List Node) :
    ∃ elements marks,
      Layout Planted next ns elements marks
        (ofForest base (Compile.nodes path index next ns).forest) ∧
      ∀ m ∈ marks, m.held = [] := by
  induction ns using Node.forestInduction generalizing path index next base with
  | nil => exact ⟨[], [], .nil, by simp⟩
  | text data rest ih =>
      obtain ⟨elements, marks, h, hheld⟩ := ih path (index + 1) next (base + 1)
      exact ⟨elements, marks, .text h, hheld⟩
  | comment data rest ih =>
      obtain ⟨elements, marks, h, hheld⟩ := ih path (index + 1) next (base + 1)
      exact ⟨elements, marks, .comment h, hheld⟩
  | placeholder rest ih =>
      obtain ⟨elements, marks, h, hheld⟩ := ih path (index + 2) (next + 1) (base + 1 + 1)
      refine ⟨elements, ⟨next, base, base + 1, []⟩ :: marks,
        Layout.placeholder (m := ⟨next, base, base + 1, []⟩) h, ?_⟩
      simpa using hheld
  | element name as children rest ihChildren ihRest =>
      let own := Compile.attributes (path ++ [index]) next as
      let below := Compile.nodes (path ++ [index]) 0
        (next + Attribute.placeholdersAll as) children
      obtain ⟨inner, held, hunder, hnone⟩ := ihChildren (path ++ [index]) 0
        (next + Attribute.placeholdersAll as) (base + 1)
      obtain ⟨elements, marks, hrest, hnone'⟩ := ihRest path (index + 1)
        (next + (Attribute.placeholdersAll as + Node.placeholdersAll children))
        (base + (1 + Tree.sizeAll below.forest))
      have hwritten : NodeKind.written (.element name) own.written = own.written := by
        rw [NodeKind.written, Attributes.foldl_write
          (by simpa using Compile.nodup_written (path ++ [index]) next as), List.nil_append]
      have hforest :
          ofForest base (Compile.nodes path index next (.element name as children :: rest)).forest =
            .node base (.element name) own.written ∅ (ofForest (base + 1) below.forest) ::
              ofForest (base + (1 + Tree.sizeAll below.forest))
                (Compile.nodes path (index + 1)
                  (next + (Attribute.placeholdersAll as + Node.placeholdersAll children))
                  rest).forest := by
        simp [Compile.nodes, Compile.node, ofForest, Branch.ofTree, Tree.size, hwritten,
          Compile.next_attributes, Compile.next_nodes, Nat.add_assoc, own, below]
      rw [hforest]
      refine ⟨_, _, Layout.element ⟨_, rfl, rfl⟩ hunder hrest, ?_⟩
      intro m hm
      rcases List.mem_append.mp hm with hm | hm
      · exact hnone m hm
      · exact hnone' m hm

/-- What planting a template's static forest makes. -/
theorem Template.planted (ns : List Node) (d : Document) :
    ∃ d₁, Document.plant Document.writingAttributes (Template.ofNodes ns).root d = (d.size, d₁) ∧
      d₁.size = d.size + (1 + Tree.sizeAll (Compile.nodes [] 0 0 ns).forest) ∧ Extends d d₁ ∧
      d₁.nodes[d.size]? = some ⟨.fragment, none,
        tops (ofForest (d.size + 1) (Compile.nodes [] 0 0 ns).forest), [], ∅⟩ ∧
      d₁.Placed d.size [] (ofForest (d.size + 1) (Compile.nodes [] 0 0 ns).forest) [] := by
  obtain ⟨hn, hsize, hgrown, hnode, hgrows⟩ := Document.plant_node .fragment []
    (Document.plantsUnder (Compile.isSolidAll_forest [] 0 0 ns)) d
  have hids := Branch.idsAll_ofForest (d.size + 1) (Compile.nodes [] 0 0 ns).forest
  exact ⟨_, Prod.ext hn rfl, hsize, hgrown, hnode,
    { node := ⟨_, hnode, by simp [tops]⟩
      grows := hgrows
      distinct := by
        rw [hids, ← List.range'_succ]
        exact List.nodup_range'
      around := by simp
      apart := by simp }⟩

/-! ## Paths -/

theorem Document.resolvePath?_congr {d d' : Document}
    (h : ∀ k, d'.children k = d.children k) (root : NodeId) (path : NodePath) :
    d'.resolvePath? root path = d.resolvePath? root path := by
  have hchild : d'.childAt? = d.childAt? := by
    funext n index
    rw [Document.childAt?, Document.childAt?, h]
  rw [Document.resolvePath?, Document.resolvePath?, hchild]

theorem Document.resolvePath?_append {d : Document} {root p n : NodeId} {path : NodePath}
    {index : Nat} (h : d.resolvePath? root path = some p)
    (hchild : d.childAt? p index = some n) :
    d.resolvePath? root (path ++ [index]) = some n := by
  rw [Document.resolvePath?] at h ⊢
  rw [List.foldlM_append, h]
  simpa using hchild

/-! ## Literal properties -/

namespace Instance

theorem writeProperties_append {root : NodeId} {ps qs : List LiteralProperty}
    {d d' : Document} (h : writeProperties root ps d = (none, d')) :
    writeProperties root (ps ++ qs) d = writeProperties root qs d' := by
  induction ps generalizing d with
  | nil => rw [← (Prod.mk.inj h).2, List.nil_append]
  | cons p ps ih =>
      rw [writeProperties] at h
      rw [List.cons_append, writeProperties]
      split at h
      · exact absurd (Prod.mk.inj h).1 (by simp)
      · exact ih h

theorem writeProperties_own {root n : NodeId} {path : NodePath} {d : Document}
    {data : NodeData} (table : List LiteralProperty) (hpath : ∀ l ∈ table, l.path = path)
    (hresolve : d.resolvePath? root path = some n) (hnode : d.nodes[n]? = some data) :
    ∃ d', writeProperties root table d = (none, d') ∧ d'.size = d.size ∧
      d'.nodes[n]? = some { data with
        properties := table.foldl (fun properties l => properties.insert l.name (.str l.value))
          data.properties } ∧
      (∀ k, k ≠ n → d'.nodes[k]? = d.nodes[k]?) ∧ ∀ k, d'.children k = d.children k := by
  induction table generalizing d data with
  | nil => exact ⟨d, rfl, rfl, hnode, fun _ _ => rfl, fun _ => rfl⟩
  | cons l table ih =>
      have hself : (d.setProperty n l.name (.str l.value)).nodes[n]? =
          some { data with properties := data.properties.insert l.name (.str l.value) } := by
        simp only [Document.setProperty, Document.nodes_count]
        exact Document.node_modify_self d _ hnode
      have hothers : ∀ k, k ≠ n →
          (d.setProperty n l.name (.str l.value)).nodes[k]? = d.nodes[k]? := by
        intro k hk
        simp only [Document.setProperty, Document.nodes_count]
        exact Document.node_modify_other d _ hk
      have hchildren : ∀ k, (d.setProperty n l.name (.str l.value)).children k =
          d.children k := by
        intro k
        by_cases hk : k = n
        · subst hk
          rw [Document.children_of_node hself, Document.children_of_node hnode]
        · exact Document.children_congr (hothers k hk)
      obtain ⟨d', hwrite, hsize, hself', hothers', hchildren'⟩ :=
        ih (fun l hl => hpath l (List.mem_cons_of_mem _ hl))
          ((Document.resolvePath?_congr hchildren root path).trans hresolve) hself
      refine ⟨d', ?_, ?_, hself', fun k hk => (hothers' k hk).trans (hothers k hk),
        fun k => (hchildren' k).trans (hchildren k)⟩
      · rw [writeProperties, hpath l List.mem_cons_self, hresolve]
        exact hwrite
      · rw [hsize, Document.setProperty, Document.size_count, Document.size_modify]

theorem path_of_mem_properties {path : NodePath} {next : Nat} {as : List Attribute}
    {l : LiteralProperty} (h : l ∈ (Compile.attributes path next as).properties) :
    l.path = path := by
  induction as using List.reverseRecOn with
  | nil => simp [Compile.attributes] at h
  | append_singleton as a ih =>
      rw [Compile.attributes_append_singleton] at h
      cases hbound : a.isBound with
      | true =>
          rw [Compile.addAttribute_bound hbound] at h
          exact ih h
      | false =>
          rw [Compile.addAttribute_literal hbound path (fun _ => .undefined) 0] at h
          split at h
          · exact ih h
          · rcases List.mem_append.mp h with h | h
            · exact ih h
            · rw [List.mem_singleton.mp h]

theorem writeProperties_planted {root : NodeId} {next : Nat} {ns : List Node}
    {elements : List NodeId} {marks : List Mark} {bs : List Branch}
    (h : Layout Planted next ns elements marks bs) (hheld : ∀ m ∈ marks, m.held = [])
    {d : Document} {p : NodeId} {path : NodePath} {before behind : List NodeId}
    (hplaced : d.Placed p before bs behind)
    (hresolve : d.resolvePath? root path = some p) :
    ∃ d' bs', writeProperties root
        (Compile.nodes path before.length next ns).properties d = (none, d') ∧
      Layout Written next ns elements marks bs' ∧ d'.Placed p before bs' behind ∧
      Edit d d' p (idsAll bs) (idsAll bs') ∧ ∀ k, d'.children k = d.children k := by
  induction h generalizing d p path before behind with
  | nil => exact ⟨d, [], rfl, .nil, hplaced, Edit.refl d p [], fun _ => rfl⟩
  | @text next data n rest elements marks bs _ ih =>
      obtain ⟨d', bs', hwrite, hlayout, hplaced', hedit, hchildren⟩ :=
        ih hheld hplaced.focusRest hresolve
      obtain ⟨hwhole, hedit'⟩ := hplaced.unfocusRest hplaced' hedit
      refine ⟨d', _, ?_, .text hlayout, hwhole, hedit', hchildren⟩
      simpa [Compile.nodes, Compile.node] using hwrite
  | @comment next data n rest elements marks bs _ ih =>
      obtain ⟨d', bs', hwrite, hlayout, hplaced', hedit, hchildren⟩ :=
        ih hheld hplaced.focusRest hresolve
      obtain ⟨hwhole, hedit'⟩ := hplaced.unfocusRest hplaced' hedit
      refine ⟨d', _, ?_, .comment hlayout, hwhole, hedit', hchildren⟩
      simpa [Compile.nodes, Compile.node] using hwrite
  | @placeholder m rest elements marks bs _ ih =>
      obtain ⟨d', bs', hwrite, hlayout, hplaced', hedit, hchildren⟩ :=
        ih (fun m hm => hheld m (List.mem_cons_of_mem _ hm)) hplaced.focusTail hresolve
      obtain ⟨hwhole, hedit'⟩ := hplaced.unfocusTail hplaced' hedit
      refine ⟨d', _, ?_, .placeholder hlayout, hwhole, hedit', hchildren⟩
      have hnone := hheld m List.mem_cons_self
      simpa [Compile.nodes, Compile.node, Mark.branches, hnone] using hwrite
  | @element next name as children rest n attributes properties inner elements held marks
      under bs hsay _ _ ihUnder ihRest =>
      obtain ⟨path', rfl, rfl⟩ := hsay
      have hhere : d.resolvePath? root (path ++ [before.length]) = some n :=
        Document.resolvePath?_append hresolve hplaced.childAt?
      obtain ⟨d₁, hwrite₁, hsize₁, hself₁, hothers₁, hchildren₁⟩ := writeProperties_own
        (Compile.attributes (path ++ [before.length]) next as).properties
        (fun l hl => path_of_mem_properties hl) hhere hplaced.grows.1.1
      have hfirst := hplaced.focusFirst
      obtain ⟨d₂, under', hwrite₂, hlayout₂, hplaced₂, hedit₂, hchildren₂⟩ :=
        ihUnder (fun m hm => hheld m (List.mem_append_left _ hm))
          (hfirst.descendChanged hself₁ hothers₁)
          ((Document.resolvePath?_congr hchildren₁ root _).trans hhere)
      obtain ⟨hwhole₂, hedit₂'⟩ :=
        hplaced.editFirst hself₁ hothers₁ hsize₁ hplaced₂ hedit₂
      have hchildren₂' : ∀ k, d₂.children k = d.children k := fun k =>
        (hchildren₂ k).trans (hchildren₁ k)
      obtain ⟨d₃, bs', hwrite₃, hlayout₃, hplaced₃, hedit₃, hchildren₃⟩ :=
        ihRest (fun m hm => hheld m (List.mem_append_right _ hm))
          hwhole₂.focusRest
          ((Document.resolvePath?_congr hchildren₂' root path).trans hresolve)
      obtain ⟨hwhole₃, hedit₃'⟩ :=
        hwhole₂.unfocusRest hplaced₃ hedit₃
      refine ⟨d₃, _, ?_, .element ⟨path', _, rfl, rfl⟩ hlayout₂ hlayout₃,
        hwhole₃, hedit₂'.trans hedit₃', fun k => (hchildren₃ k).trans (hchildren₂' k)⟩
      simp only [Compile.nodes, Compile.node, List.append_assoc, List.length_singleton,
        Compile.next_attributes, Compile.next_nodes]
      rw [List.length_nil] at hwrite₂
      rw [writeProperties_append hwrite₁, writeProperties_append hwrite₂]
      simpa [Nat.add_assoc] using hwrite₃

/-! ## Elements and regions -/

theorem findElements_append {root : NodeId} {bs cs : List AttributeBinding}
    {d : Document} {es fs : List NodeId} (h : findElements d root bs = .ok es)
    (h' : findElements d root cs = .ok fs) :
    findElements d root (bs ++ cs) = .ok (es ++ fs) := by
  induction bs generalizing es with
  | nil =>
      cases h
      exact h'
  | cons b bs ih =>
      rw [findElements] at h
      rw [List.cons_append, findElements]
      split at h
      · cases h
      · cases hrest : findElements d root bs with
        | error e =>
            rw [hrest] at h
            cases h
        | ok es' =>
            rw [hrest] at h
            cases h
            rw [ih hrest]
            rfl

theorem findRegions_append {root : NodeId} {bs cs : List ContentBinding}
    {d : Document} {rs qs : List Region} (h : findRegions d root bs = .ok rs)
    (h' : findRegions d root cs = .ok qs) :
    findRegions d root (bs ++ cs) = .ok (rs ++ qs) := by
  induction bs generalizing rs with
  | nil =>
      cases h
      exact h'
  | cons b bs ih =>
      rw [findRegions] at h
      rw [List.cons_append, findRegions]
      split at h
      · cases h
      · split at h
        · cases h
        · cases hrest : findRegions d root bs with
          | error e =>
              rw [hrest] at h
              cases h
          | ok rs' =>
              rw [hrest] at h
              cases h
              rw [ih hrest]
              rfl

theorem findElements_own {root n : NodeId} {path : NodePath} {d : Document}
    (hresolve : d.resolvePath? root path = some n) (os : List (Nat × Attribute)) :
    findElements d root (os.map (Compile.bindingOf path)) =
      .ok (List.replicate os.length n) := by
  induction os with
  | nil => rfl
  | cons o os ih =>
      rw [List.map_cons, findElements]
      simp only [Compile.bindingOf, hresolve]
      rw [ih]
      rfl

theorem findElements_planted {root : NodeId}
    {say : Nat → List Attribute → Attributes → Properties → Prop} {next : Nat}
    {ns : List Node} {elements : List NodeId} {marks : List Mark} {bs : List Branch}
    (h : Layout say next ns elements marks bs) (hheld : ∀ m ∈ marks, m.held = [])
    {d : Document} {p : NodeId} {path : NodePath} {before behind : List NodeId}
    (hplaced : d.Placed p before bs behind)
    (hresolve : d.resolvePath? root path = some p) :
    findElements d root (Compile.nodes path before.length next ns).attributes =
      .ok elements := by
  induction h generalizing p path before behind with
  | nil => rfl
  | @text next data n rest elements marks bs _ ih =>
      have := ih hheld hplaced.focusRest hresolve
      simpa [Compile.nodes, Compile.node] using this
  | @comment next data n rest elements marks bs _ ih =>
      have := ih hheld hplaced.focusRest hresolve
      simpa [Compile.nodes, Compile.node] using this
  | @placeholder m rest elements marks bs _ ih =>
      have hnone := hheld m List.mem_cons_self
      have := ih (fun m hm => hheld m (List.mem_cons_of_mem _ hm)) hplaced.focusTail hresolve
      simpa [Compile.nodes, Compile.node, Mark.branches, hnone] using this
  | @element next name as children rest n attributes properties inner elements held marks
      under bs _ _ _ ihUnder ihRest =>
      have hhere : d.resolvePath? root (path ++ [before.length]) = some n :=
        Document.resolvePath?_append hresolve hplaced.childAt?
      have hown := findElements_own hhere (Substitution.bound next as)
      rw [Substitution.length_bound, ← Compile.bindings_attributes] at hown
      have hunder := ihUnder (fun m hm => hheld m (List.mem_append_left _ hm))
        hplaced.focusFirst.descend hhere
      have hrest := ihRest (fun m hm => hheld m (List.mem_append_right _ hm))
        hplaced.focusRest hresolve
      have hall := findElements_append (findElements_append hown hunder) hrest
      simpa [Compile.nodes, Compile.node, Compile.next_attributes, Compile.next_nodes,
        Nat.add_assoc] using hall

theorem findRegions_planted (markup : CompiledTemplate → List Node) {root : NodeId}
    {say : Nat → List Attribute → Attributes → Properties → Prop} {next : Nat}
    {ns : List Node} {elements : List NodeId} {marks : List Mark} {bs : List Branch}
    (h : Layout say next ns elements marks bs) (hheld : ∀ m ∈ marks, m.held = [])
    {d : Document} {p : NodeId} {path : NodePath} {before behind : List NodeId}
    (hplaced : d.Placed p before bs behind)
    (hresolve : d.resolvePath? root path = some p) :
    ∃ regions, findRegions d root (Compile.nodes path before.length next ns).contents =
      .ok regions ∧ Region.FitAll markup regions marks := by
  induction h generalizing p path before behind with
  | nil => exact ⟨[], rfl, trivial⟩
  | @text next data n rest elements marks bs _ ih =>
      obtain ⟨regions, hfind, hfit⟩ :=
        ih hheld hplaced.focusRest hresolve
      exact ⟨regions, by simpa [Compile.nodes, Compile.node] using hfind, hfit⟩
  | @comment next data n rest elements marks bs _ ih =>
      obtain ⟨regions, hfind, hfit⟩ :=
        ih hheld hplaced.focusRest hresolve
      exact ⟨regions, by simpa [Compile.nodes, Compile.node] using hfind, hfit⟩
  | @placeholder m rest elements marks bs _ ih =>
      have hnone := hheld m List.mem_cons_self
      obtain ⟨regions, hfind, hfit⟩ :=
        ih (fun m hm => hheld m (List.mem_cons_of_mem _ hm)) hplaced.focusTail hresolve
      have hplaced : d.Placed p before
          (.comment m.first "" :: .comment m.last "" :: bs) behind := by
        simpa [Mark.branches, hnone] using hplaced
      have hfirst : d.resolvePath? root (path ++ [before.length]) = some m.first :=
        Document.resolvePath?_append hresolve hplaced.childAt?
      have hlast : d.nextSibling? m.first = some m.last := by
        have := hplaced.siblingsAfter
        simp only [Branch.comment, Branch.id_node, Branch.tops_cons] at this
        simp [Document.nextSibling?, this]
      have hown : findRegions d root [⟨path ++ [before.length], m.placeholder⟩] =
          .ok [⟨path ++ [before.length], m.placeholder, m.first, m.last, .empty⟩] := by
        simp only [findRegions, hfirst, hlast]
        rfl
      refine ⟨⟨path ++ [before.length], m.placeholder, m.first, m.last, .empty⟩ :: regions,
        ?_, Region.fitAll_cons.mpr ⟨⟨rfl, rfl, rfl, hnone⟩, hfit⟩⟩
      have hall := findRegions_append hown hfind
      simpa [Compile.nodes, Compile.node, Mark.branches, hnone] using hall
  | @element next name as children rest n attributes properties inner elements held marks
      under bs _ _ _ ihUnder ihRest =>
      have hhere : d.resolvePath? root (path ++ [before.length]) = some n :=
        Document.resolvePath?_append hresolve hplaced.childAt?
      obtain ⟨below, hunder, hfit⟩ :=
        ihUnder (fun m hm => hheld m (List.mem_append_left _ hm))
          hplaced.focusFirst.descend hhere
      obtain ⟨beside, hrest, hfit'⟩ :=
        ihRest (fun m hm => hheld m (List.mem_append_right _ hm))
          hplaced.focusRest hresolve
      refine ⟨below ++ beside, ?_, hfit.append hfit'⟩
      have hall := findRegions_append hunder hrest
      simpa [Compile.nodes, Compile.node, Compile.next_attributes, Compile.next_nodes,
        Nat.add_assoc] using hall

/-! ## The whole -/

/-- How an instance is made. -/
theorem create_eq_ok {source : CompiledTemplate} {d d' : Document} {i : Instance}
    (h : create source d = (.ok i, d')) :
    i.source = source ∧ i.nodes = d'.children i.fragment ∧
      ∃ d₁, Document.plant Document.writingAttributes source.template.root d = (i.fragment, d₁) ∧
        writeProperties i.fragment source.template.properties d₁ = (none, d') ∧
        findElements d' i.fragment source.template.attributes = .ok i.elements ∧
        findRegions d' i.fragment source.template.contents = .ok i.regions := by
  simp only [create] at h
  generalize hplant : Document.plant Document.writingAttributes source.template.root d = planted
    at h
  obtain ⟨fragment, d₁⟩ := planted
  simp only at h
  generalize hwrite : writeProperties fragment source.template.properties d₁ = written at h
  obtain ⟨e, d₂⟩ := written
  cases e with
  | some e => simp at h
  | none =>
      simp only [Prod.mk.injEq] at h
      obtain ⟨hmade, rfl⟩ := h
      cases helements : findElements d₂ fragment source.template.attributes with
      | error e => simp [helements, bind, Except.bind] at hmade
      | ok elements =>
          cases hregions : findRegions d₂ fragment source.template.contents with
          | error e => simp [helements, hregions, bind, Except.bind] at hmade
          | ok regions =>
              simp only [helements, hregions, bind, Except.bind, pure, Except.pure,
                Except.ok.injEq] at hmade
              subst hmade
              exact ⟨rfl, rfl, d₁, rfl, hwrite, helements, hregions⟩

/-- An instance is made of the template that it is asked for. -/
theorem source_create {source : CompiledTemplate} {d d' : Document} {i : Instance}
    (h : create source d = (.ok i, d')) : i.source = source :=
  (create_eq_ok h).1

/-- An instance that was just made: alone under a new fragment, with nothing in
its regions. -/
structure Fresh (markup : CompiledTemplate → List Node) (source : CompiledTemplate)
    (ns : List Node) (d d' : Document) (i : Instance) (bs : List Branch) : Prop where
  source : i.source = source
  grown : Extends d d'
  fragment : d'.nodes[i.fragment]? = some ⟨.fragment, none, tops bs, [], ∅⟩
  placed : d'.Placed i.fragment [] bs []
  nodes : i.nodes = tops bs
  node_fresh : d.size ≤ i.fragment
  fresh : ∀ k ∈ idsAll bs, d.size ≤ k
  template : i.source.template = Template.ofNodes ns
  layout : ∃ marks, Layout Written 0 ns i.elements marks bs ∧
    i.nodes = Layout.roots ns marks bs ∧ Region.FitAll markup i.regions marks

theorem Fresh.fits {markup : CompiledTemplate → List Node} {source : CompiledTemplate}
    {ns : List Node} {d d' : Document} {i : Instance} {bs : List Branch}
    (h : Fresh markup source ns d d' i bs) : i.FitsAs markup ns bs := by
  obtain ⟨marks, hlayout, hnodes, hregions⟩ := h.layout
  exact ⟨h.template, marks, hlayout.mono Written.fixed, hnodes, hregions⟩

/-- An instance of a compiled template is made, whatever the document. -/
theorem create_fresh (markup : CompiledTemplate → List Node) {source : CompiledTemplate}
    {ns : List Node} (hsource : source.template = Template.ofNodes ns) (d : Document) :
    ∃ i d' bs, create source d = (.ok i, d') ∧ Fresh markup source ns d d' i bs := by
  obtain ⟨d₁, hplant, -, hgrown, hnode, hplaced⟩ := Template.planted ns d
  have hids := Branch.idsAll_ofForest (d.size + 1) (Compile.nodes [] 0 0 ns).forest
  obtain ⟨elements, marks, hlayout, hheld⟩ := layout_planted [] 0 0 (d.size + 1) ns
  have hhere : ∀ d' : Document, d'.resolvePath? d.size [] = some d.size := fun _ => rfl
  obtain ⟨d₂, bs, hwrite, hlayout₂, hplaced₂, hedit, hchildren⟩ :=
    writeProperties_planted hlayout hheld hplaced (hhere d₁)
  have helements := findElements_planted hlayout₂ hheld hplaced₂ (hhere d₂)
  obtain ⟨regions, hregions, hfit⟩ :=
    findRegions_planted markup hlayout₂ hheld hplaced₂ (hhere d₂)
  have hfresh : ∀ k ∈ idsAll (ofForest (d.size + 1) (Compile.nodes [] 0 0 ns).forest),
      d.size ≤ k := by
    intro k hk
    rw [hids] at hk
    exact Nat.le_of_succ_le (List.mem_range'_1.mp hk).1
  refine ⟨⟨source, d.size, d₂.children d.size, elements, regions⟩, d₂, bs, ?_, ?_⟩
  · rw [List.length_nil] at hwrite helements hregions
    simp only [create, hsource, hplant]
    simp only [Template.ofNodes, hwrite, helements, hregions]
    rfl
  · refine ⟨rfl, hedit.extends hgrown (Nat.le_refl _) hfresh, ?_, hplaced₂, ?_, Nat.le_refl _,
      ?_, hsource, marks, hlayout₂, ?_, hfit⟩
    · have hparent := hedit.parent
      rw [hnode, hplaced₂.children] at hparent
      simpa [NodeKind.written] using hparent
    · simpa using hplaced₂.children
    · intro k hk
      rcases hedit.fresh k hk with hold | hle
      · exact hfresh k hold
      · exact Nat.le_trans hgrown.size_le hle
    · rw [hlayout₂.roots_of_bare hheld]
      simpa using hplaced₂.children

end Instance

end LiveMarkup
