import LiveMarkup.Proofs.Document.Operations
import LiveMarkup.Proofs.Instance.Tying

/-!
# Remembered nodes

An instance remembers its topmost nodes and what its regions hold, wherever these
nodes are by now. Whatever values it is given, nodes and shared instances from
elsewhere included, and however a document is changed meanwhile, all that is
remembered can be inserted again. So an instance can be gathered at any time.
-/

namespace LiveMarkup

variable {P Q : NodeId → Prop} {d d' : Document} {spans : InstanceId → List NodeId}

/-! ## What is remembered -/

mutual

/-- Whether all nodes that an instance remembers are of some kind, those of the instances that
belong to its regions included. -/
def Instance.All (P : NodeId → Prop) : Instance → Prop
  | ⟨_, _, nodes, _, regions⟩ => (∀ n ∈ nodes, P n) ∧ Region.AllIn P regions

/-- Whether all nodes that regions remember to hold are of some kind. -/
def Region.AllIn (P : NodeId → Prop) : List Region → Prop
  | [] => True
  | ⟨_, _, _, _, content⟩ :: rest => content.All P ∧ Region.AllIn P rest

/-- Whether all nodes that a region remembers to hold are of some kind. A shared instance
remembers its nodes itself. -/
def Content.All (P : NodeId → Prop) : Content → Prop
  | .empty | .shared _ => True
  | .text n _ => P n
  | .own inner => inner.All P
  | .nodes held => ∀ n ∈ held, P n

end

theorem Region.allIn_iff {regions : List Region} :
    AllIn P regions ↔ ∀ r ∈ regions, r.content.All P := by
  induction regions with
  | nil => simp [AllIn]
  | cons r rest ih =>
      obtain ⟨path, placeholder, first, last, content⟩ := r
      rw [AllIn, ih, List.forall_mem_cons]

theorem Instance.all_iff {i : Instance} :
    i.All P ↔ (∀ n ∈ i.nodes, P n) ∧ ∀ r ∈ i.regions, r.content.All P := by
  obtain ⟨source, fragment, nodes, elements, regions⟩ := i
  rw [All, Region.allIn_iff]

mutual

theorem Instance.All.mono (hsub : ∀ n, P n → Q n) : {i : Instance} → i.All P → i.All Q
  | ⟨_, _, _, _, _⟩, h => by
      rw [Instance.All] at h ⊢
      exact ⟨fun n hn => hsub n (h.1 n hn), Region.AllIn.mono hsub h.2⟩

theorem Region.AllIn.mono (hsub : ∀ n, P n → Q n) : {regions : List Region} →
    Region.AllIn P regions → Region.AllIn Q regions
  | [], _ => trivial
  | ⟨_, _, _, _, _⟩ :: _, h => by
      rw [Region.AllIn] at h ⊢
      exact ⟨Content.All.mono hsub h.1, Region.AllIn.mono hsub h.2⟩

theorem Content.All.mono (hsub : ∀ n, P n → Q n) : {content : Content} → content.All P →
    content.All Q
  | .empty, _ | .shared _, _ => by rw [Content.All]; trivial
  | .text n _, h => by
      rw [Content.All] at h ⊢
      exact hsub n h
  | .own _, h => by
      rw [Content.All] at h ⊢
      exact Instance.All.mono hsub h
  | .nodes _, h => by
      rw [Content.All] at h ⊢
      exact fun n hn => hsub n (h n hn)

end

/-! ## Spans -/

mutual

theorem Instance.All.spanWith (hspans : ∀ t, ∀ n ∈ spans t, P n) : {i : Instance} → i.All P →
    ∀ n ∈ i.spanWith spans, P n
  | ⟨_, _, nodes, _, regions⟩, h => by
      rw [Instance.All] at h
      rw [Instance.spanWith, assembleSpan]
      intro n hn
      obtain ⟨m, hm, hn⟩ := List.mem_flatMap.mp hn
      rcases List.mem_cons.mp hn with rfl | hn
      · exact h.1 n hm
      · exact Region.AllIn.lookup_spansWith hspans h.2 m n hn

theorem Region.AllIn.lookup_spansWith (hspans : ∀ t, ∀ n ∈ spans t, P n) :
    {regions : List Region} → Region.AllIn P regions →
      ∀ m, ∀ n ∈ ((Region.spansWith spans regions).lookup m).getD [], P n
  | [], _ => by simp [Region.spansWith]
  | ⟨_, _, first, _, content⟩ :: rest, h => by
      rw [Region.AllIn] at h
      intro m n hn
      rw [Region.spansWith, List.lookup_cons] at hn
      split at hn
      · exact Content.All.spanWith hspans h.1 n hn
      · exact Region.AllIn.lookup_spansWith hspans h.2 m n hn

theorem Content.All.spanWith (hspans : ∀ t, ∀ n ∈ spans t, P n) : {content : Content} →
    content.All P → ∀ n ∈ content.spanWith spans, P n
  | .empty, _ => by simp [Content.spanWith]
  | .shared t, _ => by
      rw [Content.spanWith]
      exact hspans t
  | .text _ _, h => by
      rw [Content.All] at h
      rw [Content.spanWith]
      exact List.forall_mem_singleton.mpr h
  | .own _, h => by
      rw [Content.All] at h
      rw [Content.spanWith]
      exact Instance.All.spanWith hspans h
  | .nodes _, h => by
      rw [Content.All] at h
      rwa [Content.spanWith]

end

theorem SharedInstances.all_span {pool : SharedInstances} (h : ∀ i ∈ pool, i.All P)
    (t : InstanceId) : ∀ n ∈ pool.span t, P n := by
  unfold span
  -- Instances may be shown in each other, so the induction is on how deep spans are told.
  generalize pool.length = depth
  induction depth generalizing t with
  | zero => simp [spanWithin]
  | succ depth ih =>
      rw [spanWithin]
      split
      · simp
      · rename_i i hi
        exact (h i (List.mem_of_getElem? hi)).spanWith ih

/-! ## Following a document -/

/-- A document whose parents and children are tied, and in which all spans can be inserted. -/
structure Document.Hosts (spans : InstanceId → List NodeId) (d : Document) : Prop where
  tied : d.Tied
  insertable : ∀ t, ∀ n ∈ spans t, d.Insertable n

theorem Document.Hosts.follow (h : d.Hosts spans) (hfollows : d.Follows d') : d'.Hosts spans where
  tied := hfollows.tied
  insertable t n hn := hfollows.kept n (h.insertable t n hn)

/-- A region that was changed together with a document and remembers what can be inserted. -/
structure Region.Follows (d : Document) (result : Region × Option PatchError × Document) :
    Prop where
  document : d.Follows result.2.2
  content : result.1.content.All result.2.2.Insertable

/-- Regions that were changed together with a document and remember what can be inserted. -/
structure Region.AllFollow (d : Document)
    (result : List Region × Option PatchError × Document) : Prop where
  document : d.Follows result.2.2
  content : ∀ r ∈ result.1, r.content.All result.2.2.Insertable

/-- An instance that was changed together with a document and remembers what can be inserted. -/
structure Instance.Follows (d : Document) (result : Instance × Option PatchError × Document) :
    Prop where
  document : d.Follows result.2.2
  all : result.1.All result.2.2.Insertable

/-- A rendering after which what is remembered can be inserted. -/
structure Rendering.Follows (spans : InstanceId → List NodeId) (rendering : Rendering) :
    Prop where
  document : ∀ d : Document, d.Hosts spans → d.Follows (rendering.fresh d).2
  content : ∀ d : Document, d.Hosts spans → ∀ n content, (rendering.fresh d).1 = .ok (n, content) →
    content.All (rendering.fresh d).2.Insertable
  again : ∀ d : Document, d.Hosts spans → ∀ i : Instance, i.All d.Insertable →
    Instance.Follows d (rendering.again i d)

/-! ## Regions -/

namespace Region

theorem mem_children_of_mem_between {m n k : NodeId} (hk : k ∈ d.between m n) :
    ∃ p, k ∈ d.children p := by
  have hafter : k ∈ d.siblingsAfter m := (List.takeWhile_sublist _).subset hk
  unfold Document.siblingsAfter at hafter
  split at hafter
  · cases hafter
  · rename_i p _
    exact ⟨p, (List.dropWhile_sublist _).subset (List.mem_of_mem_drop hafter)⟩

theorem all_fill {r : Region} {content : Content} (hd : d.Tied)
    (hr : r.content.All d.Insertable) (hcontent : content.All d.Insertable) (n : NodeId) :
    (r.fill n content d).1.content.All (r.fill n content d).2.2.Insertable := by
  have hfollows := follows_fill r n content hd
  revert hfollows
  unfold fill
  split
  · exact fun _ => hr
  · split
    · intro hfollows
      dsimp only at hfollows ⊢
      split
      · -- what stands between the markers by now
        rw [Content.All]
        intro k hk
        obtain ⟨p, hkp⟩ := mem_children_of_mem_between hk
        exact hfollows.tied.insertable hkp
      · exact hcontent.mono hfollows.kept
    · exact fun _ => hr

theorem follows_replace (r : Region) {rendering : Rendering} (h : rendering.Follows spans)
    (hd : d.Hosts spans) : Follows d (r.replace rendering d) := by
  have hempty : ∀ d : Document, Content.empty.All d.Insertable := fun _ => by
    rw [Content.All]
    trivial
  unfold replace
  dsimp only
  have hcleared := follows_clear { r with content := .empty } hd.tied
  generalize { r with content := .empty }.clear d = cleared at hcleared
  obtain ⟨e, d₁⟩ := cleared
  cases e with
  | some e => exact ⟨hcleared, hempty d₁⟩
  | none =>
      have hfresh := hcleared.trans (h.document d₁ (hd.follow hcleared))
      have hmade := h.content d₁ (hd.follow hcleared)
      dsimp only
      generalize rendering.fresh d₁ = made at hfresh hmade
      obtain ⟨result, d₂⟩ := made
      cases result with
      | error e => exact ⟨hfresh, hempty d₂⟩
      | ok node =>
          exact ⟨hfresh.trans (follows_fill _ node.1 node.2 hfresh.tied),
            all_fill (r := { r with content := .empty }) hfresh.tied (hempty d₂)
              (hmade node.1 node.2 rfl) node.1⟩

theorem follows_update {r : Region} {s : Supply} (h : s.2.Follows spans) (hd : d.Hosts spans)
    (hr : r.content.All d.Insertable) : Follows d (r.update spans s d) := by
  have hreplace := r.follows_replace h hd
  unfold update
  split
  · split
    · exact ⟨.refl hd.tied, hr⟩
    · exact hreplace
  · rename_i inner source values hown hvalue
    split
    · rw [hown, Content.All] at hr
      obtain ⟨hdocument, hall⟩ := h.again d hd inner hr
      refine ⟨hdocument, ?_⟩
      dsimp only
      rwa [Content.All]
    · exact hreplace
  · rename_i n data hheld
    split
    · split
      · exact ⟨.refl hd.tied, hr⟩
      · have hfollows : d.Follows (d.setText n s.1.text) :=
          .of_sameShape hd.tied (Document.sameShape_setText d n _)
        refine ⟨hfollows, ?_⟩
        rw [hheld, Content.All] at hr
        dsimp only
        rw [Content.All]
        exact hfollows.kept n hr
    · exact hreplace
  · exact hreplace

theorem follows_updateAll {supplies : List Supply} {regions : List Region}
    (h : ∀ k, (supplyAt supplies k).2.Follows spans) (hd : d.Hosts spans)
    (hregions : ∀ r ∈ regions, r.content.All d.Insertable) :
    AllFollow d (updateAll spans supplies regions d) := by
  induction regions generalizing d with
  | nil => exact ⟨.refl hd.tied, List.forall_mem_nil _⟩
  | cons r rest ih =>
      obtain ⟨hr, hrest⟩ := List.forall_mem_cons.mp hregions
      have hfirst := follows_update (h r.placeholder) hd hr
      rw [updateAll]
      generalize r.update spans (supplyAt supplies r.placeholder) d = updated at hfirst
      obtain ⟨r', e, d₁⟩ := updated
      have hkept : ∀ r ∈ rest, r.content.All d₁.Insertable := fun r hr =>
        (hrest r hr).mono hfirst.document.kept
      cases e with
      | some e => exact ⟨hfirst.document, List.forall_mem_cons.mpr ⟨hfirst.content, hkept⟩⟩
      | none =>
          obtain ⟨hdocument, hcontent⟩ := ih (hd.follow hfirst.document) hkept
          refine ⟨hfirst.document.trans hdocument, List.forall_mem_cons.mpr ⟨?_, hcontent⟩⟩
          exact hfirst.content.mono hdocument.kept

end Region

/-! ## Instances -/

namespace Instance

theorem follows_supply {supplies : List Supply} {i : Instance}
    (h : ∀ k, (supplyAt supplies k).2.Follows spans) (hd : d.Hosts spans)
    (hi : i.All d.Insertable) : Follows d (i.supply spans supplies d) := by
  have hbound : d.Follows (applyBindings (fun k => (supplyAt supplies k).1)
      (i.source.template.attributes.zip i.elements) d) :=
    .of_sameShape hd.tied (sameShape_applyBindings _ _ d)
  obtain ⟨hnodes, hregions⟩ := all_iff.mp hi
  obtain ⟨hdocument, hcontent⟩ := Region.follows_updateAll h (hd.follow hbound)
    fun r hr => (hregions r hr).mono hbound.kept
  have hfollows := hbound.trans hdocument
  exact ⟨hfollows, all_iff.mpr ⟨fun n hn => hfollows.kept n (hnodes n hn), hcontent⟩⟩

theorem follows_create {source : CompiledTemplate} (hsource : source.HasNodes) (hd : d.Tied) :
    ∃ i d', create source d = (.ok i, d') ∧ Follows d (i, none, d') ∧
      d'.contains i.fragment = true := by
  obtain ⟨i, d', hcreate, hnew⟩ := create_newborn hsource hd
  have hfragment : d'.contains i.fragment = true := by
    obtain ⟨data, hdata, -⟩ := Option.map_eq_some_iff.mp hnew.kind
    exact Document.contains_of_node hdata
  refine ⟨i, d', hcreate, ⟨.of_extends hnew.tied hnew.grown, all_iff.mpr ⟨?_, fun r hr => ?_⟩⟩,
    hfragment⟩
  · rw [hnew.nodes]
    exact fun n hn => hnew.tied.insertable hn
  · rw [hnew.bare r hr, Content.All]
    trivial

theorem follows_createWith {source : CompiledTemplate} (hsource : source.HasNodes)
    {supplies : List Supply} (h : ∀ k, (supplyAt supplies k).2.Follows spans)
    (hd : d.Hosts spans) :
    d.Follows (createWith spans source supplies d).2 ∧
      ∀ i, (createWith spans source supplies d).1 = .ok i →
        i.All (createWith spans source supplies d).2.Insertable ∧
          (createWith spans source supplies d).2.contains i.fragment = true := by
  obtain ⟨i, d₁, hcreate, ⟨hdocument, hall⟩, hfragment⟩ := follows_create hsource hd.tied
  have hsupplied := follows_supply h (hd.follow hdocument) hall
  have hsame : (i.supply spans supplies d₁).1.fragment = i.fragment := rfl
  simp only [createWith, hcreate]
  generalize i.supply spans supplies d₁ = supplied at hsupplied hsame
  obtain ⟨i', e, d₂⟩ := supplied
  have hfollows := hdocument.trans hsupplied.document
  cases e with
  | some e => exact ⟨hfollows, fun j hj => by cases hj⟩
  | none =>
      refine ⟨hfollows, fun j hj => ?_⟩
      obtain rfl : i' = j := Except.ok.inj hj
      refine ⟨hsupplied.all, ?_⟩
      rw [hsame]
      exact hsupplied.document.contains hfragment

end Instance

/-! ## Values -/

theorem Rendering.follows_text (spans : InstanceId → List NodeId) (data : String) :
    (Rendering.text data).Follows spans where
  document d hd := hd.tied.follows_create (.text data)
  content d _ n content hmade := by
    obtain ⟨rfl, rfl⟩ := Prod.mk.inj (Except.ok.inj hmade)
    rw [Content.All]
    exact ⟨_, d.node_create_self (.text data), by simp [NodeData.new]⟩
  again d hd i hi := ⟨.refl hd.tied, hi⟩

theorem follows_renderItems {f : NodeId} {supplies : List Supply}
    (h : ∀ s ∈ supplies, s.2.Follows spans) (hd : d.Hosts spans)
    (hf : d.contains f = true) : d.Follows (renderItems f supplies d).2 := by
  induction supplies generalizing d with
  | nil => exact .refl hd.tied
  | cons item rest ih =>
      obtain ⟨hitem, hrest⟩ := List.forall_mem_cons.mp h
      have hfresh := hitem.document d hd
      rw [renderItems]
      generalize item.2.fresh d = made at hfresh
      obtain ⟨result, d₁⟩ := made
      cases result with
      | error e => exact hfresh
      | ok node =>
          dsimp only
          split
          · rename_i hnode
            have hmade := hfresh.trans
              (hfresh.tied.follows_insertBefore (hfresh.contains hf) hnode none)
            exact hmade.trans (ih hrest (hd.follow hmade) (hmade.contains hf))
          · exact hfresh

namespace Value

mutual

/-- Whether every template in a value was compiled from nodes. -/
def IsCompiled : Value → Prop
  | .list items => AreCompiled items
  | .template source values => source.HasNodes ∧ AreCompiled values
  | .undefined | .null | .bool _ | .number _ | .str _ | .node _ | .shared _ => True

/-- Whether every template in values was compiled from nodes. -/
def AreCompiled : List Value → Prop
  | [] => True
  | v :: vs => IsCompiled v ∧ AreCompiled vs

end

/-- A missing value is no template. -/
theorem AreCompiled.supplied : {values : List Value} → AreCompiled values →
    ∀ k, (supplied values k).IsCompiled
  | [], _, _ => trivial
  | _ :: _, h, 0 => h.1
  | _ :: _, h, k + 1 => AreCompiled.supplied h.2 k

theorem follows_supplyAt {supplies : List Supply} (h : ∀ s ∈ supplies, s.2.Follows spans)
    (k : Nat) : (supplyAt supplies k).2.Follows spans := by
  unfold supplyAt
  cases hk : supplies[k]? with
  | none => exact Rendering.follows_text spans ""
  | some s => exact h s (List.mem_of_getElem? hk)

theorem follows_node (n : NodeId) : ((Value.node n).rendering spans).Follows spans where
  document d hd := .refl hd.tied
  content d _ m content hmade := by
    obtain ⟨rfl, rfl⟩ := Prod.mk.inj (Except.ok.inj hmade)
    rw [Content.All]
    exact List.forall_mem_nil _
  again d hd i hi := ⟨.refl hd.tied, hi⟩

theorem follows_shared (t : InstanceId) : ((Value.shared t).rendering spans).Follows spans where
  document d hd := by
    -- Gathering moves nodes that are there already, wherever they are, so no kind changes.
    obtain ⟨-, hgathered⟩ := hd.tied.gathered (hd.insertable t)
    exact (hd.tied.follows_create .fragment).trans
      (.of_kinds hgathered.tied hgathered.size hgathered.kinds)
  content d _ m content hmade := by
    obtain ⟨rfl, rfl⟩ := Prod.mk.inj (Except.ok.inj hmade)
    rw [Content.All]
    trivial
  again d hd i hi := ⟨.refl hd.tied, hi⟩

theorem follows_list {items : List Value} (h : ∀ s ∈ supplies spans items, s.2.Follows spans) :
    ((Value.list items).rendering spans).Follows spans where
  document d hd := by
    have hcreate := hd.tied.follows_create .fragment
    have hitems := hcreate.trans (follows_renderItems h (hd.follow hcreate)
      (Document.contains_of_node (d.node_create_self .fragment)))
    simp only [rendering]
    rw [Document.create_fst]
    generalize renderItems d.size (supplies spans items) (d.create .fragment).2 = rendered
      at hitems
    obtain ⟨e, d'⟩ := rendered
    cases e <;> exact hitems
  content d hd n content hmade := by
    simp only [rendering] at hmade
    split at hmade
    · cases hmade
    · obtain ⟨rfl, rfl⟩ := Prod.mk.inj (Except.ok.inj hmade)
      rw [Content.All]
      exact List.forall_mem_nil _
  again d hd i hi := ⟨.refl hd.tied, hi⟩

theorem follows_template {source : CompiledTemplate} (hsource : source.HasNodes)
    {values : List Value} (h : ∀ s ∈ supplies spans values, s.2.Follows spans) :
    ((Value.template source values).rendering spans).Follows spans where
  document d hd := by
    obtain ⟨hdocument, -⟩ := Instance.follows_createWith hsource (follows_supplyAt h) hd
    simp only [rendering]
    generalize Instance.createWith spans source (supplies spans values) d = created at hdocument
    obtain ⟨result, d'⟩ := created
    cases result <;> exact hdocument
  content d hd n content hmade := by
    obtain ⟨-, hall⟩ := Instance.follows_createWith hsource (follows_supplyAt h) hd
    simp only [rendering] at hmade ⊢
    generalize Instance.createWith spans source (supplies spans values) d = created at hall hmade
    obtain ⟨result, d'⟩ := created
    cases result with
    | error e => cases hmade
    | ok i =>
        obtain ⟨rfl, rfl⟩ := Prod.mk.inj (Except.ok.inj hmade)
        rw [Content.All]
        exact (hall i rfl).1
  again d hd i hi := Instance.follows_supply (follows_supplyAt h) hd hi

mutual

theorem IsCompiled.follows (spans : InstanceId → List NodeId) : {v : Value} → v.IsCompiled →
    (v.rendering spans).Follows spans
  | .undefined, _ | .null, _ => Rendering.follows_text spans ""
  | .bool b, _ => Rendering.follows_text spans (Value.bool b).text
  | .number x, _ => Rendering.follows_text spans (Value.number x).text
  | .str s, _ => Rendering.follows_text spans s
  | .node n, _ => follows_node n
  | .shared t, _ => follows_shared t
  | .list _, h => follows_list (AreCompiled.follows spans h)
  | .template _ _, h => follows_template h.1 (AreCompiled.follows spans h.2)

theorem AreCompiled.follows (spans : InstanceId → List NodeId) : {values : List Value} →
    AreCompiled values → ∀ s ∈ supplies spans values, s.2.Follows spans
  | [], _ => nofun
  | _ :: _, h => List.forall_mem_cons.mpr
      ⟨IsCompiled.follows spans h.1, AreCompiled.follows spans h.2⟩

end

end Value

theorem Instance.follows_patch {values : List Value} {i : Instance}
    (hvalues : Value.AreCompiled values) (hd : d.Hosts spans) (hi : i.All d.Insertable) :
    Follows d (i.patch spans values d) :=
  follows_supply (Value.follows_supplyAt (hvalues.follows spans)) hd hi

end LiveMarkup
