import LiveMarkup.Proofs.Instance.Newborn

/-!
# Rendering values that hold shared instances

Every value whose lists hold plain values only is rendered ready to be inserted:
texts and instances in new nodes, a shared instance gathered from wherever it
sat. A document goes on standing as its instances say, also if rendering fails.
-/

namespace LiveMarkup

open Document (Extends SameShape)

variable {pool : SharedInstances} {kept others links : List Link} {d d' : Document}
  {seat : Seating} {x y z m n f : NodeId} {t : InstanceId}

theorem Ready.of_fragment (hd : d.Tied) (hs : Standing pool.tops d' seat links)
    (hspares : Spares others d d') (hf : d.size ≤ f) (hkind : d'.kind? f = some .fragment) :
    Ready d' seat links others f (d'.children f) where
  moved := if_pos hkind
  strange z hz hmeets := hspares.notMem_children hd hs.tied hf hmeets hz
  apart z hz q hq y hy := by
    rw [hs.tied.parent_unique hq hz]
    exact hspares.notMem_children hd hs.tied hf hy
  whole hjoint := hs.joined hjoint f

theorem Standing.lt_size_of_meets {tops : InstanceId → List NodeId}
    (hs : Standing tops d seat links) (hz : Link.Meets links z) : z < d.size := by
  rcases hz with hz | hz
  · obtain ⟨k, hk, rfl⟩ := List.mem_map.mp hz
    exact of_decide_eq_true (hs.exist k hk).1.contains
  · obtain ⟨k, hk, rfl⟩ := List.mem_map.mp hz
    exact of_decide_eq_true (hs.exist k hk).2.contains

theorem Link.meets_append {links' : List Link} :
    Link.Meets (links ++ links') z ↔ Link.Meets links z ∨ Link.Meets links' z := by
  simp only [Link.Meets, List.map_append, List.mem_append]
  exact or_or_or_comm

/-! ## Texts -/

theorem Rendering.text_places (data : String) : (Rendering.text data).Places pool kept := by
  intro others d seat hs
  have hgrown := Document.extends_create d (.text data)
  have htied := hs.tied.create (.text data)
  have hold : ∀ {z}, Link.Meets (others ++ kept) z → z < d.size := hs.lt_size_of_meets
  have hnode := d.node_create_self (.text data)
  have hinsertable : (d.create (.text data)).2.Insertable d.size := ⟨_, hnode, nofun⟩
  have hstanding : Standing pool.tops (d.create (.text data)).2 seat
      (Link.ends none [d.size] ++ (others ++ kept)) := by
    refine (hs.extend hgrown htied).add (fun k hk => .inr (Link.eq_of_mem_ends hk))
      (List.nodup_singleton _) (List.nodup_singleton _) ?_ ?_ ?_
    · intro k hk
      obtain rfl := List.mem_singleton.mp hk
      exact ⟨fun hmem => Nat.lt_irrefl _ (hold (.inl hmem)),
        fun hmem => Nat.lt_irrefl _ (hold (.inr hmem))⟩
    · intro k hk
      obtain rfl := List.mem_singleton.mp hk
      exact ⟨hinsertable, hinsertable⟩
    · intro x y hk
      exact absurd hk Link.next_notMem_ends
  refine ⟨seat, [d.size], Link.ends none [d.size], hstanding, ?_, .text rfl,
    .of_extends hgrown fun z hz => hold (Link.meets_append.mpr (.inl hz))⟩
  have hstrange : ∀ z, Link.Meets (others ++ kept) z → z ≠ d.size := by
    rintro z hz rfl
    exact Nat.lt_irrefl _ (hold hz)
  refine ⟨hinsertable.movedBy, ?_, ?_, ?_⟩
  · intro z hz hmeets
    exact hstrange z (Link.meets_append.mpr (.inl hmeets)) (List.mem_singleton.mp hz)
  · -- a new text stands nowhere
    intro z hz q hq
    obtain rfl := List.mem_singleton.mp hz
    refine absurd hq (htied.notMem_children ?_ q)
    exact Document.parent?_of_node hnode
  · intro x y hjoint
    rcases hjoint.of_append fun k hk => .inr (Link.eq_of_mem_ends hk) with hk | hjoint
    · exact absurd hk Link.next_notMem_ends
    · refine Joined.of_notMem ?_ ?_
      · simpa using hstrange x (.inl hjoint.source)
      · simpa using hstrange y (.inr hjoint.target)

theorem Supply.turns_text {v : Value} (spans : InstanceId → List NodeId)
    (hlike : v.isTextLike = true) : Supply.Turns pool kept (v, v.rendering spans) where
  places := by
    have hrendering : v.rendering spans = .text v.text := by
      cases v with
      | undefined | null | bool | number | str => rfl
      | _ => cases hlike
    simp only [hrendering]
    exact Rendering.text_places v.text
  again := by
    rintro source values rfl
    simp [Value.isTextLike] at hlike

/-! ## Shared instances -/

theorem Supply.turns_shared (hpool : pool.Sound) (hstays : pool.Stays kept t) :
    Supply.Turns pool kept (.shared t, (Value.shared t).rendering pool.span) where
  places := by
    intro others d seat hs
    have hgatherable := hs.gatherable hpool fun link hlink =>
      List.mem_append_right others (hstays link hlink)
    obtain ⟨seat', hs', hnowhere⟩ := hs.gather hgatherable
    obtain ⟨-, happended⟩ := hs.tied.gathered hgatherable.exist
    have hkind : (d.gather (pool.span t)).2.kind? d.size = some .fragment := by
      rw [happended.kinds]
      exact Document.kind?_of_node (d.node_create_self .fragment)
    have hchildren : (d.gather (pool.span t)).2.children d.size = (pool.span t).dedup := by
      rw [happended.children, if_pos rfl, Document.children_of_node (d.node_create_self .fragment)]
      simp [NodeData.new]
    have hspares : Spares others d (d.gather (pool.span t)).2 := by
      refine Spares.appended ?_ (hs.tied.create .fragment) happended (Nat.le_refl _) fun z hz => ?_
      · refine .of_extends (Document.extends_create d .fragment) fun z hz => ?_
        exact hs.lt_size_of_meets (Link.meets_append.mpr (.inl hz))
      · obtain ⟨link, hlink, rfl⟩ := hpool.mem_span_source hz
        obtain ⟨link', hlink', htarget⟩ := hpool.mem_span_target hz
        have hwhole : Standing pool.tops d seat ([] ++ (others ++ kept)) := hs
        refine hwhole.strange ?_ ?_
        · exact List.mem_map_of_mem (hstays link hlink)
        · exact htarget ▸ List.mem_map_of_mem (hstays link' hlink')
    have hhead : ((d.gather (pool.span t)).2.children d.size).head? = (pool.tops t).head? := by
      rw [hchildren, ← hpool.head?_span]
      cases hhead : (pool.span t).head? with
      | none =>
          rw [List.head?_eq_none_iff.mp hhead]
          rfl
      | some h => exact head?_dedup hhead (hgatherable.once h hhead)
    have hlast : ((d.gather (pool.span t)).2.children d.size).getLast? =
        (pool.tops t).getLast? := by
      rw [hchildren, ← hpool.getLast?_span]
      cases hlast : (pool.span t).getLast? with
      | none =>
          rw [List.getLast?_eq_none_iff.mp hlast]
          rfl
      | some e => exact getLast?_dedup hlast
    exact ⟨seat', _, [], hs', Ready.of_fragment hs.tied hs' hspares (Nat.le_refl _) hkind,
      .shared hnowhere hhead hlast hstays, hspares⟩
  again := by
    rintro source values ⟨⟩

/-! ## Lists -/

theorem Standing.append_strange {tops : InstanceId → List NodeId}
    (hs : Standing tops d seat links) (hf : d.contains f = true) (hn : d.contains n = true)
    (hstrange : ∀ z ∈ d.movedBy n, ¬ Link.Meets links z) :
    Standing tops (d.append f n) seat links where
  tied := hs.tied.insertBefore hf hn none
  sources := hs.sources
  targets := hs.targets
  exist k hk := ⟨Standing.insertable_insertBefore (hs.exist k hk).1,
    Standing.insertable_insertBefore (hs.exist k hk).2⟩
  runs := hs.runs
  seated := hs.seated
  joined := by
    intro x y hjoint q
    have hx : x ∉ d.movedBy n := fun hx => hstrange x hx (.inl hjoint.source)
    have hy : y ∉ d.movedBy n := fun hy => hstrange y hy (.inr hjoint.target)
    have hfilter := (hs.joined hjoint q).filter (iff_of_false hx hy)
    rw [Document.append, hs.tied.children_insertBefore hf]
    split
    · rename_i hq
      subst hq
      exact hfilter.append (.of_notMem hx hy)
    · exact hfilter

theorem Spares.append (h : Spares others d d') (htied : d'.Tied) (hf : d.size ≤ f)
    (hf' : d'.contains f = true) (hn : d'.contains n = true)
    (hstrange : ∀ z ∈ d'.movedBy n, ¬ Link.Meets others z) : Spares others d (d'.append f n) := by
  refine h.of_moved htied (htied.insertBefore hf' hn none) (Document.size_insertBefore d' f n none)
    (Document.kind?_insertBefore d' f n none) hstrange ?_ ?_
  · intro q hq
    rw [Document.append, htied.children_insertBefore hf',
      if_neg (Nat.ne_of_lt (Nat.lt_of_lt_of_le hq hf))]
  · intro q z hz
    rw [Document.append, htied.children_insertBefore hf']
    split
    · rename_i hq
      subst hq
      simp [hz]
    · simp [hz]

theorem renderItems_spares {supplies : List Supply}
    (hplaces : ∀ s ∈ supplies, s.2.Places pool []) {d₀ : Document} (hf : d₀.size ≤ f)
    (hs : Standing pool.tops d seat others) (hspares : Spares others d₀ d)
    (hcontains : d.contains f = true) :
    (∃ seat', Standing pool.tops (renderItems f supplies d).2 seat' others) ∧
      Spares others d₀ (renderItems f supplies d).2 ∧
      ∀ k, d.kind? k = some .fragment → (renderItems f supplies d).2.kind? k = some .fragment := by
  induction supplies generalizing d seat with
  | nil => exact ⟨⟨seat, hs⟩, hspares, fun _ => id⟩
  | cons item rest ih =>
      obtain ⟨hitem, hrest⟩ := List.forall_mem_cons.mp hplaces
      have hmade := hitem others (by rwa [List.append_nil])
      rw [renderItems]
      generalize item.2.fresh d = made at hmade
      obtain ⟨e | ⟨n, content⟩, d₁⟩ := made
      · obtain ⟨seat', hs₁, hspares₁⟩ := hmade
        rw [List.append_nil] at hs₁
        exact ⟨⟨seat', hs₁⟩, hspares.trans hspares₁, hspares₁.fragment⟩
      · obtain ⟨seat', w, new, hs₁, hready, hoffer, hspares₁⟩ := hmade
        rw [List.append_nil] at hs₁
        have hs₁ := hs₁.drop hoffer.no_run
        have hcontains₁ : d₁.contains f = true :=
          decide_eq_true (Nat.lt_of_lt_of_le (of_decide_eq_true hcontains) hspares₁.size)
        have hkind := hspares₁.fragment
        have hspares₁ := hspares.trans hspares₁
        simp only
        split
        · rename_i hn
          have hstrange : ∀ z ∈ d₁.movedBy n, ¬ Link.Meets others z := by
            rw [hready.moved]
            exact hready.strange
          have hcontains₂ : (d₁.append f n).contains f = true := by
            rw [Document.contains, Document.append, Document.size_insertBefore]
            exact hcontains₁
          obtain ⟨hs₂, hspares₂, hkind₂⟩ := ih hrest (hs₁.append_strange hcontains₁ hn hstrange)
            (hspares₁.append hs₁.tied hf hcontains₁ hn hstrange) hcontains₂
          refine ⟨hs₂, hspares₂, fun k hk => hkind₂ k ?_⟩
          rw [Document.append, Document.kind?_insertBefore]
          exact hkind k hk
        · exact ⟨⟨seat', hs₁⟩, hspares₁, hkind⟩

theorem Standing.adopt {tops : InstanceId → List NodeId} (hs : Standing tops d seat links)
    (hstrange : ∀ z ∈ d.children f, ¬ Link.Meets links z) :
    Standing tops d seat
      ((Link.ends none (d.children f) ++ Link.frame [] (d.children f)) ++ links) := by
  obtain ⟨hsources, htargets⟩ := Link.nodup_ends_frame (hs.tied.nodup f) none []
  refine hs.add ?_ hsources htargets ?_ ?_ ?_
  · intro k hk
    rcases List.mem_append.mp hk with hk | hk
    · exact .inr (Link.eq_of_mem_ends hk)
    · exact .inl (Link.next_of_mem_frame hk)
  · intro k hk
    obtain ⟨hsource, htarget⟩ := Link.mem_of_mem_ends_frame hk
    exact ⟨fun hmem => hstrange _ hsource (.inl hmem), fun hmem => hstrange _ htarget (.inr hmem)⟩
  · intro k hk
    obtain ⟨hsource, htarget⟩ := Link.mem_of_mem_ends_frame hk
    exact ⟨hs.tied.insertable hsource, hs.tied.insertable htarget⟩
  · intro x y hk
    rcases List.mem_append.mp hk with hk | hk
    · exact absurd hk Link.next_notMem_ends
    · exact ⟨f, (Link.mem_frame.mp hk).1⟩

theorem Supply.turns_list {items : List Value} (spans : InstanceId → List NodeId)
    (hitems : ∀ s ∈ Value.supplies spans items, s.2.Places pool []) :
    Supply.Turns pool kept (.list items, (Value.list items).rendering spans) where
  places := by
    intro others d seat hs
    have hgrown := Document.extends_create d .fragment
    have hcreated := hs.extend hgrown (hs.tied.create .fragment)
    have hspares : Spares (others ++ kept) d (d.create .fragment).2 :=
      .of_extends hgrown fun z hz => hs.lt_size_of_meets hz
    have hcontains : (d.create .fragment).2.contains d.size = true :=
      Document.contains_of_node (d.node_create_self .fragment)
    obtain ⟨⟨seat', hs'⟩, hspares', hkind⟩ :=
      renderItems_spares hitems (Nat.le_refl _) hcreated hspares hcontains
    have hkind := hkind d.size (Document.kind?_of_node (d.node_create_self .fragment))
    simp only [Value.rendering, Document.create_fst]
    generalize renderItems d.size (Value.supplies spans items) (d.create .fragment).2 = rendered
      at hs' hspares' hkind
    obtain ⟨e, d'⟩ := rendered
    have hothers := hspares'.mono (List.subset_append_left others kept)
    cases e with
    | some e => exact ⟨seat', hs', hothers⟩
    | none =>
        have hadopted := hs'.adopt (f := d.size) fun z hz hmeets =>
          hspares'.notMem_children hs.tied hs'.tied (Nat.le_refl _) hmeets hz
        exact ⟨seat', _, _, hadopted,
          Ready.of_fragment hs.tied hadopted hothers (Nat.le_refl _) hkind, .nodes, hothers⟩
  again := by
    rintro source values ⟨⟩

/-! ## Templates -/

theorem turns_supplyAt {supplies : List Supply} (h : ∀ s ∈ supplies, s.Turns pool kept) (k : Nat) :
    (supplyAt supplies k).Turns pool kept := by
  unfold supplyAt
  cases hk : supplies[k]? with
  | none => exact Supply.turns_text (v := .undefined) (fun _ => []) rfl
  | some s => exact h s (List.mem_of_getElem? hk)

theorem Supply.turns_template (hpool : pool.Sound) (spans : InstanceId → List NodeId)
    {source : CompiledTemplate} {values : List Value} (hsource : source.HasNodes)
    (hvalues : ∀ s ∈ Value.supplies spans values, s.Turns pool kept) :
    Supply.Turns pool kept
      (.template source values, (Value.template source values).rendering spans) where
  places := by
    intro others d seat hs
    obtain ⟨i, d₁, hcreate, hnew⟩ := Instance.create_newborn hsource hs.tied
    have hs₁ := hnew.standing hs
    have hspares₁ : Spares others d d₁ := .of_extends hnew.grown fun z hz =>
      hs.lt_size_of_meets (Link.meets_append.mpr (.inl hz))
    have hperm (i' : Instance) := Link.perm_aside (Link.ends none i.nodes) i'.links others kept
    have hturned := Instance.supply_turned hpool spans (turns_supplyAt hvalues) hnew.tidy
      (hs₁.perm (hperm i))
    simp only [Value.rendering, Instance.createWith, hcreate]
    generalize i.supply spans (Value.supplies spans values) d₁ = supplied at hturned
    obtain ⟨i', e, d₂⟩ := supplied
    obtain ⟨hfragment, hnodes, -, htidy, ⟨seat', hs₂⟩, hspares₂⟩ := hturned
    have hspares : Spares others d d₂ :=
      hspares₁.trans (hspares₂.mono (List.subset_append_right _ _))
    have hs₂ := hs₂.perm (hperm i').symm
    have hkind := hspares₂.fragment _ hnew.kind
    have hready := Ready.of_fragment hs.tied hs₂ hspares hnew.unborn hkind
    have hexists : i.fragment < d₁.size := by
      obtain ⟨data, hdata, -⟩ := Option.map_eq_some_iff.mp hnew.kind
      exact Document.lt_size_of_node hdata
    have hsame := hspares₂.ends_kept (List.subset_append_left _ _) hexists hnew.nodes.symm
    cases e with
    | some e =>
        rw [← hnodes] at hs₂
        have hoffer : Offer pool kept seat' i'.nodes (.own i')
            (Link.ends none i'.nodes ++ i'.links) := .own rfl rfl htidy
        exact ⟨seat', hs₂.drop hoffer.no_run, hspares⟩
    | none =>
        have hfragment : i'.fragment = i.fragment := hfragment
        rw [← hnodes, ← hfragment] at hready hsame
        rw [← hnodes] at hs₂
        exact ⟨seat', _, _, hs₂, hready, .own hsame.1 hsame.2 htidy, hspares⟩
  again := by
    rintro source' values' heq i d seat others hi hs
    obtain ⟨rfl, rfl⟩ := Value.template.inj heq
    exact Instance.supply_turned hpool spans (turns_supplyAt hvalues) hi hs

/-! ## Values -/

namespace Value

mutual

/-- Whether a value is made of data, lists of plain values, templates that were
compiled from nodes, and shared instances of some kind. It mentions no node. -/
def IsTracked (allowed : InstanceId → Prop) : Value → Prop
  | .list items => ArePlain CompiledTemplate.HasNodes items
  | .template source values => source.HasNodes ∧ AreTracked allowed values
  | .shared id => allowed id
  | .undefined | .null | .bool _ | .number _ | .str _ => True
  | .node _ => False

def AreTracked (allowed : InstanceId → Prop) : List Value → Prop
  | [] => True
  | v :: vs => IsTracked allowed v ∧ AreTracked allowed vs

end

mutual

theorem IsPlain.tracked (allowed : InstanceId → Prop) :
    ∀ {v : Value}, v.IsPlain CompiledTemplate.HasNodes → v.IsTracked allowed
  | .undefined, _ | .null, _ | .bool _, _ | .number _, _ | .str _, _ => trivial
  | .list _, h => h
  | .template _ _, h => ⟨h.1, ArePlain.tracked allowed h.2⟩
  | .node _, h | .shared _, h => h.elim

theorem ArePlain.tracked (allowed : InstanceId → Prop) :
    ∀ {vs : List Value}, ArePlain CompiledTemplate.HasNodes vs → AreTracked allowed vs
  | [], _ => trivial
  | _ :: _, h => ⟨IsPlain.tracked allowed h.1, ArePlain.tracked allowed h.2⟩

end

mutual

theorem IsTracked.mono {allowed allowed' : InstanceId → Prop}
    (hmono : ∀ t, allowed t → allowed' t) :
    ∀ {v : Value}, v.IsTracked allowed → v.IsTracked allowed'
  | .undefined, _ | .null, _ | .bool _, _ | .number _, _ | .str _, _ => trivial
  | .list _, h => h
  | .template _ _, h => ⟨h.1, AreTracked.mono hmono h.2⟩
  | .shared t, h => hmono t h
  | .node _, h => h.elim

theorem AreTracked.mono {allowed allowed' : InstanceId → Prop}
    (hmono : ∀ t, allowed t → allowed' t) :
    ∀ {vs : List Value}, AreTracked allowed vs → AreTracked allowed' vs
  | [], _ => trivial
  | _ :: _, h => ⟨IsTracked.mono hmono h.1, AreTracked.mono hmono h.2⟩

end

mutual

theorem turns (hpool : pool.Sound) : ∀ (v : Value) (kept : List Link),
    v.IsTracked (pool.Stays kept) → Supply.Turns pool kept (v, v.rendering pool.span)
  | .undefined, _, _ | .null, _, _ | .bool _, _, _ | .number _, _, _ | .str _, _, _ =>
      Supply.turns_text _ rfl
  | .list items, _, h => Supply.turns_list pool.span fun s hs =>
      (turns_all hpool items [] (ArePlain.tracked _ h) s hs).places
  | .template _ values, kept, h =>
      Supply.turns_template hpool pool.span h.1 (turns_all hpool values kept h.2)
  | .shared _, _, h => Supply.turns_shared hpool h
  | .node _, _, h => h.elim

theorem turns_all (hpool : pool.Sound) : ∀ (vs : List Value) (kept : List Link),
    AreTracked (pool.Stays kept) vs → ∀ s ∈ supplies pool.span vs, s.Turns pool kept
  | [], _, _, _, hs => nomatch hs
  | v :: vs, kept, h, s, hs => by
      rcases List.mem_cons.mp hs with rfl | hs
      · exact turns hpool v kept h.1
      · exact turns_all hpool vs kept h.2 s hs

end

end Value

end LiveMarkup
