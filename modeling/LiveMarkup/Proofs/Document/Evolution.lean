import LiveMarkup.Proofs.Document.Copies

/-!
# How documents evolve

Whatever is done to documents that began empty, as long as no node is put under
itself: the hierarchy stays a forest, nodes keep the kind and the tag that they
were created with, and every walk through the document ends.
-/

namespace LiveMarkup

/-- The same kind of node, and the same tag if it is an element. -/
def NodeKind.SameSort (kind kind' : NodeKind) : Prop :=
  kind'.name = kind.name ∧ kind'.tag? = kind.tag?

namespace Document

variable {d d' d'' : Document} {n p c : NodeId}

/-! ## Kinds and tags -/

/-- Every node of a document is still there in another one, with its kind and
its tag. -/
def KeepsSorts (d d' : Document) : Prop :=
  ∀ n kind, d.kind? n = some kind → ∃ kind', d'.kind? n = some kind' ∧ kind.SameSort kind'

theorem KeepsSorts.trans (h : KeepsSorts d d') (h' : KeepsSorts d' d'') : KeepsSorts d d'' := by
  intro n kind hn
  obtain ⟨kind', hn', hname, htag⟩ := h n kind hn
  obtain ⟨kind'', hn'', hname', htag'⟩ := h' n kind' hn'
  exact ⟨kind'', hn'', hname'.trans hname, htag'.trans htag⟩

theorem keepsSorts_of_kind? (h : d'.kind? = d.kind?) : KeepsSorts d d' := by
  intro n kind hn
  rw [h]
  exact ⟨kind, hn, rfl, rfl⟩

theorem Extends.keepsSorts (h : Extends d d') : KeepsSorts d d' := by
  intro n kind hn
  obtain ⟨data, hdata, rfl⟩ := Option.map_eq_some_iff.mp hn
  exact ⟨data.kind, kind?_of_node (h.node hdata), rfl, rfl⟩

theorem kind?_removeChild (d : Document) (p n : NodeId) :
    (d.removeChild p n).kind? = d.kind? := by
  unfold removeChild
  split
  · exact kind?_detach d n
  · rfl

theorem kind?_removeChildren (d : Document) (p : NodeId) (doomed : List NodeId) :
    (d.removeChildren p doomed).kind? = d.kind? := by
  unfold removeChildren
  induction doomed generalizing d with
  | nil => rfl
  | cons n doomed ih => exact (ih (d.removeChild p n)).trans (kind?_removeChild d p n)

theorem keepsSorts_setText (d : Document) (n : NodeId) (s : String) :
    KeepsSorts d (d.setText n s) := by
  unfold setText
  split
  · exact keepsSorts_of_kind? rfl
  · rename_i changed hchanged
    obtain ⟨old, hold, hdata⟩ := Option.bind_eq_some_iff.mp hchanged
    have hsort : old.SameSort changed := by
      cases old <;> cases hdata <;> exact ⟨rfl, rfl⟩
    intro k kind hk
    by_cases hkn : k = n
    · subst hkn
      have hsame : kind = old := Option.some.inj (hk.symm.trans hold)
      obtain ⟨data, hdata, -⟩ := Option.map_eq_some_iff.mp hk
      rw [hsame]
      exact ⟨changed, kind?_of_node (node_modify_self d _ hdata), hsort⟩
    · refine ⟨kind, ?_, rfl, rfl⟩
      rw [← hk]
      exact congrArg (Option.map _) (node_modify_other d _ hkn)

/-! ## Changes of attributes, properties and data -/

theorem Linked.setAttribute (h : d.Linked) (n : NodeId) (name value : String) :
    (d.setAttribute n name value).Linked :=
  (attributesOnly_setAttribute d n name value).linked h

theorem attributesOnly_removeAttribute (d : Document) (n : NodeId) (name : String) :
    AttributesOnly n d (d.removeAttribute n name) := by
  unfold removeAttribute
  split
  · obtain ⟨hsize, hparents, hchildren, hkinds, hothers⟩ :=
      attributesOnly_modify d n (Attributes.remove name)
    exact ⟨hsize, hparents, hchildren, hkinds, hothers⟩
  · exact .refl n d

theorem Linked.setProperty (h : d.Linked) (n : NodeId) (name : String)
    (value : PropertyValue) : (d.setProperty n name value).Linked := by
  unfold Document.setProperty
  apply Linked.count
  exact h.modify n (fun _ => rfl) (fun _ => rfl) fun _ hkind => hkind

theorem Linked.setText (h : d.Linked) (n : NodeId) (s : String) : (d.setText n s).Linked := by
  unfold Document.setText
  split
  · exact h
  · rename_i changed hchanged
    have hsolid : changed ≠ .fragment := by
      rintro rfl
      obtain ⟨old, -, hdata⟩ := Option.bind_eq_some_iff.mp hchanged
      cases old <;> cases hdata
    apply Linked.count
    exact h.modify n (fun _ => rfl) (fun _ => rfl) fun _ _ => hsolid

/-! ## Evolution -/

/-- What documents can become. No node is inserted under itself, and what is
imported comes from a document that evolved the same way. -/
inductive Evolves : Document → Document → Prop
  | refl {d : Document} : Evolves d d
  | create {d d' : Document} (h : Evolves d d') (kind : NodeKind) :
      Evolves d (d'.create kind).2
  | insertBefore {d d' : Document} {p n : NodeId} (h : Evolves d d') (hp : d'.contains p = true)
      (hn : d'.contains n = true) (r : Option NodeId)
      (hunder : ∀ m ∈ d'.movedBy n, ¬ d'.Within p m) : Evolves d (d'.insertBefore p n r)
  | removeChild {d d' : Document} (h : Evolves d d') (p n : NodeId) :
      Evolves d (d'.removeChild p n)
  | clearChildren {d d' : Document} (h : Evolves d d') (p : NodeId) :
      Evolves d (d'.clearChildren p)
  | setAttribute {d d' : Document} (h : Evolves d d') (n : NodeId) (name value : String) :
      Evolves d (d'.setAttribute n name value)
  | removeAttribute {d d' : Document} (h : Evolves d d') (n : NodeId) (name : String) :
      Evolves d (d'.removeAttribute n name)
  | setProperty {d d' : Document} (h : Evolves d d') (n : NodeId) (name : String)
      (value : PropertyValue) : Evolves d (d'.setProperty n name value)
  | setText {d d' : Document} (h : Evolves d d') (n : NodeId) (s : String) :
      Evolves d (d'.setText n s)
  | clone {d d' : Document} (h : Evolves d d') (n : NodeId) (deep : Bool) :
      Evolves d (d'.clone n deep).2
  | importFrom {d d' source : Document} (h : Evolves d d') (hsource : Evolves .empty source)
      (n : NodeId) : Evolves d (d'.importFrom source n).2

/-- A hierarchy without repeated names, in which nodes are what they were in an
earlier document. -/
structure Evolved (d d' : Document) : Prop where
  linked : d'.Linked
  orderly : d'.Orderly
  sorts : KeepsSorts d d'

theorem Evolves.evolved (h : Evolves d d') (hlinked : d.Linked) (horder : d.Orderly) :
    Evolved d d' := by
  induction h with
  | refl => exact ⟨hlinked, horder, keepsSorts_of_kind? rfl⟩
  | @create _ d' _ kind ih =>
      obtain ⟨hl, ho, hs⟩ := ih hlinked horder
      exact ⟨hl.create kind, ho.create kind, hs.trans (extends_create d' kind).keepsSorts⟩
  | insertBefore _ hp hn r hunder ih =>
      obtain ⟨hl, ho, hs⟩ := ih hlinked horder
      exact ⟨hl.insertBefore hp hn r hunder, ho.insertBefore _ r hn,
        hs.trans (keepsSorts_of_kind? (kind?_insertBefore _ _ _ r))⟩
  | removeChild _ p n ih =>
      obtain ⟨hl, ho, hs⟩ := ih hlinked horder
      exact ⟨hl.removeChild p n, ho.removeChild p n,
        hs.trans (keepsSorts_of_kind? (kind?_removeChild _ p n))⟩
  | clearChildren _ p ih =>
      obtain ⟨hl, ho, hs⟩ := ih hlinked horder
      exact ⟨hl.removeChildren p _, ho.removeChildren p _,
        hs.trans (keepsSorts_of_kind? (kind?_removeChildren _ p _))⟩
  | setAttribute _ n name value ih =>
      obtain ⟨hl, ho, hs⟩ := ih hlinked horder
      exact ⟨hl.setAttribute n name value, ho.setAttribute n name value,
        hs.trans (keepsSorts_of_kind? (attributesOnly_setAttribute _ n name value).kinds)⟩
  | @removeAttribute _ d' _ n name ih =>
      obtain ⟨hl, ho, hs⟩ := ih hlinked horder
      have honly := attributesOnly_removeAttribute d' n name
      exact ⟨honly.linked hl, ho.removeAttribute n name,
        hs.trans (keepsSorts_of_kind? honly.kinds)⟩
  | setProperty _ n name value ih =>
      obtain ⟨hl, ho, hs⟩ := ih hlinked horder
      exact ⟨hl.setProperty n name value, ho.setProperty n name value,
        hs.trans (keepsSorts_of_kind? (kind?_modify _ n fun _ => rfl))⟩
  | setText _ n s ih =>
      obtain ⟨hl, ho, hs⟩ := ih hlinked horder
      exact ⟨hl.setText n s, ho.setText n s, hs.trans (keepsSorts_setText _ n s)⟩
  | clone _ n deep ih =>
      obtain ⟨hl, ho, hs⟩ := ih hlinked horder
      obtain ⟨hcloned, hgrown⟩ := hl.clone ho n deep
      exact ⟨hcloned, ho.clone n deep, hs.trans hgrown.keepsSorts⟩
  | importFrom _ _ n ih ihsource =>
      obtain ⟨hl, ho, hs⟩ := ih hlinked horder
      obtain ⟨hl', ho', -⟩ := ihsource linked_empty Reachable.empty.orderly
      obtain ⟨himported, hgrown⟩ := hl.importFrom hl' ho' n
      exact ⟨himported, ho.importFrom ho' n, hs.trans hgrown.keepsSorts⟩

/-! ## Forests -/

/-- Parents and children agree, no node is twice among the children of all
nodes together, fragments stand nowhere, no node is above itself, and no
attribute name is twice at a node. -/
structure Forest (d : Document) : Prop where
  agree : ∀ p c, d.parent? c = some p ↔ c ∈ d.children p
  single : ((List.range d.size).flatMap d.children).Nodup
  loose : ∀ n, d.kind? n = some .fragment → d.parent? n = none
  acyclic : ∀ n, ¬ Relation.TransGen d.Under n n
  names : ∀ n, (d.attributes n).keys.Nodup

theorem Linked.forest (h : d.Linked) (horder : d.Orderly) : d.Forest where
  agree := h.agree
  single := by
    refine List.nodup_flatMap.mpr ⟨fun p _ => h.nodup p, ?_⟩
    refine List.nodup_range.imp fun {p q} hpq => ?_
    intro c hp hq
    exact hpq (h.parent_unique hp hq)
  loose := h.loose
  acyclic := h.acyclic
  names := horder.attributes

/-- However documents that began empty are changed, they stay forests, nodes
keep their kinds and tags, and taking out all children, writing markup,
collecting text and copying within the document or into another one all end. -/
theorem Evolves.stays_forest (hstart : Evolves .empty d) (h : Evolves d d') :
    d'.Forest ∧ KeepsSorts d d' ∧
      ∀ n, d'.contains n = true →
        Clears n d' (d'.clearChildren n) ∧
        d'.Writes n (d'.html n) ∧
        d'.Collects n (d'.textContent n) ∧
        Copies withAttributes id n d' (d'.clone n true).1 (d'.clone n true).2 ∧
        ∀ e, Evolves .empty e →
          Copies writingAttributes (fun _ => d') n e (e.importFrom d' n).1
            (e.importFrom d' n).2 := by
  obtain ⟨hlinked, horder, -⟩ := hstart.evolved linked_empty Reachable.empty.orderly
  obtain ⟨hlinked', horder', hsorts⟩ := h.evolved hlinked horder
  refine ⟨hlinked'.forest horder', hsorts, fun n hn => ⟨?_, ?_, ?_, ?_, ?_⟩⟩
  · exact hlinked'.clears n
  · exact hlinked'.writes hn
  · exact hlinked'.collects hn
  · exact hlinked'.copies_clone horder' hn
  · intro e he
    obtain ⟨hinto, -, -⟩ := he.evolved linked_empty Reachable.empty.orderly
    exact hinto.copies_import hlinked' horder' hn

/-- An element and a text, before the text is put into the element. -/
def paragraph : Document :=
  ((empty.create (.element "p")).2.create (.text "hi")).2

theorem Evolves.stays_forest_paragraph :
    Evolves .empty paragraph ∧ Evolves paragraph (paragraph.append 0 1) ∧
      (paragraph.append 0 1).Forest ∧ (paragraph.append 0 1).Writes 0 "<p>hi</p>" := by
  have hstart : Evolves .empty paragraph := (Evolves.refl.create (.element "p")).create (.text "hi")
  have hinsert : Evolves paragraph (paragraph.append 0 1) := by
    refine Evolves.refl.insertBefore rfl rfl none fun m hm hwithin => ?_
    have hmoved : paragraph.movedBy 1 = [1] := rfl
    rw [hmoved, List.mem_singleton] at hm
    subst hm
    rcases Relation.ReflTransGen.cases_head hwithin with heq | ⟨p, hunder, -⟩
    · cases heq
    · cases hunder
  obtain ⟨hforest, -, hwalks⟩ := Evolves.stays_forest hstart hinsert
  have hwrites := (hwalks 0 rfl).2.1
  have hhtml : (paragraph.append 0 1).html 0 = "<p>hi</p>" := by decide
  rw [hhtml] at hwrites
  exact ⟨hstart, hinsert, hforest, hwrites⟩

end Document

end LiveMarkup
