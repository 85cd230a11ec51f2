import LiveMarkup.Proofs.Document.Neighbours
import LiveMarkup.Instance.Stage
import Mathlib.Logic.Function.Basic

/-!
# What instances say of neighbours

What an instance remembers says of nodes who stands right behind whom: its
top-level nodes one behind the other, and what a region holds between its
markers. Of a shared instance it says so only for the place where that instance
sits. Every node is the source of one such link and the target of one, so that
a change of one region touches no other link. A document stands as its
instances say if linked nodes are side by side wherever one of them stands.
-/

namespace LiveMarkup

open Document (Tied Insertable)

/-! ## Links -/

/-- What is said of neighbours. -/
inductive Link where
  /-- A node stands right behind another one. -/
  | next (x y : NodeId)
  /-- Nothing stands between two markers, or a shared instance. -/
  | gap (first : NodeId) (id : InstanceId) (last : NodeId)
  /-- The first and the last node of a shared instance, or of something that
  was just made. -/
  | run (id : Option InstanceId) (head last : NodeId)

/-- The node that is followed. -/
def Link.source : Link → NodeId
  | next x _ => x
  | gap first _ _ => first
  | run _ _ last => last

/-- The node that follows. -/
def Link.target : Link → NodeId
  | next _ y => y
  | gap _ _ last => last
  | run _ head _ => head

/-- The shared instance that a place is for. -/
def Link.place? : Link → Option InstanceId
  | gap _ id _ => some id
  | next _ _ | run _ _ _ => none

namespace Link

/-- Nodes one behind the other, apart from what follows first markers. -/
def frame (firsts nodes : List NodeId) : List Link :=
  ((nodes.zip nodes.tail).filter (·.1 ∉ firsts)).map fun pair => .next pair.1 pair.2

/-- What stands first and last between two markers. -/
def around (first : NodeId) (held : List NodeId) (last : NodeId) : List Link :=
  match held.head?, held.getLast? with
  | some h, some e => [.next first h, .next e last]
  | _, _ => [.next first last]

/-- The run that nodes make up, if there are any. -/
def ends (id : Option InstanceId) (nodes : List NodeId) : List Link :=
  match nodes.head?, nodes.getLast? with
  | some h, some e => [.run id h e]
  | _, _ => []

variable {id : Option InstanceId} {t : InstanceId} {x y m n : NodeId}
  {w w' firsts nodes : List NodeId} {link : Link}

theorem mem_ends : link ∈ ends id nodes ↔
    ∃ head last, link = .run id head last ∧ nodes.head? = some head ∧
      nodes.getLast? = some last := by
  unfold ends
  split
  · rename_i hhead hlast
    simp [hhead, hlast]
  · rename_i hnone
    simp only [List.not_mem_nil, false_iff]
    rintro ⟨head, last, -, hhead, hlast⟩
    exact hnone head last hhead hlast

theorem eq_of_mem_ends (h : link ∈ ends id nodes) : ∃ head last, link = .run id head last := by
  obtain ⟨head, last, heq, -⟩ := mem_ends.mp h
  exact ⟨head, last, heq⟩

theorem next_of_mem_frame (h : link ∈ frame firsts nodes) : ∃ x y, link = .next x y := by
  obtain ⟨pair, -, rfl⟩ := List.mem_map.mp h
  exact ⟨pair.1, pair.2, rfl⟩

theorem next_of_mem_around (h : link ∈ around m w n) : ∃ x y, link = .next x y := by
  unfold around at h
  split at h
  · simp only [List.mem_cons, List.not_mem_nil, or_false] at h
    rcases h with rfl | rfl
    · exact ⟨_, _, rfl⟩
    · exact ⟨_, _, rfl⟩
  · exact ⟨_, _, List.mem_singleton.mp h⟩

@[simp] theorem next_notMem_ends : .next x y ∉ ends id nodes := fun h => by
  obtain ⟨_, _, ⟨⟩⟩ := eq_of_mem_ends h

@[simp] theorem gap_notMem_ends : .gap m t n ∉ ends id nodes := fun h => by
  obtain ⟨_, _, ⟨⟩⟩ := eq_of_mem_ends h

@[simp] theorem gap_notMem_frame : .gap m t n ∉ frame firsts nodes := fun h => by
  obtain ⟨_, _, ⟨⟩⟩ := next_of_mem_frame h

@[simp] theorem run_notMem_frame : .run id x y ∉ frame firsts nodes := fun h => by
  obtain ⟨_, _, ⟨⟩⟩ := next_of_mem_frame h

@[simp] theorem gap_notMem_around : .gap m t n ∉ around x w y := fun h => by
  obtain ⟨_, _, ⟨⟩⟩ := next_of_mem_around h

theorem around_congr (hhead : w.head? = w'.head?) (hlast : w.getLast? = w'.getLast?)
    (m n : NodeId) : around m w n = around m w' n := by
  simp only [around, hhead, hlast]

theorem ends_congr (hhead : w.head? = w'.head?) (hlast : w.getLast? = w'.getLast?)
    (id : Option InstanceId) : ends id w = ends id w' := by
  simp only [ends, hhead, hlast]

theorem perm_aside (aside own others kept : List Link) :
    ((aside ++ own) ++ (others ++ kept)).Perm (own ++ ((aside ++ others) ++ kept)) := by
  rw [List.append_assoc, List.append_assoc]
  exact List.perm_append_comm_assoc _ _ _

end Link

mutual

/-- The links of an instance and of what it holds, itself as a run apart. -/
def Instance.links : Instance → List Link
  | ⟨_, _, nodes, _, regions⟩ =>
      Link.frame (regions.map Region.first) nodes ++ Region.linksAll regions

def Region.linksAll : List Region → List Link
  | [] => []
  | ⟨_, _, first, last, content⟩ :: rest =>
      content.links first last ++ Region.linksAll rest

/-- The links between two markers. -/
def Content.links (first last : NodeId) : Content → List Link
  | .empty => Link.around first [] last
  | .text n _ => Link.around first [n] last
  | .own inner => Link.around first inner.nodes last ++ inner.links
  | .shared id => [.gap first id last]
  | .nodes held => Link.around first held last ++ Link.frame [] held

end

/-- The links of a region. -/
def Region.links (r : Region) : List Link :=
  r.content.links r.first r.last

theorem Region.linksAll_cons (r : Region) (rest : List Region) :
    Region.linksAll (r :: rest) = r.links ++ Region.linksAll rest := by
  obtain ⟨_, _, _, _, _⟩ := r
  rw [Region.linksAll, Region.links]

theorem Region.mem_linksAll {link : Link} {regions : List Region} :
    link ∈ Region.linksAll regions ↔ ∃ r ∈ regions, link ∈ r.links := by
  induction regions with
  | nil => simp [linksAll]
  | cons r rest ih => simp [linksAll_cons, ih]

theorem Instance.links_eq (i : Instance) :
    i.links = Link.frame (i.regions.map Region.first) i.nodes ++ Region.linksAll i.regions := by
  obtain ⟨_, _, _, _, _⟩ := i
  rfl

/-! ## Joints -/

/-- The first marker behind which a shared instance sits, if it sits. -/
abbrev Seating := InstanceId → Option NodeId

variable {seat seat' : Seating} {links links' rest : List Link} {x y z m n : NodeId}
  {t : InstanceId}

/-- Who stands right behind whom, by some links, if shared instances sit where
they do. -/
inductive Joint (seat : Seating) (links : List Link) : NodeId → NodeId → Prop
  | next {x y : NodeId} (h : .next x y ∈ links) : Joint seat links x y
  | apart {m n : NodeId} {t : InstanceId} (h : .gap m t n ∈ links)
      (hseat : seat t ≠ some m) : Joint seat links m n
  | into {m n : NodeId} {t : InstanceId} {head last : NodeId} (h : .gap m t n ∈ links)
      (hseat : seat t = some m) (hrun : .run (some t) head last ∈ links) :
      Joint seat links m head
  | out {m n : NodeId} {t : InstanceId} {head last : NodeId} (h : .gap m t n ∈ links)
      (hseat : seat t = some m) (hrun : .run (some t) head last ∈ links) :
      Joint seat links last n

theorem Joint.mono (h : Joint seat links x y) (hsub : links ⊆ links') :
    Joint seat links' x y := by
  cases h with
  | next h => exact .next (hsub h)
  | apart h hseat => exact .apart (hsub h) hseat
  | into h hseat hrun => exact .into (hsub h) hseat (hsub hrun)
  | out h hseat hrun => exact .out (hsub h) hseat (hsub hrun)

theorem Joint.source (h : Joint seat links x y) : x ∈ links.map Link.source := by
  cases h with
  | next h => exact List.mem_map_of_mem h
  | apart h _ => exact List.mem_map_of_mem h
  | into h _ _ => exact List.mem_map_of_mem h
  | out _ _ hrun => exact List.mem_map_of_mem hrun

theorem Joint.target (h : Joint seat links x y) : y ∈ links.map Link.target := by
  cases h with
  | next h => exact List.mem_map_of_mem h
  | apart h _ => exact List.mem_map_of_mem h
  | into _ _ hrun => exact List.mem_map_of_mem hrun
  | out h _ _ => exact List.mem_map_of_mem h

theorem Joint.of_cons_next (h : Joint seat (.next m n :: links) x y) :
    (x = m ∧ y = n) ∨ Joint seat links x y := by
  cases h with
  | next h =>
      rcases List.mem_cons.mp h with heq | h
      · cases heq
        exact .inl ⟨rfl, rfl⟩
      · exact .inr (.next h)
  | apart h hseat => exact .inr (.apart (by simpa using h) hseat)
  | into h hseat hrun => exact .inr (.into (by simpa using h) hseat (by simpa using hrun))
  | out h hseat hrun => exact .inr (.out (by simpa using h) hseat (by simpa using hrun))

theorem Joint.of_cons_gap (h : Joint seat (.gap m t n :: rest) x y) :
    (seat t ≠ some m ∧ x = m ∧ y = n) ∨
      (seat t = some m ∧ ∃ head last, .run (some t) head last ∈ rest ∧
        ((x = m ∧ y = head) ∨ (x = last ∧ y = n))) ∨
      Joint seat rest x y := by
  cases h with
  | next hk => exact .inr (.inr (.next (by simpa using hk)))
  | apart hk hseat =>
      rcases List.mem_cons.mp hk with heq | hk
      · cases heq
        exact .inl ⟨hseat, rfl, rfl⟩
      · exact .inr (.inr (.apart hk hseat))
  | into hk hseat hrun =>
      simp only [List.mem_cons, reduceCtorEq, false_or] at hrun
      rcases List.mem_cons.mp hk with heq | hk
      · cases heq
        exact .inr (.inl ⟨hseat, _, _, hrun, .inl ⟨rfl, rfl⟩⟩)
      · exact .inr (.inr (.into hk hseat hrun))
  | out hk hseat hrun =>
      simp only [List.mem_cons, reduceCtorEq, false_or] at hrun
      rcases List.mem_cons.mp hk with heq | hk
      · cases heq
        exact .inr (.inl ⟨hseat, _, _, hrun, .inr ⟨rfl, rfl⟩⟩)
      · exact .inr (.inr (.out hk hseat hrun))

theorem Joint.of_append {new : List Link} (h : Joint seat (new ++ links) x y)
    (hnext : ∀ k ∈ new, (∃ x y, k = .next x y) ∨ ∃ x y, k = .run none x y) :
    .next x y ∈ new ∨ Joint seat links x y := by
  have hsplit : ∀ {k}, k ∈ new ++ links → k ∈ links ∨ ∃ x y, k = .next x y ∧ k ∈ new ∨
      k = .run none x y := by
    intro k hk
    rcases List.mem_append.mp hk with hk | hk
    · rcases hnext k hk with ⟨x, y, rfl⟩ | ⟨x, y, rfl⟩
      · exact .inr ⟨x, y, .inl ⟨rfl, hk⟩⟩
      · exact .inr ⟨x, y, .inr rfl⟩
    · exact .inl hk
  cases h with
  | next hk => exact (List.mem_append.mp hk).imp id .next
  | apart hk hseat => exact .inr (.apart (by simpa using hsplit hk) hseat)
  | into hk hseat hrun =>
      exact .inr (.into (by simpa using hsplit hk) hseat (by simpa using hsplit hrun))
  | out hk hseat hrun =>
      exact .inr (.out (by simpa using hsplit hk) hseat (by simpa using hsplit hrun))

theorem Joint.reseat (h : Joint seat links x y)
    (hseats : ∀ {m t n}, .gap m t n ∈ links → (seat t = some m ↔ seat' t = some m)) :
    Joint seat' links x y := by
  cases h with
  | next hk => exact .next hk
  | apart hk hseat => exact .apart hk ((hseats hk).not.mp hseat)
  | into hk hseat hrun => exact .into hk ((hseats hk).mp hseat) hrun
  | out hk hseat hrun => exact .out hk ((hseats hk).mp hseat) hrun

/-! ## Standing -/

/-- A document stands as links say: every node is the source and the target of
one link at most, `tops` are the top-level nodes of the shared instances, only
shared instances with nodes sit somewhere, and joined nodes are side by side. -/
structure Standing (tops : InstanceId → List NodeId) (d : Document) (seat : Seating)
    (links : List Link) : Prop where
  tied : d.Tied
  sources : (links.map Link.source).Nodup
  targets : (links.map Link.target).Nodup
  exist : ∀ k ∈ links, d.Insertable k.source ∧ d.Insertable k.target
  runs : ∀ t head last, .run (some t) head last ∈ links ↔
    (tops t).head? = some head ∧ (tops t).getLast? = some last
  seated : ∀ t, seat t ≠ none → tops t ≠ []
  joined : ∀ {x y}, Joint seat links x y → ∀ p, Joined (d.children p) x y

variable {tops : InstanceId → List NodeId} {d d' : Document}

namespace Standing

theorem eq_of_source (h : Standing tops d seat links) {k k' : Link} (hk : k ∈ links)
    (hk' : k' ∈ links) (heq : k.source = k'.source) : k = k' :=
  List.inj_on_of_nodup_map h.sources hk hk' heq

theorem eq_of_target (h : Standing tops d seat links) {k k' : Link} (hk : k ∈ links)
    (hk' : k' ∈ links) (heq : k.target = k'.target) : k = k' :=
  List.inj_on_of_nodup_map h.targets hk hk' heq

theorem perm (h : Standing tops d seat links) (hperm : links.Perm links') :
    Standing tops d seat links' where
  tied := h.tied
  sources := (hperm.map Link.source).nodup_iff.mp h.sources
  targets := (hperm.map Link.target).nodup_iff.mp h.targets
  exist k hk := h.exist k (hperm.mem_iff.mpr hk)
  runs t head last := hperm.mem_iff.symm.trans (h.runs t head last)
  seated := h.seated
  joined hjoint := h.joined (hjoint.mono hperm.symm.subset)

theorem drop {old : List Link} (h : Standing tops d seat (old ++ rest))
    (hold : ∀ t head last, .run (some t) head last ∉ old) : Standing tops d seat rest where
  tied := h.tied
  sources := h.sources.sublist ((List.sublist_append_right old rest).map _)
  targets := h.targets.sublist ((List.sublist_append_right old rest).map _)
  exist k hk := h.exist k (List.mem_append_right old hk)
  runs t head last := by
    rw [← h.runs, List.mem_append]
    exact ⟨Or.inr, fun hrun => hrun.resolve_left (hold t head last)⟩
  seated := h.seated
  joined hjoint := h.joined (hjoint.mono (List.subset_append_right old rest))

theorem of_views (h : Standing tops d seat links) (htied : d'.Tied)
    (hchildren : d'.children = d.children)
    (hinsertable : ∀ n, d.Insertable n → d'.Insertable n) : Standing tops d' seat links where
  tied := htied
  sources := h.sources
  targets := h.targets
  exist k hk := ⟨hinsertable _ (h.exist k hk).1, hinsertable _ (h.exist k hk).2⟩
  runs := h.runs
  seated := h.seated
  joined hjoint p := by
    rw [hchildren]
    exact h.joined hjoint p

theorem source_ne {old : List Link} (h : Standing tops d seat (old ++ rest))
    (hm : m ∈ old.map Link.source) (hx : x ∈ rest.map Link.source) : x ≠ m := by
  rintro rfl
  have hnodup := h.sources
  rw [List.map_append] at hnodup
  exact (List.nodup_append.mp hnodup).2.2 x hm x hx rfl

theorem target_ne {old : List Link} (h : Standing tops d seat (old ++ rest))
    (hn : n ∈ old.map Link.target) (hy : y ∈ rest.map Link.target) : y ≠ n := by
  rintro rfl
  have hnodup := h.targets
  rw [List.map_append] at hnodup
  exact (List.nodup_append.mp hnodup).2.2 y hn y hy rfl

theorem exist_of_joint (h : Standing tops d seat links) (hjoint : Joint seat links x y) :
    d.Insertable x ∧ d.Insertable y := by
  obtain ⟨k, hk, hx⟩ := List.mem_map.mp hjoint.source
  obtain ⟨k', hk', hy⟩ := List.mem_map.mp hjoint.target
  exact ⟨hx ▸ (h.exist k hk).1, hy ▸ (h.exist k' hk').2⟩

/-! ## Changes of one region -/

theorem rejoin {old : List Link} (h : Standing tops d seat (old ++ rest))
    (hold : ∀ t head last, .run (some t) head last ∉ old)
    (hm : m ∈ old.map Link.source) (hn : n ∈ old.map Link.target) (htied : d'.Tied)
    (hinsertable : ∀ k, d.Insertable k → d'.Insertable k)
    (hrest : ∀ {x y}, Joint seat rest x y → ∀ p, Joined (d'.children p) x y)
    (hmn : ∀ p, Joined (d'.children p) m n) :
    Standing tops d' seat (.next m n :: rest) where
  tied := htied
  sources := by
    refine List.nodup_cons.mpr ⟨fun hmem => h.source_ne hm hmem rfl, ?_⟩
    exact h.sources.sublist ((List.sublist_append_right old rest).map _)
  targets := by
    refine List.nodup_cons.mpr ⟨fun hmem => h.target_ne hn hmem rfl, ?_⟩
    exact h.targets.sublist ((List.sublist_append_right old rest).map _)
  exist k hk := by
    rcases List.mem_cons.mp hk with rfl | hk
    · obtain ⟨km, hkm, rfl⟩ := List.mem_map.mp hm
      obtain ⟨kn, hkn, rfl⟩ := List.mem_map.mp hn
      exact ⟨hinsertable _ (h.exist km (List.mem_append_left rest hkm)).1,
        hinsertable _ (h.exist kn (List.mem_append_left rest hkn)).2⟩
    · obtain ⟨hsource, htarget⟩ := h.exist k (List.mem_append_right old hk)
      exact ⟨hinsertable _ hsource, hinsertable _ htarget⟩
  runs t head last := by
    have hcons : .run (some t) head last ∈ Link.next m n :: rest ↔
        .run (some t) head last ∈ rest := by simp
    rw [hcons]
    exact (h.drop hold).runs t head last
  seated := h.seated
  joined hjoint p := by
    rcases hjoint.of_cons_next with ⟨rfl, rfl⟩ | hjoint
    · exact hmn p
    · exact hrest hjoint p

theorem cut {old : List Link} (h : Standing tops d seat (old ++ rest))
    (hold : ∀ t head last, .run (some t) head last ∉ old)
    (hm : m ∈ old.map Link.source) (hn : n ∈ old.map Link.target) {p : NodeId}
    {w : List NodeId} (hrun : m :: (w ++ [n]) <:+: d.children p) :
    Standing tops (d.removeChildren p w) seat (.next m n :: rest) := by
  have hsplit : ∃ before behind, d.children p = (before ++ [m]) ++ (w ++ n :: behind) := by
    obtain ⟨before, behind, hst⟩ := hrun
    exact ⟨before, behind, by simp [← hst]⟩
  obtain ⟨before, behind, hsplit⟩ := hsplit
  have hnodup := h.tied.nodup p
  rw [hsplit] at hnodup
  have hw : w.Nodup := (List.nodup_append.mp (List.nodup_append.mp hnodup).2.1).1
  have hunder : ∀ z ∈ w, z ∈ d.children p := by
    intro z hz
    rw [hsplit]
    simp [hz]
  have hchildren := h.tied.children_removeChildren hunder hw
  have htied := h.tied.removeChildren p w
  refine h.rejoin hold hm hn htied ?_ ?_ ?_
  · intro k hk
    rw [Document.insertable_iff, Document.kind?_removeChildren]
    exact Document.insertable_iff.mp hk
  · intro x y hjoint q
    rw [hchildren]
    have hjoined := h.joined (hjoint.mono (List.subset_append_right old rest))
    have hxm := h.source_ne hm hjoint.source
    have hyn := h.target_ne hn hjoint.target
    refine (hjoined q).filter ⟨fun hx => ?_, fun hy => ?_⟩
    · have hbeside := hjoined p (.inl (hunder x hx))
      rw [hsplit] at hbeside
      exact hbeside.right_mem_of_left hnodup hx (by simpa using hyn.symm)
    · have hbeside := hjoined p (.inr (hunder y hy))
      rw [hsplit] at hbeside
      exact hbeside.left_mem_of_right hnodup hy (by simpa using hxm.symm)
  · have hmw : m ∉ w := fun hmem => (List.nodup_append.mp hnodup).2.2 m (by simp) m
      (List.mem_append_left _ hmem) rfl
    have hnw : n ∉ w := fun hmem => (List.nodup_append.mp (List.nodup_append.mp hnodup).2.1).2.2
      n hmem n List.mem_cons_self rfl
    refine htied.joined (p := p) ?_
    rw [hchildren]
    exact beside_filter hrun (List.Subset.refl w) hmw hnw

/-- Inserting something that stands elsewhere between two nodes leaves every
other joint. -/
theorem joined_insertBefore (h : Standing tops d seat links) {p f : NodeId}
    (hbeside : Beside (d.children p) m n) {w : List NodeId}
    (hmoved : d.movedBy f = w) (hapart : ∀ z ∈ w, z ∉ d.children p)
    (hjoint : Joint seat links x y) (hw : Joined w x y) (hother : x ≠ m) (q : NodeId) :
    Joined ((d.insertBefore p f (some n)).children q) x y := by
  obtain ⟨before, behind, hold, hnew, hothers⟩ :=
    h.tied.children_between (f := f) hbeside hmoved hapart
  by_cases hq : q = p
  · subst hq
    have hsplit : before ++ m :: (w ++ n :: behind) = (before ++ [m]) ++ (w ++ n :: behind) := by
      simp
    rw [hnew, hsplit]
    have hjoined := h.joined hjoint q
    rw [hold, show before ++ m :: n :: behind = (before ++ [m]) ++ n :: behind by simp] at hjoined
    exact hjoined.insert hw (by simpa using hother.symm)
  · rw [hothers q hq]
    exact (h.joined hjoint q).filter hw.mem_iff

theorem tied_insertBefore (h : Standing tops d seat links) {p f : NodeId}
    (hf : d.contains f = true) (hbeside : Beside (d.children p) m n) :
    (d.insertBefore p f (some n)).Tied :=
  h.tied.insertBefore (Document.contains_of_mem_children hbeside.left_mem) hf (some n)

theorem insertable_insertBefore {p f : NodeId} {r : Option NodeId} {k : NodeId}
    (h : d.Insertable k) : (d.insertBefore p f r).Insertable k := by
  rw [Document.insertable_iff, Document.kind?_insertBefore]
  exact Document.insertable_iff.mp h

theorem beside_insertBefore (h : Standing tops d seat links) {p f : NodeId}
    (hbeside : Beside (d.children p) m n) {w : List NodeId} (hmoved : d.movedBy f = w)
    (hapart : ∀ z ∈ w, z ∉ d.children p) :
    (w = [] → Beside ((d.insertBefore p f (some n)).children p) m n) ∧
      (∀ head, w.head? = some head → Beside ((d.insertBefore p f (some n)).children p) m head) ∧
      ∀ last, w.getLast? = some last →
        Beside ((d.insertBefore p f (some n)).children p) last n := by
  obtain ⟨before, behind, -, hnew, -⟩ :=
    h.tied.children_between (f := f) hbeside hmoved hapart
  rw [hnew]
  refine ⟨?_, ?_, ?_⟩
  · rintro rfl
    exact beside_middle before behind m n
  · intro head hhead
    obtain ⟨w, rfl⟩ := List.head?_eq_some_iff.mp hhead
    exact beside_middle before (w ++ n :: behind) m head
  · intro last hlast
    obtain ⟨w, rfl⟩ := List.getLast?_eq_some_iff.mp hlast
    simpa using beside_middle (before ++ m :: w) behind last n

theorem fill {p f : NodeId} {w : List NodeId}
    (h : Standing tops d seat (.next m n :: (Link.ends none w ++ rest)))
    (hf : d.contains f = true) (hn : d.parent? n = some p) (hmoved : d.movedBy f = w)
    (hapart : ∀ z ∈ w, z ∉ d.children p)
    (hw : ∀ {x y}, Joint seat rest x y → Joined w x y) :
    Standing tops (d.insertBefore p f (some n)) seat (Link.around m w n ++ rest) := by
  have hbeside : Beside (d.children p) m n :=
    h.joined (.next List.mem_cons_self) p (.inr ((h.tied.agree p n).mp hn))
  have htied := h.tied_insertBefore hf hbeside
  have hrest : ∀ {x y}, Joint seat rest x y →
      ∀ q, Joined ((d.insertBefore p f (some n)).children q) x y := by
    intro x y hjoint
    have hjoint' := hjoint.mono (List.subset_append_right (Link.next m n :: Link.ends none w) rest)
    have hsplit : Standing tops d seat ((Link.next m n :: Link.ends none w) ++ rest) := h
    have hother : x ≠ m := hsplit.source_ne List.mem_cons_self hjoint.source
    exact h.joined_insertBefore hbeside hmoved hapart hjoint' (hw hjoint) hother
  obtain ⟨hnone, hhead, hlast⟩ := h.beside_insertBefore hbeside hmoved hapart
  have hexist : ∀ k ∈ Link.next m n :: (Link.ends none w ++ rest),
      (d.insertBefore p f (some n)).Insertable k.source ∧
        (d.insertBefore p f (some n)).Insertable k.target := fun k hk =>
    ⟨insertable_insertBefore (h.exist k hk).1, insertable_insertBefore (h.exist k hk).2⟩
  cases hwhead : w.head? with
  | none =>
      obtain rfl : w = [] := List.head?_eq_none_iff.mp hwhead
      refine ⟨htied, h.sources, h.targets, hexist, h.runs, h.seated, ?_⟩
      intro x y hjoint
      rcases hjoint.of_cons_next with ⟨rfl, rfl⟩ | hjoint
      · exact htied.joined (hnone rfl)
      · exact hrest hjoint
  | some head =>
      obtain ⟨last, hwlast⟩ : ∃ last, w.getLast? = some last := by
        refine ⟨_, List.getLast?_eq_some_getLast ?_⟩
        rintro rfl
        cases hwhead
      simp only [Link.ends, hwhead, hwlast] at h hexist
      simp only [Link.around, hwhead, hwlast]
      have hswap : (n :: head :: rest.map Link.target).Nodup := h.targets
      refine ⟨htied, h.sources, (List.Perm.swap head n _).nodup_iff.mp hswap, ?_, ?_, h.seated, ?_⟩
      · intro k hk
        have hends := hexist (.run none head last) (by simp)
        have hmn := hexist (.next m n) (by simp)
        simp only [List.cons_append, List.nil_append, List.mem_cons] at hk
        rcases hk with rfl | rfl | hk
        · exact ⟨hmn.1, hends.2⟩
        · exact ⟨hends.1, hmn.2⟩
        · exact hexist k (by simp [hk])
      · intro t head' last'
        rw [← h.runs]
        simp
      · intro x y hjoint
        rcases hjoint.of_cons_next with ⟨rfl, rfl⟩ | hjoint
        · exact htied.joined (hhead y hwhead)
        rcases hjoint.of_cons_next with ⟨rfl, rfl⟩ | hjoint
        · exact htied.joined (hlast x hwlast)
        · exact hrest hjoint

theorem seat_shared {p f : NodeId} {w : List NodeId}
    (h : Standing tops d seat (.next m n :: rest)) (hf : d.contains f = true)
    (hn : d.parent? n = some p) (hmoved : d.movedBy f = w)
    (hapart : ∀ z ∈ w, z ∉ d.children p) (hw : ∀ {x y}, Joint seat rest x y → Joined w x y)
    (hnowhere : seat t = none) (hhead : w.head? = (tops t).head?)
    (hlast : w.getLast? = (tops t).getLast?) :
    ∃ seat', Standing tops (d.insertBefore p f (some n)) seat' (.gap m t n :: rest) := by
  have hbeside : Beside (d.children p) m n :=
    h.joined (.next List.mem_cons_self) p (.inr ((h.tied.agree p n).mp hn))
  have htied := h.tied_insertBefore hf hbeside
  have hsplit : Standing tops d seat ([.next m n] ++ rest) := h
  have hsource : ∀ {x}, x ∈ rest.map Link.source → x ≠ m := fun hx =>
    hsplit.source_ne List.mem_cons_self hx
  have hrest : ∀ {x y}, Joint seat rest x y →
      ∀ q, Joined ((d.insertBefore p f (some n)).children q) x y := by
    intro x y hjoint
    exact h.joined_insertBefore hbeside hmoved hapart
      (hjoint.mono (List.subset_cons_self _ _)) (hw hjoint) (hsource hjoint.source)
  obtain ⟨hnone, hfirst, hfinal⟩ := h.beside_insertBefore hbeside hmoved hapart
  have hexist : ∀ k ∈ Link.gap m t n :: rest,
      (d.insertBefore p f (some n)).Insertable k.source ∧
        (d.insertBefore p f (some n)).Insertable k.target := by
    intro k hk
    rcases List.mem_cons.mp hk with rfl | hk
    · have hmn := h.exist (.next m n) List.mem_cons_self
      exact ⟨insertable_insertBefore hmn.1, insertable_insertBefore hmn.2⟩
    · have hold := h.exist k (List.mem_cons_of_mem _ hk)
      exact ⟨insertable_insertBefore hold.1, insertable_insertBefore hold.2⟩
  have hruns : ∀ u head last, .run (some u) head last ∈ Link.gap m t n :: rest ↔
      (tops u).head? = some head ∧ (tops u).getLast? = some last := by
    intro u head last
    rw [← h.runs]
    simp
  by_cases hempty : tops t = []
  · -- an instance without nodes needs no seat
    have hwnil : w = [] := by
      rw [hempty] at hhead
      exact List.head?_eq_none_iff.mp hhead
    refine ⟨seat, htied, h.sources, h.targets, hexist, hruns, h.seated, ?_⟩
    intro x y hjoint
    rcases hjoint.of_cons_gap with ⟨-, rfl, rfl⟩ | ⟨hseat, -⟩ | hjoint
    · exact htied.joined (hnone hwnil)
    · rw [hnowhere] at hseat
      cases hseat
    · exact hrest hjoint
  · have hself : Function.update seat t (some m) t = some m := Function.update_self t _ seat
    have hothers : ∀ u, u ≠ t → Function.update seat t (some m) u = seat u := fun u hu =>
      Function.update_of_ne hu _ seat
    have hsame : ∀ {k : NodeId} {u : InstanceId} {k' : NodeId}, .gap k u k' ∈ rest →
        (Function.update seat t (some m) u = some k ↔ seat u = some k) := by
      intro k u k' hk
      by_cases hu : u = t
      · have hkm : k ≠ m := hsource (List.mem_map_of_mem hk)
        rw [hu, hself, hnowhere]
        simpa using hkm.symm
      · rw [hothers u hu]
    refine ⟨Function.update seat t (some m), htied, h.sources, h.targets, hexist, hruns, ?_, ?_⟩
    · intro u hu
      by_cases hut : u = t
      · rwa [hut]
      · exact h.seated u (by rwa [hothers u hut] at hu)
    · intro x y hjoint
      rcases hjoint.of_cons_gap with ⟨hseat, -⟩ | ⟨-, head, last, hrun, hxy⟩ | hjoint
      · exact absurd hself hseat
      · have htops := (hruns t head last).mp (List.mem_cons_of_mem _ hrun)
        rcases hxy with ⟨rfl, rfl⟩ | ⟨rfl, rfl⟩
        · exact htied.joined (hfirst y (hhead.trans htops.1))
        · exact htied.joined (hfinal x (hlast.trans htops.2))
      · exact hrest (hjoint.reseat hsame)

/-! ## New links -/

theorem extend (h : Standing tops d seat links) (hgrown : d.Extends d') (htied : d'.Tied) :
    Standing tops d' seat links where
  tied := htied
  sources := h.sources
  targets := h.targets
  exist k hk := by
    obtain ⟨⟨s, hs, hskind⟩, ⟨t, ht, htkind⟩⟩ := h.exist k hk
    exact ⟨⟨s, hgrown.node hs, hskind⟩, ⟨t, hgrown.node ht, htkind⟩⟩
  runs := h.runs
  seated := h.seated
  joined := by
    intro x y hjoint q
    have hx := of_decide_eq_true (h.exist_of_joint hjoint).1.contains
    have hy := of_decide_eq_true (h.exist_of_joint hjoint).2.contains
    rcases Nat.lt_or_ge q d.size with hq | hq
    · rw [Document.children_congr (hgrown.same q hq)]
      exact h.joined hjoint q
    · -- nothing old stands under a new node
      exact Joined.of_notMem (hgrown.notMem_children h.tied htied hx hq)
        (hgrown.notMem_children h.tied htied hy hq)

theorem add {new : List Link} (h : Standing tops d seat links)
    (hnext : ∀ k ∈ new, (∃ x y, k = .next x y) ∨ ∃ x y, k = .run none x y)
    (hsources : (new.map Link.source).Nodup) (htargets : (new.map Link.target).Nodup)
    (hstrange : ∀ k ∈ new, k.source ∉ links.map Link.source ∧ k.target ∉ links.map Link.target)
    (hexist : ∀ k ∈ new, d.Insertable k.source ∧ d.Insertable k.target)
    (hjoined : ∀ {x y}, .next x y ∈ new → ∃ p, Beside (d.children p) x y) :
    Standing tops d seat (new ++ links) where
  tied := h.tied
  sources := by
    rw [List.map_append]
    refine List.nodup_append.mpr ⟨hsources, h.sources, ?_⟩
    rintro _ ha _ hb rfl
    obtain ⟨k, hk, rfl⟩ := List.mem_map.mp ha
    exact (hstrange k hk).1 hb
  targets := by
    rw [List.map_append]
    refine List.nodup_append.mpr ⟨htargets, h.targets, ?_⟩
    rintro _ ha _ hb rfl
    obtain ⟨k, hk, rfl⟩ := List.mem_map.mp ha
    exact (hstrange k hk).2 hb
  exist k hk := (List.mem_append.mp hk).elim (hexist k) (h.exist k)
  runs t head last := by
    rw [← h.runs, List.mem_append, or_iff_right]
    intro hk
    rcases hnext _ hk with ⟨x, y, heq⟩ | ⟨x, y, heq⟩ <;> cases heq
  seated := h.seated
  joined := by
    intro x y hjoint q
    rcases hjoint.of_append hnext with hk | hjoint
    · obtain ⟨p, hbeside⟩ := hjoined hk
      exact h.tied.joined hbeside q
    · exact h.joined hjoint q

end Standing

end LiveMarkup
