import LiveMarkup.Proofs.Document.Neighbours

/-!
# Where an insertion puts nodes

An insertion takes what it moves out of wherever it stands and puts it into the
children of the new parent in one piece: right before the reference, or at the
end. A reference that is moved itself is not there any more, so what should stand
where it was stands at the end: whoever inserts a node before itself moves it
behind all its siblings.
-/

namespace LiveMarkup

variable {l moved rest row : List NodeId} {x y n : NodeId} {r : Option NodeId}

/-- One list is put into another one, in one piece: right before a node, or at the
end. -/
def PutBefore (reference : Option NodeId) (moved rest row : List NodeId) : Prop :=
  ∃ before behind, rest = before ++ behind ∧ row = before ++ moved ++ behind ∧
    behind.head? = reference

theorem putBefore_end (moved rest : List NodeId) : PutBefore none moved rest (rest ++ moved) :=
  ⟨rest, [], by simp, by simp, rfl⟩

/-- Nodes are put before a reference that is there, and at the end otherwise. -/
theorem putBefore_spliceBefore (h : ∀ x ∈ r, x ∈ l) (moved : List NodeId) :
    PutBefore (r.filter (· ∉ moved)) moved (l.filter (· ∉ moved))
      (Document.spliceBefore r moved (l.filter (· ∉ moved))) := by
  cases r with
  | none => exact putBefore_end moved _
  | some x =>
      by_cases hx : x ∈ moved
      · -- the reference is gone, so nobody stops before it
        have hgone : x ∉ l.filter (· ∉ moved) := by simp [hx]
        obtain ⟨htake, hdrop⟩ := Document.splitAt_of_notMem hgone
        rw [Document.spliceBefore, htake, hdrop, Option.filter_some_neg (by simpa using hx),
          List.append_nil]
        exact putBefore_end moved _
      · have hmem : x ∈ l.filter (· ∉ moved) :=
          List.mem_filter.mpr ⟨h x rfl, decide_eq_true hx⟩
        obtain ⟨before, behind, hsplit, hbefore⟩ := List.eq_append_cons_of_mem hmem
        rw [hsplit, Document.spliceBefore_some hbefore, Option.filter_some_pos (by simpa using hx)]
        exact ⟨before, x :: behind, rfl, rfl, rfl⟩

theorem PutBefore.eq_end (h : PutBefore none moved rest row) : row = rest ++ moved := by
  obtain ⟨before, behind, rfl, rfl, hhead⟩ := h
  rw [List.head?_eq_none_iff.mp hhead, List.append_nil, List.append_nil]

/-- What stands at the end stands before nobody. -/
theorem not_putBefore_end (hn : n ∉ rest) : ¬ PutBefore (some y) [n] rest (rest ++ [n]) := by
  rintro ⟨before, behind, hrest, hrow, hhead⟩
  obtain ⟨behind, rfl⟩ := List.head?_eq_some_iff.mp hhead
  have hlast := congrArg List.getLast? hrow
  rw [List.getLast?_concat, List.getLast?_append_of_ne_nil _ (List.cons_ne_nil y behind)] at hlast
  refine hn ?_
  rw [hrest]
  exact List.mem_append_right _ (List.mem_of_getLast? hlast.symm)

namespace Document

variable {d : Document} {p : NodeId}

/-- The node that an insertion under a parent should stop at: the reference, or the
first sibling behind it that is not moved. -/
def anchor? (d : Document) (p : NodeId) (moved : List NodeId) (r : Option NodeId) :
    Option NodeId :=
  r.bind fun x => ((d.children p).dropWhile (· != x)).find? (· ∉ moved)

/-! ## Single nodes -/

theorem map_insertBefore {α : Type} (d : Document) (p n : NodeId) (r : Option NodeId)
    (read : NodeData → α)
    (hkeep : ∀ data parent children,
      read { data with parent := parent, children := children } = read data) (k : NodeId) :
    ((d.insertBefore p n r).nodes[k]?).map read = (d.nodes[k]?).map read := by
  have hparents : ∀ (moved : List NodeId) (d : Document),
      ((moved.foldl (fun d n => d.modify n fun data => { data with parent := some p })
        d).nodes[k]?).map read = (d.nodes[k]?).map read := by
    intro moved d
    rw [node_setParents]
    split
    · rw [Option.map_map]
      congr 1
      funext data
      exact hkeep data _ data.children
    · rfl
  have hrelease : ((d.release n).nodes[k]?).map read = (d.nodes[k]?).map read := by
    unfold release
    split
    · exact map_modify d n read (fun data => hkeep data data.parent _) k
    · unfold detach
      split
      · rfl
      · rw [map_modify _ _ read (fun data => hkeep data data.parent _),
          map_modify _ _ read (fun data => hkeep data _ data.children)]
  unfold insertBefore
  rw [nodes_count, hparents, map_modify _ _ read (fun data => hkeep data data.parent _), hrelease]

/-- What an insertion does to each node. -/
theorem Tied.node_insertBefore (h : d.Tied) (hp : d.contains p = true)
    (hn : d.contains n = true) (r : Option NodeId) (k : NodeId) :
    (d.insertBefore p n r).nodes[k]? = (d.nodes[k]?).map fun data =>
      { data with
        parent := if k ∈ d.movedBy n then some p else data.parent
        children := if k = p then (d.insertBefore p n r).children p
          else data.children.filter (· ∉ d.movedBy n) } := by
  have hread := map_insertBefore d p n r (fun data => (data.kind, data.attributes, data.properties))
    (fun _ _ _ => rfl) k
  cases hdata : d.nodes[k]? with
  | none =>
      rw [hdata, Option.map_none, Option.map_eq_none_iff] at hread
      rw [hread]
      rfl
  | some data =>
      rw [hdata, Option.map_some] at hread
      obtain ⟨data', hdata', hsame⟩ := Option.map_eq_some_iff.mp hread
      obtain ⟨hkind, hattributes, hproperties⟩ : data'.kind = data.kind ∧
          data'.attributes = data.attributes ∧ data'.properties = data.properties := by
        simpa using hsame
      have hparent := h.parent?_insertBefore (p := p) hn r k
      rw [parent?_of_node hdata', parent?_of_node hdata] at hparent
      have hchildren := h.children_insertBefore (n := n) hp r k
      rw [← h.children_insertBefore (n := n) hp r p |>.trans (if_pos rfl),
        children_of_node hdata', children_of_node hdata] at hchildren
      rw [hdata', Option.map_some, ← hparent, ← hchildren, ← hkind, ← hattributes, ← hproperties]

/-! ## The place -/

/-- A reference that stays is what the insertion should stop at. -/
theorem anchor?_of_notMem (hx : x ∈ d.children p) (hstays : x ∉ moved) :
    d.anchor? p moved (some x) = some x := by
  obtain ⟨before, behind, hsplit, hbefore⟩ := List.eq_append_cons_of_mem hx
  rw [anchor?, Option.bind_some, hsplit, dropWhile_ne_append hbefore,
    List.find?_cons_of_pos (by simpa using hstays)]

theorem Tied.anchor?_self (h : d.Tied) (hn : n ∈ d.children p) :
    d.anchor? p [n] (some n) = d.nextSibling? n := by
  have hnodup := h.nodup p
  have hparent : d.parent? n = some p := (h.agree p n).mpr hn
  obtain ⟨before, behind, hsplit, hbefore⟩ := List.eq_append_cons_of_mem hn
  rw [hsplit] at hnodup
  have hnot : n ∉ behind := (List.nodup_cons.mp (List.nodup_append.mp hnodup).2.1).1
  simp only [anchor?, Option.bind_some, nextSibling?, siblingsAfter, hparent, hsplit,
    dropWhile_ne_append hbefore]
  rw [List.find?_cons_of_neg (by simp)]
  cases behind with
  | nil => rfl
  | cons z behind =>
      have hz : z ≠ n := fun heq => hnot (heq ▸ List.mem_cons_self)
      rw [List.find?_cons_of_pos (by simpa using hz)]
      rfl

/-- Only a node itself is moved from before the place where it is put, and a fragment
that is emptied into itself. -/
theorem Tied.anchor?_of_mem (h : d.Tied) (hn : d.contains n = true) (hx : x ∈ d.children p)
    (hmoved : x ∈ d.movedBy n) :
    d.anchor? p (d.movedBy n) (some x) = if x = n then d.nextSibling? n else none := by
  unfold movedBy at hmoved ⊢
  split
  · rename_i hkind
    rw [if_pos hkind] at hmoved
    obtain rfl : p = n := h.parent_unique hx hmoved
    have hloose : d.nextSibling? p = none := by
      simp [nextSibling?, siblingsAfter, h.loose p hkind]
    have hnobody : ((d.children p).dropWhile (· != x)).find? (· ∉ d.children p) = none := by
      refine List.find?_eq_none.mpr fun z hz => ?_
      simpa using (List.dropWhile_sublist _).subset hz
    rw [anchor?, Option.bind_some, hnobody, hloose, ite_self]
  · rename_i hkind
    rw [if_neg hkind, List.mem_singleton] at hmoved
    subst hmoved
    rw [if_pos rfl, h.anchor?_self hx]

/-- An insertion puts what it moves, in its order, before the reference or at its end; it
takes it out of all other children and changes nothing else. It stops where it
should but when a node is to be put before itself and has a sibling behind it. -/
theorem Evolves.insertBefore_puts (h : Evolves .empty d) (hp : d.contains p = true)
    (hn : d.contains n = true) (hr : ∀ x ∈ r, x ∈ d.children p) :
    ∃ row : List NodeId,
      PutBefore (r.filter (· ∉ d.movedBy n)) (d.movedBy n)
        ((d.children p).filter (· ∉ d.movedBy n)) row ∧
      (PutBefore (d.anchor? p (d.movedBy n) r) (d.movedBy n)
        ((d.children p).filter (· ∉ d.movedBy n)) row ↔
          ¬ (r = some n ∧ (d.nextSibling? n).isSome = true)) ∧
      ∀ k : NodeId, (d.insertBefore p n r).nodes[k]? = (d.nodes[k]?).map fun data =>
        { data with
          parent := if k ∈ d.movedBy n then some p else data.parent
          children := if k = p then row else data.children.filter (· ∉ d.movedBy n) } := by
  have htied : d.Tied := (h.evolved linked_empty Reachable.empty.orderly).linked.toTied
  have hput := putBefore_spliceBefore (l := d.children p) hr (d.movedBy n)
  have hrow := (htied.children_insertBefore (n := n) hp r p).trans (if_pos rfl)
  rw [← hrow] at hput
  refine ⟨(d.insertBefore p n r).children p, hput, ?_, htied.node_insertBefore hp hn r⟩
  cases r with
  | none => exact iff_of_true hput nofun
  | some x =>
      have hx : x ∈ d.children p := hr x rfl
      by_cases hmoved : x ∈ d.movedBy n
      · rw [htied.anchor?_of_mem hn hx hmoved]
        rw [Option.filter_some_neg (by simpa using hmoved)] at hput
        by_cases hself : x = n
        · subst hself
          cases hnext : d.nextSibling? x with
          | none =>
              rw [if_pos rfl]
              exact iff_of_true hput nofun
          | some y =>
              -- the node is moved to the end, and not before its sibling
              have hsingle : d.movedBy x = [x] := (htied.insertable hx).movedBy
              rw [if_pos rfl]
              refine iff_of_false ?_ fun hnot => hnot ⟨rfl, rfl⟩
              rw [hsingle] at hput
              rw [hsingle, hput.eq_end]
              exact not_putBefore_end (by simp)
        · rw [if_neg hself]
          exact iff_of_true hput fun hsame => hself (Option.some.inj hsame.1)
      · rw [anchor?_of_notMem hx hmoved]
        rw [Option.filter_some_pos (by simpa using hmoved)] at hput
        refine iff_of_true hput fun hsame => hmoved ?_
        obtain rfl := Option.some.inj hsame.1
        rw [(htied.insertable hx).movedBy]
        exact List.mem_singleton_self x

/-- Nothing is above a node that stands nowhere. -/
theorem not_within_of_root {m : NodeId} (hparent : d.parent? n = none) (hne : n ≠ m) :
    ¬ d.Within n m := by
  intro hwithin
  rcases Relation.ReflTransGen.cases_head hwithin with heq | ⟨p, hunder, -⟩
  · exact hne heq
  · exact Option.some_ne_none p (hunder.symm.trans hparent)

/-- An element with two texts in it. -/
def twoTexts : Document :=
  ((paragraph.append 0 1).create (.text "ho")).2.append 0 2

theorem evolves_twoTexts : Evolves .empty twoTexts := by
  have hparagraph : Evolves .empty paragraph :=
    (Evolves.refl.create (.element "p")).create (.text "hi")
  have hfirst : Evolves .empty (paragraph.append 0 1) := by
    refine hparagraph.insertBefore rfl rfl none fun m hm => ?_
    obtain rfl : m = 1 := List.mem_singleton.mp hm
    exact not_within_of_root rfl (by decide)
  refine (hfirst.create (.text "ho")).insertBefore rfl rfl none fun m hm => ?_
  obtain rfl : m = 2 := List.mem_singleton.mp hm
  exact not_within_of_root rfl (by decide)

theorem Evolves.insertBefore_puts_twoTexts :
    Evolves .empty twoTexts ∧ ∃ row, PutBefore (some 1) [2] [1] row ∧
      (twoTexts.insertBefore 0 2 (some 1)).children 0 = row ∧
      (twoTexts.insertBefore 0 2 (some 1)).parent? 2 = some 0 := by
  obtain ⟨row, hput, -, hnode⟩ :=
    evolves_twoTexts.insertBefore_puts (p := 0) (n := 2) (r := some 1) rfl rfl (by decide)
  refine ⟨evolves_twoTexts, row, hput, ?_, ?_⟩
  · rw [children_of_node (hnode 0)]
    rfl
  · rw [parent?_of_node (hnode 2)]
    rfl

/-- A text that is put before itself changes places with the text behind it. -/
theorem insertBefore_self_moves :
    Evolves .empty twoTexts ∧ 1 ∈ twoTexts.children 0 ∧
      (∀ m ∈ twoTexts.movedBy 1, ¬ twoTexts.Within 0 m) ∧
      twoTexts.children 0 = [1, 2] ∧ twoTexts.anchor? 0 (twoTexts.movedBy 1) (some 1) = some 2 ∧
      (twoTexts.insertBefore 0 1 (some 1)).children 0 = [2, 1] := by
  refine ⟨evolves_twoTexts, by decide, fun m hm => ?_, rfl, by decide, by decide⟩
  obtain rfl : m = 1 := List.mem_singleton.mp hm
  exact not_within_of_root rfl (by decide)

end Document

end LiveMarkup
