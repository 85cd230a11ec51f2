import LiveMarkup.Instance.Span
import LiveMarkup.Proofs.Document.Evolution
import Mathlib.Data.List.Chain
import Mathlib.Data.List.Dedup

/-!
# Neighbours

Who stands right behind whom among the children of a node. Two nodes that are
side by side whenever one of them stands there at all stay so when nodes are
taken out that both belong to or neither, and when something is put in at
another place. A list whose nodes are side by side one after the other stands
there as a whole, or not at all.
-/

namespace LiveMarkup

variable {l l' p q : List NodeId} {x y z m n : NodeId}

/-! ## Side by side -/

/-- One node stands right behind another one. -/
def Beside (l : List NodeId) (x y : NodeId) : Prop :=
  [x, y] <:+: l

/-- If one of two nodes stands there, the second stands right behind the
first. -/
def Joined (l : List NodeId) (x y : NodeId) : Prop :=
  x ∈ l ∨ y ∈ l → Beside l x y

theorem Beside.left_mem (h : Beside l x y) : x ∈ l :=
  h.subset List.mem_cons_self

theorem Beside.right_mem (h : Beside l x y) : y ∈ l :=
  h.subset (List.mem_cons_of_mem x List.mem_cons_self)

theorem beside_middle (p q : List NodeId) (x y : NodeId) : Beside (p ++ x :: y :: q) x y :=
  ⟨p, q, by simp⟩

theorem beside_append : Beside (p ++ q) x y ↔
    Beside p x y ∨ Beside q x y ∨ (p.getLast? = some x ∧ q.head? = some y) := by
  constructor
  · rintro ⟨s, t, hst⟩
    have hsplit : s ++ (x :: y :: t) = p ++ q := by simpa using hst
    rcases List.append_eq_append_iff.mp hsplit with ⟨u, rfl, hu⟩ | ⟨u, rfl, rfl⟩
    · rcases u with _ | ⟨a, _ | ⟨b, u⟩⟩
      · exact .inr (.inl ⟨[], t, by simpa using hu⟩)
      · obtain ⟨rfl, rfl⟩ := List.cons.inj hu
        exact .inr (.inr (by simp))
      · simp only [List.cons_append, List.cons.injEq] at hu
        obtain ⟨rfl, rfl, -⟩ := hu
        exact .inl (beside_middle s u _ _)
    · exact .inr (.inl (beside_middle u t x y))
  · rintro (h | h | ⟨hp, hq⟩)
    · exact h.trans (List.prefix_append p q).isInfix
    · exact h.trans (List.suffix_append p q).isInfix
    · obtain ⟨p, rfl⟩ := List.getLast?_eq_some_iff.mp hp
      obtain ⟨q, rfl⟩ := List.head?_eq_some_iff.mp hq
      simpa using beside_middle p q x y

theorem Beside.idxOf (h : Beside l x y) (hl : l.Nodup) : l.idxOf y = l.idxOf x + 1 := by
  obtain ⟨s, t, rfl⟩ := h
  have hsplit : (s ++ x :: y :: t).Nodup := by simpa using hl
  obtain ⟨-, hrest, hapart⟩ := List.nodup_append.mp hsplit
  have hxs : x ∉ s := fun hmem => hapart x hmem x List.mem_cons_self rfl
  have hys : y ∉ s := fun hmem =>
    hapart y hmem y (List.mem_cons_of_mem x List.mem_cons_self) rfl
  have hxy : x ≠ y := by
    rintro rfl
    exact (List.nodup_cons.mp hrest).1 List.mem_cons_self
  simp [List.idxOf_append, hxs, hys, hxy, Nat.add_comm]

theorem Beside.next_unique (h : Beside l x y) (h' : Beside l x z) (hl : l.Nodup) : y = z := by
  refine (List.idxOf_inj h.right_mem).mp ?_
  rw [h.idxOf hl, h'.idxOf hl]

theorem Beside.previous_unique (h : Beside l x z) (h' : Beside l y z) (hl : l.Nodup) :
    x = y := by
  refine (List.idxOf_inj h.left_mem).mp ?_
  have hboth := (h.idxOf hl).symm.trans (h'.idxOf hl)
  omega

theorem Beside.head?_ne (h : Beside l x y) (hl : l.Nodup) : l.head? ≠ some y := by
  intro hhead
  obtain ⟨t, rfl⟩ := List.head?_eq_some_iff.mp hhead
  have := h.idxOf hl
  simp at this

theorem Beside.getLast?_ne (h : Beside l x y) (hl : l.Nodup) : l.getLast? ≠ some x := by
  intro hlast
  obtain ⟨t, rfl⟩ := List.getLast?_eq_some_iff.mp hlast
  have hx : x ∉ t := fun hmem =>
    (List.nodup_append.mp hl).2.2 x hmem x (List.mem_singleton_self x) rfl
  have hlt := List.idxOf_lt_length_of_mem h.right_mem
  have := h.idxOf hl
  simp [List.idxOf_append, hx] at this hlt
  omega

theorem Beside.right_mem_of_left {w : List NodeId} (h : Beside (p ++ (w ++ q)) x y)
    (hl : (p ++ (w ++ q)).Nodup) (hx : x ∈ w) (hy : q.head? ≠ some y) : y ∈ w := by
  obtain ⟨-, hwq, hp⟩ := List.nodup_append.mp hl
  have hxp : x ∉ p := fun hmem => hp x hmem x (List.mem_append_left q hx) rfl
  have hxq : x ∉ q := fun hmem => (List.nodup_append.mp hwq).2.2 x hx x hmem rfl
  rcases beside_append.mp h with h | h | ⟨h, -⟩
  · exact absurd h.left_mem hxp
  · rcases beside_append.mp h with h | h | ⟨-, h⟩
    · exact h.right_mem
    · exact absurd h.left_mem hxq
    · exact absurd h hy
  · exact absurd (List.mem_of_getLast? h) hxp

theorem Beside.left_mem_of_right {w : List NodeId} (h : Beside (p ++ (w ++ q)) x y)
    (hl : (p ++ (w ++ q)).Nodup) (hy : y ∈ w) (hx : p.getLast? ≠ some x) : x ∈ w := by
  obtain ⟨-, hwq, hp⟩ := List.nodup_append.mp hl
  have hyp : y ∉ p := fun hmem => hp y hmem y (List.mem_append_left q hy) rfl
  have hyq : y ∉ q := fun hmem => (List.nodup_append.mp hwq).2.2 y hy y hmem rfl
  rcases beside_append.mp h with h | h | ⟨h, -⟩
  · exact absurd h.right_mem hyp
  · rcases beside_append.mp h with h | h | ⟨-, h⟩
    · exact h.left_mem
    · exact absurd h.right_mem hyq
    · exact absurd (List.mem_of_head? h) hyq
  · exact absurd h hx

/-! ## Changes around neighbours -/

theorem Joined.of_beside (h : Beside l x y) : Joined l x y :=
  fun _ => h

theorem Joined.of_notMem (hx : x ∉ l) (hy : y ∉ l) : Joined l x y := by
  rintro (h | h)
  · exact absurd h hx
  · exact absurd h hy

theorem Joined.mem_iff (h : Joined l x y) : x ∈ l ↔ y ∈ l :=
  ⟨fun hx => (h (.inl hx)).right_mem, fun hy => (h (.inr hy)).left_mem⟩

theorem Joined.filter (h : Joined l x y) {doomed : List NodeId}
    (hboth : x ∈ doomed ↔ y ∈ doomed) : Joined (l.filter (· ∉ doomed)) x y := by
  intro hmem
  simp only [List.mem_filter, decide_eq_true_eq] at hmem
  have hkept : x ∉ doomed := by
    rcases hmem with hx | hy
    · exact hx.2
    · exact fun hx => hy.2 (hboth.mp hx)
  obtain ⟨s, t, hst⟩ := h (hmem.imp And.left And.left)
  refine ⟨s.filter (· ∉ doomed), t.filter (· ∉ doomed), ?_⟩
  rw [← hst]
  simp [hkept, hboth.not.mp hkept]

theorem beside_filter {w doomed : List NodeId} (h : m :: (w ++ [n]) <:+: l) (hw : w ⊆ doomed)
    (hm : m ∉ doomed) (hn : n ∉ doomed) : Beside (l.filter (· ∉ doomed)) m n := by
  obtain ⟨s, t, rfl⟩ := h
  have hgone : w.filter (· ∉ doomed) = [] := by
    refine List.filter_eq_nil_iff.mpr fun z hz => ?_
    simp [hw hz]
  refine ⟨s.filter (· ∉ doomed), t.filter (· ∉ doomed), ?_⟩
  rw [List.filter_append, List.filter_append, List.filter_cons_of_pos (by simpa using hm),
    List.filter_append, hgone, List.filter_cons_of_pos (by simpa using hn)]
  rfl

theorem Joined.append (hp : Joined p x y) (hq : Joined q x y) : Joined (p ++ q) x y := by
  intro hmem
  rw [beside_append]
  simp only [List.mem_append] at hmem
  rcases hmem with (hx | hx) | (hy | hy)
  · exact .inl (hp (.inl hx))
  · exact .inr (.inl (hq (.inl hx)))
  · exact .inl (hp (.inr hy))
  · exact .inr (.inl (hq (.inr hy)))

theorem Joined.insert {w : List NodeId} (h : Joined (p ++ q) x y) (hw : Joined w x y)
    (hother : p.getLast? ≠ some x) : Joined (p ++ (w ++ q)) x y := by
  have hold : Beside (p ++ q) x y → Beside (p ++ (w ++ q)) x y := by
    rw [beside_append, beside_append, beside_append]
    rintro (h | h | ⟨hlast, -⟩)
    · exact .inl h
    · exact .inr (.inl (.inr (.inl h)))
    · exact absurd hlast hother
  have hnew : Beside w x y → Beside (p ++ (w ++ q)) x y := by
    rw [beside_append, beside_append]
    exact fun h => .inr (.inl (.inl h))
  intro hmem
  simp only [List.mem_append] at hmem
  rcases hmem with (hx | hx | hx) | (hy | hy | hy)
  · exact hold (h (.inl (List.mem_append_left q hx)))
  · exact hnew (hw (.inl hx))
  · exact hold (h (.inl (List.mem_append_right p hx)))
  · exact hold (h (.inr (List.mem_append_left q hy)))
  · exact hnew (hw (.inr hy))
  · exact hold (h (.inr (List.mem_append_right p hy)))

/-! ## Strings of neighbours -/

theorem all_or_none (h : p.IsChain (Joined l)) : (∀ z ∈ p, z ∈ l) ∨ ∀ z ∈ p, z ∉ l := by
  induction p with
  | nil => exact .inl (by simp)
  | cons x p ih =>
      cases p with
      | nil => simpa using Classical.em (x ∈ l)
      | cons y p =>
          obtain ⟨hxy, hrest⟩ := List.isChain_cons_cons.mp h
          rcases ih hrest with hall | hnone
          · exact .inl (List.forall_mem_cons.mpr ⟨hxy.mem_iff.mpr (hall y List.mem_cons_self), hall⟩)
          · refine .inr (List.forall_mem_cons.mpr ⟨?_, hnone⟩)
            exact fun hx => hnone y List.mem_cons_self (hxy.mem_iff.mp hx)

theorem infix_of_isChain (hl : l.Nodup) (h : p.IsChain (Joined l)) (hz : z ∈ p)
    (hmem : z ∈ l) : p <:+: l := by
  have hall : ∀ z ∈ p, z ∈ l := (all_or_none h).resolve_right fun hnone => hnone z hz hmem
  clear hz hmem
  induction p with
  | nil => exact List.nil_infix
  | cons x p ih =>
      cases p with
      | nil =>
          obtain ⟨s, t, rfl⟩ := List.append_of_mem (hall x List.mem_cons_self)
          exact ⟨s, t, by simp⟩
      | cons y p =>
          obtain ⟨hxy, hrest⟩ := List.isChain_cons_cons.mp h
          obtain ⟨s, t, hst⟩ := ih hrest fun z hz => hall z (List.mem_cons_of_mem x hz)
          have hbeside : Beside l x y := hxy (.inl (hall x List.mem_cons_self))
          have hlast : s.getLast? = some x := by
            have hsplit : l = s ++ (y :: (p ++ t)) := by
              rw [← hst]
              simp
            rw [hsplit] at hbeside hl
            rcases beside_append.mp hbeside with h | h | ⟨h, -⟩
            · exact absurd rfl ((List.nodup_append.mp hl).2.2 y h.right_mem y List.mem_cons_self)
            · exact absurd rfl (h.head?_ne (List.nodup_append.mp hl).2.1)
            · exact h
          obtain ⟨s, rfl⟩ := List.getLast?_eq_some_iff.mp hlast
          exact ⟨s, t, by rw [← hst]; simp⟩

namespace Document

variable {d : Document} {f : NodeId}

/-! ## Children after a change -/

theorem insertable_iff {c : NodeId} :
    d.Insertable c ↔ ∃ kind, d.kind? c = some kind ∧ kind ≠ .fragment := by
  constructor
  · rintro ⟨data, hdata, hkind⟩
    exact ⟨data.kind, kind?_of_node hdata, hkind⟩
  · rintro ⟨kind, hkind, hsolid⟩
    obtain ⟨data, hdata, rfl⟩ := Option.map_eq_some_iff.mp hkind
    exact ⟨data, hdata, hsolid⟩

theorem Insertable.contains {c : NodeId} (h : d.Insertable c) : d.contains c = true := by
  obtain ⟨data, hdata, -⟩ := h
  exact contains_of_node hdata

/-- Inserting a node that is no fragment moves the node itself. -/
theorem Insertable.movedBy {c : NodeId} (h : d.Insertable c) : d.movedBy c = [c] := by
  obtain ⟨kind, hkind, hsolid⟩ := insertable_iff.mp h
  refine if_neg ?_
  rw [hkind]
  exact fun heq => hsolid (Option.some.inj heq)

theorem Tied.joined (h : d.Tied) {p : NodeId} (hbeside : Beside (d.children p) x y)
    (q : NodeId) : Joined (d.children q) x y := by
  rintro (hx | hy)
  · rwa [h.parent_unique hx hbeside.left_mem]
  · rwa [h.parent_unique hy hbeside.right_mem]

theorem Tied.siblingsAfter_of_children (h : d.Tied) {p : NodeId} {before behind : List NodeId}
    (hchildren : d.children p = before ++ m :: behind) :
    d.parent? m = some p ∧ d.siblingsAfter m = behind := by
  have hparent : d.parent? m = some p := (h.agree p m).mpr (by simp [hchildren])
  have hnodup := h.nodup p
  rw [hchildren] at hnodup
  have hm : m ∉ before := fun hmem =>
    (List.nodup_append.mp hnodup).2.2 m hmem m List.mem_cons_self rfl
  refine ⟨hparent, ?_⟩
  simp only [siblingsAfter, hparent, hchildren, dropWhile_ne_append hm, List.drop_succ_cons,
    List.drop_zero]

/-- What stands between two nodes of a run. -/
theorem Tied.between (h : d.Tied) {p : NodeId} {w : List NodeId}
    (hrun : m :: (w ++ [n]) <:+: d.children p) :
    d.parent? m = some p ∧ n ∈ d.siblingsAfter m ∧ d.between m n = w := by
  have hnodup := h.nodup p
  obtain ⟨before, behind, hst⟩ := hrun
  have hsplit : d.children p = before ++ m :: (w ++ n :: behind) := by
    rw [← hst]
    simp
  obtain ⟨hparent, hafter⟩ := h.siblingsAfter_of_children hsplit
  rw [hsplit] at hnodup
  have hn : n ∉ w := fun hmem =>
    (List.nodup_append.mp (List.nodup_cons.mp (List.nodup_append.mp hnodup).2.1).2).2.2
      n hmem n List.mem_cons_self rfl
  refine ⟨hparent, ?_, ?_⟩
  · rw [hafter]
    simp
  · rw [Document.between, hafter, takeWhile_ne_append hn]

/-- Children exist and are no fragments. -/
theorem Tied.insertable (h : d.Tied) {c p : NodeId} (hc : c ∈ d.children p) :
    d.Insertable c := by
  have hparent : d.parent? c = some p := (h.agree p c).mpr hc
  obtain ⟨data, hdata⟩ := exists_node (contains_of_parent? hparent)
  refine ⟨data, hdata, fun hkind => ?_⟩
  have hloose := h.loose c (by rw [kind?_of_node hdata, hkind])
  rw [hparent] at hloose
  cases hloose

theorem Tied.children_removeChildren (h : d.Tied) {p : NodeId} {doomed : List NodeId}
    (hunder : ∀ n ∈ doomed, n ∈ d.children p) (hdistinct : doomed.Nodup) (q : NodeId) :
    (d.removeChildren p doomed).children q = (d.children q).filter (· ∉ doomed) := by
  unfold removeChildren
  induction doomed generalizing d with
  | nil => simp
  | cons n doomed ih =>
      obtain ⟨hn, hdoomed⟩ := List.nodup_cons.mp hdistinct
      have hone := h.children_removeChild (hunder n List.mem_cons_self)
      rw [List.foldl_cons, ih (h.removeChild p n) ?_ hdoomed, hone, List.filter_filter]
      · refine List.filter_congr fun k _ => ?_
        by_cases hkn : k = n <;> simp [hkn]
      · intro m hm
        rw [hone, List.mem_filter]
        refine ⟨hunder m (List.mem_cons_of_mem n hm), ?_⟩
        rw [bne_iff_ne]
        rintro rfl
        exact hn hm

theorem Tied.removeChildren (h : d.Tied) (p : NodeId) (doomed : List NodeId) :
    (d.removeChildren p doomed).Tied := by
  unfold Document.removeChildren
  induction doomed generalizing d with
  | nil => exact h
  | cons n doomed ih => exact ih (h.removeChild p n)

theorem Tied.parent?_removeChildren (h : d.Tied) {p z : NodeId} {doomed : List NodeId}
    (hunder : ∀ n ∈ doomed, n ∈ d.children p) (hdistinct : doomed.Nodup) (hz : z ∈ doomed) :
    (d.removeChildren p doomed).parent? z = none := by
  cases hup : (d.removeChildren p doomed).parent? z with
  | none => rfl
  | some q =>
      have hmem := ((h.removeChildren p doomed).agree q z).mp hup
      rw [h.children_removeChildren hunder hdistinct, List.mem_filter] at hmem
      exact absurd hz (of_decide_eq_true hmem.2)

theorem Tied.children_between (h : d.Tied) {p : NodeId} (hbeside : Beside (d.children p) m n)
    {w : List NodeId} (hmoved : d.movedBy f = w) (hapart : ∀ z ∈ w, z ∉ d.children p) :
    ∃ before behind, d.children p = before ++ m :: n :: behind ∧
      (d.insertBefore p f (some n)).children p = before ++ m :: (w ++ n :: behind) ∧
      ∀ q, q ≠ p →
        (d.insertBefore p f (some n)).children q = (d.children q).filter (· ∉ w) := by
  have hp : d.contains p = true := contains_of_mem_children hbeside.left_mem
  have hnodup := h.nodup p
  obtain ⟨before, behind, hst⟩ := hbeside
  have hchildren : d.children p = (before ++ [m]) ++ n :: behind := by
    rw [← hst]
    simp
  have hn : n ∉ before ++ [m] := by
    rw [hchildren] at hnodup
    exact fun hmem => (List.nodup_append.mp hnodup).2.2 n hmem n List.mem_cons_self rfl
  refine ⟨before, behind, by simp [hchildren], ?_, fun q hq => ?_⟩
  · have hkept : (d.children p).filter (· ∉ w) = d.children p := by
      refine List.filter_eq_self.mpr fun k hk => ?_
      simpa using fun hmem => hapart k hmem hk
    rw [h.children_insertBefore hp, if_pos rfl, hmoved, hkept, hchildren, spliceBefore_some hn]
    simp
  · rw [h.children_insertBefore hp, if_neg hq, hmoved]

theorem Extends.notMem_children {d' : Document} (h : Extends d d') (hd : d.Tied)
    (hd' : d'.Tied) {c p : NodeId} (hc : c < d.size) (hp : d.size ≤ p) :
    c ∉ d'.children p := by
  intro hmem
  have hunder : d'.parent? c = some p := (hd'.agree p c).mpr hmem
  unfold parent? at hunder
  rw [h.same c hc] at hunder
  exact Nat.not_lt.mpr hp (of_decide_eq_true (contains_of_mem_children ((hd.agree p c).mp hunder)))

/-- What appending nodes one after the other makes of a document: each node
ends up where it is appended last. -/
structure Appended (d d' : Document) (f : NodeId) (span : List NodeId) : Prop where
  tied : d'.Tied
  size : d'.size = d.size
  kinds : d'.kind? = d.kind?
  children : ∀ q, d'.children q =
    (d.children q).filter (· ∉ span) ++ if q = f then span.dedup else []
  parents : ∀ k, d'.parent? k = if k ∈ span then some f else d.parent? k

theorem Tied.appended (h : d.Tied) (hf : d.contains f = true) {span : List NodeId}
    (hspan : ∀ n ∈ span, d.Insertable n) :
    Appended d (span.foldl (fun d n => d.append f n) d) f span := by
  induction span generalizing d with
  | nil => exact ⟨h, rfl, rfl, by simp, by simp⟩
  | cons n span ih =>
      have hn := hspan n List.mem_cons_self
      have hmoved := hn.movedBy
      have hkinds : (d.append f n).kind? = d.kind? := kind?_insertBefore d f n none
      have hchildren : ∀ q, (d.append f n).children q =
          (d.children q).filter (· ∉ [n]) ++ if q = f then [n] else [] := by
        intro q
        rw [append, h.children_insertBefore hf, hmoved]
        split <;> simp_all
      have hparents : ∀ k, (d.append f n).parent? k = if k ∈ [n] then some f else d.parent? k := by
        intro k
        rw [append, h.parent?_insertBefore hn.contains, hmoved]
      have hsize : (d.append f n).size = d.size := size_insertBefore d f n none
      have htied : (d.append f n).Tied := h.insertBefore hf hn.contains none
      have hf' : (d.append f n).contains f = true := by rwa [contains, hsize]
      have hrest : ∀ m ∈ span, (d.append f n).Insertable m := by
        intro m hm
        rw [insertable_iff, hkinds]
        exact insertable_iff.mp (hspan m (List.mem_cons_of_mem n hm))
      obtain ⟨htied', hsize', hkinds', hchildren', hparents'⟩ := ih htied hf' hrest
      refine ⟨htied', hsize'.trans hsize, hkinds'.trans hkinds, ?_, ?_⟩
      · intro q
        rw [List.foldl_cons, hchildren', hchildren, List.filter_append, List.filter_filter]
        have hkept : (d.children q).filter (fun a => decide (a ∉ span) && decide (a ∉ [n])) =
            (d.children q).filter (· ∉ n :: span) := by
          refine List.filter_congr fun k _ => ?_
          by_cases hkn : k = n <;> simp [hkn]
        rw [hkept, List.append_assoc]
        congr 1
        by_cases hq : q = f
        · by_cases hmem : n ∈ span
          · simp [hq, hmem]
          · simp [hq, hmem, List.dedup_cons_of_notMem]
        · simp [hq]
      · intro k
        rw [List.foldl_cons, hparents', hparents]
        by_cases hk : k ∈ span
        · simp [hk]
        · by_cases hkn : k = n <;> simp [hk, hkn]

theorem Tied.gathered (h : d.Tied) {span : List NodeId} (hspan : ∀ n ∈ span, d.Insertable n) :
    (d.gather span).1 = d.size ∧
      Appended (d.create .fragment).2 (d.gather span).2 d.size span := by
  refine ⟨rfl, (h.create .fragment).appended ?_ ?_⟩
  · exact decide_eq_true (by simp)
  · intro n hn
    obtain ⟨data, hdata, hkind⟩ := hspan n hn
    refine ⟨data, ?_, hkind⟩
    rw [node_create_other d .fragment (lt_size_of_node hdata)]
    exact hdata

/-- Gathered nodes are what inserting the new fragment moves, each where it is named last;
everybody else loses them. -/
theorem Tied.gather_moves (h : d.Tied) {span : List NodeId}
    (hspan : ∀ n ∈ span, d.Insertable n) :
    (d.gather span).2.contains d.size = true ∧ (d.gather span).2.movedBy d.size = span.dedup ∧
      (d.gather span).2.children d.size = span.dedup ∧
      (∀ k, (d.gather span).2.parent? k = if k ∈ span then some d.size else d.parent? k) ∧
      ∀ q, q ≠ d.size → (d.gather span).2.children q = (d.children q).filter (· ∉ span) := by
  obtain ⟨-, happended⟩ := h.gathered hspan
  have hkind : (d.gather span).2.kind? d.size = some .fragment := by
    rw [happended.kinds]
    exact kind?_of_node (d.node_create_self .fragment)
  have hchildren : (d.gather span).2.children d.size = span.dedup := by
    have hbare : d.children d.size = [] := by
      rw [children, Array.getElem?_eq_none (Nat.le_refl d.size)]
    rw [happended.children, children_create, hbare, if_pos rfl]
    rfl
  refine ⟨decide_eq_true ?_, ?_, hchildren, fun k => ?_, fun q hq => ?_⟩
  · rw [happended.size]
    simp
  · rw [movedBy, if_pos hkind, hchildren]
  · rw [happended.parents, parent?_create]
  · rw [happended.children, children_create, if_neg hq, List.append_nil]

theorem Tied.gather_moved (h : d.Tied) {span : List NodeId}
    (hspan : ∀ n ∈ span, d.Insertable n) (hdistinct : span.Nodup) :
    (d.gather span).2.contains d.size = true ∧ (d.gather span).2.movedBy d.size = span ∧
      (∀ z ∈ span, (d.gather span).2.parent? z = some d.size) ∧
      ∀ q, q ≠ d.size → (d.gather span).2.children q = (d.children q).filter (· ∉ span) := by
  obtain ⟨hfragment, hmoved, -, hparents, hothers⟩ := h.gather_moves hspan
  exact ⟨hfragment, hmoved.trans hdistinct.dedup, fun z hz => (hparents z).trans (if_pos hz),
    hothers⟩

end Document

end LiveMarkup
