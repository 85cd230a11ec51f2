import LiveMarkup.Proofs.Document.Neighbours
import LiveMarkup.Proofs.Instance.Regions

/-!
# Clearing and filling anywhere

A region can be cleared if its last marker stands behind its first one, whatever
stands between them; then the two are side by side. Filling puts what is inserted
between them, and nothing else is there.
-/

namespace LiveMarkup

variable {d : Document} {m n p : NodeId} {r : Region}

namespace Document

theorem Tied.run_of_mem_siblingsAfter (h : d.Tied) (hmem : n ∈ d.siblingsAfter m) :
    ∃ p, d.parent? m = some p ∧ m :: (d.between m n ++ [n]) <:+: d.children p := by
  cases hparent : d.parent? m with
  | none => simp [siblingsAfter, hparent] at hmem
  | some p =>
      refine ⟨p, rfl, ?_⟩
      obtain ⟨before, rest, hchildren⟩ :=
        List.append_of_mem ((h.agree p m).mp hparent)
      obtain ⟨-, hafter⟩ := h.siblingsAfter_of_children hchildren
      rw [hafter] at hmem
      obtain ⟨between, behind, rfl, hfirst⟩ := List.eq_append_cons_of_mem hmem
      have hbetween : d.between m n = between := by
        rw [Document.between, hafter, takeWhile_ne_append hfirst]
      exact ⟨before, behind, by simp [hchildren, hbetween]⟩

theorem Tied.children_removeRun (h : d.Tied) {w before behind : List NodeId}
    (hchildren : d.children p = before ++ (w ++ behind)) :
    (d.removeChildren p w).children p = before ++ behind := by
  have hnodup := h.nodup p
  rw [hchildren] at hnodup
  obtain ⟨-, hrest, hbefore⟩ := List.nodup_append.mp hnodup
  obtain ⟨hdistinct, -, hbehind⟩ := List.nodup_append.mp hrest
  have hunder : ∀ k ∈ w, k ∈ d.children p := by
    intro k hk
    rw [hchildren]
    simp [hk]
  have hfront : before.filter (· ∉ w) = before := List.filter_eq_self.mpr fun k hk =>
    decide_eq_true fun hkw => hbefore k hk k (List.mem_append_left _ hkw) rfl
  have hgone : w.filter (· ∉ w) = [] := List.filter_eq_nil_iff.mpr (by simp)
  have hback : behind.filter (· ∉ w) = behind := List.filter_eq_self.mpr fun k hk =>
    decide_eq_true fun hkw => hbehind k hkw k hk rfl
  rw [h.children_removeChildren hunder hdistinct, hchildren, List.filter_append,
    List.filter_append, hfront, hgone, hback, List.nil_append]

end Document

namespace Region

/-- A region whose last marker stands behind its first one can be cleared; its markers are side
by side then, before whatever was behind them. -/
theorem children_clear (hd : d.Tied) (hmem : r.last ∈ d.siblingsAfter r.first) :
    ∃ p before, d.parent? r.first = some p ∧
      r.clear d = (none, d.removeChildren p (d.between r.first r.last)) ∧
      (d.removeChildren p (d.between r.first r.last)).children p =
        before ++ r.first :: r.last :: d.siblingsAfter r.last := by
  obtain ⟨p, hparent, before, behind, hrun⟩ := hd.run_of_mem_siblingsAfter hmem
  have hbehind : d.children p =
      (before ++ r.first :: d.between r.first r.last) ++ r.last :: behind := by simp [← hrun]
  have hinner : d.children p =
      (before ++ [r.first]) ++ (d.between r.first r.last ++ r.last :: behind) := by simp [← hrun]
  refine ⟨p, before, hparent, by simp only [clear, hparent, hmem, if_true], ?_⟩
  rw [hd.children_removeRun hinner, (hd.siblingsAfter_of_children hbehind).2]
  simp

theorem clear_of_mem (hd : d.Tied) (hmem : r.last ∈ d.siblingsAfter r.first) :
    ∃ p, d.parent? r.first = some p ∧
      r.clear d = (none, d.removeChildren p (d.between r.first r.last)) ∧
      Beside ((d.removeChildren p (d.between r.first r.last)).children p) r.first r.last := by
  obtain ⟨p, before, hparent, hclear, hchildren⟩ := children_clear hd hmem
  refine ⟨p, hparent, hclear, ?_⟩
  rw [hchildren]
  exact beside_middle before _ r.first r.last

/-- A region cannot be cleared if its first marker stands nowhere, or its last one not
behind it. -/
theorem clear_of_notMem (hmem : r.last ∉ d.siblingsAfter r.first) :
    (d.parent? r.first = none ∧ r.clear d = (some (.detachedMarker r.path), d)) ∨
      ∃ p, d.parent? r.first = some p ∧ r.clear d =
        (some (.missingEndMarker r.path), d.removeChildren p (d.between r.first r.last)) := by
  cases hparent : d.parent? r.first with
  | none => exact .inl ⟨rfl, by simp only [clear, hparent]⟩
  | some p => exact .inr ⟨p, rfl, by simp only [clear, hparent, hmem, if_false]⟩

theorem fill_beside (hd : d.Tied) (hbeside : Beside (d.children p) r.first r.last)
    (hn : d.contains n = true) {w : List NodeId} (hmoved : d.movedBy n = w)
    (hapart : ∀ z ∈ w, z ∉ d.children p) (content : Content) :
    r.fill n content d =
        ({ r with content := content.taking w }, none, d.insertBefore p n (some r.last)) ∧
      (d.insertBefore p n (some r.last)).parent? r.first = some p ∧
      r.last ∈ (d.insertBefore p n (some r.last)).siblingsAfter r.first ∧
      (d.insertBefore p n (some r.last)).between r.first r.last = w := by
  have hlast : d.parent? r.last = some p := (hd.agree p r.last).mpr hbeside.right_mem
  have htied : (d.insertBefore p n (some r.last)).Tied :=
    hd.insertBefore (Document.contains_of_mem_children hbeside.left_mem) hn _
  obtain ⟨before, behind, -, hchildren, -⟩ := hd.children_between hbeside hmoved hapart
  have hrun : r.first :: (w ++ [r.last]) <:+:
      (d.insertBefore p n (some r.last)).children p := ⟨before, behind, by simp [hchildren]⟩
  obtain ⟨hparent, hmem, hbetween⟩ := htied.between hrun
  refine ⟨?_, hparent, hmem, hbetween⟩
  simp only [fill, hlast, hn, if_true, hbetween]
  cases content <;> rfl

end Region

end LiveMarkup
