import LiveMarkup.Proofs.Document.Operations
import LiveMarkup.Proofs.Instance.Opening

/-!
# Refilling a region with gathered nodes

A region is cleared, nodes are gathered from wherever they are, and the fragment
that they are in by then is put before the last marker. Unless the markers are
among these nodes themselves, the nodes are what is between the markers afterwards.
A marker that is one of them moves along, so that fewer nodes are between the
markers, or those that used to be behind them.
-/

namespace LiveMarkup

variable {d : Document} {m n p : NodeId} {r : Region} {span before behind : List NodeId}

open Document (takeWhile_ne_append dropWhile_ne_append splitAt_of_notMem spliceBefore_some)

namespace Region

theorem between_clear (hd : d.Tied) (hmem : r.last ∉ d.siblingsAfter r.first) :
    ∃ e d', r.clear d = (some e, d') ∧ d'.between r.first r.last = [] := by
  rcases clear_of_notMem hmem with ⟨hparent, hclear⟩ | ⟨p, hparent, hclear⟩
  · refine ⟨_, d, hclear, ?_⟩
    rw [Document.between, Document.siblingsAfter, hparent]
    rfl
  · refine ⟨_, _, hclear, ?_⟩
    obtain ⟨before, behind, hchildren⟩ := List.append_of_mem ((hd.agree p r.first).mp hparent)
    obtain ⟨-, hafter⟩ := hd.siblingsAfter_of_children hchildren
    have hbetween : d.between r.first r.last = behind := by
      rw [Document.between, hafter, (splitAt_of_notMem (hafter ▸ hmem)).1]
    have hsplit : d.children p = (before ++ [r.first]) ++ (behind ++ []) := by simp [hchildren]
    have hleft : (d.removeChildren p behind).children p = before ++ r.first :: [] := by
      rw [hd.children_removeRun hsplit, List.append_nil]
    rw [hbetween, Document.between,
      ((hd.removeChildren p behind).siblingsAfter_of_children hleft).2]
    rfl

/-! ## Gathering -/

theorem exists_split_dedup (hm : m ∈ span) :
    ∃ l₁ l₂, span.dedup = l₁ ++ m :: l₂ ∧ (span.dedup.dropWhile (· != m)).drop 1 = l₂ := by
  obtain ⟨l₁, l₂, hdedup⟩ := List.append_of_mem (List.mem_dedup.mpr hm)
  have hnodup := List.nodup_dedup span
  rw [hdedup] at hnodup
  have hnot : m ∉ l₁ := fun hmem =>
    (List.nodup_append.mp hnodup).2.2 m hmem m List.mem_cons_self rfl
  refine ⟨l₁, l₂, hdedup, ?_⟩
  rw [hdedup, dropWhile_ne_append hnot, List.drop_succ_cons, List.drop_zero]

section

variable (hd : d.Tied) (hspan : ∀ n ∈ span, d.Insertable n)
include hd hspan

theorem children_insert_inside (n : NodeId) :
    ((d.gather span).2.insertBefore d.size d.size (some n)).Tied ∧
      ((d.gather span).2.insertBefore d.size d.size (some n)).children d.size = span.dedup ∧
      ∀ q, q ≠ d.size → ((d.gather span).2.insertBefore d.size d.size (some n)).children q =
        (d.children q).filter (· ∉ span) := by
  obtain ⟨hfragment, hmoved, hchildren, -, hothers⟩ := hd.gather_moves hspan
  have htied := (hd.gathered hspan).2.tied
  refine ⟨htied.insertBefore hfragment hfragment _, ?_, fun q hq => ?_⟩
  · have hnone : span.dedup.filter (· ∉ span.dedup) = [] :=
      List.filter_eq_nil_iff.mpr (by simp)
    rw [htied.children_insertBefore hfragment, if_pos rfl, hmoved, hchildren, hnone]
    simp [Document.spliceBefore]
  · rw [htied.children_insertBefore hfragment, if_neg hq, hmoved, hothers q hq,
      List.filter_filter]
    refine List.filter_congr fun k _ => ?_
    simp

theorem children_insert_before (hn : n ∉ span) (hchildren : d.children p = before ++ n :: behind) :
    ((d.gather span).2.insertBefore p d.size (some n)).Tied ∧
      ((d.gather span).2.insertBefore p d.size (some n)).children p =
        before.filter (· ∉ span) ++ span.dedup ++ n :: behind.filter (· ∉ span) := by
  obtain ⟨hfragment, hmoved, -, -, hothers⟩ := hd.gather_moves hspan
  have htied := (hd.gathered hspan).2.tied
  have hp : d.contains p = true := Document.contains_of_mem_children (c := n) (by simp [hchildren])
  have hpf : p ≠ d.size := Nat.ne_of_lt (of_decide_eq_true hp)
  have hp' : (d.gather span).2.contains p = true := by
    refine Document.contains_of_mem_children (c := n) ?_
    rw [hothers p hpf, hchildren]
    simp [hn]
  have hnodup := hd.nodup p
  rw [hchildren] at hnodup
  have hbefore : n ∉ before.filter (· ∉ span) := fun hmem =>
    (List.nodup_append.mp hnodup).2.2 n (List.mem_of_mem_filter hmem) n List.mem_cons_self rfl
  have hkept : (d.children p).filter (· ∉ span) =
      before.filter (· ∉ span) ++ n :: behind.filter (· ∉ span) := by
    rw [hchildren, List.filter_append, List.filter_cons_of_pos (by simpa using hn)]
  have hagain : ((d.children p).filter (· ∉ span)).filter (· ∉ span.dedup) =
      (d.children p).filter (· ∉ span) := by
    refine List.filter_eq_self.mpr fun k hk => ?_
    simpa using (List.mem_filter.mp hk).2
  refine ⟨htied.insertBefore hp' hfragment _, ?_⟩
  rw [htied.children_insertBefore hp', if_pos rfl, hmoved, hothers p hpf, hagain, hkept,
    spliceBefore_some hbefore]

theorem between_insert_inside (hchildren : d.children p = before ++ r.first :: r.last :: behind)
    (hlast : r.last ∈ span) :
    ((d.gather span).2.insertBefore d.size d.size (some r.last)).between r.first r.last =
      if r.first ∈ span then
        ((span.dedup.dropWhile (· != r.first)).drop 1).takeWhile (· != r.last)
      else behind.filter (· ∉ span) := by
  obtain ⟨htied, hinside, hothers⟩ := children_insert_inside hd hspan r.last
  have hpf : p ≠ d.size := Nat.ne_of_lt (of_decide_eq_true
    (Document.contains_of_mem_children (c := r.last) (by simp [hchildren])))
  rw [Document.between]
  split
  · rename_i hfirst
    obtain ⟨l₁, l₂, hdedup, hrest⟩ := exists_split_dedup hfirst
    rw [hdedup] at hinside
    rw [(htied.siblingsAfter_of_children hinside).2, hrest]
  · rename_i hfirst
    have hunder := hothers p hpf
    rw [hchildren, List.filter_append, List.filter_cons_of_pos (by simpa using hfirst),
      List.filter_cons_of_neg (by simpa using hlast)] at hunder
    rw [(htied.siblingsAfter_of_children hunder).2]
    exact (splitAt_of_notMem fun hmem => by simp [hlast] at hmem).1

theorem between_insert_before (hchildren : d.children p = before ++ r.first :: r.last :: behind)
    (hlast : r.last ∉ span) :
    ((d.gather span).2.insertBefore p d.size (some r.last)).between r.first r.last =
      if r.first ∈ span then
        ((span.dedup.dropWhile (· != r.first)).drop 1).takeWhile (· != r.last)
      else span.dedup := by
  have hsplit : d.children p = (before ++ [r.first]) ++ r.last :: behind := by simp [hchildren]
  obtain ⟨htied, hunder⟩ := children_insert_before hd hspan hlast hsplit
  have hnotMem : r.last ∉ span.dedup := by simpa using hlast
  rw [Document.between]
  split
  · rename_i hfirst
    obtain ⟨l₁, l₂, hdedup, hrest⟩ := exists_split_dedup hfirst
    rw [hdedup] at hunder hnotMem
    have hrun : (before ++ [r.first]).filter (· ∉ span) ++ (l₁ ++ r.first :: l₂) ++
        r.last :: behind.filter (· ∉ span) = ((before ++ [r.first]).filter (· ∉ span) ++ l₁) ++
          r.first :: (l₂ ++ r.last :: behind.filter (· ∉ span)) := by simp
    have hrest' : r.last ∉ l₂ := fun hmem => hnotMem (by simp [hmem])
    rw [(htied.siblingsAfter_of_children (hunder.trans hrun)).2, hrest,
      takeWhile_ne_append hrest', (splitAt_of_notMem hrest').1]
  · rename_i hfirst
    have hrun : (before ++ [r.first]).filter (· ∉ span) ++ span.dedup ++
        r.last :: behind.filter (· ∉ span) = before.filter (· ∉ span) ++
          r.first :: (span.dedup ++ r.last :: behind.filter (· ∉ span)) := by simp [hfirst]
    rw [(htied.siblingsAfter_of_children (hunder.trans hrun)).2, takeWhile_ne_append hnotMem]

theorem between_fill_gathered (content : Content)
    (hchildren : d.children p = before ++ r.first :: r.last :: behind) :
    (r.fill d.size content (d.gather span).2).2.2.between r.first r.last =
      if r.first ∈ span then
        ((span.dedup.dropWhile (· != r.first)).drop 1).takeWhile (· != r.last)
      else if r.last ∈ span then behind.filter (· ∉ span)
      else span.dedup := by
  obtain ⟨hfragment, -, -, hparents, -⟩ := hd.gather_moves hspan
  have hparent : (d.gather span).2.parent? r.last =
      some (if r.last ∈ span then d.size else p) := by
    have hunder : d.parent? r.last = some p := (hd.agree p r.last).mpr (by simp [hchildren])
    rw [hparents, hunder]
    split <;> rfl
  simp only [fill, hparent, hfragment, if_true]
  by_cases hlast : r.last ∈ span
  · simp only [hlast, if_true]
    exact between_insert_inside hd hspan hchildren hlast
  · simp only [hlast, if_false]
    exact between_insert_before hd hspan hchildren hlast

end

/-! ## Refilling -/

/-- What is between the markers of a region after nodes were gathered into it. Nodes that are
named more than once stand where they are named last. -/
def refilled (span : List NodeId) (r : Region) (d : Document) : List NodeId :=
  if r.last ∉ d.siblingsAfter r.first then []
  else if r.first ∈ span then
    ((span.dedup.dropWhile (· != r.first)).drop 1).takeWhile (· != r.last)
  else if r.last ∈ span then (d.siblingsAfter r.last).filter (· ∉ span)
  else span.dedup

/-- Rendering a shared instance into a region gathers its nodes there. -/
theorem between_replace_shared {spans : InstanceId → List NodeId} {t : InstanceId} (hd : d.Tied)
    (hspan : ∀ n ∈ spans t, d.Insertable n) :
    (r.replace ((Value.shared t).rendering spans) d).2.2.between r.first r.last =
      r.refilled (spans t) d := by
  unfold replace refilled
  dsimp only
  by_cases hmem : r.last ∈ d.siblingsAfter r.first
  · obtain ⟨p, before, -, hclear, hchildren⟩ :=
      children_clear (r := { r with content := .empty }) hd hmem
    have hfollows := hd.follows_removeChildren p (d.between r.first r.last)
    rw [hclear, if_neg (not_not_intro hmem)]
    exact between_fill_gathered (r := { r with content := .empty }) hfollows.tied
      (fun n hn => hfollows.kept n (hspan n hn)) (.shared t) hchildren
  · obtain ⟨e, d', hclear, hbetween⟩ :=
      between_clear (r := { r with content := .empty }) hd hmem
    rw [hclear, if_pos hmem]
    exact hbetween

end Region

end LiveMarkup
