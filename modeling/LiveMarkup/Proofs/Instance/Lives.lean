import LiveMarkup.Instance.Stage
import LiveMarkup.Proofs.Instance.Drifting

/-!
# Lives of instances

An instance is made and then given plain values again and again, and meanwhile
its topmost nodes may be moved about as long as nothing in or under them is
changed by anybody else. Whatever its life was, and wherever its nodes are, what
it remembers is true: its span lists exactly its topmost nodes.
-/

namespace LiveMarkup

open Branch (idsAll tops)

variable {markup : CompiledTemplate → List Node} {d d' : Document} {bs : List Branch}

/-! ## Spans of instances that fit -/

namespace Layout

variable {say : Nat → List Attribute → Attributes → Properties → Prop} {next : Nat}
  {ns : List Node} {elements : List NodeId} {marks : List Mark}

theorem marks_sublist (h : Layout say next ns elements marks bs) :
    (idsAll (marks.flatMap Mark.branches)).Sublist (idsAll bs) := by
  induction h with
  | nil => exact .slnil
  | text _ ih | comment _ ih => exact ih.cons _
  | placeholder _ ih =>
      rw [List.flatMap_cons, Branch.idsAll_append, Branch.idsAll_append]
      exact ih.append_left _
  | element _ _ _ ihUnder ihRest =>
      rw [List.flatMap_append, Branch.idsAll_append, Branch.idsAll_cons, Branch.ids_node]
      exact (ihUnder.cons _).append ihRest

theorem held_sublist (h : Layout say next ns elements marks bs) :
    ∀ m ∈ marks, (idsAll m.branches).Sublist (idsAll bs) := fun m hm => by
  obtain ⟨before, behind, rfl⟩ := List.append_of_mem hm
  refine (Branch.idsAll_sublist ?_).trans h.marks_sublist
  rw [List.flatMap_append, List.flatMap_cons]
  exact (List.sublist_append_left _ _).trans (List.sublist_append_right _ _)

theorem first_mem (h : Layout say next ns elements marks bs) {m : Mark} (hm : m ∈ marks) :
    m.first ∈ idsAll bs :=
  (h.held_sublist m hm).subset (by simp [Mark.branches, Branch.comment])

/-- The topmost nodes that stand for nodes of the template, each first marker followed by what
its region holds, are all topmost nodes. -/
theorem assembleSpan_roots (h : Layout say next ns elements marks bs)
    (hdistinct : (idsAll bs).Nodup) {table : List (NodeId × List NodeId)}
    (hmarks : ∀ m ∈ marks, table.lookup m.first = some (tops m.held))
    (hothers : ∀ k ∈ idsAll bs, (∀ m ∈ marks, m.first ≠ k) → table.lookup k = none) :
    assembleSpan table (roots ns marks bs) = tops bs := by
  have hplain : ∀ {n : NodeId} {rest : List NodeId}, table.lookup n = none →
      assembleSpan table (n :: rest) = n :: assembleSpan table rest := by
    intro n rest hn
    rw [assembleSpan, List.flatMap_cons, hn]
    rfl
  induction h with
  | nil => rfl
  | @text next data n rest elements marks bs hlayout ih =>
      obtain ⟨hn, hdistinct⟩ := List.nodup_cons.mp hdistinct
      have hnone := hothers n List.mem_cons_self fun m hm heq => hn (heq ▸ hlayout.first_mem hm)
      rw [roots_text, Branch.tops_cons, ← ih hdistinct hmarks fun k hk =>
        hothers k (List.mem_cons_of_mem n hk)]
      exact hplain hnone
  | @comment next data n rest elements marks bs hlayout ih =>
      obtain ⟨hn, hdistinct⟩ := List.nodup_cons.mp hdistinct
      have hnone := hothers n List.mem_cons_self fun m hm heq => hn (heq ▸ hlayout.first_mem hm)
      rw [roots_comment, Branch.tops_cons, ← ih hdistinct hmarks fun k hk =>
        hothers k (List.mem_cons_of_mem n hk)]
      exact hplain hnone
  | @placeholder m rest elements marks bs hlayout ih =>
      rw [Branch.idsAll_append] at hdistinct
      obtain ⟨hown, hrest, hapart⟩ := List.nodup_append.mp hdistinct
      have hmarkers : m.first ∈ idsAll m.branches ∧ m.last ∈ idsAll m.branches := by
        simp [Mark.branches, Branch.comment]
      have hdiffer : m.first ≠ m.last := by
        rintro heq
        simp [Mark.branches, Branch.comment, heq] at hown
      have hlast : table.lookup m.last = none := by
        refine hothers m.last (by simp [hmarkers.2]) fun m' hm' heq => ?_
        rcases List.mem_cons.mp hm' with rfl | hm'
        · exact hdiffer heq
        · exact hapart m.last hmarkers.2 m.last (heq ▸ hlayout.first_mem hm') rfl
      have hih := ih hrest (fun m' hm' => hmarks m' (List.mem_cons_of_mem m hm')) fun k hk hne => by
        refine hothers k (by simp [hk]) fun m' hm' heq => ?_
        rcases List.mem_cons.mp hm' with rfl | hm'
        · exact hapart m'.first hmarkers.1 k hk heq
        · exact hne m' hm' heq
      rw [roots_placeholder, assembleSpan, List.flatMap_cons, hmarks m List.mem_cons_self,
        Option.getD_some]
      have hbehind : (m.last :: roots rest marks bs).flatMap
          (fun n => n :: (table.lookup n).getD []) = m.last :: tops bs :=
        (hplain hlast).trans (congrArg (m.last :: ·) hih)
      rw [hbehind]
      simp [Mark.branches, Branch.comment]
  | @element next name as children rest n attributes properties inner elements held marks
      under bs _ hunder hlayout _ ihRest =>
      rw [Branch.idsAll_cons] at hdistinct
      obtain ⟨hown, hrest, hapart⟩ := List.nodup_append.mp hdistinct
      have hn : n ∉ idsAll under := (List.nodup_cons.mp hown).1
      have hbelow : ∀ m ∈ held, m.first ∈ idsAll under := fun m hm => hunder.first_mem hm
      have hnone : table.lookup n = none := by
        refine hothers n List.mem_cons_self fun m hm heq => ?_
        rcases List.mem_append.mp hm with hm | hm
        · exact hn (heq ▸ hbelow m hm)
        · exact hapart n (by simp) m.first (hlayout.first_mem hm) heq.symm
      have hih := ihRest hrest (fun m hm => hmarks m (List.mem_append_right _ hm))
        fun k hk hne => by
          refine hothers k (by simp [hk]) fun m hm heq => ?_
          rcases List.mem_append.mp hm with hm | hm
          · exact hapart m.first (by simp [hbelow m hm]) k hk heq
          · exact hne m hm heq
      rw [roots_element hunder, Branch.tops_cons, ← hih]
      exact hplain hnone

end Layout

theorem Region.FitAll.exists_region {regions : List Region} {marks : List Mark}
    (h : Region.FitAll markup regions marks) {m : Mark} (hm : m ∈ marks) :
    ∃ r ∈ regions, r.Fits markup m := by
  induction marks generalizing regions with
  | nil => cases hm
  | cons m' marks ih =>
      cases regions with
      | nil => exact h.elim
      | cons r regions =>
          obtain ⟨hr, hrest⟩ := Region.fitAll_cons.mp h
          rcases List.mem_cons.mp hm with rfl | hm
          · exact ⟨r, List.mem_cons_self, hr⟩
          · obtain ⟨q, hq, hfits⟩ := ih hrest hm
            exact ⟨q, List.mem_cons_of_mem r hq, hfits⟩

section

variable (shared : InstanceId → List NodeId)

mutual

theorem Instance.spanWith_of_fits : (i : Instance) → {bs : List Branch} → i.Fits markup bs →
    (idsAll bs).Nodup → i.spanWith shared = tops bs
  | ⟨_, _, _, _, regions⟩, bs, hfit, hdistinct => by
      obtain ⟨-, marks, hlayout, rfl, hregions⟩ := hfit
      have hfirsts : (regions.map Region.first).Nodup := by
        refine (Region.distinct_markers ?_).1
        rw [hregions.markers_eq, List.flatMap_map]
        exact hdistinct.sublist hlayout.markers_sublist
      rw [Instance.spanWith]
      refine hlayout.assembleSpan_roots hdistinct (fun m hm => ?_) fun k _ hne => ?_
      · obtain ⟨r, hr, -, hfirst, -, hheld⟩ := hregions.exists_region hm
        have hsub : (idsAll m.held).Sublist (idsAll bs) := by
          refine List.Sublist.trans ?_ (hlayout.held_sublist m hm)
          simp only [Mark.branches, Branch.idsAll_append, Branch.idsAll_cons]
          exact (List.sublist_append_right _ _).trans (List.sublist_append_left _ _)
        rw [← hfirst, Region.lookup_spansWith hfirsts hr,
          Region.spanWith_of_fits regions r hr hheld (hdistinct.sublist hsub)]
      · refine Region.lookup_spansWith_none fun r hr heq => ?_
        have hmem : r.markers ∈ marks.map fun m => (m.first, m.last) :=
          hregions.markers_eq ▸ List.mem_map_of_mem hr
        obtain ⟨m, hm, hmarkers⟩ := List.mem_map.mp hmem
        exact hne m hm ((Prod.mk.inj hmarkers).1.trans heq)

theorem Region.spanWith_of_fits : (regions : List Region) → ∀ r ∈ regions,
    ∀ {held : List Branch}, r.content.Fits markup held → (idsAll held).Nodup →
      r.content.spanWith shared = tops held
  | ⟨_, _, _, _, content⟩ :: rest, r, hr, _, hfit, hdistinct => by
      rcases List.mem_cons.mp hr with rfl | hr
      · exact Content.spanWith_of_fits content hfit hdistinct
      · exact Region.spanWith_of_fits rest r hr hfit hdistinct

theorem Content.spanWith_of_fits : (content : Content) → {held : List Branch} →
    content.Fits markup held → (idsAll held).Nodup → content.spanWith shared = tops held
  | .empty, held, hfit, _ => by
      obtain rfl : held = [] := hfit
      rfl
  | .text n data, held, hfit, _ => by
      obtain rfl : held = [.text n data] := hfit
      rfl
  | .own inner, _, hfit, hdistinct => Instance.spanWith_of_fits inner hfit hdistinct
  | .shared _, _, hfit, _ => hfit.elim
  | .nodes _, _, hfit, _ => hfit

end

end

/-- The number of an instance that fits branches stands for their topmost nodes. -/
theorem SharedInstances.span_of_fits {pool : SharedInstances} {id : InstanceId} {i : Instance}
    (hi : pool[id]? = some i) (hfit : i.Fits markup bs) (hdistinct : (idsAll bs).Nodup) :
    pool.span id = Branch.tops bs := by
  obtain ⟨depth, hdepth⟩ := Nat.exists_eq_succ_of_ne_zero
    (Nat.ne_zero_of_lt (List.getElem?_eq_some_iff.mp hi).1)
  rw [SharedInstances.span, hdepth, SharedInstances.spanWithin, hi]
  exact i.spanWith_of_fits _ hfit hdistinct

/-! ## Lives -/

namespace Instance

/-- The span of an instance that holds no shared ones. -/
def span (i : Instance) : List NodeId :=
  i.spanWith fun _ => []

/-- What becomes of an instance of a compiled template that is given plain values, whether it
fails or not, while the document may change as long as nobody else changes what is in or
under its topmost nodes. -/
inductive Lives : Instance → Document → Prop
  | create {source : CompiledTemplate} {d d' : Document} {i : Instance}
      (hsource : source.HasNodes) (hd : d.Tied) (hcreate : create source d = (.ok i, d')) :
      Lives i d'
  | patch {i : Instance} {d : Document} (h : Lives i d) (spans : InstanceId → List NodeId)
      {values : List Value} (hplain : Value.ArePlain CompiledTemplate.HasNodes values) :
      Lives (i.patch spans values d).1 (i.patch spans values d).2.2
  | meanwhile {i : Instance} {d d' : Document} (h : Lives i d) (hd : d'.Tied)
      (hsame : Document.SameUnder i.span d d') : Lives i d'

variable {i : Instance}

theorem span_of_fits (hfit : i.Fits markup bs) (hdistinct : (idsAll bs).Nodup) :
    i.span = tops bs :=
  i.spanWith_of_fits _ hfit hdistinct

theorem Lives.strewn (h : i.Lives d) :
    ∃ bs, i.Fits CompiledTemplate.someNodes bs ∧ d.Strewn bs := by
  induction h with
  | @create source d d' i hsource hd hcreate =>
      obtain ⟨i', d₁, bs, hcreate', hfresh⟩ :=
        create_fresh CompiledTemplate.someNodes hsource.compiled d
      cases hcreate.symm.trans hcreate'
      refine ⟨bs, fits_iff.mpr ?_, .of_grows (create_parts hsource hd hcreate).1
        hfresh.placed.grows hfresh.placed.ids_nodup⟩
      rw [hfresh.source]
      exact hfresh.fits
  | @patch i d _ spans values hplain ih =>
      obtain ⟨bs, hfit, hs⟩ := ih
      obtain ⟨i', e, d', bs', hpatch, hsource, hfit', hdrift⟩ :=
        Value.drifts_patch spans hplain (fits_iff.mp hfit)
          d [] [] (by simpa using hs)
      dsimp only at hpatch
      rw [hpatch]
      refine ⟨bs', fits_iff.mpr ?_, by simpa using hdrift.strewn⟩
      rw [hsource]
      exact hfit'
  | meanwhile _ hd hsame ih =>
      obtain ⟨bs, hfit, hs⟩ := ih
      rw [span_of_fits hfit hs.distinct] at hsame
      exact ⟨bs, hfit, hs.same hd hsame⟩

theorem Lives.span_eq (h : i.Lives d) {pool : SharedInstances} {id : InstanceId}
    (hi : pool[id]? = some i) : pool.span id = i.span := by
  obtain ⟨bs, hfit, hs⟩ := h.strewn
  rw [SharedInstances.span_of_fits hi hfit hs.distinct, span_of_fits hfit hs.distinct]

end Instance

/-! ## Lives on a stage -/

namespace Stage

variable {s : Stage} {id : InstanceId} {i : Instance}

theorem create_lives {source : CompiledTemplate} (hsource : source.HasNodes)
    (hd : s.document.Tied) :
    ∃ i, (s.create source).2.shared[s.shared.length]? = some i ∧
      i.Lives (s.create source).2.document := by
  obtain ⟨i, d', hcreate, -⟩ := Instance.create_newborn hsource hd
  refine ⟨i, ?_, ?_⟩
  · simp only [Stage.create, hcreate]
    exact List.getElem?_concat_length
  · simp only [Stage.create, hcreate]
    exact .create hsource hd hcreate

theorem patch_lives (hi : s.shared[id]? = some i) (hlives : i.Lives s.document)
    {values : List Value} (hplain : Value.ArePlain CompiledTemplate.HasNodes values) :
    ∃ i', (s.patch id values).2.shared[id]? = some i' ∧
      i'.Lives (s.patch id values).2.document := by
  refine ⟨(i.patch s.shared.span values s.document).1, ?_, ?_⟩
  · simp only [Stage.patch, hi]
    exact List.getElem?_set_self (List.getElem?_eq_some_iff.mp hi).1
  · simp only [Stage.patch, hi]
    exact hlives.patch s.shared.span hplain

end Stage

end LiveMarkup
