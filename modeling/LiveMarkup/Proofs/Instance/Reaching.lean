import LiveMarkup.Proofs.Instance.Lifting
import LiveMarkup.Proofs.Instance.Touching
import LiveMarkup.Proofs.Mount.Reached

/-!
# What a patch reaches

The topmost nodes of an instance may have been moved anywhere when it is given
values again. A region then still writes to the text and to the instance that it
put between its markers, wherever these are, and replaces what stands between its
markers now. It fails if it is to do so and its first marker stands nowhere, or if
its last marker does not stand behind its first one; in the second case all that
stands behind the first one is lost. Nothing else is reached, and no region whose
value is the same as before is.
-/

namespace LiveMarkup

open Branch (idsAll tops sceneAll)
open Document (Rendered)
open Relation (ReflTransGen)
open Scene (AlikeAll)

variable {markup : CompiledTemplate → List Node} {d d₁ d' : Document}

/-! ## Outcomes -/

/-- What giving values comes to: writes of one kind, and then nothing or a failure of one
kind. -/
inductive Outcome (writes : Document → Document → Prop)
    (fails : Document → PatchError → Document → Prop) (d : Document) :
    Option PatchError → Document → Prop
  | done {d' : Document} (h : ReflTransGen writes d d') : Outcome writes fails d none d'
  | failed {d₁ d' : Document} {e : PatchError} (h : ReflTransGen writes d d₁)
      (hfails : fails d₁ e d') : Outcome writes fails d (some e) d'

namespace Outcome

variable {writes writes' : Document → Document → Prop}
  {fails fails' : Document → PatchError → Document → Prop} {e : Option PatchError}

theorem mono (hwrites : ∀ {d d'}, writes d d' → writes' d d')
    (hfails : ∀ {d e d'}, fails d e d' → fails' d e d') (h : Outcome writes fails d e d') :
    Outcome writes' fails' d e d' := by
  cases h with
  | done h => exact .done (h.lift id fun _ _ => hwrites)
  | failed h hfailed => exact .failed (h.lift id fun _ _ => hwrites) (hfails hfailed)

theorem after (h : ReflTransGen writes d d₁) (h' : Outcome writes fails d₁ e d') :
    Outcome writes fails d e d' := by
  cases h' with
  | done h' => exact .done (h.trans h')
  | failed h' hfails => exact .failed (h.trans h') hfails

end Outcome

/-! ## One region -/

/-- One write of a region that is given a value: to the text that it holds, to what stands
between its markers, or in the instance that belongs to it. -/
inductive Region.Writes : Region → Document → Document → Prop
  | text {r : Region} {n : NodeId} {data : String} (hcontent : r.content = .text n data)
      (d : Document) (s : String) : Writes r d (d.setText n s)
  | between {r : Region} {d d₁ : Document} {p n : NodeId} {held : List Branch}
      (hparent : d.parent? r.first = some p) (hstands : r.last ∈ d.siblingsAfter r.first)
      (hrendered : Rendered (d.removeChildren p (d.between r.first r.last)) d₁ n held) :
      Writes r d (d₁.insertBefore p n (some r.last))
  | binding {r : Region} {inner : Instance} (hcontent : r.content = .own inner)
      {s : AttributeBinding × NodeId} (hs : s ∈ inner.sites) {d d' : Document}
      (hwrite : d.WritesAt s.2 s.1.target s.1.name d') : Writes r d d'
  | inner {r : Region} {inner : Instance} (hcontent : r.content = .own inner) {q : Region}
      (hq : q ∈ inner.regions) {d d' : Document} (h : Writes q d d') : Writes r d d'

/-- A region that is given a value fails, or one does in the instance that belongs to it: there
is something to be replaced, and its first marker stands nowhere or its last one not behind it.
In the second case everything behind the first marker is taken out. -/
inductive Region.Fails : Region → Document → PatchError → Document → Prop
  | detached {r : Region} {d : Document} (hparent : d.parent? r.first = none) :
      Fails r d (.detachedMarker r.path) d
  | torn {r : Region} {d : Document} {p : NodeId} (hparent : d.parent? r.first = some p)
      (htorn : r.last ∉ d.siblingsAfter r.first) :
      Fails r d (.missingEndMarker r.path) (d.removeChildren p (d.between r.first r.last))
  | inner {r : Region} {inner : Instance} (hcontent : r.content = .own inner) {q : Region}
      (hq : q ∈ inner.regions) {d d' : Document} {e : PatchError} (h : Fails q d e d') :
      Fails r d e d'

theorem Region.Fails.eq_of_not_missing {r : Region} {e : PatchError} (h : r.Fails d e d')
    (hother : ∀ path, e ≠ .missingEndMarker path) : d' = d := by
  induction h with
  | detached => rfl
  | torn => exact absurd rfl (hother _)
  | inner _ _ _ ih => exact ih hother

/-- A supply by which an instance that belongs to a region is reached within that region
only. -/
def Supply.Reaches (markup : CompiledTemplate → List Node) (s : Supply) : Prop :=
  ∀ source values, s.1 = .template source values →
    ∀ (r : Region) (i : Instance) (bs : List Branch), r.content = .own i → i.source = source →
      i.Fits markup bs → ∀ d : Document, d.Tied → ∃ i' e d', s.2.again i d = (i', e, d') ∧
        Outcome r.Writes r.Fails d e d'

namespace Region

variable {r : Region} {m : Mark} {ss : List Scene}

theorem outcome_replace {rendering : Rendering} (hmakes : rendering.Makes markup ss)
    (hties : rendering.Ties) (hd : d.Tied) :
    ∃ r' e d', r.replace rendering d = (r', e, d') ∧ Outcome r.Writes r.Fails d e d' := by
  by_cases hmem : r.last ∈ d.siblingsAfter r.first
  · obtain ⟨p, n, content, d₁, held, hparent, hrendered, -, -, -, hreplace⟩ :=
      replace_of_mem hmakes hties hd hmem
    exact ⟨_, _, _, hreplace, .done (.single (.between hparent hmem hrendered))⟩
  · rcases clear_of_notMem (r := { r with content := .empty }) hmem with
      ⟨hparent, hclear⟩ | ⟨p, hparent, hclear⟩
    · refine ⟨{ r with content := .empty }, _, _, ?_, .failed .refl (.detached hparent)⟩
      rw [replace, hclear]
    · refine ⟨{ r with content := .empty }, _, _, ?_, .failed .refl (.torn hparent hmem)⟩
      rw [replace, hclear]

theorem outcome_update (spans : InstanceId → List NodeId) {s : Supply}
    (hmakes : s.2.Makes markup ss) (hties : s.2.Ties) (hreaches : s.Reaches markup)
    (hfit : r.Fits markup m) (hd : d.Tied) :
    ∃ r' e d', r.update spans s d = (r', e, d') ∧ Outcome r.Writes r.Fails d e d' := by
  have hreplace : ∃ r' e d', r.replace s.2 d = (r', e, d') ∧ Outcome r.Writes r.Fails d e d' :=
    outcome_replace hmakes hties hd
  have hcontent := hfit.content
  rw [update]
  split
  case h_1 =>
      split
      · exact ⟨_, _, _, rfl, .done .refl⟩
      · exact hreplace
  case h_2 inner source values hown hvalue =>
      rw [hown] at hcontent
      split
      · rename_i hsource
        obtain ⟨inner', e, d', hagain, houtcome⟩ :=
          hreaches source values hvalue r inner m.held hown hsource hcontent d hd
        simp only [hagain]
        exact ⟨_, e, d', rfl, houtcome⟩
      · exact hreplace
  case h_3 n data hown =>
      split
      · split
        · exact ⟨_, _, _, rfl, .done .refl⟩
        · exact ⟨_, _, _, rfl, .done (.single (.text hown d _))⟩
      · exact hreplace
  case h_4 => exact hreplace

end Region

/-! ## All regions -/

/-- What becomes of a region that is given its value while something holds of its mark and of
those that are left: it holds of those that are left afterwards. -/
def Region.Attempts (spans : InstanceId → List NodeId) (supplies : List Supply)
    (P : List Mark → Document → Prop) (writes : Document → Document → Prop)
    (fails : Document → PatchError → Document → Prop) (r : Region) (m : Mark) : Prop :=
  ∀ (rest : List Mark) (d : Document), P (m :: rest) d →
    ∃ r' e d', r.update spans (supplyAt supplies r.placeholder) d = (r', e, d') ∧ P rest d' ∧
      Outcome writes fails d e d'

theorem Region.outcome_updateAll {spans : InstanceId → List NodeId} {supplies : List Supply}
    {P : List Mark → Document → Prop} {writes : Document → Document → Prop}
    {fails : Document → PatchError → Document → Prop} {regions : List Region}
    {marks : List Mark}
    (h : List.Forall₂ (Region.Attempts spans supplies P writes fails) regions marks)
    (hP : P marks d) :
    ∃ regions' e d', updateAll spans supplies regions d = (regions', e, d') ∧
      Outcome writes fails d e d' := by
  induction h generalizing d with
  | nil => exact ⟨[], none, d, rfl, .done .refl⟩
  | @cons r m regions marks hr _ ih =>
      obtain ⟨r', e, d₁, hupdate, hP₁, houtcome⟩ := hr marks d hP
      rw [updateAll, hupdate]
      cases houtcome with
      | failed hwrites hfails => exact ⟨_, _, _, rfl, .failed hwrites hfails⟩
      | done hwrites =>
          obtain ⟨regions', e, d₂, hrest, houtcome⟩ := ih hP₁
          simp only [hrest]
          exact ⟨_, e, d₂, rfl, houtcome.after hwrites⟩

/-! ## Instances in regions -/

section

variable {r : Region} {inner : Instance}

theorem Region.writes_applyBindings (hcontent : r.content = .own inner) (value : Nat → Value)
    {bindings : List (AttributeBinding × NodeId)} (hsites : bindings ⊆ inner.sites)
    (d : Document) : ReflTransGen r.Writes d (applyBindings value bindings d) := by
  induction bindings generalizing d with
  | nil => exact .refl
  | cons s bindings ih =>
      obtain ⟨hs, hrest⟩ := List.cons_subset.mp hsites
      rw [applyBindings, List.foldl_cons]
      rcases s.1.apply_writesAt s.2 value d with hsame | hwrite
      · rw [hsame]
        exact ih hrest d
      · exact .head (.binding hcontent hs hwrite) (ih hrest _)

theorem Region.outcome_supply (hcontent : r.content = .own inner)
    (spans : InstanceId → List NodeId) {supplies : List Supply} {ns : List Node}
    {bs : List Branch} (hfit : inner.FitsAs markup ns bs)
    (hmakes : ∀ k, inner.source.template.Feeds k → ∃ ss, (supplyAt supplies k).2.Makes markup ss)
    (hties : ∀ k, inner.source.template.Feeds k → (supplyAt supplies k).Ties markup)
    (hreaches : ∀ k, inner.source.template.Feeds k → (supplyAt supplies k).Reaches markup)
    (hd : d.Tied) :
    ∃ i' e d', inner.supply spans supplies d = (i', e, d') ∧ Outcome r.Writes r.Fails d e d' := by
  have hfeeds := hfit.feeds
  obtain ⟨marks, -, -, hregions⟩ := hfit.layout
  have hsteps := hregions.forall₂ (P := Region.Attempts spans supplies
      (fun _ d => d.Tied) r.Writes r.Fails) fun q hq m _ hfits rest d hd => by
    obtain ⟨ss, hmakes⟩ := hmakes _ (hfeeds q hq)
    have hties := hties _ (hfeeds q hq)
    obtain ⟨q', e, d', hupdate, houtcome⟩ := Region.outcome_update spans hmakes hties.fresh
      (hreaches _ (hfeeds q hq)) hfits hd
    have htied := Region.tied_update spans hfits hties hd
    rw [hupdate] at htied
    exact ⟨q', e, d', hupdate, htied, houtcome.mono (.inner hcontent hq) (.inner hcontent hq)⟩
  have hshape := sameShape_applyBindings (fun k => (supplyAt supplies k).1) inner.sites d
  obtain ⟨regions', e, d', hupdate, houtcome⟩ := Region.outcome_updateAll hsteps (hshape.tied hd)
  have hbindings := Region.writes_applyBindings hcontent (fun k => (supplyAt supplies k).1)
    (List.Subset.refl inner.sites) d
  refine ⟨{ inner with regions := regions' }, e, d', ?_, houtcome.after hbindings⟩
  rw [Instance.sites] at hupdate
  simp only [Instance.supply, hupdate]

end

theorem Value.Showable.reaches {v : Value} (h : v.Showable CompiledTemplate.HasNodes)
    (spans : InstanceId → List NodeId) :
    Supply.Reaches CompiledTemplate.someNodes (v, v.rendering spans) := by
  induction h with
  | @text v hlike =>
      rintro source values rfl
      cases hlike
  | list => exact fun _ _ heq => nomatch heq
  | @template source values hsource h ih =>
      rintro source' values' heq r i bs hcontent rfl hfit d hd
      obtain ⟨rfl, rfl⟩ := Value.template.inj heq
      have hserves : ∀ k, i.source.template.Feeds k →
          (supplyAt (Value.supplies spans values) k).Serves CompiledTemplate.someNodes
            (Value.suppliedScenes CompiledTemplate.someNodes values k) := fun k hk => by
        rw [Value.supplyAt_supplies]
        exact (h k hk).serves spans
      refine Region.outcome_supply hcontent spans (Instance.fits_iff.mp hfit)
        (fun k hk => ⟨_, (hserves k hk).shows.fresh⟩) (fun k hk => (hserves k hk).ties)
        (fun k hk => ?_) hd
      rw [Value.supplyAt_supplies]
      exact ih k hk

/-! ## Scattered instances -/

namespace Layout

variable {say : Nat → List Attribute → Attributes → Properties → Prop} {next : Nat}
  {ns : List Node} {elements : List NodeId} {marks : List Mark} {bs : List Branch}

theorem strewn_mark (h : Layout say next ns elements marks bs) (hs : d.Strewn bs) :
    ∀ m ∈ marks, d.Strewn m.branches := by
  induction h with
  | nil => nofun
  | text _ ih | comment _ ih => exact ih (hs.sublist (List.sublist_cons_self _ _))
  | placeholder _ ih =>
      exact List.forall_mem_cons.mpr ⟨hs.sublist (List.sublist_append_left _ _),
        ih (hs.sublist (List.sublist_append_right _ _))⟩
  | element _ _ _ ihUnder ihRest =>
      obtain ⟨⟨parent, -, hunder⟩, -⟩ := Document.intact_cons.mp hs.intact
      have hown := (List.nodup_append.mp hs.distinct).1
      rw [Branch.ids_node] at hown
      exact List.forall_mem_append.mpr
        ⟨ihUnder (.of_grows hs.tied hunder (List.nodup_cons.mp hown).2),
          ihRest (hs.sublist (List.sublist_cons_self _ _))⟩

theorem strewn_marks (h : Layout say next ns elements marks bs) (hs : d.Strewn bs) :
    d.Strewn (marks.flatMap Mark.branches) where
  tied := hs.tied
  intact b hb := by
    obtain ⟨m, hm, hb⟩ := List.mem_flatMap.mp hb
    exact (h.strewn_mark hs m hm).intact b hb
  distinct := hs.distinct.sublist h.marks_sublist
  solid b hb := by
    obtain ⟨m, hm, hb⟩ := List.mem_flatMap.mp hb
    exact (h.strewn_mark hs m hm).solid b hb

end Layout

namespace Instance

variable {i : Instance} {values next : List Value} {ns : List Node} {bs : List Branch}
  {touched : Nat → Prop} {spans : InstanceId → List NodeId}

/-- One write of a patch where a placeholder of some is fed: of an attribute or a property that
it is bound to, or of its region. -/
inductive Writes (i : Instance) (touched : Nat → Prop) (d d' : Document) : Prop
  | binding {s : AttributeBinding × NodeId} (hs : s ∈ i.sites) {k : Nat}
      (hk : k ∈ s.1.numbers) (htouched : touched k)
      (hwrite : d.WritesAt s.2 s.1.target s.1.name d')
  | region {r : Region} (hr : r ∈ i.regions) (htouched : touched r.placeholder)
      (h : r.Writes d d')

/-- A patch fails at a region that a placeholder of some is fed to. -/
def Fails (i : Instance) (touched : Nat → Prop) (d : Document) (e : PatchError)
    (d' : Document) : Prop :=
  ∃ r ∈ i.regions, touched r.placeholder ∧ r.Fails d e d'

theorem attempts_touched {r : Region} {m : Mark} {ss : List Scene} (hr : r ∈ i.regions)
    (htouched : touched r.placeholder) (hfits : r.Fits markup m)
    (hserves : (supplyAt (Value.supplies spans next) r.placeholder).Serves markup ss)
    (hreaches : (supplyAt (Value.supplies spans next) r.placeholder).Reaches markup) :
    Region.Attempts spans (Value.supplies spans next)
      (fun marks d => d.Strewn (marks.flatMap Mark.branches)) (i.Writes touched)
      (i.Fails touched) r m := by
  intro rest d hs
  rw [List.flatMap_cons] at hs
  have hbeside : d.Strewn ([] ++ m.branches ++ rest.flatMap Mark.branches) := hs
  obtain ⟨r', e, d', hupdate, houtcome⟩ :=
    Region.outcome_update spans hserves.shows.fresh hserves.ties.fresh hreaches hfits hs.tied
  obtain ⟨r₁, e₁, d₁, held, hupdate', -, hdrift⟩ :=
    Region.drift_update spans hserves.shows hserves.ties.fresh hserves.drifts hfits hbeside
  cases hupdate.symm.trans hupdate'
  exact ⟨r', e, d', hupdate, hdrift.strewn.sublist (List.sublist_append_right _ _),
    houtcome.mono (.region hr htouched) fun hfails => ⟨r, hr, htouched, hfails⟩⟩

theorem attempts_calm {r : Region} {m : Mark} (hfits : r.Fits markup m)
    (hrecords : r.content.Records (Value.supplied values r.placeholder))
    (halike : AlikeAll (sceneAll m.held) ((Value.supplied values r.placeholder).scenes markup))
    (halone : (Value.supplied values r.placeholder).LeavesAlone markup)
    (hagrees :
      (Value.supplied values r.placeholder).Agrees (Value.supplied next r.placeholder)) :
    Region.Attempts spans (Value.supplies spans next)
      (fun marks d => d.Strewn (marks.flatMap Mark.branches)) (i.Writes touched)
      (i.Fails touched) r m := by
  intro rest d hs
  rw [List.flatMap_cons] at hs
  have hheld : d.Intact m.held := fun b hb => hs.intact b (by simp [Mark.branches, hb])
  refine ⟨r, none, d, ?_, hs.sublist (List.sublist_append_right _ _), .done .refl⟩
  rw [Value.supplyAt_supplies]
  exact halone hagrees spans spans r m.held d hfits.content hrecords halike hheld

/-- Giving values to an instance that shows quiet ones, wherever its nodes are. -/
theorem FitsAs.outcome (hfit : i.FitsAs CompiledTemplate.someNodes ns bs)
    (hrecords : i.Records (Value.supplied values))
    (hquiet : (Value.template i.source values).Quiet)
    (halike : AlikeAll (sceneAll bs) (Substitution.nodes (Value.supplied values)
      (Value.suppliedScenes CompiledTemplate.someNodes values) 0 ns))
    (hs : d.Strewn bs)
    (hshow : ∀ k, i.source.template.Feeds k →
      (Value.supplied next k).Showable CompiledTemplate.HasNodes)
    (hagrees : ∀ k, ¬ touched k → (Value.supplied values k).Agrees (Value.supplied next k))
    (spans : InstanceId → List NodeId) :
    ∃ i' e d', i.patch spans next d = (i', e, d') ∧
      Outcome (i.Writes touched) (i.Fails touched) d e d' := by
  cases hquiet with
  | text hlike => cases hlike
  | template honce hfree hquiet =>
      obtain ⟨marks, hlayout, hregions, hmarks⟩ := hfit.settled hrecords hquiet halike
      have hbindings : ReflTransGen (i.Writes touched) d
          (LiveMarkup.applyBindings (Value.supplied next) i.sites d) :=
        hfit.sites_touched hlayout honce hfree hs.intact hs.distinct hagrees
          fun s hs k hk htouched _ _ hwrite => .binding hs hk htouched hwrite
      have hall : d.Strewn ([] ++ bs ++ []) := by simpa using hs
      obtain ⟨bs₁, hlayout₁, -, -, hs₁⟩ :=
        (hlayout.mono Settled.fixed).strewn_applyBindings (Value.supplied next) [] 0 hall
      rw [← hfit.template_attributes, List.nil_append, List.append_nil] at hs₁
      have hremembers := Region.recordAll_iff.mp (records_iff.mp hrecords)
      have hsteps := hregions.forall₂ (P := Region.Attempts spans (Value.supplies spans next)
          (fun marks d => d.Strewn (marks.flatMap Mark.branches)) (i.Writes touched)
          (i.Fails touched)) fun r hr m hm hfits => by
        have hfed := hfit.feeds r hr
        by_cases htouched : touched r.placeholder
        · have hserves := (hshow _ hfed).serves spans
          have hreaches := (hshow _ hfed).reaches spans
          rw [← Value.supplyAt_supplies] at hserves hreaches
          exact attempts_touched hr htouched hfits hserves hreaches
        · have hshown := hmarks m hm
          rw [← hfits.placeholder] at hshown
          exact attempts_calm hfits (hremembers r hr) hshown (hquiet _ hfed).leavesAlone
            (hagrees _ htouched)
      obtain ⟨regions', e, d', hupdate, houtcome⟩ :=
        Region.outcome_updateAll hsteps (hlayout₁.strewn_marks hs₁)
      refine ⟨{ i with regions := regions' }, e, d', ?_, houtcome.after hbindings⟩
      simp only [patch, supply, Value.supplyAt_supplies, hupdate]

/-- A patch only writes unless it fails at a region that is torn apart. -/
theorem writes_of_outcome {e : Option PatchError}
    (h : Outcome (i.Writes touched) (i.Fails touched) d e d')
    (hother : ∀ path, e ≠ some (.missingEndMarker path)) : ReflTransGen (i.Writes touched) d d' := by
  cases h with
  | done h => exact h
  | failed h hfails =>
      obtain ⟨r, -, -, hfails⟩ := hfails
      rwa [hfails.eq_of_not_missing fun path heq => hother path (congrArg some heq)]

/-- Giving an instance values, wherever its nodes are, writes only where a placeholder feeds
something whose value is another one than the one given last: elements that it is bound to, or
its region, unless a region that is to be replaced is torn apart. If the instance stands all in
one place, nothing fails and what is written for a region stays between its markers. Giving it
the same values again writes nothing. -/
theorem patch_touches (h : i.Tended (some values) d)
    (hquiet : (Value.template i.source values).Quiet)
    (hshow : (Value.template i.source next).Showable CompiledTemplate.HasNodes)
    (hsame : ∀ k, ¬ touched k → (Value.supplied values k).equals (Value.supplied next k) = true ∨
      Value.supplied values k = Value.supplied next k) (spans : InstanceId → List NodeId) :
    (∃ i' e d', i.patch spans next d = (i', e, d') ∧
      Outcome (i.Writes touched) (i.Fails touched) d e d' ∧
      ((∀ path, e ≠ some (.missingEndMarker path)) → ReflTransGen (i.Writes touched) d d')) ∧
    (∀ p before behind, d.contains p = true → d.children p = before ++ i.span ++ behind →
      ∃ i' d', i.patch spans next d = (i', none, d') ∧
        ReflTransGen (i.Touches spans next touched) d d') ∧
    i.patch spans values d = (i, none, d) := by
  obtain ⟨bs, hfit, hs, hdisplays⟩ := h.stands
  obtain ⟨-, hrecords, halike⟩ := hdisplays values rfl
  rw [Value.scenes_template] at halike
  have hfitAs := fits_iff.mp hfit
  have hfed : ∀ k, i.source.template.Feeds k → (Value.supplied values k).Quiet := by
    cases hquiet with
    | text hlike => cases hlike
    | template _ _ hquiet => exact hquiet
  have hnext : ∀ k, i.source.template.Feeds k →
      (Value.supplied next k).Showable CompiledTemplate.HasNodes := by
    cases hshow with
    | text hlike => cases hlike
    | template _ hnext => exact hnext
  refine ⟨?_, fun p before behind hp hrun => ?_,
    supply_calm hfitAs hrecords hquiet (fun k hk => (hfed k hk).leavesAlone) halike
      hs.intact (fun k => .refl _) spans spans⟩
  · obtain ⟨i', e, d', hpatch, houtcome⟩ :=
      hfitAs.outcome hrecords hquiet halike hs hnext hsame spans
    exact ⟨i', e, d', hpatch, houtcome, writes_of_outcome houtcome⟩
  · rw [span_of_fits hfit hs.distinct] at hrun
    have hnot : p ∉ idsAll bs := by
      cases bs with
      | nil => simp
      | cons b bs =>
          refine hs.parent_notMem (t := b.id) (by simp) ((hs.tied.agree p b.id).mpr ?_)
          rw [hrun]
          simp
    refine hfitAs.touches hrecords hquiet halike (hs.placed hp hrun hnot) (fun k hk => ?_) hsame
    rw [Value.supplyAt_supplies]
    exact ((hnext k hk).serves spans).shows

theorem patch_touches_input :
    ∃ (i : Instance) (d : Document) (i' : Instance) (d' : Document),
      i.Tended (some [.str "a", .null]) d ∧
      i.patch (fun _ => []) [.str "a", .bool true] d = (i', none, d') ∧
      ReflTransGen (i.Touches (fun _ => []) [.str "a", .bool true] (· = 1)) d d' ∧
      i.patch (fun _ => []) [.str "a", .null] d = (i, none, d) := by
  obtain ⟨source, hsource, hfeeds, honce, hfree⟩ : ∃ source : CompiledTemplate,
      source.HasNodes ∧ (∀ k, source.template.Feeds k → k = 1) ∧ source.template.BindsOnce ∧
      ∀ b ∈ source.template.attributes, b.target = .property →
        (b.property (Value.supplied [.str "a", .null])).nanFree = true :=
    ⟨⟨0, Template.ofNodes [.element "input" [⟨".value", [.placeholder]⟩] [], .placeholder]⟩,
      ⟨_, rfl⟩, fun k hk => List.mem_singleton.mp hk, List.nodup_singleton _,
      List.forall_mem_singleton.mpr fun _ => rfl⟩
  have hshow : ∀ v : Value, v.isTextLike = true → (Value.template source [.str "a", v]).Showable
      CompiledTemplate.HasNodes :=
    fun v hv => .template hsource fun k hk => hfeeds k hk ▸ .text hv
  have hquiet : (Value.template source [.str "a", .null]).Quiet :=
    .template honce hfree fun k hk => hfeeds k hk ▸ .text rfl
  obtain ⟨-, -, i, d, -, -, hsame, htended, hcontains, hchildren⟩ :=
    create_tended hsource (hshow .null rfl) (fun _ => []) Document.tied_empty
  have hrun : d.children i.fragment = [] ++ i.span ++ [] := by simpa using hchildren
  have hagree : ∀ k, k ≠ 1 →
      (Value.supplied [.str "a", .null] k).equals (Value.supplied [.str "a", .bool true] k) =
          true ∨
        Value.supplied [.str "a", .null] k = Value.supplied [.str "a", .bool true] k := by
    rintro (_ | _ | k) hk
    · exact .inr rfl
    · exact absurd rfl hk
    · exact .inr rfl
  obtain ⟨-, htouches, hcalm⟩ := patch_touches htended (hsame ▸ hquiet)
    (hsame ▸ hshow (.bool true) rfl) hagree (fun _ => [])
  obtain ⟨i', d', hpatched, hwrites⟩ := htouches i.fragment [] [] hcontains hrun
  exact ⟨i, d, i', d', htended, hpatched, hwrites, hcalm⟩

end Instance

/-! ### An inset that is torn apart -/

namespace Stage

/-- An inset with a text. -/
def insetText : Stage := ((empty.create inset).2.patch 0 [.str "a"]).2

/-- Its first marker was given to another inset. -/
def insetTorn : Stage := ((insetText.create inset).2.patch 1 [.node 1]).2

/-- Replacing the text takes the last marker of the other inset away, which is not between the
markers of the first one. -/
theorem insetTorn_patch :
    ∃ i, insetTorn.shared[0]? = some i ∧ i.Tended (some [.str "a"]) insetTorn.document ∧
      (Value.template i.source [.str "a"]).Quiet ∧
      (Value.template i.source [.template inset [.str "b"]]).Showable CompiledTemplate.HasNodes ∧
      i.regions.map Region.markers = [(1, 2)] ∧
      insetTorn.document.children 4 = [5, 1, 6] ∧
      (insetTorn.patch 0 [.template inset [.str "b"]]).1 = some (.missingEndMarker [0]) ∧
      (insetTorn.patch 0 [.template inset [.str "b"]]).2.document.children 4 = [5, 1] := by
  have hfeeds : ∀ k, inset.template.Feeds k → k = 0 := fun k hk => List.mem_singleton.mp hk
  have hshow : (Value.template inset [.str "a"]).Showable CompiledTemplate.HasNodes :=
    .template inset_hasNodes fun k hk => hfeeds k hk ▸ .text rfl
  obtain ⟨i₀, d₀, i, d, hcreate, hpatch, hsource, htended, -⟩ := Instance.create_tended
    inset_hasNodes hshow (empty.create inset).2.shared.span Document.tied_empty
  have hmade : (empty.create inset).2 = ⟨d₀, [i₀]⟩ := by
    simp only [Stage.create, empty, hcreate]
    rfl
  have htext : insetText = ⟨d, [i]⟩ := by
    rw [hmade] at hpatch
    rw [insetText, hmade]
    simp only [Stage.patch, List.getElem?_cons_zero, hpatch, List.set_cons_zero]
  have htended : i.Tended (some [.str "a"]) insetText.document := by rwa [htext]
  have hi : insetText.shared[0]? = some i := by rw [htext]; rfl
  have htied : insetText.document.Tied ∧ insetTorn.document.Tied := by
    have hmade : insetText.Reached .empty := .patch (.create .start inset_hasNodes) 0 ⟨trivial, trivial⟩
    have htorn : insetTorn.Reached .empty := .patch (.create hmade inset_hasNodes) 1 ⟨trivial, trivial⟩
    exact ⟨hmade.remembers.tied, htorn.remembers.tied⟩
  have hspan : insetText.shared[0]?.map Instance.span = some [1, 3, 2] := by decide +kernel
  have hregions : insetText.shared[0]?.map (fun i => i.regions.map Region.markers) =
      some [(1, 2)] := by decide +kernel
  rw [hi] at hspan hregions
  have hs : insetText.document.Strewn [.comment 1 "", .text 3 "a", .comment 2 ""] :=
    .of_grows (p := 0) htied.1
      ⟨⟨by rfl, trivial⟩, ⟨by rfl, trivial⟩, ⟨by rfl, trivial⟩, trivial⟩ (by decide)
  have hs' : insetTorn.document.Strewn [.comment 1 "", .text 3 "a", .comment 2 ""] := by
    have hmoved : insetTorn.document.Grows (some 4) [.comment 1 ""] := ⟨⟨by rfl, trivial⟩, trivial⟩
    have hothers : insetTorn.document.Grows (some 0) [.text 3 "a", .comment 2 ""] :=
      ⟨⟨by rfl, trivial⟩, ⟨by rfl, trivial⟩, trivial⟩
    exact ⟨htied.2, Document.intact_append.mpr ⟨hmoved.intact, hothers.intact⟩, hs.distinct,
      hs.solid⟩
  have hsame : Document.SameUnder i.span insetText.document insetTorn.document := by
    rw [Option.some.inj hspan]
    exact hs.sameUnder hs'
  refine ⟨i, hi, htended.meanwhile htied.2 hsame, ?_, ?_, Option.some.inj hregions, ?_⟩
  · rw [hsource]
    exact .template List.nodup_nil (List.forall_mem_nil _) fun k hk => hfeeds k hk ▸ .text rfl
  · rw [hsource]
    refine .template inset_hasNodes fun k hk => hfeeds k hk ▸ .template inset_hasNodes fun k hk => ?_
    exact hfeeds k hk ▸ .text rfl
  · decide +kernel

end Stage

end LiveMarkup
