import LiveMarkup.Mount
import LiveMarkup.Proofs.Instance.Tying

/-!
# One container

What a call makes of one container. Rendering a plain value never fails: it keeps
the instance that is there if the value is of its template, and otherwise takes
out all that stood in the container and shows the value anew. Nothing outside of
the container is touched.
-/

namespace LiveMarkup

open Branch (idsAll tops sceneAll)
open Document (Edit)
open Scene (AlikeAll)

variable {d d' : Document} {c : NodeId} {bs bs' : List Branch} {m : MountSites}

/-- What a value looks like in a container. -/
def Value.mounted (markup : CompiledTemplate → List Node) (ui : Value) : List Scene :=
  if ui.isNullish then [] else ui.scenes markup

/-- What a site remembers of a value, and what stands in its container. -/
inductive Displays : Value → Option Instance → List Branch → Prop
  | template {source : CompiledTemplate} {values : List Value} {i : Instance}
      {bs : List Branch} (hsource : i.source = source)
      (hfit : i.Fits CompiledTemplate.someNodes bs)
      (halike : AlikeAll (sceneAll bs)
        ((Value.template source values).mounted CompiledTemplate.someNodes)) :
      Displays (.template source values) (some i) bs
  | plain {ui : Value} {bs : List Branch} (hplain : ∀ source values, ui ≠ .template source values)
      (halike : AlikeAll (sceneAll bs) (ui.mounted CompiledTemplate.someNodes)) :
      Displays ui none bs

theorem Displays.alike {ui : Value} {shown : Option Instance} (h : Displays ui shown bs) :
    AlikeAll (sceneAll bs) (ui.mounted CompiledTemplate.someNodes) := by
  cases h with
  | template _ _ halike => exact halike
  | plain _ halike => exact halike

/-- Other branches stand in a container, and nothing else has changed. -/
structure Document.Refilled (d d' : Document) (c : NodeId) (bs bs' : List Branch) : Prop where
  tied : d'.Tied
  placed : d'.Placed c [] bs' []
  edit : Edit d d' c (idsAll bs) (idsAll bs')

namespace Document

theorem Placed.scenes_eq (h : d.Placed c [] bs []) : d.scenes c = sceneAll bs :=
  scenes_of_grows h.grows h.ids_nodup h.children_eq_tops

theorem Placed.refilled (h : d.Placed c [] bs []) (hd : d.Tied) : d.Refilled d c bs bs :=
  ⟨hd, h, .refl d c _⟩

theorem Refilled.elsewhere (h : d.Refilled d' c bs bs') {k : NodeId} (hk : k < d.size)
    (hnot : k ∉ c :: idsAll bs) : d'.nodes[k]? = d.nodes[k]? ∧ k ∉ c :: idsAll bs' := by
  simp only [List.mem_cons, not_or] at hnot ⊢
  refine ⟨h.edit.same k hk hnot.1 hnot.2, hnot.1, fun hmem => ?_⟩
  rcases h.edit.fresh k hmem with hold | hle
  · exact hnot.2 hold
  · exact Nat.not_lt.mpr hle hk

/-- Emptying a container leaves what stood there standing nowhere. -/
theorem Placed.clearChildren (h : d.Placed c [] bs []) (hd : d.Tied) :
    d.Refilled (d.clearChildren c) c bs [] ∧ (d.clearChildren c).Grows none bs := by
  obtain ⟨hempty, hedit⟩ := h.remove
  rw [Document.clearChildren, h.children_eq_tops]
  exact ⟨⟨hd.removeChildren c _, hempty, hedit⟩, h.grows_removed⟩

theorem Refilled.append {d₁ d₂ : Document} {n : NodeId} (h : d.Refilled d₁ c bs [])
    (hr : Rendered d₁ d₂ n bs') (hd : d₂.Tied) : d.Refilled (d₂.append c n) c bs bs' := by
  obtain ⟨hplaced, hedit⟩ := h.placed.insert hr
  have hc : d₂.contains c = true :=
    decide_eq_true (Nat.lt_of_lt_of_le h.placed.lt_size hr.grown.size_le)
  exact ⟨hd.insertBefore hc hr.loose.contains none, hplaced, h.edit.trans hedit⟩

theorem Refilled.grows_append {d₁ d₂ : Document} {n : NodeId} (h : d.Refilled d₁ c bs [])
    (hr : Rendered d₁ d₂ n bs') (hbs : d₁.Grows none bs) (hc : c ∉ idsAll bs) :
    (d₂.append c n).Grows none bs := by
  obtain ⟨-, hedit⟩ := h.placed.insert hr
  exact hbs.frame fun k hk => hedit.same k (hbs.lt_size k hk) (fun heq => hc (heq ▸ hk)) (by simp)

end Document

theorem Instance.source_createWith {spans : InstanceId → List NodeId}
    {source : CompiledTemplate} {supplies : List Supply} {i : Instance}
    (h : Instance.createWith spans source supplies d = (.ok i, d')) : i.source = source := by
  unfold createWith at h
  split at h
  · cases h
  · rename_i made d₁ hcreate
    generalize hsupply : made.supply spans supplies d₁ = supplied at h
    obtain ⟨made', e, d₂⟩ := supplied
    cases e with
    | some e => cases h
    | none =>
        cases h
        have hkept : (made.supply spans supplies d₁).1.source = made.source := rfl
        rw [hsupply] at hkept
        exact hkept.trans (source_create hcreate)

namespace MountSites

variable {spans : InstanceId → List NodeId} {ui : Value} {source : CompiledTemplate}
  {values : List Value}

theorem get?_put (shown : Option Instance) (c' : NodeId) :
    (m.put c shown).sites.get? c' = if c' = c then some shown else m.sites.get? c' := by
  rw [put, OrderedMap.get?_insert]
  simp only [Std.LawfulEqCmp.compare_eq_iff_eq]

theorem instance?_put (shown : Option Instance) : (m.put c shown).instance? c = shown := by
  rw [instance?, get?_put, if_pos rfl, Option.join_some]

theorem instance?_of_get? {i : Instance} (h : m.instance? c = some i) :
    m.sites.get? c = some (some i) :=
  Option.join_eq_some_iff.mp h

/-! ## Rendering -/

theorem renderTemplate_refills {d₁ : Document} (hd : d.Refilled d₁ c bs [])
    (hplain : (Value.template source values).IsPlain CompiledTemplate.HasNodes)
    (spans : InstanceId → List NodeId) (m : MountSites) :
    ∃ i d' bs', renderTemplate spans c source values m d₁ = (none, m.put c (some i), d') ∧
      Displays (.template source values) (some i) bs' ∧ d.Refilled d' c bs bs' ∧
      (d₁.Grows none bs → c ∉ idsAll bs → d'.Grows none bs) := by
  have hshows := Value.shows spans _ (hplain.mono fun _ => CompiledTemplate.HasNodes.compiled)
  obtain ⟨n, content, d₂, bs', hfresh, hrendered, htakes, halike⟩ := hshows.fresh d₁
  have hd₂ : d₂.Tied := by
    have htied := (hplain.showable.ties spans).fresh d₁ hd.tied
    rwa [hfresh] at htied
  simp only [Value.rendering] at hfresh
  rw [renderTemplate]
  generalize hcreated : Instance.createWith spans source (Value.supplies spans values) d₁ =
    created at hfresh
  obtain ⟨result, d₃⟩ := created
  cases result with
  | error e => cases hfresh
  | ok i =>
      cases hfresh
      refine ⟨i, _, bs', rfl, .template (Instance.source_createWith hcreated) htakes ?_,
        hd.append hrendered hd₂, hd.grows_append hrendered⟩
      exact halike

theorem renderPlain_refills {d₁ : Document} (hd : d.Refilled d₁ c bs [])
    (hplain : ui.IsPlain CompiledTemplate.HasNodes)
    (hother : ∀ source values, ui ≠ .template source values) (spans : InstanceId → List NodeId)
    (m : MountSites) :
    ∃ d' bs', renderPlain spans c ui m d₁ = (none, m, d') ∧ Displays ui none bs' ∧
      d.Refilled d' c bs bs' ∧ (d₁.Grows none bs → c ∉ idsAll bs → d'.Grows none bs) := by
  rw [renderPlain]
  by_cases hnullish : ui.isNullish = true
  · rw [if_pos hnullish]
    refine ⟨d₁, [], rfl, .plain hother ?_, hd, fun h _ => h⟩
    rw [Value.mounted, if_pos hnullish]
    trivial
  · rw [if_neg hnullish, Value.render]
    have hshows := Value.shows spans _ (hplain.mono fun _ => CompiledTemplate.HasNodes.compiled)
    obtain ⟨n, content, d₂, bs', hfresh, hrendered, -, halike⟩ := hshows.fresh d₁
    have hd₂ : d₂.Tied := by
      have htied := (hplain.showable.ties spans).fresh d₁ hd.tied
      rwa [hfresh] at htied
    refine ⟨d₂.append c n, bs', ?_, .plain hother ?_, hd.append hrendered hd₂,
      hd.grows_append hrendered⟩
    · dsimp only at hfresh
      simp only [hfresh, appendTo, hrendered.loose.contains, if_true]
    · rw [Value.mounted, if_neg hnullish]
      exact halike

theorem renderAnew_refills (h : d.Placed c [] bs []) (hd : d.Tied)
    (hplain : ui.IsPlain CompiledTemplate.HasNodes) (spans : InstanceId → List NodeId)
    (m : MountSites) :
    ∃ m' d' shown bs', renderAnew spans c ui m d = (none, m', d') ∧
      (∀ c', m'.sites.get? c' = if c' = c then some shown else m.sites.get? c') ∧
      Displays ui shown bs' ∧ d.Refilled d' c bs bs' ∧ d'.Grows none bs := by
  obtain ⟨hcleared, hnowhere⟩ := h.clearChildren hd
  have hc : d.contains c = true := decide_eq_true h.lt_size
  rw [renderAnew]
  simp only [hc, if_true]
  by_cases htemplate : ∃ source values, ui = .template source values
  · obtain ⟨source, values, rfl⟩ := htemplate
    obtain ⟨i, d', bs', hrender, hdisplays, hfilled, hgrows⟩ :=
      renderTemplate_refills hcleared hplain spans (m.put c none)
    refine ⟨_, d', some i, bs', hrender, fun c' => ?_, hdisplays, hfilled,
      hgrows hnowhere h.parent_notMem⟩
    rw [get?_put, get?_put]
    split <;> rfl
  · have hother : ∀ source values, ui ≠ .template source values := fun source values heq =>
      htemplate ⟨source, values, heq⟩
    obtain ⟨d', bs', hrender, hdisplays, hfilled, hgrows⟩ :=
      renderPlain_refills hcleared hplain hother spans (m.put c none)
    refine ⟨m.put c none, d', none, bs', ?_, get?_put none, hdisplays, hfilled,
      hgrows hnowhere h.parent_notMem⟩
    split
    · exact absurd rfl (hother _ _)
    · exact hrender

theorem render_patches {i : Instance} (hsite : m.instance? c = some i)
    (hfit : i.Fits CompiledTemplate.someNodes bs) (h : d.Placed c [] bs []) (hd : d.Tied)
    (hplain : (Value.template i.source values).IsPlain CompiledTemplate.HasNodes)
    (spans : InstanceId → List NodeId) :
    ∃ i' d' bs', m.render spans c (.template i.source values) d =
        (none, m.put c (some i'), d') ∧ i'.nodes = i.nodes ∧
      Displays (.template i.source values) (some i') bs' ∧ d.Refilled d' c bs bs' := by
  have hcompiled := Value.ArePlain.mono (fun _ => CompiledTemplate.HasNodes.compiled) hplain.2
  have htied := Instance.tied_patch spans hfit (fun k _ => (hplain.2.supplied k).showable) hd
  have hnodes : (i.patch spans values d).1.nodes = i.nodes := rfl
  obtain ⟨i', d', bs', hpatch, hsource, -, hfit', hplaced, hedit, halike⟩ :=
    Instance.becomes_patch spans (Instance.fits_iff.mp hfit) (fun k _ => hcompiled.shows spans k)
      d c [] [] h
  dsimp only at hpatch
  rw [hpatch] at htied hnodes
  refine ⟨i', d', bs', ?_, hnodes, .template hsource ?_ ?_, htied, hplaced, hedit⟩
  · simp only [render, hsite, if_true, hpatch]
  · rw [Instance.fits_iff, hsource]
    exact hfit'
  · show AlikeAll (sceneAll bs') ((Value.template i.source values).scenes _)
    rwa [Value.scenes_template]

theorem render_anew
    (h : ∀ i values, m.instance? c = some i → ui ≠ .template i.source values) :
    m.render spans c ui d = renderAnew spans c ui m d := by
  unfold render
  split
  · rename_i i source values hsite
    refine if_neg ?_
    rintro rfl
    exact h i values hsite rfl
  · rfl

/-! ## Releasing -/

theorem unmount_empties (hsite : m.sites.contains c = true) (h : d.Placed c [] bs [])
    (hd : d.Tied) :
    ∃ m' d', m.unmount c d = (m', d') ∧
      (∀ c', m'.sites.get? c' = if c' = c then none else m.sites.get? c') ∧
      d.Refilled d' c bs [] ∧ d'.Grows none bs := by
  obtain ⟨hcleared, hnowhere⟩ := h.clearChildren hd
  refine ⟨⟨m.sites.erase c⟩, d.clearChildren c, ?_, fun c' => ?_, hcleared, hnowhere⟩
  · rw [unmount, if_pos hsite]
  · rw [OrderedMap.get?_erase]
    simp only [Std.LawfulEqCmp.compare_eq_iff_eq]

theorem unmount_nothing (hsite : m.sites.get? c = none) : m.unmount c d = (m, d) := by
  rw [unmount, OrderedMap.contains, hsite]
  rfl

end MountSites

end LiveMarkup
