import LiveMarkup.Proofs.Instance.Drifting
import LiveMarkup.Proofs.Mount.Containers

/-!
# Calls on several containers

Values are shown in containers of which none is in another one, and the containers
are released, in any order. Each container depends on the calls for it only: it
holds what the latest value would make of an empty container, and no call for
another one touches it.
-/

namespace LiveMarkup

open Branch (idsAll tops sceneAll)
open Scene (AlikeAll)

/-! ## Calls -/

/-- A call that shows a value in a container, or releases the container. -/
inductive MountCall where
  | render (container : NodeId) (ui : Value)
  | unmount (container : NodeId)

namespace MountCall

def container : MountCall → NodeId
  | render c _ | unmount c => c

/-- Whether a call shows nothing but plain values. -/
def IsPlain : MountCall → Prop
  | render _ ui => ui.IsPlain CompiledTemplate.HasNodes
  | unmount _ => True

/-- What a container was asked to show last, the latest call first: `none` if it was never
asked, and `some none` if it was released since. -/
def latest (c : NodeId) : List MountCall → Option (Option Value)
  | [] => none
  | render c' ui :: earlier => if c' = c then some (some ui) else latest c earlier
  | unmount c' :: earlier =>
      if c' = c then (latest c earlier).map fun _ => none else latest c earlier

/-- Whether a container shows something after some calls, the latest call first. -/
def shows (calls : List MountCall) (c : NodeId) : Bool :=
  (latest c calls).join.isSome

/-- Whether a call shows the template that its container shows already. -/
def Repeats (call : MountCall) (calls : List MountCall) : Prop :=
  ∃ c source values values', call = render c (.template source values) ∧
    latest c calls = some (some (.template source values'))

/-- Whether a call puts something else, or nothing, where its container shows something. -/
def Replaces (call : MountCall) (calls : List MountCall) : Prop :=
  match call with
  | render _ _ => ¬ call.Repeats calls
  | unmount c => shows calls c = true

theorem latest_other {c : NodeId} {call : MountCall} (calls : List MountCall)
    (h : call.container ≠ c) : latest c (call :: calls) = latest c calls := by
  cases call <;> exact if_neg h

@[simp] theorem latest_render (c : NodeId) (ui : Value) (calls : List MountCall) :
    latest c (render c ui :: calls) = some (some ui) :=
  if_pos rfl

@[simp] theorem latest_unmount (c : NodeId) (calls : List MountCall) :
    latest c (unmount c :: calls) = (latest c calls).map fun _ => none :=
  if_pos rfl

end MountCall

/-- Makes a call. -/
def MountSites.call (spans : InstanceId → List NodeId) (call : MountCall) (m : MountSites)
    (d : Document) : Option PatchError × MountSites × Document :=
  match call with
  | .render c ui => m.render spans c ui d
  | .unmount c => (none, m.unmount c d)

/-- Containers of which none is in another one. -/
structure Document.Containers (d : Document) (cs : List NodeId) : Prop where
  linked : d.Linked
  exist : ∀ c ∈ cs, d.contains c = true
  apart : ∀ c ∈ cs, ∀ c' ∈ cs, d.Within c c' → c = c'
  distinct : cs.Nodup

/-- What any calls for containers make of a document, the latest call first. -/
inductive MountCall.Made (cs : List NodeId) (base : Document) :
    List MountCall → MountSites → Document → Prop
  | start : Made cs base [] .empty base
  | call {calls : List MountCall} {m : MountSites} {d : Document} (h : Made cs base calls m d)
      {call : MountCall} (hcall : call.container ∈ cs) (hplain : call.IsPlain)
      (spans : InstanceId → List NodeId) :
      Made cs base (call :: calls) (m.call spans call d).2.1 (m.call spans call d).2.2

/-! ## What holds between calls -/

/-- What a site remembers and its container holds, after what it was asked to show last. -/
inductive SiteKeeps : Option (Option Value) → Option (Option Instance) → List Branch → Prop
  | untouched {bs : List Branch} : SiteKeeps none none bs
  | released : SiteKeeps (some none) none []
  | showing {ui : Value} {shown : Option Instance} {bs : List Branch}
      (h : Displays ui shown bs) : SiteKeeps (some (some ui)) (some shown) bs

/-- Containers with what they hold, after some calls. -/
structure Mounted (cs : List NodeId) (calls : List MountCall) (m : MountSites) (d : Document)
    (held : NodeId → List Branch) : Prop where
  tied : d.Tied
  placed : ∀ c ∈ cs, d.Placed c [] (held c) []
  apart : ∀ c ∈ cs, ∀ c' ∈ cs, ∀ k ∈ c :: idsAll (held c), k ∈ c' :: idsAll (held c') → c = c'
  keeps : ∀ c ∈ cs, SiteKeeps (MountCall.latest c calls) (m.sites.get? c) (held c)
  sites : ∀ c, m.sites.contains c = true → c ∈ cs

variable {cs : List NodeId} {base d d' : Document} {calls : List MountCall}
  {m m' : MountSites} {held : NodeId → List Branch} {c : NodeId} {bs : List Branch}

namespace SiteKeeps

variable {asked : Option (Option Value)} {site : Option (Option Instance)}

theorem isSome_iff (h : SiteKeeps asked site bs) : site.isSome = asked.join.isSome := by
  cases h <;> rfl

theorem of_instance {i : Instance} (h : SiteKeeps asked (some (some i)) bs) :
    (∃ values, asked = some (some (.template i.source values))) ∧
      i.Fits CompiledTemplate.someNodes bs := by
  cases h with
  | showing h =>
      cases h with
      | template hsource hfit =>
          subst hsource
          exact ⟨⟨_, rfl⟩, hfit⟩

theorem exists_instance {source : CompiledTemplate} {values : List Value}
    (h : SiteKeeps (some (some (.template source values))) site bs) :
    ∃ i, site = some (some i) ∧ i.source = source ∧ i.Fits CompiledTemplate.someNodes bs := by
  cases h with
  | showing h =>
      cases h with
      | template hsource hfit => exact ⟨_, rfl, hsource, hfit⟩
      | plain hplain => exact absurd rfl (hplain _ _)

theorem release_nothing (h : SiteKeeps asked none bs) :
    SiteKeeps (asked.map fun _ => none) none bs := by
  cases h with
  | untouched => exact .untouched
  | released => exact .released

theorem release {shown : Option Instance} (h : SiteKeeps asked (some shown) bs) :
    SiteKeeps (asked.map fun _ => none) none [] := by
  cases h with
  | showing => exact .released

end SiteKeeps

/-- Before any call, containers hold whatever stands in them. -/
theorem Document.Containers.mounted (h : base.Containers cs) :
    ∃ held, Mounted cs [] .empty base held := by
  have hplaced : ∀ c, ∃ bs, c ∈ cs → base.Placed c [] bs [] := by
    intro c
    by_cases hc : c ∈ cs
    · have hchildren : base.children c = [] ++ base.children c ++ [] := by simp
      obtain ⟨bs, -, hbs⟩ := h.linked.placed (h.exist c hc) hchildren
      exact ⟨bs, fun _ => hbs⟩
    · exact ⟨[], fun hmem => absurd hmem hc⟩
  choose held hheld using hplaced
  refine ⟨held, h.linked.toTied, hheld, fun c hc c' hc' k hk hk' => ?_, fun _ _ => .untouched,
    nofun⟩
  have hunique : Relator.RightUnique base.Under := fun a b c hb hc =>
    Option.some.inj (hb.symm.trans hc)
  have hin := ((hheld c hc).within_iff h.linked.toTied).mpr hk
  have hin' := ((hheld c' hc').within_iff h.linked.toTied).mpr hk'
  rcases Relation.ReflTransGen.total_of_right_unique hunique hin hin' with hwithin | hwithin
  · exact h.apart c hc c' hc' hwithin
  · exact (h.apart c' hc' c hc hwithin).symm

namespace Mounted

/-- There are as many sites as containers that show something. -/
theorem size_eq (h : Mounted cs calls m d held) (hcs : cs.Nodup) :
    m.size = cs.countP (MountCall.shows calls) := by
  rw [MountSites.size, OrderedMap.size_eq_countP hcs h.sites]
  exact List.countP_congr fun c hc => by
    rw [OrderedMap.contains, (h.keeps c hc).isSome_iff, MountCall.shows]

theorem others (h : Mounted cs calls m d held) (hc : c ∈ cs)
    (hfilled : d.Refilled d' c (held c) bs) {c' : NodeId} (hc' : c' ∈ cs) (hne : c' ≠ c) :
    ∀ k ∈ c' :: idsAll (held c'), d'.nodes[k]? = d.nodes[k]? ∧ k ∉ c :: idsAll bs := by
  intro k hk
  exact hfilled.elsewhere ((h.placed c' hc').all_lt_size k hk)
    fun hmem => hne (h.apart c' hc' c hc k hk hmem)

theorem refill (h : Mounted cs calls m d held) (call : MountCall) {site : Option (Option Instance)}
    (hcall : call.container ∈ cs)
    (hsites : ∀ c, m'.sites.get? c = if c = call.container then site else m.sites.get? c)
    (hfilled : d.Refilled d' call.container (held call.container) bs)
    (hkeeps : SiteKeeps (MountCall.latest call.container (call :: calls)) site bs) :
    Mounted cs (call :: calls) m' d' (Function.update held call.container bs) := by
  have hothers : ∀ {c}, c ∈ cs → c ≠ call.container → ∀ k ∈ c :: idsAll (held c),
      d'.nodes[k]? = d.nodes[k]? ∧ k ∉ call.container :: idsAll bs :=
    fun hc hne => h.others hcall hfilled hc hne
  refine ⟨hfilled.tied, fun c hc => ?_, fun c hc c' hc' k hk hk' => ?_, fun c hc => ?_,
    fun c hsome => ?_⟩
  · by_cases heq : c = call.container
    · rw [heq, Function.update_self]
      exact hfilled.placed
    · rw [Function.update_of_ne heq]
      exact (h.placed c hc).unchanged fun k hk => (hothers hc heq k hk).1
  · by_cases heq : c = call.container
    · by_cases heq' : c' = call.container
      · exact heq.trans heq'.symm
      · rw [heq, Function.update_self] at hk
        rw [Function.update_of_ne heq'] at hk'
        exact absurd hk (hothers hc' heq' k hk').2
    · rw [Function.update_of_ne heq] at hk
      by_cases heq' : c' = call.container
      · rw [heq', Function.update_self] at hk'
        exact absurd hk' (hothers hc heq k hk).2
      · rw [Function.update_of_ne heq'] at hk'
        exact h.apart c hc c' hc' k hk hk'
  · by_cases heq : c = call.container
    · rw [heq, Function.update_self, hsites, if_pos rfl]
      exact hkeeps
    · rw [Function.update_of_ne heq, hsites, if_neg heq, MountCall.latest_other calls (Ne.symm heq)]
      exact h.keeps c hc
  · rw [OrderedMap.contains, hsites] at hsome
    split at hsome
    · rename_i heq
      exact heq ▸ hcall
    · exact h.sites c hsome

/-- The topmost nodes of an instance stand in its container. -/
theorem nodes_subset (h : Mounted cs calls m d held) (hc : c ∈ cs) {i : Instance}
    (hsite : m.instance? c = some i) : i.nodes ⊆ d.children c := by
  have hkeeps := h.keeps c hc
  rw [MountSites.instance?_of_get? hsite] at hkeeps
  obtain ⟨-, marks, hlayout, hnodes, -⟩ := Instance.fits_iff.mp hkeeps.of_instance.2
  rw [(h.placed c hc).children_eq_tops, hnodes]
  exact hlayout.roots_subset

end Mounted

/-! ## One more call -/

/-- What a call makes of its container, in which branches stood. -/
structure MountCall.Turns (call : MountCall) (calls : List MountCall) (m : MountSites)
    (d : Document) (m' : MountSites) (d' : Document) (bs bs' : List Branch) : Prop where
  refilled : d.Refilled d' call.container bs bs'
  kept : call.Repeats calls → ∃ i i', m.instance? call.container = some i ∧
    m'.instance? call.container = some i' ∧ i'.nodes = i.nodes
  freed : call.Replaces calls → d'.Grows none bs

namespace Mounted

theorem render_again (h : Mounted cs calls m d held) (hc : c ∈ cs)
    {source : CompiledTemplate} {values values' : List Value}
    (hlatest : MountCall.latest c calls = some (some (.template source values')))
    (hplain : (Value.template source values).IsPlain CompiledTemplate.HasNodes)
    (spans : InstanceId → List NodeId) :
    ∃ m' d' bs', m.render spans c (.template source values) d = (none, m', d') ∧
      (MountCall.render c (.template source values)).Turns calls m d m' d' (held c) bs' ∧
      Mounted cs (.render c (.template source values) :: calls) m' d'
        (Function.update held c bs') := by
  have hkeeps := h.keeps c hc
  rw [hlatest] at hkeeps
  obtain ⟨i, hsite, rfl, hfit⟩ := hkeeps.exists_instance
  have hinstance : m.instance? c = some i := by rw [MountSites.instance?, hsite, Option.join_some]
  obtain ⟨i', d', bs', hrender, hnodes, hdisplays, hfilled⟩ :=
    MountSites.render_patches hinstance hfit (h.placed c hc) h.tied hplain spans
  refine ⟨m.put c (some i'), d', bs', hrender, ⟨hfilled, fun _ => ?_, fun hanew => ?_⟩, ?_⟩
  · exact ⟨i, i', hinstance, MountSites.instance?_put (some i'), hnodes⟩
  · exact absurd ⟨c, i.source, values, values', rfl, hlatest⟩ hanew
  · exact h.refill (.render c (.template i.source values)) hc
      (MountSites.get?_put (some i')) hfilled
      (MountCall.latest_render c _ calls ▸ .showing hdisplays)

theorem render_other (h : Mounted cs calls m d held) (hc : c ∈ cs) {ui : Value}
    (hother : ¬ (MountCall.render c ui).Repeats calls)
    (hplain : ui.IsPlain CompiledTemplate.HasNodes) (spans : InstanceId → List NodeId) :
    ∃ m' d' bs', m.render spans c ui d = (none, m', d') ∧
      (MountCall.render c ui).Turns calls m d m' d' (held c) bs' ∧
      Mounted cs (.render c ui :: calls) m' d' (Function.update held c bs') := by
  have hanew : m.render spans c ui d = m.renderAnew spans c ui d := by
    refine MountSites.render_anew fun i values hsite heq => hother ?_
    have hkeeps := h.keeps c hc
    rw [MountSites.instance?_of_get? hsite] at hkeeps
    obtain ⟨⟨values', hlatest⟩, -⟩ := hkeeps.of_instance
    exact ⟨c, i.source, values, values', by rw [heq], hlatest⟩
  obtain ⟨m', d', shown, bs', hrender, hsites, hdisplays, hfilled, hfreed⟩ :=
    MountSites.renderAnew_refills (h.placed c hc) h.tied hplain spans m
  refine ⟨m', d', bs', hanew.trans hrender, ⟨hfilled, fun hrepeats => absurd hrepeats hother,
    fun _ => hfreed⟩, ?_⟩
  exact h.refill (.render c ui) hc hsites hfilled
    (MountCall.latest_render c _ calls ▸ .showing hdisplays)

theorem unmount (h : Mounted cs calls m d held) (hc : c ∈ cs) :
    ∃ m' d' bs', m.unmount c d = (m', d') ∧
      (MountCall.unmount c).Turns calls m d m' d' (held c) bs' ∧
      Mounted cs (.unmount c :: calls) m' d' (Function.update held c bs') := by
  have hkeeps := h.keeps c hc
  have hrepeats : ¬ (MountCall.unmount c).Repeats calls := nofun
  cases hsite : m.sites.get? c with
  | none =>
      rw [hsite] at hkeeps
      have hfilled := (h.placed c hc).refilled h.tied
      have hsites : ∀ c', m.sites.get? c' = if c' = c then none else m.sites.get? c' := by
        intro c'
        split
        · rename_i heq
          rw [heq, hsite]
        · rfl
      refine ⟨m, d, held c, MountSites.unmount_nothing hsite, ⟨hfilled, (absurd · hrepeats),
        fun hshows => ?_⟩, ?_⟩
      · have hnone := hkeeps.isSome_iff
        rw [MountCall.Replaces, MountCall.shows, ← hnone] at hshows
        cases hshows
      · exact h.refill (.unmount c) hc hsites hfilled
          (MountCall.latest_unmount c calls ▸ hkeeps.release_nothing)
  | some shown =>
      have hcontains : m.sites.contains c = true := by rw [OrderedMap.contains, hsite]; rfl
      obtain ⟨m', d', hunmount, hsites, hfilled, hfreed⟩ :=
        MountSites.unmount_empties hcontains (h.placed c hc) h.tied
      rw [hsite] at hkeeps
      refine ⟨m', d', [], hunmount, ⟨hfilled, (absurd · hrepeats), fun _ => hfreed⟩, ?_⟩
      exact h.refill (.unmount c) hc hsites hfilled
        (MountCall.latest_unmount c calls ▸ hkeeps.release)

theorem call (h : Mounted cs calls m d held) {call : MountCall} (hcall : call.container ∈ cs)
    (hplain : call.IsPlain) (spans : InstanceId → List NodeId) :
    ∃ m' d' bs', m.call spans call d = (none, m', d') ∧
      call.Turns calls m d m' d' (held call.container) bs' ∧
      Mounted cs (call :: calls) m' d' (Function.update held call.container bs') := by
  cases call with
  | render c ui =>
      by_cases hrepeats : (MountCall.render c ui).Repeats calls
      · obtain ⟨_, source, values, values', ⟨⟩, hlatest⟩ := hrepeats
        exact h.render_again hcall hlatest hplain spans
      · exact h.render_other hcall hrepeats hplain spans
  | unmount c =>
      obtain ⟨m', d', bs', hunmount, hturns, hmounted⟩ := h.unmount hcall
      refine ⟨m', d', bs', ?_, hturns, hmounted⟩
      exact congrArg (Prod.mk none) hunmount

end Mounted

/-- Between calls, every container holds what it was asked for last. -/
theorem MountCall.Made.mounted (h : MountCall.Made cs base calls m d) (hcs : base.Containers cs) :
    ∃ held, Mounted cs calls m d held := by
  induction h with
  | start => exact hcs.mounted
  | call _ hcall hplain spans ih =>
      obtain ⟨held, hmounted⟩ := ih
      obtain ⟨m', d', bs', hmade, -, hmounted'⟩ := hmounted.call hcall hplain spans
      rw [hmade]
      exact ⟨_, hmounted'⟩

theorem MountCall.Made.latest_isPlain (h : MountCall.Made cs base calls m d) {ui : Value}
    (hlatest : MountCall.latest c calls = some (some ui)) :
    ui.IsPlain CompiledTemplate.HasNodes := by
  induction h with
  | start => cases hlatest
  | @call calls _ _ _ call _ hplain _ ih =>
      by_cases hc : call.container = c
      · subst hc
        cases call with
        | render c ui' =>
            rw [MountCall.container, MountCall.latest_render] at hlatest
            cases hlatest
            exact hplain
        | unmount c =>
            rw [MountCall.container, MountCall.latest_unmount] at hlatest
            obtain ⟨_, -, hnone⟩ := Option.map_eq_some_iff.mp hlatest
            cases hnone
      · exact ih ((MountCall.latest_other calls hc).symm.trans hlatest)

/-! ## Each container for itself -/

/-- Whether a container holds what it was asked for and nothing else: what the value looks
like, just as a first call puts it into an empty container of any document, or nothing if
the container was released. -/
def Document.HoldsAsNew (d : Document) (c : NodeId) : Option Value → Prop
  | none => d.children c = []
  | some ui =>
      AlikeAll (d.scenes c) (ui.mounted CompiledTemplate.someNodes) ∧
        (ui.isNullish = true → d.children c = []) ∧
        ∀ (spans : InstanceId → List NodeId) (m : MountSites) (e : Document) (k : NodeId),
          e.Tied → e.contains k = true → e.children k = [] → m.sites.get? k = none →
            ∃ m' e', m.render spans k ui e = (none, m', e') ∧
              AlikeAll (d.scenes c) (e'.scenes k)

/-- What a call for one of several containers does, after other calls. -/
structure MountCall.Answered (call : MountCall) (cs : List NodeId) (calls : List MountCall)
    (m : MountSites) (d : Document) (m' : MountSites) (d' : Document) : Prop where
  holds : ∀ c ∈ cs, ∀ asked, latest c (call :: calls) = some asked → d'.HoldsAsNew c asked
  others : ∀ c ∈ cs, c ≠ call.container → ∀ k,
    (d'.Within k c ↔ d.Within k c) ∧ (d.Within k c → d'.nodes[k]? = d.nodes[k]?)
  size : m'.size = cs.countP (shows (call :: calls))
  kept : call.Repeats calls → ∃ i i', m.instance? call.container = some i ∧
    m'.instance? call.container = some i' ∧ i'.nodes = i.nodes ∧
    i.nodes ⊆ d.children call.container ∧ i'.nodes ⊆ d'.children call.container
  freed : call.Replaces calls → ∀ k ∈ d.children call.container, d'.parent? k = none

theorem Displays.asNew {ui : Value} {shown : Option Instance} (h : Displays ui shown bs)
    (hplain : ui.IsPlain CompiledTemplate.HasNodes) (hplaced : d.Placed c [] bs []) :
    d.HoldsAsNew c (some ui) := by
  refine ⟨hplaced.scenes_eq ▸ h.alike, fun hnullish => ?_, fun spans m e k he hk hempty hsite => ?_⟩
  · have halike := h.alike
    rw [Value.mounted, if_pos hnullish] at halike
    cases bs with
    | nil => exact hplaced.children
    | cons => exact halike.elim
  · obtain ⟨data, hdata⟩ := Document.exists_node hk
    have hvacant : e.Placed k [] [] [] :=
      ⟨⟨data, hdata, by simpa [Document.children_of_node hdata] using hempty⟩, trivial,
        by simp, by simp, by simp⟩
    obtain ⟨m', e', shown', bs', hrender, -, hdisplays, hfilled, -⟩ :=
      MountSites.renderAnew_refills hvacant he hplain spans m
    have hfirst : m.render spans k ui e = m.renderAnew spans k ui e := by
      refine MountSites.render_anew fun i values hi => ?_
      rw [MountSites.instance?, hsite] at hi
      cases hi
    refine ⟨m', e', hfirst.trans hrender, ?_⟩
    rw [hplaced.scenes_eq, hfilled.placed.scenes_eq]
    exact h.alike.trans hdisplays.alike.symm

/-- Whatever was called for before, a call for one of several containers does not fail, and
each container holds what it was asked for last and depends on its own calls only. -/
theorem MountCall.Made.answered (h : MountCall.Made cs base calls m d) (hcs : base.Containers cs)
    {call : MountCall} (hcall : call.container ∈ cs) (hplain : call.IsPlain)
    (spans : InstanceId → List NodeId) :
    ∃ m' d', m.call spans call d = (none, m', d') ∧ call.Answered cs calls m d m' d' := by
  obtain ⟨held, hmounted⟩ := h.mounted hcs
  obtain ⟨m', d', bs', hmade, hturns, hmounted'⟩ := hmounted.call hcall hplain spans
  have hcalled : Made cs base (call :: calls) m' d' := by
    have hnext := h.call hcall hplain spans
    rwa [hmade] at hnext
  refine ⟨m', d', hmade, fun c hc asked hasked => ?_, fun c hc hne k => ?_,
    hmounted'.size_eq hcs.distinct, fun hrepeats => ?_, fun hreplaces k hk => ?_⟩
  · have hkeeps := hmounted'.keeps c hc
    have hplaced := hmounted'.placed c hc
    rw [hasked] at hkeeps
    generalize Function.update held call.container bs' c = bs at hkeeps hplaced
    generalize m'.sites.get? c = site at hkeeps
    cases hkeeps with
    | released => exact hplaced.children
    | showing hdisplays => exact hdisplays.asNew (hcalled.latest_isPlain hasked) hplaced
  · have hplaced' := hmounted'.placed c hc
    rw [Function.update_of_ne hne] at hplaced'
    rw [hplaced'.within_iff hmounted'.tied, (hmounted.placed c hc).within_iff hmounted.tied]
    exact ⟨.rfl, fun hk => (hmounted.others hcall hturns.refilled hc hne k hk).1⟩
  · obtain ⟨i, i', hi, hi', hnodes⟩ := hturns.kept hrepeats
    exact ⟨i, i', hi, hi', hnodes, hmounted.nodes_subset hcall hi,
      hmounted'.nodes_subset hcall hi'⟩
  · rw [(hmounted.placed call.container hcall).children_eq_tops] at hk
    obtain ⟨data, hdata, hparent⟩ := (hturns.freed hreplaces).parent_top hk
    exact (Document.parent?_of_node hdata).trans hparent

/-- Two elements that stand nowhere. -/
def Document.pair : Document :=
  ((Document.empty.create (.element "main")).2.create (.element "aside")).2

theorem Document.containers_pair : Document.pair.Containers [0, 1] where
  linked := (linked_empty.create (.element "main")).create (.element "aside")
  exist := by decide
  distinct := by decide
  apart := by
    intro c hc c' _ hwithin
    rcases hwithin.cases_head with heq | ⟨p, hunder, -⟩
    · exact heq
    · rcases List.mem_pair.mp hc with rfl | rfl <;> cases hunder

/-- A paragraph around a value. -/
def paragraphOf (value : String) : Value :=
  .template ⟨0, Template.ofNodes [.element "p" [] [.placeholder]]⟩ [.str value]

theorem MountCall.Made.answered_paragraph :
    ∃ m d m' d', Made [0, 1] .pair [.render 1 .null, .render 0 (paragraphOf "a")] m d ∧
      m.call (fun _ => []) (.render 0 (paragraphOf "b")) d = (none, m', d') ∧
      m'.size = 2 ∧
      ∃ i i', m.instance? 0 = some i ∧ m'.instance? 0 = some i' ∧ i'.nodes = i.nodes := by
  have hplain : ∀ value, (MountCall.render 0 (paragraphOf value)).IsPlain := fun value =>
    ⟨⟨_, rfl⟩, trivial, trivial⟩
  have hnull : (MountCall.render 1 .null).IsPlain := trivial
  have hfirst : Made [0, 1] .pair [.render 0 (paragraphOf "a")] _ _ :=
    Made.start.call (by decide) (hplain "a") (fun _ => [])
  have hsecond : Made [0, 1] .pair [.render 1 .null, .render 0 (paragraphOf "a")] _ _ :=
    hfirst.call (by decide) hnull (fun _ => [])
  obtain ⟨m', d', hmade, hanswered⟩ :=
    hsecond.answered Document.containers_pair (by decide) (hplain "b") (fun _ => [])
  have hrepeats : (MountCall.render 0 (paragraphOf "b")).Repeats
      [.render 1 .null, .render 0 (paragraphOf "a")] := ⟨0, _, _, _, rfl, rfl⟩
  obtain ⟨i, i', hi, hi', hnodes, -, -⟩ := hanswered.kept hrepeats
  exact ⟨_, _, m', d', hsecond, hmade, hanswered.size, i, i', hi, hi', hnodes⟩

end LiveMarkup
