import LiveMarkup.Component.Mounting
import LiveMarkup.Proofs.Component.Conduct
import LiveMarkup.Proofs.Component.Connection

/-!
# Sites of disconnected elements

On a page that shows its elements in a document, every mount site belongs to an
element that has shown something there since it was last disconnected, as long
as all renderers are installed without sites. So a mount point is released as
soon as its element is disconnected, and stays so until the element is shown
again.
-/

namespace LiveMarkup

/-- A call that installs no renderer that has sites already. -/
def Call.InstallsNew (c : Call MountSites) : Prop :=
  ∀ r, c = .setRenderer r → r = .empty

/-! ## What rendering does to the sites -/

namespace MountSites

variable {m m' : MountSites} {container c : NodeId}

theorem contains_put {shown : Option Instance} (h : (m.put container shown).sites.contains c = true) :
    c = container ∨ m.sites.contains c = true := by
  unfold put OrderedMap.contains at h
  rw [OrderedMap.get?_insert] at h
  split at h
  · rename_i hc
    exact Or.inl (Std.LawfulEqCmp.eq_of_compare hc)
  · exact Or.inr h

theorem contains_render {spans : InstanceId → List NodeId} {ui : Value} {d : Document}
    (h : (m.render spans container ui d).2.1.sites.contains c = true) :
    c = container ∨ m.sites.contains c = true := by
  have hanew : (renderAnew spans container ui m d).2.1.sites.contains c = true →
      c = container ∨ m.sites.contains c = true := by
    intro h
    have hput : ∀ shown, (m.put container shown).sites.contains c = true →
        c = container ∨ m.sites.contains c = true := fun _ => contains_put
    unfold renderAnew at h
    simp only at h
    split at h
    · split at h
      · rename_i source values
        unfold renderTemplate at h
        split at h
        · exact hput _ h
        · rcases contains_put h with hc | hc
          · exact Or.inl hc
          · exact hput _ hc
      · unfold renderPlain at h
        split at h
        · exact hput _ h
        · split at h <;> exact hput _ h
    · exact hput _ h
  unfold render at h
  split at h
  · split at h
    · exact contains_put h
    · exact hanew h
  · exact hanew h

theorem contains_unmount {d : Document} (h : (m.unmount container d).1.sites.contains c = true) :
    c ≠ container ∧ m.sites.contains c = true := by
  unfold unmount at h
  split at h
  · unfold OrderedMap.contains at h
    rw [OrderedMap.get?_erase] at h
    split at h
    · cases h
    · rename_i hc
      refine ⟨?_, h⟩
      rintro rfl
      exact hc Std.ReflCmp.compare_self
  · rename_i hnone
    refine ⟨?_, h⟩
    rintro rfl
    exact hnone h

end MountSites

namespace Page

variable {hooks : Hooks Stage MountSites} {p p' : Page Stage MountSites} {k : ComponentId}

/-! ## Whose sites there are -/

/-- Something was shown of an element since it was last disconnected. -/
def ShownSince (k : ComponentId) (journal : List Event) : Prop :=
  ∃ later mount ui earlier, journal = later ++ .shown k mount ui :: earlier ∧
    Event.disconnected k ∉ later

theorem ShownSince.append {journal es : List Event} (h : ShownSince k journal)
    (hes : Event.disconnected k ∉ es) : ShownSince k (es ++ journal) := by
  obtain ⟨later, mount, ui, earlier, rfl, hlater⟩ := h
  refine ⟨es ++ later, mount, ui, earlier, (List.append_assoc ..).symm, ?_⟩
  intro hmem
  rcases List.mem_append.mp hmem with hmem | hmem
  · exact hes hmem
  · exact hlater hmem

/-- Every site is the mount point of an element that was shown there since it was
last disconnected. -/
def SitesShown (p : Page Stage MountSites) : Prop :=
  ∀ m container, p.renderer = some m → m.sites.contains container = true →
    ∃ k, p.mount? k = some container ∧ ShownSince k p.journal

theorem SitesShown.mono (h : SitesShown p) (es : List Event)
    (hsites : ∀ m container, p'.renderer = some m → m.sites.contains container = true →
      ∃ m, p.renderer = some m ∧ m.sites.contains container = true)
    (hmount : ∀ k container, p.mount? k = some container → p'.mount? k = some container)
    (hjournal : p'.journal = es ++ p.journal)
    (hes : ∀ k, Event.disconnected k ∉ es) : SitesShown p' := by
  intro m container hm hcontains
  obtain ⟨m₀, hm₀, hcontains₀⟩ := hsites m container hm hcontains
  obtain ⟨k, hk, hshown⟩ := h m₀ container hm₀ hcontains₀
  rw [hjournal]
  exact ⟨k, hmount k container hk, hshown.append (hes k)⟩

namespace SitesShown

theorem note (h : SitesShown p) {e : Event} (he : ∀ k, e ≠ .disconnected k) :
    SitesShown (p.note e) := by
  refine h.mono [e] (fun m container hm hc => ⟨m, hm, hc⟩) (fun _ _ hk => hk) rfl ?_
  intro k hmem
  exact he k (List.mem_singleton.mp hmem).symm

theorem modify (h : SitesShown p) (j : ComponentId) {g : Element → Element}
    (hkeep : ∀ e, (g e).mount = e.mount) : SitesShown (p.modify j g) := by
  refine h.mono [] (fun m container hm hc => ⟨m, hm, hc⟩) ?_ rfl (by simp)
  intro k container hk
  rwa [mount?_modify p j g hkeep]

theorem request (h : SitesShown p) (j : ComponentId) : SitesShown (p.request j) := by
  refine h.mono [.requested j] ?_ ?_ (journal_request p j) (by simp)
  · intro m container hm hc
    refine ⟨m, ?_, hc⟩
    simp only [Page.request] at hm
    split at hm <;> exact hm
  · intro k container hk
    rwa [mount?_request]

theorem noted (h : SitesShown p) {e : Event} (he : ∀ k, e ≠ .disconnected k) (j : ComponentId)
    {g : Element → Element} (hkeep : ∀ e, (g e).mount = e.mount) :
    SitesShown (((p.note e).modify j g).request j) :=
  ((h.note he).modify j hkeep).request j

/-- Disconnecting an element releases its mount point, so that the sites of other
elements are left. -/
theorem disconnect (h : SitesShown p) (k : ComponentId) :
    SitesShown (p.disconnect MountSites.backend k) := by
  unfold Page.disconnect
  split
  · exact h
  · rename_i e he
    split
    · rename_i hconnected
      have hk : p.isConnected k = true := by
        rw [isConnected_eq, he]
        exact hconnected
      have hmount : p.mount? k = some e.mount := by
        unfold mount?
        rw [he]
        rfl
      rw [drop, if_pos hk]
      unfold unmount
      split
      · rename_i hnone
        intro m container hm
        cases hnone.symm.trans hm
      · rename_i m hm
        intro m' container hm' hcontains
        obtain rfl := Option.some.inj hm'
        obtain ⟨hne, hold⟩ := MountSites.contains_unmount hcontains
        obtain ⟨j, hj, hshown⟩ := h m container hm hold
        have hjk : j ≠ k := by
          rintro rfl
          exact hne (Option.some.inj (hj.symm.trans hmount))
        refine ⟨j, ?_, ?_⟩
        · refine (mount?_modify (p.note (.disconnected k)) k _ ?_ j).trans hj
          intro e
          rfl
        · have hstill : ShownSince j ([.disconnected k] ++ p.journal) :=
            hshown.append (by simpa using hjk)
          exact hstill
    · exact h

theorem present (h : SitesShown p) {mount : NodeId} (ui : Value) (hk : p.mount? k = some mount) :
    SitesShown (p.present MountSites.backend k mount ui).2 := by
  unfold Page.present
  split
  · exact h
  · rename_i m hm
    intro m' container hm' hcontains
    obtain rfl := Option.some.inj hm'
    rcases MountSites.contains_render hcontains with rfl | hold
    · exact ⟨k, hk, [], container, ui, p.journal, rfl, by simp⟩
    · obtain ⟨j, hj, hshown⟩ := h m container hm hold
      have hstill : ShownSince j ([.shown k mount ui] ++ p.journal) := hshown.append (by simp)
      exact ⟨j, hj, hstill⟩

end SitesShown

theorem conduct_sites : Conduct MountSites.backend Call.InstallsNew SitesShown where
  host _ h := h
  answer {p c} hc h := by
    have hasking : c.mayAsk = true → SitesShown (p.answer MountSites.backend c).2 := by
      intro hc
      rcases asking_cases MountSites.backend p hc with heq | ⟨k, event, change, heq, hasks, hkeep⟩
      · rwa [heq]
      · rw [heq]
        refine h.noted ?_ k hkeep
        rintro j rfl
        cases hasks
    cases c with
    | create schema mount =>
        refine h.mono [] (fun m container hm hcontains => ⟨m, hm, hcontains⟩) ?_ rfl (by simp)
        intro k container hk
        exact Step.mount? (.create schema mount) hk
    | setProp | setAttribute | connect => exact hasking rfl
    | disconnect k => exact h.disconnect k
    | setRenderer r =>
        -- a new renderer has no sites
        intro m container hm hcontains
        obtain rfl := Option.some.inj hm
        rw [hc r rfl] at hcontains
        cases hcontains
    | clearRenderer =>
        intro m container hm
        cases hm
    | tick | flush => exact h
  note {p e} he h := by
    apply h.note
    rintro k rfl
    cases he
  inputs k _ h := h.modify k fun _ => rfl

theorem kept_sites (hhooks : hooks.Use Call.InstallsNew) :
    Kept MountSites.backend hooks SitesShown := by
  refine conduct_sites.kept hhooks ?_ ?_ ?_ ?_
  · intro p k mount ui hk h
    exact h.present ui hk
  · intro p k h
    exact h.request k
  · intro p k h
    exact h.modify k fun _ => rfl
  · exact fun h => h

/-- Every site belongs to an element that was shown there since it was last
disconnected. -/
theorem Passed.sitesShown (hhooks : hooks.Use Call.InstallsNew)
    (hp : Passed MountSites.backend hooks (Led MountSites.backend hooks Call.InstallsNew) p) :
    SitesShown p := by
  have hcarried := (kept_sites hhooks).carried fun _ _ h => h
  have hled : ∀ p, Led MountSites.backend hooks Call.InstallsNew p → SitesShown p := by
    intro p hp
    refine conduct_sites.led (fun hflush h => hcarried.flush hflush h) ?_ hp
    intro host m container hm
    cases hm
  rcases hp with hp | ⟨rest, hp⟩
  · exact hled p hp
  · exact hcarried.underway hled hp

/-! ## Released mount points -/

/-- After a disconnection, until the next connection, the mount point of the element
is no site, unless something was shown by the update during which the element was
disconnected. No other element is mounted there. -/
def Releases (p : Page Stage MountSites) : Prop :=
  ∀ later k earlier container m, p.journal = later ++ .disconnected k :: earlier →
    Event.connected k ∉ later → p.mount? k = some container →
      (∀ j, p.mount? j = some container → j = k) → p.renderer = some m →
        m.sites.contains container = true →
          ∃ behind mount ui between own before, later = behind ++ .shown k mount ui :: between ∧
            InUpdate k own before earlier ∧ ∀ e ∈ between, e.isOwn k = true

/-- In every run, only who is connected is shown, but for elements that disconnect
themselves while they are updated; and if mount sites are rendered into, then with
the same exception the mount point of a disconnected element stays released. -/
theorem Passed.shows_connected_only {σ ρ : Type} {backend : Backend σ ρ} {hooks : Hooks σ ρ}
    {p : Page σ ρ} (hp : Passed backend hooks (Reachable backend hooks) p) :
    p.ShowsConnected ∧
    ∀ {hooks : Hooks Stage MountSites} {p : Page Stage MountSites},
      hooks.Use Call.InstallsNew →
      Passed MountSites.backend hooks (Led MountSites.backend hooks Call.InstallsNew) p →
        p.Releases := by
  refine ⟨hp.showsConnected, ?_⟩
  clear hp
  intro hooks p hhooks hp later k earlier container m hsplit hlater hk hunique hm hcontains
  have hshows : p.ShowsConnected :=
    Passed.showsConnected (hp.mono fun _ hled => hled.reachable)
  obtain ⟨j, hj, later', mount, ui, earlier', hjournal, hnot⟩ :=
    hp.sitesShown hhooks m container hm hcontains
  obtain rfl := hunique j hj
  obtain ⟨between, rfl, -⟩ := split_before (hsplit.symm.trans hjournal) (by simp) hnot
  obtain ⟨own, before, hupdate, hown⟩ :=
    hshows.after _ _ _ hsplit hlater later' mount ui between rfl
  exact ⟨later', mount, ui, between, own, before, rfl, hupdate, hown⟩

end Page

/-! ## An element that disconnects itself -/

namespace Leaving

def schema : Schema :=
  ⟨"x-leaving", [], []⟩

/-- Rendering disconnects the element. -/
def hooks : Hooks Stage MountSites where
  beforeUpdate _ _ := .done (.ok ())
  render k _ := .call (.disconnect k) fun _ => .done (.ok (.str "hello"))
  afterUpdate _ _ := .done (.ok ())

/-- An element waits in an empty container for a renderer. -/
def program : Program Stage MountSites Unit :=
  .modifyHost (fun s => { s with document := (s.document.create (.element "div")).2 })
  (.call (.create schema 0) fun _ =>
  .call (.connect 0) fun _ =>
  .done ())

def page : Page Stage MountSites :=
  (program.start MountSites.backend hooks 3 (.new .empty)).elim (.new .empty) Prod.snd

/-- The page after the flush that a renderer sets off. -/
def flushed : Page Stage MountSites :=
  (page.perform MountSites.backend hooks 3 (.setRenderer .empty)).elim page Prod.snd

theorem led_flushed : Page.Led MountSites.backend hooks Call.InstallsNew flushed := by
  have hprogram : program.Uses Call.InstallsNew := ⟨nofun, fun _ => ⟨nofun, fun _ => trivial⟩⟩
  have hpage : Page.Led MountSites.backend hooks Call.InstallsNew page :=
    Page.Led.start (.new .empty) hprogram
      (rfl : program.start MountSites.backend hooks 3 _ = some ((), page))
  refine hpage.call ?_ (rfl : page.perform MountSites.backend hooks 3 (.setRenderer .empty) =
    some (.flushed none, flushed))
  intro r hr
  exact (Call.setRenderer.inj hr).symm

end Leaving

theorem Page.Passed.shows_connected_only_leaving :
    Passed MountSites.backend Leaving.hooks
        (Led MountSites.backend Leaving.hooks Call.InstallsNew) Leaving.flushed ∧
      Leaving.hooks.Use Call.InstallsNew ∧
      Leaving.flushed.ShowsConnected ∧ Leaving.flushed.Releases := by
  have hpassed : Passed MountSites.backend Leaving.hooks
      (Led MountSites.backend Leaving.hooks Call.InstallsNew) Leaving.flushed :=
    Or.inl Leaving.led_flushed
  have hhooks : Leaving.hooks.Use Call.InstallsNew :=
    ⟨fun _ _ => trivial, fun _ _ => ⟨nofun, fun _ => trivial⟩, fun _ _ => trivial⟩
  obtain ⟨hshows, hreleases⟩ :=
    Page.Passed.shows_connected_only (hpassed.mono fun _ hled => hled.reachable)
  exact ⟨hpassed, hhooks, hshows, hreleases hhooks hpassed⟩

/-- The element is shown after it was disconnected, and stands in the document
though it is not connected. -/
theorem Page.flush_shows_disconnected :
    Leaving.page.perform MountSites.backend Leaving.hooks 3 (.setRenderer .empty) =
        some (.flushed none, Leaving.flushed) ∧
      (∃ later earlier, Leaving.flushed.journal =
          later ++ .shown 0 0 (.str "hello") :: .disconnected 0 :: earlier) ∧
      Leaving.flushed.isConnected 0 = false ∧
      Leaving.flushed.renderer.map (·.sites.contains 0) = some true ∧
      Leaving.flushed.host.document.textContent 0 = "hello" := by
  refine ⟨rfl, ⟨Leaving.flushed.journal.take 2, Leaving.flushed.journal.drop 4, ?_⟩, ?_, ?_, ?_⟩
  · rfl
  · rfl
  · rfl
  · rfl

end LiveMarkup
