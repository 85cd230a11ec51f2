import LiveMarkup.Mount
import LiveMarkup.Proofs.Instance.Remembered
import LiveMarkup.Proofs.Mount.Containers

/-!
# Everything that can happen to a stage

Shared instances are made, patched and gathered, values are rendered and shown at
mount sites, and the document is changed by anybody else, in any order and with
any values. Parents and children stay tied, and whatever an instance remembers can
be inserted again.
-/

namespace LiveMarkup

variable {P Q : NodeId → Prop} {d d' : Document} {spans : InstanceId → List NodeId}

/-! ## Mount sites -/

theorem Value.follows_render {v : Value} (hv : v.IsCompiled) (hd : d.Hosts spans) :
    d.Follows (v.render spans d).2 := by
  have hfresh := (hv.follows spans).document d hd
  rw [Value.render]
  generalize (v.rendering spans).fresh d = made at hfresh
  obtain ⟨result, d₁⟩ := made
  cases result <;> exact hfresh

namespace MountSites

variable {c : NodeId} {ui : Value} {m : MountSites}

/-- Whether all nodes that the instances at mount sites remember are of some kind. -/
def All (P : NodeId → Prop) (m : MountSites) : Prop :=
  ∀ c i, m.instance? c = some i → i.All P

theorem All.mono (hsub : ∀ n, P n → Q n) (h : m.All P) : m.All Q :=
  fun c i hi => (h c i hi).mono hsub

theorem All.put (h : m.All P) (c : NodeId) {shown : Option Instance}
    (hshown : ∀ i ∈ shown, i.All P) : (m.put c shown).All P := by
  intro c' i hi
  rw [instance?, get?_put] at hi
  split at hi
  · exact hshown i (Option.some.inj (Option.join_eq_some_iff.mp hi))
  · exact h c' i hi

/-- Sites that were changed together with a document and whose instances remember what can be
inserted. -/
structure Follows (d : Document) (result : Option PatchError × MountSites × Document) :
    Prop where
  document : d.Follows result.2.2
  sites : result.2.1.All result.2.2.Insertable

theorem follows_renderTemplate {source : CompiledTemplate} {values : List Value}
    (hui : (Value.template source values).IsCompiled) (hm : m.All d.Insertable)
    (hd : d.Hosts spans) (hc : d.contains c = true) :
    Follows d (renderTemplate spans c source values m d) := by
  obtain ⟨hcreated, hmade⟩ := Instance.follows_createWith hui.1
    (Value.follows_supplyAt (hui.2.follows spans)) hd
  unfold renderTemplate
  generalize Instance.createWith spans source (Value.supplies spans values) d = created
    at hcreated hmade
  obtain ⟨result, d₁⟩ := created
  cases result with
  | error e => exact ⟨hcreated, hm.mono hcreated.kept⟩
  | ok i =>
      obtain ⟨hall, hfragment⟩ := hmade i rfl
      have happended := hcreated.tied.follows_insertBefore (hcreated.contains hc) hfragment none
      have hfollows := hcreated.trans happended
      refine ⟨hfollows, (hm.mono hfollows.kept).put c ?_⟩
      rintro j ⟨rfl⟩
      exact hall.mono happended.kept

theorem follows_renderPlain (hui : ui.IsCompiled) (hm : m.All d.Insertable)
    (hd : d.Hosts spans) (hc : d.contains c = true) :
    Follows d (renderPlain spans c ui m d) := by
  have hrendered := Value.follows_render hui hd
  unfold renderPlain
  split
  · exact ⟨.refl hd.tied, hm⟩
  · generalize ui.render spans d = rendered at hrendered
    obtain ⟨result, d₁⟩ := rendered
    cases result with
    | error e => exact ⟨hrendered, hm.mono hrendered.kept⟩
    | ok n =>
        have happended : d.Follows (appendTo c n d₁).2 := by
          unfold appendTo
          split
          · rename_i hn
            exact hrendered.trans
              (hrendered.tied.follows_insertBefore (hrendered.contains hc) hn none)
          · exact hrendered
        exact ⟨happended, hm.mono happended.kept⟩

theorem follows_renderAnew (c : NodeId) (hui : ui.IsCompiled) (hm : m.All d.Insertable)
    (hd : d.Hosts spans) : Follows d (renderAnew spans c ui m d) := by
  have hput : (m.put c none).All d.Insertable := hm.put c nofun
  unfold renderAnew
  dsimp only
  split
  · rename_i hc
    have hcleared := hd.tied.follows_removeChildren c (d.children c)
    have hput' := hput.mono hcleared.kept
    have hc' := hcleared.contains hc
    split
    · obtain ⟨hdocument, hsites⟩ :=
        follows_renderTemplate hui hput' (hd.follow hcleared) hc'
      exact ⟨hcleared.trans hdocument, hsites⟩
    · obtain ⟨hdocument, hsites⟩ := follows_renderPlain hui hput' (hd.follow hcleared) hc'
      exact ⟨hcleared.trans hdocument, hsites⟩
  · exact ⟨.refl hd.tied, hput⟩

theorem follows_render (c : NodeId) (hui : ui.IsCompiled) (hm : m.All d.Insertable)
    (hd : d.Hosts spans) : Follows d (m.render spans c ui d) := by
  unfold render
  split
  · rename_i i source values hsite
    split
    · have hpatched := Instance.follows_patch hui.2 hd (hm c i hsite)
      exact ⟨hpatched.document, (hm.mono hpatched.document.kept).put c (by
        rintro j ⟨rfl⟩
        exact hpatched.all)⟩
    · exact follows_renderAnew c hui hm hd
  · exact follows_renderAnew c hui hm hd

theorem follows_unmount (c : NodeId) (hm : m.All d.Insertable) (hd : d.Tied) :
    Follows d (none, m.unmount c d) := by
  unfold unmount
  split
  · have hcleared := hd.follows_removeChildren c (d.children c)
    refine ⟨hcleared, fun c' i hi => ?_⟩
    rw [instance?, OrderedMap.get?_erase] at hi
    split at hi
    · cases hi
    · exact (hm c' i hi).mono hcleared.kept
  · exact ⟨.refl hd, hm⟩

end MountSites

/-! ## Stages -/

namespace Stage

/-- The stages with their mount sites that calls from outside lead to, whether these fail or
not. -/
inductive Reached : Stage → MountSites → Prop
  | start : Reached .empty .empty
  | create {s : Stage} {m : MountSites} (h : Reached s m) {source : CompiledTemplate}
      (hsource : source.HasNodes) : Reached (s.create source).2 m
  | patch {s : Stage} {m : MountSites} (h : Reached s m) (id : InstanceId) {values : List Value}
      (hvalues : Value.AreCompiled values) : Reached (s.patch id values).2 m
  | gather {s : Stage} {m : MountSites} (h : Reached s m) (id : InstanceId) :
      Reached (s.gather id).2 m
  | render {s : Stage} {m : MountSites} (h : Reached s m) {v : Value} (hv : v.IsCompiled) :
      Reached (s.render v).2 m
  | mount {s : Stage} {m : MountSites} (h : Reached s m) (c : NodeId) {ui : Value}
      (hui : ui.IsCompiled) : Reached (m.renderOn c ui s).2.2 (m.renderOn c ui s).2.1
  | unmount {s : Stage} {m : MountSites} (h : Reached s m) (c : NodeId) :
      Reached (m.unmountOn c s).2 (m.unmountOn c s).1
  | operate {s : Stage} {m : MountSites} (h : Reached s m) {d : Document}
      (hop : s.document.Operation d) : Reached { s with document := d } m

/-- An instance of a stage is a shared one, or one that a mount site shows. -/
def Has (s : Stage) (m : MountSites) (i : Instance) : Prop :=
  i ∈ s.shared ∨ ∃ c, m.instance? c = some i

/-- A stage whose document is tied, and whose instances remember what can be inserted. -/
structure Remembers (s : Stage) (m : MountSites) : Prop where
  tied : s.document.Tied
  shared : ∀ i ∈ s.shared, i.All s.document.Insertable
  sites : m.All s.document.Insertable

variable {s : Stage} {m m' : MountSites}

namespace Remembers

theorem start : Remembers .empty .empty where
  tied := Document.tied_empty
  shared := nofun
  sites := nofun

theorem hosts (h : s.Remembers m) : s.document.Hosts s.shared.span where
  tied := h.tied
  insertable := SharedInstances.all_span h.shared

theorem has (h : s.Remembers m) {i : Instance} (hi : s.Has m i) : i.All s.document.Insertable :=
  hi.elim (h.shared i) fun ⟨c, hc⟩ => h.sites c i hc

theorem follow (h : s.Remembers m) {e : Option PatchError}
    (hfollows : MountSites.Follows s.document (e, m', d)) :
    Remembers { s with document := d } m' where
  tied := hfollows.document.tied
  shared i hi := (h.shared i hi).mono hfollows.document.kept
  sites := hfollows.sites

theorem follow_document (h : s.Remembers m) (hfollows : s.document.Follows d) :
    Remembers { s with document := d } m :=
  h.follow (e := none) ⟨hfollows, h.sites.mono hfollows.kept⟩

theorem create (h : s.Remembers m) {source : CompiledTemplate}
    (hsource : source.HasNodes) : (s.create source).2.Remembers m := by
  obtain ⟨i, d, hcreate, ⟨hdocument, hall⟩, -⟩ := Instance.follows_create hsource h.tied
  obtain ⟨htied, hshared, hsites⟩ := h.follow_document hdocument
  simp only [Stage.create, hcreate]
  exact ⟨htied, List.forall_mem_append.mpr ⟨hshared, List.forall_mem_singleton.mpr hall⟩, hsites⟩

theorem patch (h : s.Remembers m) (id : InstanceId) {values : List Value}
    (hvalues : Value.AreCompiled values) : (s.patch id values).2.Remembers m := by
  cases hi : s.shared[id]? with
  | none =>
      simp only [Stage.patch, hi]
      exact h
  | some i =>
      have hpatched := Instance.follows_patch hvalues h.hosts
        (h.shared i (List.mem_of_getElem? hi))
      obtain ⟨htied, hshared, hsites⟩ := h.follow_document hpatched.document
      simp only [Stage.patch, hi]
      refine ⟨htied, fun j hj => ?_, hsites⟩
      rcases List.mem_or_eq_of_mem_set hj with hj | rfl
      · exact hshared j hj
      · exact hpatched.all

theorem gather (h : s.Remembers m) (id : InstanceId) : (s.gather id).2.Remembers m :=
  h.follow_document ((Value.follows_shared id).document s.document h.hosts)

end Remembers

/-- Whatever is done to a stage, all that its instances remember can be inserted. -/
theorem Reached.remembers (h : Reached s m) : s.Remembers m := by
  induction h with
  | start => exact .start
  | create _ hsource ih => exact ih.create hsource
  | patch _ id hvalues ih => exact ih.patch id hvalues
  | gather _ id ih => exact ih.gather id
  | render _ hv ih => exact ih.follow_document (Value.follows_render hv ih.hosts)
  | mount _ c hui ih => exact ih.follow (MountSites.follows_render c hui ih.sites ih.hosts)
  | unmount _ c ih => exact ih.follow (MountSites.follows_unmount c ih.sites ih.tied)
  | operate _ hop ih => exact ih.follow_document (hop.follows ih.tied)

end Stage

end LiveMarkup
