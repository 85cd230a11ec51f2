import LiveMarkup.Proofs.Component.Reachable

/-!
# Code that makes some calls only

Component code may be known to make some calls only, whatever it is answered. A
property that these calls keep holds along all that such code does, also where
steps know too little: they let the renderer change at any time.
-/

namespace LiveMarkup

variable {σ ρ α : Type}

/-- All calls that a program makes are allowed, whatever it is answered. -/
def Program.Uses (allowed : Call ρ → Prop) : Program σ ρ α → Prop
  | .done _ => True
  | .observe next => ∀ view, (next view).Uses allowed
  | .modifyHost _ next => next.Uses allowed
  | .call c next => allowed c ∧ ∀ reply, (next reply).Uses allowed

/-- All calls that component code makes are allowed. -/
structure Hooks.Use (hooks : Hooks σ ρ) (allowed : Call ρ → Prop) : Prop where
  beforeUpdate : ∀ k inputs, (hooks.beforeUpdate k inputs).Uses allowed
  render : ∀ k inputs, (hooks.render k inputs).Uses allowed
  afterUpdate : ∀ k inputs, (hooks.afterUpdate k inputs).Uses allowed

theorem Program.uses_all (program : Program σ ρ α) : program.Uses fun _ => True := by
  induction program with
  | done => trivial
  | observe next ih => exact ih
  | modifyHost f next ih => exact ih
  | call c next ih => exact ⟨trivial, ih⟩

theorem Hooks.use_all (hooks : Hooks σ ρ) : hooks.Use fun _ => True :=
  ⟨fun _ _ => Program.uses_all _, fun _ _ => Program.uses_all _, fun _ _ => Program.uses_all _⟩

namespace Page

variable {backend : Backend σ ρ} {hooks : Hooks σ ρ} {allowed : Call ρ → Prop}
  {P : Page σ ρ → Prop} {p p' : Page σ ρ} {k : ComponentId}

/-- A property of pages that allowed calls keep, and whatever else an update does
before something is shown. -/
structure Conduct (backend : Backend σ ρ) (allowed : Call ρ → Prop) (P : Page σ ρ → Prop) :
    Prop where
  host : ∀ {p : Page σ ρ} (host : σ), P p → P { p with host := host }
  answer : ∀ {p : Page σ ρ} {c : Call ρ}, allowed c → P p → P (p.answer backend c).2
  note : ∀ {p : Page σ ρ} {e : Event}, e.isCall = false → P p → P (p.note e)
  inputs : ∀ {p : Page σ ρ} (k : ComponentId) (inputs : Element → Inputs × Inputs), P p →
    P (p.modify k fun e => { e with committed := (inputs e).1, staged := (inputs e).2 })

namespace Conduct

theorem run (h : Conduct backend allowed P) {program : Program σ ρ α}
    (hprogram : program.Uses allowed) (hp : P p) : P (program.run backend p).2 := by
  induction program generalizing p with
  | done => exact hp
  | observe next ih => exact ih p.view (hprogram p.view) hp
  | modifyHost f next ih => exact ih hprogram (h.host (f p.host) hp)
  | call c next ih => exact ih _ (hprogram.2 _) (h.answer hprogram.1 hp)

theorem runBefore (h : Conduct backend allowed P) (hhooks : hooks.Use allowed) (tag : String)
    (next : Inputs) (hp : P p) : P (p.runBefore backend hooks k tag next).2 := by
  have hrun := h.run (hhooks.beforeUpdate k next) (h.note (e := .beforeUpdate k next) rfl hp)
  simp only [Page.runBefore]
  generalize (hooks.beforeUpdate k next).run backend (p.note (.beforeUpdate k next)) = result
    at hrun
  obtain ⟨_ | _, p'⟩ := result <;> exact hrun

theorem commitAndRender (h : Conduct backend allowed P) (hhooks : hooks.Use allowed)
    (e : Element) (next : Inputs) (hp : P p) :
    P (p.commitAndRender backend hooks k e next).2 := by
  have hcommit : P (p.commit k next) := h.note rfl (h.inputs k (fun _ => (next, .empty)) hp)
  have hrun := h.run (hhooks.render k next) hcommit
  simp only [Page.commitAndRender]
  unfold commit at hrun
  generalize (hooks.render k next).run backend _ = result at hrun ⊢
  obtain ⟨_ | _, p'⟩ := result
  · exact h.inputs k (fun e' => (e.committed, e.staged.merge e'.staged)) hrun
  · exact hrun

theorem update (h : Conduct backend allowed P) (hhooks : hooks.Use allowed) (hp : P p) :
    P (p.update backend hooks k).2 := by
  unfold Page.update
  split
  · exact hp
  · rename_i e he
    have hbefore : P (if e.rendered then
        p.runBefore backend hooks k e.schema.tag (e.committed.merge e.staged)
        else (none, p)).2 := by
      split
      · exact h.runBefore hhooks _ _ hp
      · exact hp
    simp only
    generalize (if e.rendered then
      p.runBefore backend hooks k e.schema.tag (e.committed.merge e.staged)
      else (none, p)) = before at hbefore
    obtain ⟨failed, p₁⟩ := before
    split
    · exact hbefore
    · exact hbefore
    · rename_i now hfailed hnow
      have hrender : P (p₁.commitAndRender backend hooks k now
          (e.committed.merge e.staged)).2 := h.commitAndRender hhooks now _ hbefore
      split
      all_goals
        rename_i heq
        rw [heq] at hrender
        exact hrender

theorem runAfter (h : Conduct backend allowed P) (hhooks : hooks.Use allowed) (inputs : Inputs)
    (hp : P p) : P (p.runAfter backend hooks k (some inputs)).2 := by
  have hrun := h.run (hhooks.afterUpdate k inputs) (h.note (e := .afterUpdate k inputs) rfl hp)
  simp only [Page.runAfter]
  generalize (hooks.afterUpdate k inputs).run backend _ = result at hrun ⊢
  obtain ⟨_ | _, p'⟩ := result <;> exact hrun

end Conduct

/-! ## Mount points -/

/-- Where an element is mounted. -/
def mount? (p : Page σ ρ) (k : ComponentId) : Option NodeId :=
  (p.elements[k]?).map Element.mount

theorem mount?_modify (p : Page σ ρ) (j : ComponentId) (g : Element → Element)
    (hkeep : ∀ e, (g e).mount = e.mount) (k : ComponentId) :
    (p.modify j g).mount? k = p.mount? k := by
  unfold mount?
  rw [element_modify]
  split
  · rw [Option.map_map]
    congr 1
    funext e
    exact hkeep e
  · rfl

theorem mount?_request (p : Page σ ρ) (j k : ComponentId) :
    (p.request j).mount? k = p.mount? k := by
  unfold mount?
  rw [elements_request]

theorem Step.mount? (h : Step p p') {mount : NodeId} (hk : p.mount? k = some mount) :
    p'.mount? k = some mount := by
  cases h with
  | world => exact hk
  | create schema mount' =>
      obtain ⟨e, he, hmount⟩ := Option.map_eq_some_iff.mp hk
      have hlt : k < p.elements.length := (List.getElem?_eq_some_iff.mp he).1
      refine Option.map_eq_some_iff.mpr ⟨e, ?_, hmount⟩
      exact (List.getElem?_append_left hlt).trans he
  | request j => rwa [mount?_request]
  | writeProp | writeAttr | connect =>
      rw [mount?_request, mount?_modify]
      · exact hk
      · intro e
        rfl
  | drop =>
      rw [mount?_modify]
      · exact hk
      · intro e
        rfl

theorem Steps.mount? (h : Steps p p') {mount : NodeId} (hk : p.mount? k = some mount) :
    p'.mount? k = some mount := by
  induction h with
  | refl => exact hk
  | tail _ hstep ih => exact hstep.mount? ih

theorem conduct_mount? (k : ComponentId) (mount : NodeId) :
    Conduct backend (fun _ => True) fun p => p.mount? k = some mount where
  host _ hp := hp
  answer {p c} _ hp := (answer_steps backend p c).mount? hp
  note _ hp := hp
  inputs {p} j inputs hp := by
    rw [mount?_modify]
    · exact hp
    · intro e
      rfl

theorem update_mount? {ui : Value} {mount : NodeId} {previous : Option Inputs}
    (hupdate : p.update backend hooks k = (.ok (some (ui, mount, previous)), p')) :
    p'.mount? k = some mount := by
  cases he : p.elements[k]? with
  | none =>
      simp only [update, he] at hupdate
      cases hupdate
  | some e =>
      have hmount : p.mount? k = some e.mount := by
        unfold mount?
        rw [he]
        rfl
      have hkept : (p.update backend hooks k).2.mount? k = some e.mount :=
        (conduct_mount? k e.mount).update hooks.use_all hmount
      rw [hupdate] at hkept
      rw [hkept]
      simp only [update, he] at hupdate
      split at hupdate
      · cases hupdate
      · cases hupdate
      · split at hupdate
        · cases hupdate
        · cases hupdate
          rfl

/-! ## Flushes -/

/-- An update keeps what conduct keeps, if showing something at a mount point keeps
it, too. -/
theorem Conduct.updateOne (h : Conduct backend allowed P) (hhooks : hooks.Use allowed)
    (hpresent : ∀ {p : Page σ ρ} {k : ComponentId} {mount : NodeId} (ui : Value),
      p.mount? k = some mount → P p → P (p.present backend k mount ui).2)
    (k : ComponentId) (hp : P p) : P (p.updateOne backend hooks k).2 := by
  have hupdate := h.update (k := k) hhooks (h.note (e := .updateStarted k) rfl hp)
  unfold Page.updateOne
  split
  · rename_i heq
    rw [heq] at hupdate
    exact hupdate
  · rename_i heq
    rw [heq] at hupdate
    exact h.note rfl hupdate
  · rename_i ui mount previous p₁ heq
    rw [heq] at hupdate
    have hshown := hpresent ui (update_mount? heq) hupdate
    split
    · rename_i heq'
      rw [heq'] at hshown
      exact hshown
    · rename_i heq'
      rw [heq'] at hshown
      exact h.note rfl hshown

theorem Conduct.kept (h : Conduct backend allowed P) (hhooks : hooks.Use allowed)
    (hpresent : ∀ {p : Page σ ρ} {k : ComponentId} {mount : NodeId} (ui : Value),
      p.mount? k = some mount → P p → P (p.present backend k mount ui).2)
    (hrequest : ∀ {p : Page σ ρ} (k : ComponentId), P p → P (p.request k))
    (hmark : ∀ {p : Page σ ρ} (k : ComponentId), P p → P (p.markRendered k))
    (htake : ∀ {p : Page σ ρ}, P p → P p.takePending.2) : Kept backend hooks P where
  updateOne k _ hp := h.updateOne hhooks hpresent k hp
  runAfter k inputs hp := h.runAfter hhooks inputs hp
  requestAll {p} ks hp := by
    unfold Page.requestAll
    induction ks generalizing p with
    | nil => exact hp
    | cons k ks ih => exact ih (hrequest k hp)
  note {p e} he hp := by
    refine h.note ?_ hp
    cases e <;> first | rfl | cases he
  mark := hmark
  take := htake

/-! ## Calls from outside -/

/-- A call from outside is answered as if a flush were running, and then perhaps
there is one. -/
theorem perform_answer {rounds : Nat} {c : Call ρ} {reply : Reply ρ}
    (h : p.perform backend hooks rounds c = some (reply, p')) :
    p' = (p.answer backend c).2 ∨
      ∃ error, (p.answer backend c).2.flush backend hooks rounds = some (error, p') := by
  cases c with
  | flush =>
      obtain ⟨⟨error, q⟩, hflush, hresult⟩ := Option.map_eq_some_iff.mp h
      cases hresult
      exact Or.inr ⟨error, hflush⟩
  | tick =>
      obtain ⟨⟨error, q⟩, htick, hresult⟩ := Option.map_eq_some_iff.mp h
      cases hresult
      unfold tick at htick
      split at htick
      · exact Or.inr ⟨error, htick⟩
      · rename_i hscheduled
        cases htick
        left
        show p = { p with scheduled := false }
        rw [← Bool.eq_false_iff.mpr hscheduled]
  | setRenderer r =>
      obtain ⟨⟨error, q⟩, hset, hresult⟩ := Option.map_eq_some_iff.mp h
      cases hresult
      simp only [setRenderer] at hset
      split at hset
      · exact Or.inr ⟨error, hset⟩
      · cases hset
        exact Or.inl rfl
  | _ => exact Or.inl (congrArg Prod.snd (Option.some.inj h)).symm

/-- Pages that allowed calls from outside lead to, one after another. Only the host
state may change in between. -/
inductive Led (backend : Backend σ ρ) (hooks : Hooks σ ρ) (allowed : Call ρ → Prop) :
    Page σ ρ → Prop
  | new (host : σ) : Led backend hooks allowed (.new host)
  | host {p : Page σ ρ} (host : σ) (h : Led backend hooks allowed p) :
      Led backend hooks allowed { p with host := host }
  | call {p p' : Page σ ρ} {rounds : Nat} {c : Call ρ} {reply : Reply ρ}
      (h : Led backend hooks allowed p) (hc : allowed c)
      (hperform : p.perform backend hooks rounds c = some (reply, p')) :
      Led backend hooks allowed p'

theorem Led.reachable (h : Led backend hooks allowed p) : Reachable backend hooks p := by
  induction h with
  | new host => exact .new host
  | @host p host _ ih => exact ih.world host p.renderer p.scheduled
  | call _ _ hperform ih => exact ih.call hperform

theorem Led.start {rounds : Nat} {program : Program σ ρ α} {a : α}
    (hp : Led backend hooks allowed p) (hprogram : program.Uses allowed)
    (hstart : program.start backend hooks rounds p = some (a, p')) :
    Led backend hooks allowed p' := by
  induction program generalizing p with
  | done b =>
      cases hstart
      exact hp
  | observe next ih => exact ih p.view hp (hprogram p.view) hstart
  | modifyHost f next ih => exact ih (hp.host (f p.host)) hprogram hstart
  | call c next ih =>
      rw [Program.start] at hstart
      split at hstart
      · cases hstart
      · rename_i reply q hperform
        exact ih reply (hp.call hprogram.1 hperform) (hprogram.2 reply) hstart

theorem Conduct.led (h : Conduct backend allowed P)
    (hflush : ∀ {p p' : Page σ ρ} {rounds : Nat} {error : Option UpdateError},
      p.flush backend hooks rounds = some (error, p') → P p → P p')
    (hnew : ∀ host, P (.new host)) (hp : Led backend hooks allowed p) : P p := by
  induction hp with
  | new host => exact hnew host
  | host host _ ih => exact h.host host ih
  | call _ hc hperform ih =>
      rcases perform_answer hperform with rfl | ⟨error, hrun⟩
      · exact h.answer hc ih
      · exact hflush hrun (h.answer hc ih)

end Page

end LiveMarkup
