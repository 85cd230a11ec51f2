import LiveMarkup.Component.Flush
import Mathlib.Logic.Relation

/-!
# What component code can do

While a flush is running, component code and renderers change a page in a few
ways only. Each of them is a step; whatever every step keeps, a whole program
keeps. Steps note calls in the journal and nothing else: no component is
updated by another's code.
-/

namespace LiveMarkup

/-- Whether component code alone can note an event. -/
def Event.isCall : Event → Bool
  | .propWritten .. | .attrWritten .. | .connected _ | .disconnected _ | .requested _ => true
  | _ => false

/-- Whether an event is one for which an element asks for its update. -/
def Event.asks (k : ComponentId) : Event → Bool
  | .propWritten j _ _ | .attrWritten j _ _ | .connected j => j = k
  | _ => false

/-- Whether a call may ask for an update. -/
def Call.mayAsk {ρ : Type} : Call ρ → Bool
  | .setProp .. | .setAttribute .. | .connect _ => true
  | _ => false

namespace Page

variable {σ ρ : Type}

/-! ## Views of an element -/

/-- What an element last rendered from; nothing for one that does not exist. -/
def committed (p : Page σ ρ) (k : ComponentId) : Inputs :=
  ((p.elements[k]?).map Element.committed).getD .empty

/-- What was written to an element since. -/
def staged (p : Page σ ρ) (k : ComponentId) : Inputs :=
  ((p.elements[k]?).map Element.staged).getD .empty

/-- Whether a flush that rendered an element has ended. -/
def hasRendered (p : Page σ ρ) (k : ComponentId) : Bool :=
  ((p.elements[k]?).map Element.rendered).getD false

theorem isConnected_eq (p : Page σ ρ) (k : ComponentId) :
    p.isConnected k = ((p.elements[k]?).map Element.connected).getD false := by
  unfold isConnected
  cases p.elements[k]? <;> rfl

/-- Whether an element exists. -/
def exists? (p : Page σ ρ) (k : ComponentId) : Bool :=
  (p.elements[k]?).isSome

theorem element_modify (p : Page σ ρ) (k : ComponentId) (f : Element → Element)
    (j : ComponentId) :
    (p.modify k f).elements[j]? =
      if j = k then (p.elements[j]?).map f else p.elements[j]? := by
  unfold modify
  rw [List.getElem?_modify]
  by_cases h : k = j
  · simp [h]
  · simp [h, Ne.symm h]

theorem exists?_modify (p : Page σ ρ) (j : ComponentId) (g : Element → Element)
    (k : ComponentId) : (p.modify j g).exists? k = p.exists? k := by
  unfold exists?
  rw [element_modify]
  split
  · rw [Option.isSome_map]
  · rfl

theorem element_create {α : Type} (p : Page σ ρ) (schema : Schema) (mount : NodeId)
    (j : ComponentId) (f : Element → α) :
    (((p.create schema mount).2.elements[j]?).map f).getD (f (.new schema mount)) =
      ((p.elements[j]?).map f).getD (f (.new schema mount)) := by
  unfold create
  -- an older element, the new one, or none
  rcases Nat.lt_trichotomy j p.elements.length with h | h | h
  · rw [List.getElem?_append_left h]
  · subst h
    simp
  · rw [List.getElem?_eq_none (by simpa using Nat.succ_le_of_lt h), List.getElem?_eq_none (Nat.le_of_lt h)]

@[simp] theorem elements_request (p : Page σ ρ) (k : ComponentId) :
    (p.request k).elements = p.elements := by
  simp only [request]
  split <;> rfl

@[simp] theorem journal_request (p : Page σ ρ) (k : ComponentId) :
    (p.request k).journal = .requested k :: p.journal := by
  simp only [request]
  split <;> rfl

@[simp] theorem flushing_request (p : Page σ ρ) (k : ComponentId) :
    (p.request k).flushing = p.flushing := by
  simp only [request]
  split <;> rfl

/-! ## Steps -/

/-- One thing that component code, or a renderer, can do to a page while a flush
is running. -/
inductive Step : Page σ ρ → Page σ ρ → Prop
  | world {p : Page σ ρ} (host : σ) (renderer : Option ρ) (scheduled : Bool) :
      Step p { p with host := host, renderer := renderer, scheduled := scheduled }
  | create {p : Page σ ρ} (schema : Schema) (mount : NodeId) :
      Step p (p.create schema mount).2
  | request {p : Page σ ρ} (k : ComponentId) : Step p (p.request k)
  | writeProp {p : Page σ ρ} {k : ComponentId} (name : String) (value : Value)
      (h : p.exists? k = true) :
      Step p (((p.note (.propWritten k name value)).modify k fun e =>
        { e with staged := e.staged.withProp name value }).request k)
  | writeAttr {p : Page σ ρ} {k : ComponentId} (name : String) (value : Option String)
      (h : p.exists? k = true) :
      Step p (((p.note (.attrWritten k name value)).modify k fun e =>
        { e with staged := e.staged.withAttr name value }).request k)
  | connect {p : Page σ ρ} {k : ComponentId} (h : p.exists? k = true) :
      Step p (((p.note (.connected k)).modify k fun e =>
        { e with connected := true }).request k)
  | drop {p : Page σ ρ} {k : ComponentId} (h : p.exists? k = true) :
      Step p ((p.note (.disconnected k)).modify k fun e => { e with connected := false })

/-- Any number of steps. -/
abbrev Steps : Page σ ρ → Page σ ρ → Prop :=
  Relation.ReflTransGen Step

theorem exists?_of_element {p : Page σ ρ} {k : ComponentId} {e : Element}
    (h : p.elements[k]? = some e) : p.exists? k = true := by
  unfold exists?
  rw [h]
  rfl

theorem exists?_of_isConnected {p : Page σ ρ} {k : ComponentId}
    (h : p.isConnected k = true) : p.exists? k = true := by
  unfold isConnected at h
  split at h
  · rename_i e he
    exact exists?_of_element he
  · simp at h

theorem drop_steps (p : Page σ ρ) (k : ComponentId) : Steps p (p.drop k) := by
  unfold drop
  split
  · rename_i h
    exact .single (.drop (exists?_of_isConnected h))
  · exact .refl

theorem drops_steps (ks : List ComponentId) (p : Page σ ρ) :
    Steps p (ks.foldl drop p) := by
  induction ks generalizing p with
  | nil => exact .refl
  | cons k ks ih => exact (drop_steps p k).trans (ih (p.drop k))

theorem requestAll_steps (ks : List ComponentId) (p : Page σ ρ) :
    Steps p (p.requestAll ks) := by
  unfold requestAll
  induction ks generalizing p with
  | nil => exact .refl
  | cons k ks ih => exact (Relation.ReflTransGen.single (.request k)).trans (ih (p.request k))

/-! ## What steps keep -/

theorem view_modify {α : Type} (p : Page σ ρ) (k : ComponentId) (f : Element → Element)
    (read : Element → α) (none : α) (hkeep : ∀ e, read (f e) = read e) (j : ComponentId) :
    (((p.modify k f).elements[j]?).map read).getD none =
      ((p.elements[j]?).map read).getD none := by
  rw [element_modify]
  split
  · cases p.elements[j]? with
    | none => rfl
    | some e => simp [hkeep]
  · rfl

theorem Step.view {α : Type} {p p' : Page σ ρ} (h : Step p p') (read : Element → α)
    (none : α) (hnew : ∀ schema mount, read (.new schema mount) = none)
    (hstaged : ∀ e inputs, read { e with staged := inputs } = read e)
    (hconnected : ∀ e b, read { e with connected := b } = read e) (j : ComponentId) :
    ((p'.elements[j]?).map read).getD none = ((p.elements[j]?).map read).getD none := by
  cases h with
  | world => rfl
  | create schema mount =>
      rw [← hnew schema mount]
      exact element_create p schema mount j read
  | request => rw [elements_request]
  | writeProp =>
      rw [elements_request]
      exact view_modify _ _ _ read none (fun e => hstaged e _) j
  | writeAttr =>
      rw [elements_request]
      exact view_modify _ _ _ read none (fun e => hstaged e _) j
  | connect =>
      rw [elements_request]
      exact view_modify _ _ _ read none (fun e => hconnected e _) j
  | drop => exact view_modify _ _ _ read none (fun e => hconnected e _) j

/-- Steps note calls. -/
theorem Step.journal {p p' : Page σ ρ} (h : Step p p') :
    ∃ es, p'.journal = es ++ p.journal ∧ ∀ e ∈ es, e.isCall = true := by
  cases h with
  | world | create => exact ⟨[], rfl, by simp⟩
  | request k => exact ⟨[.requested k], journal_request p k, by simp [Event.isCall]⟩
  | @writeProp k name value _ =>
      exact ⟨[.requested k, .propWritten k name value], journal_request _ k,
        by simp [Event.isCall]⟩
  | @writeAttr k name value _ =>
      exact ⟨[.requested k, .attrWritten k name value], journal_request _ k,
        by simp [Event.isCall]⟩
  | @connect k _ =>
      exact ⟨[.requested k, .connected k], journal_request _ k, by simp [Event.isCall]⟩
  | @drop k _ => exact ⟨[.disconnected k], rfl, by simp [Event.isCall]⟩

/-- No step commits anything. -/
theorem Step.committed {p p' : Page σ ρ} (h : Step p p') : p'.committed = p.committed := by
  ext1 k
  exact h.view Element.committed .empty (fun _ _ => rfl) (fun _ _ => rfl) (fun _ _ => rfl) k

/-- No step marks an element as rendered. -/
theorem Step.hasRendered {p p' : Page σ ρ} (h : Step p p') :
    p'.hasRendered = p.hasRendered := by
  ext1 k
  exact h.view Element.rendered false (fun _ _ => rfl) (fun _ _ => rfl) (fun _ _ => rfl) k

theorem Step.exists? {p p' : Page σ ρ} (h : Step p p') {k : ComponentId}
    (hk : p.exists? k = true) : p'.exists? k = true := by
  have hlt : k < p.elements.length := by simpa [Page.exists?] using hk
  have hle : p.elements.length ≤ p'.elements.length := by
    cases h with
    | world => exact Nat.le_refl _
    | create => simp [Page.create]
    | drop => simp [Page.modify, Page.note]
    | _ => simp [Page.modify, Page.note]
  simpa [Page.exists?] using Nat.lt_of_lt_of_le hlt hle

theorem Step.flushing {p p' : Page σ ρ} (h : Step p p') : p'.flushing = p.flushing := by
  cases h with
  | world | create | drop => rfl
  | request | writeProp | writeAttr | connect => exact flushing_request _ _

theorem Steps.committed {p p' : Page σ ρ} (h : Steps p p') : p'.committed = p.committed := by
  induction h with
  | refl => rfl
  | tail _ hstep ih => exact hstep.committed.trans ih

theorem Steps.hasRendered {p p' : Page σ ρ} (h : Steps p p') :
    p'.hasRendered = p.hasRendered := by
  induction h with
  | refl => rfl
  | tail _ hstep ih => exact hstep.hasRendered.trans ih

theorem Steps.exists? {p p' : Page σ ρ} (h : Steps p p') {k : ComponentId}
    (hk : p.exists? k = true) : p'.exists? k = true := by
  induction h with
  | refl => exact hk
  | tail _ hstep ih => exact hstep.exists? ih

theorem Steps.flushing {p p' : Page σ ρ} (h : Steps p p') : p'.flushing = p.flushing := by
  induction h with
  | refl => rfl
  | tail _ hstep ih => exact hstep.flushing.trans ih

/-! ## Programs run in steps -/

variable (backend : Backend σ ρ)

theorem disconnect_steps (p : Page σ ρ) (k : ComponentId) :
    Steps p (p.disconnect backend k) := by
  unfold disconnect
  split
  · exact .refl
  · split
    · refine (drop_steps p k).trans ?_
      unfold unmount
      split
      · exact .refl
      · exact .single (.world _ _ _)
    · exact .refl

theorem setProp_steps (p : Page σ ρ) (k : ComponentId) (name : String) (value : Value) :
    Steps p (p.setProp k name value).2 := by
  unfold setProp
  split
  · exact .refl
  · rename_i e he
    split
    · exact .single (.writeProp name value (exists?_of_element he))
    · exact .refl

theorem setAttribute_steps (p : Page σ ρ) (k : ComponentId) (name : String)
    (value : Option String) : Steps p (p.setAttribute k name value).2 := by
  unfold setAttribute
  split
  · exact .refl
  · rename_i e he
    split
    · exact .single (.writeAttr name value (exists?_of_element he))
    · exact .refl

theorem connect_steps (p : Page σ ρ) (k : ComponentId) : Steps p (p.connect k) := by
  unfold connect
  split
  · exact .refl
  · rename_i e he
    split
    · exact .refl
    · exact .single (.connect (exists?_of_element he))

theorem answer_steps (p : Page σ ρ) (c : Call ρ) : Steps p (p.answer backend c).2 := by
  cases c with
  | create schema mount => exact .single (.create schema mount)
  | setProp k name value => exact setProp_steps p k name value
  | setAttribute k name value => exact setAttribute_steps p k name value
  | connect k => exact connect_steps p k
  | disconnect k => exact disconnect_steps backend p k
  | setRenderer r => exact .single (.world p.host (some r) p.scheduled)
  | clearRenderer => exact .single (.world p.host none false)
  | tick => exact .single (.world p.host p.renderer false)
  | flush => exact .refl

/-- A call that may ask for an update leaves the page, or it is noted, changes its
element, but for the mount point, and asks for its update. -/
theorem asking_cases (p : Page σ ρ) {c : Call ρ} (hc : c.mayAsk = true) :
    (p.answer backend c).2 = p ∨
      ∃ k event change,
        (p.answer backend c).2 = ((p.note event).modify k change).request k ∧
          event.asks k = true ∧ ∀ e : Element, (change e).mount = e.mount := by
  cases c with
  | setProp k name value =>
      simp only [answer, setProp]
      split
      · exact Or.inl rfl
      · split
        · exact Or.inr ⟨k, .propWritten k name value, _, rfl, decide_eq_true rfl, fun _ => rfl⟩
        · exact Or.inl rfl
  | setAttribute k name value =>
      simp only [answer, setAttribute]
      split
      · exact Or.inl rfl
      · split
        · exact Or.inr ⟨k, .attrWritten k name value, _, rfl, decide_eq_true rfl, fun _ => rfl⟩
        · exact Or.inl rfl
  | connect k =>
      simp only [answer, connect]
      split
      · exact Or.inl rfl
      · split
        · exact Or.inl rfl
        · exact Or.inr ⟨k, .connected k, _, rfl, decide_eq_true rfl, fun _ => rfl⟩
  | create | disconnect | setRenderer | clearRenderer | tick | flush => cases hc

theorem run_steps {α : Type} (program : Program σ ρ α) (p : Page σ ρ) :
    Steps p (program.run backend p).2 := by
  induction program generalizing p with
  | done a => exact .refl
  | observe next ih => exact ih p.view p
  | modifyHost f next ih =>
      exact (Relation.ReflTransGen.single (.world (f p.host) p.renderer p.scheduled)).trans
        (ih { p with host := f p.host })
  | call c next ih =>
      exact (answer_steps backend p c).trans (ih (p.answer backend c).1 (p.answer backend c).2)

end Page

end LiveMarkup
