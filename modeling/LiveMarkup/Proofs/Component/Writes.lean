import LiveMarkup.Proofs.Component.Reachable

/-!
# Which writes are kept

An update fixes its inputs before any code runs and takes all staged writes
when it commits. A write that comes between, from the code before the update,
is taken without being rendered from; it is lost unless the rendering fails.
Every other write is kept: what an element last rendered from, with what is
staged since, is always what its kept writes say.
-/

namespace LiveMarkup

/-! ## Reading the journal in hindsight -/

/-- What happened to an element next, as far as its earlier writes are
concerned. -/
inductive Hindsight where
  /-- Nothing that decides about them. -/
  | none
  /-- What an update rendered was shown. -/
  | shown
  /-- An update committed and went on to be shown. -/
  | late
deriving DecidableEq

/-- Hindsight from one event earlier. -/
def Hindsight.before (k : ComponentId) : Event → Hindsight → Hindsight
  | .shown j _ _, h | .updated j, h => if j = k then .shown else h
  | .render j _, h => if j = k then (if h = .shown then .late else .none) else h
  | .updateStarted j, h => if j = k then .none else h
  | _, h => h

/-- The last kept write of a kind in a journal. Between the start of an update
and its commitment, writes are too late if the update goes on to be shown. -/
def lastKept {α : Type} (k : ComponentId) (read : Event → Option α) :
    Hindsight → List Event → Option α
  | _, [] => none
  | h, e :: earlier =>
      if h = .late then lastKept k read (h.before k e) earlier
      else (read e).or (lastKept k read (h.before k e) earlier)

/-- The value of a property write. -/
def Event.prop? (k : ComponentId) (name : String) : Event → Option Value
  | .propWritten j n value => if j = k ∧ n = name then some value else none
  | _ => none

/-- The value of an attribute write. -/
def Event.attr? (k : ComponentId) (name : String) : Event → Option (Option String)
  | .attrWritten j n value => if j = k ∧ n = name then some value else none
  | _ => none

/-- Whether an event is a write to an element. -/
def Event.writes (k : ComponentId) : Event → Bool
  | .propWritten j _ _ | .attrWritten j _ _ => j = k
  | _ => false

/-! ## Fields -/

/-- A part of the inputs of elements, and the writes that set it. -/
structure Field (α : Type) where
  look : Inputs → Option α
  read : ComponentId → Event → Option α

/-- A field that staging a write sets and merging lays over. -/
structure Field.Lawful {α : Type} (f : Field α) : Prop where
  empty : f.look .empty = none
  merge : ∀ base later, f.look (base.merge later) = (f.look later).or (f.look base)
  prop : ∀ k inputs name value, f.look (inputs.withProp name value) =
    (f.read k (.propWritten k name value)).or (f.look inputs)
  attr : ∀ k inputs name value, f.look (inputs.withAttr name value) =
    (f.read k (.attrWritten k name value)).or (f.look inputs)
  silent : ∀ k e, e.writes k = false → f.read k e = none

namespace Field

/-- A property. -/
def prop (name : String) : Field Value where
  look inputs := inputs.props.get? name
  read k := Event.prop? k name

/-- An attribute. -/
def attr (name : String) : Field (Option String) where
  look inputs := inputs.attrs.get? name
  read k := Event.attr? k name

theorem lawful_prop (name : String) : (prop name).Lawful where
  empty := rfl
  merge := fun base later => OrderedMap.get?_merge base.props later.props name
  prop := by
    intro k inputs n value
    change (inputs.props.insert n value).get? name = _
    rw [OrderedMap.get?_insert]
    by_cases h : n = name
    · simp [prop, Event.prop?, h]
    · simp [prop, Event.prop?, h, Ne.symm h]
  attr := fun k inputs n value => rfl
  silent := by
    intro k e h
    cases e with
    | propWritten j n value =>
        have hj : j ≠ k := by simpa [Event.writes] using h
        exact if_neg fun heq => hj heq.1
    | _ => rfl

theorem lawful_attr (name : String) : (attr name).Lawful where
  empty := rfl
  merge := fun base later => OrderedMap.get?_merge base.attrs later.attrs name
  prop := fun k inputs n value => rfl
  attr := by
    intro k inputs n value
    change (inputs.attrs.insert n value).get? name = _
    rw [OrderedMap.get?_insert]
    by_cases h : n = name
    · simp [attr, Event.attr?, h]
    · simp [attr, Event.attr?, h, Ne.symm h]
  silent := by
    intro k e h
    cases e with
    | attrWritten j n value =>
        have hj : j ≠ k := by simpa [Event.writes] using h
        exact if_neg fun heq => hj heq.1
    | _ => rfl

end Field

namespace Page

variable {σ ρ α : Type} {f : Field α} {p p' : Page σ ρ} {k j : ComponentId}
  {h : Hindsight} {base : Inputs}

/-! ## What is kept -/

/-- Base inputs with what is staged are what the kept writes say. -/
def Keeps (f : Field α) (h : Hindsight) (p : Page σ ρ) (k : ComponentId) (base : Inputs) :
    Prop :=
  lastKept k (f.read k) h p.journal = f.look (base.merge (p.staged k))

/-- Base inputs are what the writes say that are kept if those from now on are
late. -/
def KeepsLate (f : Field α) (p : Page σ ρ) (k : ComponentId) (base : Inputs) : Prop :=
  lastKept k (f.read k) .late p.journal = f.look base

theorem lastKept_cons_silent {read : Event → Option α} {e : Event}
    (hread : read e = none) (hbefore : h.before k e = h) (earlier : List Event) :
    lastKept k read h (e :: earlier) = lastKept k read h earlier := by
  rw [lastKept, hread, hbefore, Option.none_or]
  split <;> rfl

theorem before_call {e : Event} (he : e.isCall = true) : h.before k e = h := by
  cases e with
  | updateStarted | render | shown | updated => cases he
  | _ => rfl

theorem before_mark {e : Event} (he : e.isMark = true) : h.before k e = h := by
  cases e with
  | updateStarted | render | shown | updated => cases he
  | _ => rfl

theorem writes_mark {e : Event} (he : e.isMark = true) : e.writes k = false := by
  cases e with
  | propWritten | attrWritten => cases he
  | _ => rfl

theorem Keeps.note (hk : Keeps f h p k base) {e : Event} (hread : f.read k e = none)
    (hbefore : h.before k e = h) : Keeps f h (p.note e) k base :=
  (lastKept_cons_silent hread hbefore p.journal).trans hk

theorem Keeps.note_shown (hk : Keeps f .shown p k base) {e : Event}
    (hread : f.read k e = none) (hbefore : Hindsight.none.before k e = .shown) :
    Keeps f .none (p.note e) k base := by
  change lastKept k (f.read k) .none (e :: p.journal) = f.look (base.merge (p.staged k))
  rw [lastKept, if_neg (by simp), hread, Option.none_or, hbefore]
  exact hk

theorem staged_modify (p : Page σ ρ) (j : ComponentId) (g : Element → Element)
    (hkeep : ∀ e, (g e).staged = e.staged) (k : ComponentId) :
    (p.modify j g).staged k = p.staged k :=
  view_modify p j g Element.staged .empty hkeep k

theorem staged_modify_other (p : Page σ ρ) (g : Element → Element) (hjk : k ≠ j) :
    (p.modify j g).staged k = p.staged k := by
  unfold staged
  rw [element_modify, if_neg hjk]

theorem staged_modify_self (he : p.exists? k = true) (g : Inputs → Inputs) :
    (p.modify k fun e => { e with staged := g e.staged }).staged k = g (p.staged k) := by
  obtain ⟨e, he⟩ := Option.isSome_iff_exists.mp he
  unfold staged
  rw [element_modify, if_pos rfl, he]
  rfl

theorem staged_request (p : Page σ ρ) (j k : ComponentId) :
    (p.request j).staged k = p.staged k := by
  unfold staged
  rw [elements_request]

theorem Keeps.write_self (hk : Keeps f h p k base) (hf : f.Lawful) (hlate : h ≠ .late)
    (he : p.exists? k = true) {e : Event} (hcall : e.isCall = true) {g : Inputs → Inputs}
    (hlook : ∀ inputs, f.look (g inputs) = (f.read k e).or (f.look inputs)) :
    Keeps f h ((p.note e).modify k fun e => { e with staged := g e.staged }) k base := by
  have hstaged := staged_modify_self (p := p.note e) he g
  unfold Keeps at hk ⊢
  change lastKept k (f.read k) h (e :: p.journal) = _
  rw [lastKept, if_neg hlate, before_call hcall, hk, hstaged, hf.merge, hf.merge, hlook,
    Option.or_assoc]
  rfl

theorem Keeps.write_other (hk : Keeps f h p k base) (hf : f.Lawful) (hjk : k ≠ j) {e : Event}
    (hcall : e.isCall = true) (hother : e.writes k = false) (g : Element → Element) :
    Keeps f h ((p.note e).modify j g) k base := by
  have hnoted := hk.note (hf.silent k e hother) (before_call hcall)
  unfold Keeps at hnoted ⊢
  rw [staged_modify_other (p.note e) g hjk]
  exact hnoted

theorem Keeps.request (hk : Keeps f h p k base) (hf : f.Lawful) (j : ComponentId) :
    Keeps f h (p.request j) k base := by
  have hnoted := hk.note (hf.silent k (.requested j) rfl) rfl
  unfold Keeps at hnoted ⊢
  rw [journal_request, staged_request]
  exact hnoted

theorem Keeps.modify (hk : Keeps f h p k base) (j : ComponentId) (g : Element → Element)
    (hkeep : ∀ e, (g e).staged = e.staged) : Keeps f h (p.modify j g) k base := by
  unfold Keeps at hk ⊢
  rw [staged_modify p j g hkeep]
  exact hk

theorem Step.keeps (hstep : Step p p') (hf : f.Lawful) (hlate : h ≠ .late)
    (hk : Keeps f h p k base) : Keeps f h p' k base := by
  cases hstep with
  | world => exact hk
  | create schema mount =>
      have hstaged : (p.create schema mount).2.staged k = p.staged k :=
        element_create p schema mount k Element.staged
      unfold Keeps at hk ⊢
      rw [hstaged]
      exact hk
  | request j => exact hk.request hf j
  | @writeProp j name value he =>
      refine Keeps.request ?_ hf j
      by_cases hjk : k = j
      · subst hjk
        exact hk.write_self hf hlate he rfl (g := fun inputs => inputs.withProp name value)
          fun inputs => hf.prop k inputs name value
      · exact hk.write_other hf hjk rfl (by simpa [Event.writes] using Ne.symm hjk) _
  | @writeAttr j name value he =>
      refine Keeps.request ?_ hf j
      by_cases hjk : k = j
      · subst hjk
        exact hk.write_self hf hlate he rfl (g := fun inputs => inputs.withAttr name value)
          fun inputs => hf.attr k inputs name value
      · exact hk.write_other hf hjk rfl (by simpa [Event.writes] using Ne.symm hjk) _
  | @connect j _ =>
      refine Keeps.request ?_ hf j
      exact (hk.note (hf.silent k (.connected j) rfl) rfl).modify j _ fun _ => rfl
  | @drop j _ =>
      exact (hk.note (hf.silent k (.disconnected j) rfl) rfl).modify j _ fun _ => rfl

theorem Steps.keeps (hsteps : Steps p p') (hf : f.Lawful) (hlate : h ≠ .late)
    (hk : Keeps f h p k base) : Keeps f h p' k base := by
  induction hsteps with
  | refl => exact hk
  | tail _ hstep ih => exact hstep.keeps hf hlate ih

theorem Steps.keepsLate (hsteps : Steps p p') (hk : KeepsLate f p k base) :
    KeepsLate f p' k base := by
  induction hsteps with
  | refl => exact hk
  | tail _ hstep ih =>
      -- calls do not change hindsight, and late ones are passed over
      obtain ⟨es, hjournal, hcalls⟩ := hstep.journal
      unfold KeepsLate at ih ⊢
      rw [hjournal]
      clear hjournal
      induction es with
      | nil => exact ih
      | cons e es ihes =>
          rw [List.cons_append, lastKept, if_pos rfl, before_call (hcalls e List.mem_cons_self)]
          exact ihes fun e he => hcalls e (List.mem_cons_of_mem _ he)

/-- What an element last rendered from, with what is staged, is what its kept
writes say. -/
def Faithful (f : Field α) (p : Page σ ρ) (k : ComponentId) : Prop :=
  Keeps f .none p k (p.committed k)

theorem committed_modify (p : Page σ ρ) (j : ComponentId) (g : Element → Element)
    (hkeep : ∀ e, (g e).committed = e.committed) (k : ComponentId) :
    (p.modify j g).committed k = p.committed k :=
  view_modify p j g Element.committed .empty hkeep k

theorem committed_modify_other (p : Page σ ρ) (g : Element → Element) (hkj : k ≠ j) :
    (p.modify j g).committed k = p.committed k := by
  unfold committed
  rw [element_modify, if_neg hkj]

theorem Steps.faithful (hsteps : Steps p p') (hf : f.Lawful) (hk : Faithful f p k) :
    Faithful f p' k := by
  unfold Faithful at hk ⊢
  rw [hsteps.committed]
  exact hsteps.keeps hf (by simp) hk

theorem Faithful.note (hk : Faithful f p k) {e : Event} (hread : f.read k e = none)
    (hbefore : Hindsight.none.before k e = .none) : Faithful f (p.note e) k :=
  Keeps.note hk hread hbefore

theorem Faithful.modify_other (hk : Faithful f p k) (g : Element → Element) (hkj : k ≠ j) :
    Faithful f (p.modify j g) k := by
  unfold Faithful Keeps at hk ⊢
  rw [committed_modify_other p g hkj, staged_modify_other p g hkj]
  exact hk

/-! ## Updates -/

section

variable {e : Element} {q : Page σ ρ}

theorem Prepared.committed (hprepared : Prepared p k e q) : q.committed = p.committed := by
  cases hprepared with
  | first => rfl
  | again _ hsteps => exact hsteps.committed

/-- Before an element commits, all of its writes may still be kept; if it goes
on to be shown, those since its update started will be late. -/
theorem Prepared.keeps (hprepared : Prepared p k e q) (hf : f.Lawful)
    (he : p.elements[k]? = some e) (hk : Keeps f .none p k e.committed) :
    Keeps f .none q k e.committed ∧ KeepsLate f q k e.latest := by
  have hstarted := hk.note (hf.silent k (.updateStarted k) rfl) (if_pos rfl)
  have hlate : KeepsLate f (p.note (.updateStarted k)) k e.latest := by
    unfold KeepsLate
    change lastKept k (f.read k) .late (.updateStarted k :: p.journal) = _
    rw [lastKept, if_pos rfl]
    unfold Keeps at hk
    rw [staged_of_element he] at hk
    simpa [Hindsight.before, Element.latest] using hk
  cases hprepared with
  | first => exact ⟨hstarted, hlate⟩
  | again _ hsteps =>
      constructor
      · exact hsteps.keeps hf (by simp) (hstarted.note (hf.silent k _ rfl) rfl)
      · refine hsteps.keepsLate ?_
        unfold KeepsLate at hlate ⊢
        rw [← hlate]
        exact lastKept_cons_silent (hf.silent k _ rfl) rfl _

/-- Committing takes all staged writes; in the end either those or the late
ones are kept. -/
theorem keeps_commit (hf : f.Lawful) (he : q.exists? k = true) {previous next : Inputs}
    (hk : Keeps f .none q k previous) (hlate : KeepsLate f q k next) :
    Keeps f .none (q.commit k next) k (previous.merge (q.staged k)) ∧
      Keeps f .shown (q.commit k next) k next := by
  unfold Keeps at hk ⊢
  unfold KeepsLate at hlate
  rw [staged_commit he]
  change lastKept k (f.read k) .none (.render k next :: q.journal) = _ ∧
    lastKept k (f.read k) .shown (.render k next :: q.journal) = _
  have hread : f.read k (.render k next) = none := hf.silent k _ rfl
  constructor
  · rw [lastKept_cons_silent hread (by simp [Hindsight.before]), hk, hf.merge _ .empty,
      hf.empty, Option.none_or]
  · rw [lastKept, if_neg (by simp), hread, Option.none_or, hf.merge, hf.empty, Option.none_or,
      ← hlate]
    simp [Hindsight.before]

theorem keeps_restore (hf : f.Lawful) (he : q.exists? k = true) {previous taken : Inputs}
    (hk : Keeps f .none q k (previous.merge taken)) :
    Keeps f .none (q.restore k previous taken) k
      ((q.restore k previous taken).committed k) := by
  obtain ⟨e, he⟩ := Option.isSome_iff_exists.mp he
  have hrestored : (q.restore k previous taken).elements[k]? =
      some { e with committed := previous, staged := taken.merge e.staged } := by
    unfold restore
    rw [element_modify, if_pos rfl, he]
    rfl
  unfold Keeps at hk ⊢
  rw [staged_of_element he] at hk
  rw [committed_of_element hrestored, staged_of_element hrestored]
  change lastKept k (f.read k) .none q.journal = _
  rw [hk, hf.merge, hf.merge, hf.merge, hf.merge, Option.or_assoc]

end

variable {e : Element} {result : Except UpdateError (Option Inputs)}

theorem Update.faithful_other (hupdate : Update p j e result p') (hf : f.Lawful)
    (hkj : k ≠ j) (hk : Faithful f p k) : Faithful f p' k := by
  have hprepared : ∀ {q}, Prepared p j e q → Faithful f q k := by
    intro q hprepared
    have hstarted := hk.note (hf.silent k (.updateStarted j) rfl) (if_neg hkj.symm)
    cases hprepared with
    | first => exact hstarted
    | again _ hsteps => exact hsteps.faithful hf (hstarted.note (hf.silent k _ rfl) rfl)
  have hrendered : ∀ {q₁ q₂}, Prepared p j e q₁ → Steps (q₁.commit j e.latest) q₂ →
      Faithful f q₂ k := by
    intro q₁ q₂ h₁ hsteps
    exact hsteps.faithful hf (((hprepared h₁).modify_other _ hkj).note
      (hf.silent k _ rfl) (if_neg hkj.symm))
  have hshown : ∀ {q₁ q₂ : Page σ ρ} {mount ui}, Faithful f q₁ k → Steps (q₁.note (.shown j mount ui)) q₂ →
      Faithful f q₂ k := by
    intro q₁ q₂ mount ui h₁ hsteps
    exact hsteps.faithful hf (h₁.note (hf.silent k _ rfl) (if_neg hkj.symm))
  cases hupdate with
  | refused _ h₁ => exact hprepared h₁
  | failed _ h₁ hrender => exact (hrendered h₁ hrender).modify_other _ hkj
  | unshown _ h₁ hrender _ _ hshow => exact hshown (hrendered h₁ hrender) hshow
  | done h₁ hrender hpresented =>
      refine Faithful.note ?_ (hf.silent k (.updated j) rfl) (if_neg hkj.symm)
      cases hpresented with
      | hidden => exact hrendered h₁ hrender
      | shown _ _ hshow => exact hshown (hrendered h₁ hrender) hshow

/-- An update takes an element's writes, gives them back, or leaves them
staged; those that came too late are gone once it is shown. -/
theorem Update.faithful_self (hupdate : Update p k e result p') (hf : f.Lawful)
    (he : p.elements[k]? = some e) (hk : Faithful f p k) : Faithful f p' k := by
  unfold Faithful at hk
  rw [committed_of_element he] at hk
  have hrendered : ∀ {q₁ q₂}, Prepared p k e q₁ → Steps (q₁.commit k e.latest) q₂ →
      q₂.exists? k = true ∧ q₂.committed k = e.latest ∧
        Keeps f .none q₂ k ((q₁.committed k).merge (q₁.staged k)) ∧
        Keeps f .shown q₂ k e.latest := by
    intro q₁ q₂ h₁ hsteps
    have hexists := h₁.exists? he
    obtain ⟨hnone, hlate⟩ := h₁.keeps hf he hk
    rw [← committed_of_element he, ← h₁.committed] at hnone
    obtain ⟨hback, hon⟩ := keeps_commit hf hexists hnone hlate
    refine ⟨hsteps.exists? ?_, ?_, hsteps.keeps hf (by simp) hback,
      hsteps.keeps hf (by simp) hon⟩
    · obtain ⟨now, hnow⟩ := Option.isSome_iff_exists.mp hexists
      unfold commit note Page.exists?
      simp [element_modify, hnow]
    · rw [hsteps.committed, committed_commit hexists]
  have hshown : ∀ {q₁ q₂ : Page σ ρ} {mount ui}, Keeps f .shown q₁ k e.latest →
      Steps (q₁.note (.shown k mount ui)) q₂ →
      q₂.committed k = q₁.committed k ∧ Keeps f .none q₂ k e.latest ∧
        Keeps f .shown q₂ k e.latest := by
    intro q₁ q₂ mount ui h₁ hsteps
    have hread : f.read k (.shown k mount ui) = none := hf.silent k _ rfl
    refine ⟨?_, ?_, ?_⟩
    · rw [hsteps.committed]
      rfl
    · exact hsteps.keeps hf (by simp) (h₁.note_shown hread (if_pos rfl))
    · exact hsteps.keeps hf (by simp) (h₁.note hread (if_pos rfl))
  cases hupdate with
  | refused _ h₁ =>
      unfold Faithful
      rw [h₁.committed, committed_of_element he]
      exact (h₁.keeps hf he hk).1
  | failed _ h₁ hrender =>
      obtain ⟨hexists, -, hback, -⟩ := hrendered h₁ hrender
      exact keeps_restore hf hexists hback
  | unshown _ h₁ hrender _ _ hshow =>
      obtain ⟨-, hcommitted, -, hon⟩ := hrendered h₁ hrender
      obtain ⟨hsame, hnone, -⟩ := hshown hon hshow
      unfold Faithful
      rw [hsame, hcommitted]
      exact hnone
  | @done q₁ q₂ q₃ h₁ hrender hpresented =>
      obtain ⟨-, hcommitted, -, hon⟩ := hrendered h₁ hrender
      obtain ⟨hsame, hon'⟩ : q₃.committed k = e.latest ∧ Keeps f .shown q₃ k e.latest := by
        cases hpresented with
        | hidden => exact ⟨hcommitted, hon⟩
        | shown _ _ hshow =>
            obtain ⟨hsame, -, hon'⟩ := hshown hon hshow
            exact ⟨hsame.trans hcommitted, hon'⟩
      rw [← hsame] at hon'
      exact hon'.note_shown (hf.silent k _ rfl) (if_pos rfl)

/-! ## Reachable pages -/

theorem invariant_faithful (hf : f.Lawful) :
    Invariant fun p : Page σ ρ => ∀ k, Faithful f p k where
  step := fun hstep hp k => Steps.faithful (.single hstep) hf (hp k)
  update := by
    intro p p' j e result he hupdate hp k
    by_cases hkj : k = j
    · subst hkj
      exact hupdate.faithful_self hf he (hp k)
    · exact hupdate.faithful_other hf hkj (hp k)
  note := fun he hp k => (hp k).note (hf.silent k _ (writes_mark he)) (before_mark he)
  mark := by
    intro p j hp k
    have hcommitted : (p.markRendered j).committed k = p.committed k := by
      unfold markRendered
      refine committed_modify p j _ ?_ k
      intro e
      rfl
    unfold Faithful
    rw [hcommitted]
    exact Keeps.modify (hp k) j _ fun _ => rfl
  take := fun hp k => hp k
  flags := fun _ _ hp k => hp k

/-- On a reachable page, what every element last rendered from, with what is
staged, is what its kept writes say. -/
theorem Reachable.faithful {backend : Backend σ ρ} {hooks : Hooks σ ρ} (hf : f.Lawful)
    (hp : Reachable backend hooks p) (k : ComponentId) : Faithful f p k :=
  (invariant_faithful hf).reachable
    (fun host k => by
      change none = f.look (Inputs.empty.merge .empty)
      rw [hf.merge, hf.empty]
      rfl) hp k

end Page

end LiveMarkup
