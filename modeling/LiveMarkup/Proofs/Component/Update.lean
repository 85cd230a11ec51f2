import LiveMarkup.Proofs.Component.Steps

/-!
# What one update does

The ways in which the update of an element can go, said once: the code before
the update refuses, rendering fails, what was rendered cannot be shown, or the
update comes to its end. Whatever component code does meanwhile is steps.
-/

namespace LiveMarkup

/-- Whether the update of an element can note an event after its start. -/
def Event.isOwn (k : ComponentId) : Event → Bool
  | .beforeUpdate j _ | .render j _ | .shown j _ _ | .updated j => j = k
  | e => e.isCall

theorem Event.isOwn_of_isCall {k : ComponentId} {e : Event} (h : e.isCall = true) :
    e.isOwn k = true := by
  cases e <;> first | exact h | cases h

/-- What an element would render from now. -/
def Element.latest (e : Element) : Inputs :=
  e.committed.merge e.staged

namespace Page

variable {σ ρ : Type}

/-- Commits inputs and begins to render from them. -/
def commit (p : Page σ ρ) (k : ComponentId) (next : Inputs) : Page σ ρ :=
  (p.modify k fun e => { e with committed := next, staged := .empty }).note (.render k next)

/-- Takes a commitment back: what was staged before is staged again, under
whatever was staged since. -/
def restore (p : Page σ ρ) (k : ComponentId) (previous taken : Inputs) : Page σ ρ :=
  p.modify k fun e => { e with committed := previous, staged := taken.merge e.staged }

/-- An element that has been prepared for its update: the code before the
update has run, unless the element had never rendered. -/
inductive Prepared (p : Page σ ρ) (k : ComponentId) (e : Element) : Page σ ρ → Prop
  | first (hrendered : e.rendered = false) : Prepared p k e (p.note (.updateStarted k))
  | again {p' : Page σ ρ} (hrendered : e.rendered = true)
      (hsteps : Steps ((p.note (.updateStarted k)).note (.beforeUpdate k e.latest)) p') :
      Prepared p k e p'

/-- What an element rendered has been given to the renderer, if one is there. -/
inductive Presented (p : Page σ ρ) (k : ComponentId) : Page σ ρ → Prop
  | hidden : Presented p k p
  | shown {p' : Page σ ρ} (mount : NodeId) (ui : Value)
      (hsteps : Steps (p.note (.shown k mount ui)) p') : Presented p k p'

/-- The ways in which the update of an element can go. -/
inductive Update (p : Page σ ρ) (k : ComponentId) (e : Element) :
    Except UpdateError (Option Inputs) → Page σ ρ → Prop
  | refused {p₁ : Page σ ρ} (error : UpdateError) (hprepared : Prepared p k e p₁) :
      Update p k e (.error error) p₁
  | failed {p₁ p₂ : Page σ ρ} (error : UpdateError) (hprepared : Prepared p k e p₁)
      (hrender : Steps (p₁.commit k e.latest) p₂) :
      Update p k e (.error error) (p₂.restore k (p₁.committed k) (p₁.staged k))
  | unshown {p₁ p₂ p₃ : Page σ ρ} (error : UpdateError) (hprepared : Prepared p k e p₁)
      (hrender : Steps (p₁.commit k e.latest) p₂) (mount : NodeId) (ui : Value)
      (hshown : Steps (p₂.note (.shown k mount ui)) p₃) :
      Update p k e (.error error) p₃
  | done {p₁ p₂ p₃ : Page σ ρ} (hprepared : Prepared p k e p₁)
      (hrender : Steps (p₁.commit k e.latest) p₂) (hpresented : Presented p₂ k p₃) :
      Update p k e (.ok (if e.rendered then some (p₁.committed k) else none))
        (p₃.note (.updated k))

variable {p p' : Page σ ρ} {k : ComponentId} {e : Element}

theorem committed_of_element (h : p.elements[k]? = some e) : p.committed k = e.committed := by
  unfold committed
  rw [h]
  rfl

theorem staged_of_element (h : p.elements[k]? = some e) : p.staged k = e.staged := by
  unfold staged
  rw [h]
  rfl

theorem hasRendered_of_element (h : p.elements[k]? = some e) :
    p.hasRendered k = e.rendered := by
  unfold hasRendered
  rw [h]
  rfl

theorem Prepared.exists? (h : Prepared p k e p') (he : p.elements[k]? = some e) :
    p'.exists? k = true := by
  cases h with
  | first => exact exists?_of_element (p := p.note (.updateStarted k)) he
  | again _ hsteps =>
      exact hsteps.exists?
        (exists?_of_element (p := (p.note (.updateStarted k)).note _) he)

variable {q : Page σ ρ}

/-- What holds when an update starts, and what steps, notes of its own and changes
of its element's inputs keep, holds when it ends. -/
theorem Update.through {P : Page σ ρ → Prop} {result : Except UpdateError (Option Inputs)}
    (h : Update p k e result p') (hstep : ∀ {q q' : Page σ ρ}, Step q q' → P q → P q')
    (hnote : ∀ {q : Page σ ρ} {event : Event}, event.isOwn k = true → event.isCall = false →
      P q → P (q.note event))
    (hinputs : ∀ {q : Page σ ρ} (inputs : Element → Inputs × Inputs), P q →
      P (q.modify k fun e => { e with committed := (inputs e).1, staged := (inputs e).2 }))
    (hstart : P (p.note (.updateStarted k))) : P p' := by
  have hsteps : ∀ {q q' : Page σ ρ}, Steps q q' → P q → P q' := by
    intro q q' hsteps hq
    induction hsteps with
    | refl => exact hq
    | tail _ hlast ih => exact hstep hlast ih
  have hprepared : ∀ {q}, Prepared p k e q → P q := by
    intro q hprepared
    cases hprepared with
    | first => exact hstart
    | again _ hbefore => exact hsteps hbefore (hnote (decide_eq_true rfl) rfl hstart)
  have hrendered : ∀ {q₁ q₂}, Prepared p k e q₁ → Steps (q₁.commit k e.latest) q₂ → P q₂ := by
    intro q₁ q₂ h₁ hrender
    exact hsteps hrender (hnote (decide_eq_true rfl) rfl
      (hinputs (fun _ => (e.latest, .empty)) (hprepared h₁)))
  cases h with
  | refused _ h₁ => exact hprepared h₁
  | @failed q₁ q₂ _ h₁ hrender =>
      exact hinputs (fun e => (q₁.committed k, (q₁.staged k).merge e.staged))
        (hrendered h₁ hrender)
  | unshown _ h₁ hrender _ _ hshown =>
      exact hsteps hshown (hnote (decide_eq_true rfl) rfl (hrendered h₁ hrender))
  | done h₁ hrender hpresented =>
      refine hnote ?_ rfl ?_
      · exact decide_eq_true rfl
      · cases hpresented with
        | hidden => exact hrendered h₁ hrender
        | shown _ _ hshown =>
            exact hsteps hshown (hnote (decide_eq_true rfl) rfl (hrendered h₁ hrender))

/-- What steps, notes and changes of an element's inputs keep, its update
keeps. -/
theorem Update.keeps {P : Page σ ρ → Prop} {result : Except UpdateError (Option Inputs)}
    (h : Update p k e result p') (hstep : ∀ {q q' : Page σ ρ}, Step q q' → P q → P q')
    (hnote : ∀ {q : Page σ ρ} (event : Event), P q → P (q.note event))
    (hinputs : ∀ {q : Page σ ρ} (inputs : Element → Inputs × Inputs), P q →
      P (q.modify k fun e => { e with committed := (inputs e).1, staged := (inputs e).2 }))
    (hp : P p) : P p' :=
  h.through hstep (fun _ _ hq => hnote _ hq) hinputs (hnote _ hp)

/-- An update notes its start, and then nothing but what is its own. -/
theorem Update.journal {result : Except UpdateError (Option Inputs)}
    (h : Update p k e result p') :
    ∃ own, p'.journal = own ++ .updateStarted k :: p.journal ∧
      ∀ event ∈ own, event.isOwn k = true := by
  refine h.through (P := fun q => ∃ own, q.journal = own ++ .updateStarted k :: p.journal ∧
    ∀ event ∈ own, event.isOwn k = true) ?_ ?_ ?_ ⟨[], rfl, by simp⟩
  · rintro q q' hstep ⟨own, hq, hown⟩
    obtain ⟨es, hjournal, hcalls⟩ := hstep.journal
    refine ⟨es ++ own, by rw [hjournal, hq, List.append_assoc], ?_⟩
    intro event hevent
    rcases List.mem_append.mp hevent with hevent | hevent
    · exact Event.isOwn_of_isCall (hcalls event hevent)
    · exact hown event hevent
  · rintro q event hevent - ⟨own, hq, hown⟩
    refine ⟨event :: own, congrArg (event :: ·) hq, ?_⟩
    exact List.forall_mem_cons.mpr ⟨hevent, hown⟩
  · rintro q inputs ⟨own, hq, hown⟩
    exact ⟨own, hq, hown⟩

theorem committed_commit (he : q.exists? k = true) (next : Inputs) :
    (q.commit k next).committed k = next := by
  obtain ⟨e, he⟩ := Option.isSome_iff_exists.mp he
  unfold commit committed note
  simp only [element_modify, if_pos, he]
  rfl

theorem staged_commit (he : q.exists? k = true) (next : Inputs) :
    (q.commit k next).staged k = .empty := by
  obtain ⟨e, he⟩ := Option.isSome_iff_exists.mp he
  unfold commit staged note
  simp only [element_modify, if_pos, he]
  rfl

variable (backend : Backend σ ρ) (hooks : Hooks σ ρ)

theorem runBefore_steps (p : Page σ ρ) (k : ComponentId) (tag : String) (next : Inputs) :
    Steps (p.note (.beforeUpdate k next)) (p.runBefore backend hooks k tag next).2 := by
  have hrun := run_steps backend (hooks.beforeUpdate k next) (p.note (.beforeUpdate k next))
  simp only [runBefore]
  generalize (hooks.beforeUpdate k next).run backend (p.note (.beforeUpdate k next)) = result
    at hrun
  obtain ⟨_ | _, p'⟩ := result <;> exact hrun

theorem present_cases (p : Page σ ρ) (k : ComponentId) (mount : NodeId) (ui : Value) :
    p.present backend k mount ui = (none, p) ∨
      ∃ error p', p.present backend k mount ui = (error, p') ∧
        Steps (p.note (.shown k mount ui)) p' := by
  unfold present
  split
  · exact Or.inl rfl
  · refine Or.inr ⟨_, _, rfl, ?_⟩
    exact (Relation.ReflTransGen.single (.world _ _ _)).trans (drops_steps _ _)

theorem commitAndRender_cases (hk : p.elements[k]? = some e) (next : Inputs) :
    ∃ p₂, Steps (p.commit k next) p₂ ∧
      ((∃ ui, p.commitAndRender backend hooks k e next = (.ok (ui, p.committed k), p₂)) ∨
        ∃ error, p.commitAndRender backend hooks k e next =
          (.error error, p₂.restore k (p.committed k) (p.staged k))) := by
  have hrun := run_steps backend (hooks.render k next) (p.commit k next)
  rw [committed_of_element hk, staged_of_element hk]
  simp only [commitAndRender]
  unfold commit at hrun ⊢
  generalize (hooks.render k next).run backend _ = result at hrun ⊢
  obtain ⟨_ | ui, p₂⟩ := result
  · exact ⟨p₂, hrun, Or.inr ⟨_, rfl⟩⟩
  · exact ⟨p₂, hrun, Or.inl ⟨ui, rfl⟩⟩

theorem before_prepared (p : Page σ ρ) (k : ComponentId) (e : Element) :
    Prepared p k e
      (if e.rendered then
        (p.note (.updateStarted k)).runBefore backend hooks k e.schema.tag e.latest
      else (none, p.note (.updateStarted k))).2 := by
  split
  · rename_i hrendered
    exact .again hrendered (runBefore_steps backend hooks _ k e.schema.tag e.latest)
  · rename_i hrendered
    exact .first (by simpa using hrendered)

/-- Until something is shown, an update is refused, fails, or has rendered
something for the mount point of its element. -/
theorem update_cases (he : p.elements[k]? = some e) :
    ∃ p₁, Prepared p k e p₁ ∧
      ((∃ error, (p.note (.updateStarted k)).update backend hooks k = (.error error, p₁)) ∨
        ∃ p₂, Steps (p₁.commit k e.latest) p₂ ∧
          ((∃ ui, (p.note (.updateStarted k)).update backend hooks k =
              (.ok (some (ui, e.mount, if e.rendered then some (p₁.committed k) else none)), p₂)) ∨
            ∃ error, (p.note (.updateStarted k)).update backend hooks k =
              (.error error, p₂.restore k (p₁.committed k) (p₁.staged k)))) := by
  have hbefore := before_prepared backend hooks p k e
  have he' : (p.note (.updateStarted k)).elements[k]? = some e := he
  simp only [update, he']
  change Prepared p k e (if e.rendered then (p.note (.updateStarted k)).runBefore backend hooks
    k e.schema.tag (e.committed.merge e.staged) else (none, p.note (.updateStarted k))).2
    at hbefore
  generalize (if e.rendered then (p.note (.updateStarted k)).runBefore backend hooks
    k e.schema.tag (e.committed.merge e.staged) else (none, p.note (.updateStarted k))) = before
    at hbefore ⊢
  obtain ⟨failed, p₁⟩ := before
  refine ⟨p₁, hbefore, ?_⟩
  cases failed with
  | some error => exact Or.inl ⟨error, rfl⟩
  | none =>
      -- the element is looked up again, and it is still there
      obtain ⟨now, hnow⟩ := Option.isSome_iff_exists.mp (hbefore.exists? he)
      simp only [hnow]
      obtain ⟨p₂, hrender, hrendered⟩ :=
        commitAndRender_cases backend hooks hnow (e.committed.merge e.staged)
      refine Or.inr ⟨p₂, hrender, ?_⟩
      rcases hrendered with ⟨ui, hok⟩ | ⟨error, hfailed⟩
      · simp only [hok]
        exact Or.inl ⟨ui, rfl⟩
      · simp only [hfailed]
        exact Or.inr ⟨error, rfl⟩

theorem updateOne_update (he : p.elements[k]? = some e) :
    Update p k e (p.updateOne backend hooks k).1 (p.updateOne backend hooks k).2 := by
  obtain ⟨p₁, hprepared, ⟨error, hrefused⟩ | ⟨p₂, hrender, ⟨ui, hok⟩ | ⟨error, hfailed⟩⟩⟩ :=
    update_cases backend hooks he
  · simp only [updateOne, hrefused]
    exact .refused error hprepared
  · simp only [updateOne, hok]
    rcases present_cases backend p₂ k e.mount ui with hhidden | ⟨shown, p₃, heq, hshown⟩
    · simp only [hhidden]
      exact .done hprepared hrender .hidden
    · simp only [heq]
      cases shown with
      | none => exact .done hprepared hrender (.shown e.mount ui hshown)
      | some error => exact .unshown _ hprepared hrender e.mount ui hshown
  · simp only [updateOne, hfailed]
    exact .failed error hprepared hrender

end Page

end LiveMarkup
