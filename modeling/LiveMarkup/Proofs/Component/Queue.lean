import LiveMarkup.Proofs.Component.Reachable

/-!
# What waits is updated

During a flush, an element with staged writes that was updated before waits
for another update, in the rest of its round or in the queue, as long as it is
connected. When the queue stays empty, nothing is staged for any connected
element that the flush updated.
-/

namespace LiveMarkup.Page

variable {σ ρ : Type} {p p' : Page σ ρ} {j k : ComponentId} {rest : List ComponentId}

/-! ## The queue -/

/-- The known members of the queue are its members. -/
def QueueKnown (p : Page σ ρ) : Prop :=
  ∀ k, k ∈ p.queued ↔ k ∈ p.pending

theorem pending_request (p : Page σ ρ) (k : ComponentId) :
    (p.request k).pending = if k ∈ p.queued then p.pending else p.pending ++ [k] := by
  simp only [request]
  split <;> rename_i h
  · exact (if_pos h).symm
  · exact (if_neg h).symm

theorem queued_request (p : Page σ ρ) (k : ComponentId) :
    (p.request k).queued = if k ∈ p.queued then p.queued else k :: p.queued := by
  simp only [request]
  split <;> rename_i h
  · exact (if_pos h).symm
  · exact (if_neg h).symm

theorem QueueKnown.request (h : QueueKnown p) (k : ComponentId) :
    QueueKnown (p.request k) := by
  intro j
  rw [queued_request, pending_request]
  split
  · exact h j
  · rw [List.mem_cons, List.mem_append, List.mem_singleton, h j, or_comm]

theorem QueueKnown.mem_request (h : QueueKnown p) (k : ComponentId) :
    k ∈ (p.request k).pending := by
  rw [pending_request]
  split <;> rename_i hk
  · exact (h k).mp hk
  · exact List.mem_append_right _ List.mem_cons_self

theorem subset_request (p : Page σ ρ) (k : ComponentId) :
    p.pending ⊆ (p.request k).pending := by
  rw [pending_request]
  split
  · exact List.Subset.refl _
  · exact List.subset_append_left _ _

theorem Step.queueKnown (h : Step p p') (hq : QueueKnown p) : QueueKnown p' := by
  cases h with
  | world | create | drop => exact hq
  | request k => exact hq.request k
  | @writeProp k _ _ _ | @writeAttr k _ _ _ | @connect k _ =>
      apply QueueKnown.request
      exact hq

theorem Steps.queueKnown (h : Steps p p') (hq : QueueKnown p) : QueueKnown p' := by
  induction h with
  | refl => exact hq
  | tail _ hstep ih => exact hstep.queueKnown ih

variable {e : Element}

theorem Prepared.queueKnown (h : Prepared p k e p') (hq : QueueKnown p) :
    QueueKnown p' := by
  cases h with
  | first => exact hq
  | again _ hsteps => exact hsteps.queueKnown hq

theorem Update.queueKnown {result : Except UpdateError (Option Inputs)}
    (h : Update p k e result p') (hq : QueueKnown p) : QueueKnown p' :=
  h.keeps Step.queueKnown (fun _ hq => hq) (fun _ hq => hq) hq

theorem invariant_queueKnown : Invariant (QueueKnown (σ := σ) (ρ := ρ)) where
  step := Step.queueKnown
  update := fun _ hupdate hq => hupdate.queueKnown hq
  note := fun _ hq => hq
  mark := fun _ hq => hq
  take := fun _ k => by simp [takePending]
  flags := fun _ _ hq => hq

/-- On a reachable page the known members of the queue are its members. -/
theorem Reachable.queueKnown {backend : Backend σ ρ} {hooks : Hooks σ ρ}
    (hp : Reachable backend hooks p) : QueueKnown p :=
  invariant_queueKnown.reachable (fun _ _ => Iff.rfl) hp

/-! ## Waiting elements -/

/-- What is staged for a connected element will be rendered, in the rest of a
round or later. -/
def Waits (rest : List ComponentId) (p : Page σ ρ) (k : ComponentId) : Prop :=
  p.isConnected k = true → p.staged k = .empty ∨ k ∈ rest ∨ k ∈ p.pending

theorem Waits.of_pending (h : k ∈ p.pending) : Waits rest p k :=
  fun _ => Or.inr (Or.inr h)

/-- Where neither the connection nor the staged writes change and the queue
only grows. -/
theorem Waits.congr (h : Waits rest p k) (hconnected : p'.isConnected k = p.isConnected k)
    (hstaged : p'.staged k = p.staged k) (hpending : p.pending ⊆ p'.pending) :
    Waits rest p' k := by
  intro hk
  rw [hconnected] at hk
  rw [hstaged]
  rcases h hk with h | h | h
  · exact Or.inl h
  · exact Or.inr (Or.inl h)
  · exact Or.inr (Or.inr (hpending h))

theorem Waits.request (h : Waits rest p k) (j : ComponentId) :
    Waits rest (p.request j) k := by
  refine h.congr ?_ ?_ (subset_request p j)
  · unfold isConnected
    rw [elements_request]
  · unfold staged
    rw [elements_request]

theorem Waits.modify_other (h : Waits rest p k) (g : Element → Element) (hkj : k ≠ j) :
    Waits rest (p.modify j g) k := by
  have helement : (p.modify j g).elements[k]? = p.elements[k]? := by
    rw [element_modify, if_neg hkj]
  refine h.congr ?_ ?_ (List.Subset.refl _)
  · unfold isConnected
    rw [helement]
  · unfold staged
    rw [helement]

theorem Waits.modify_request (h : Waits rest p k) (hq : QueueKnown p) (j : ComponentId)
    (g : Element → Element) : Waits rest ((p.modify j g).request j) k := by
  by_cases hkj : k = j
  · subst hkj
    exact .of_pending (QueueKnown.mem_request (p := p.modify k g) hq k)
  · exact (h.modify_other g hkj).request j

theorem Step.waits (hstep : Step p p') (hq : QueueKnown p) (h : Waits rest p k) :
    Waits rest p' k := by
  cases hstep with
  | world => exact h
  | create schema mount =>
      refine h.congr ?_ ?_ (List.Subset.refl _)
      · rw [isConnected_eq, isConnected_eq]
        exact element_create p schema mount k Element.connected
      · exact element_create p schema mount k Element.staged
  | request j => exact h.request j
  | @writeProp j name value _ =>
      exact Waits.modify_request (p := p.note _) h hq j _
  | @writeAttr j name value _ =>
      exact Waits.modify_request (p := p.note _) h hq j _
  | @connect j _ => exact Waits.modify_request (p := p.note _) h hq j _
  | @drop j hj =>
      by_cases hkj : k = j
      · -- who is not connected any more need not wait
        subst hkj
        intro hk
        obtain ⟨e, he⟩ := Option.isSome_iff_exists.mp hj
        have hgone : ((p.note (.disconnected k)).modify k fun e =>
            { e with connected := false }).isConnected k = false := by
          rw [isConnected_eq, element_modify, if_pos rfl]
          change ((p.elements[k]?.map _).map _).getD false = false
          rw [he]
          rfl
        rw [hgone] at hk
        simp at hk
      · exact Waits.modify_other (p := p.note _) h _ hkj

theorem Steps.waits (hsteps : Steps p p') (hq : QueueKnown p) (h : Waits rest p k) :
    Waits rest p' k := by
  induction hsteps with
  | refl => exact h
  | tail hsteps hstep ih => exact hstep.waits (Steps.queueKnown hsteps hq) ih

/-! ## Updates -/

variable {previous : Option Inputs}

theorem Prepared.waits (h : Prepared p j e p') (hq : QueueKnown p)
    (hw : Waits rest p k) : Waits rest p' k := by
  cases h with
  | first => exact hw
  | again _ hsteps =>
      exact hsteps.waits (p := (p.note (.updateStarted j)).note (.beforeUpdate j e.latest)) hq hw

theorem Presented.waits (h : Presented p j p') (hq : QueueKnown p)
    (hw : Waits rest p k) : Waits rest p' k := by
  cases h with
  | hidden => exact hw
  | shown mount ui hsteps => exact hsteps.waits (p := p.note (.shown j mount ui)) hq hw

theorem Update.waits (h : Update p j e (.ok previous) p') (he : p.elements[j]? = some e)
    (hq : QueueKnown p) (hw : k ≠ j → Waits rest p k) : Waits rest p' k := by
  generalize hresult : Except.ok previous = result at h
  cases h with
  | refused => cases hresult
  | failed => cases hresult
  | unshown => cases hresult
  | @done q₁ q₂ q₃ h₁ hrender hpresented =>
      have hq₁ : QueueKnown (q₁.commit j e.latest) := h₁.queueKnown hq
      have hq₂ := hrender.queueKnown hq₁
      have hw₁ : Waits rest (q₁.commit j e.latest) k := by
        by_cases hkj : k = j
        · subst hkj
          exact fun _ => Or.inl (staged_commit (h₁.exists? he) e.latest)
        · exact (h₁.waits hq (hw hkj)).modify_other _ hkj
      exact hpresented.waits hq₂ (hrender.waits hq₁ hw₁)

/-! ## Rounds -/

variable {backend : Backend σ ρ} {hooks : Hooks σ ρ} {updates updates' : Updates}

theorem runBatch_waits {batch : List ComponentId}
    (hrun : runBatch backend hooks batch updates p = (updates', none, p'))
    (hq : QueueKnown p) (hw : ∀ u ∈ updates, Waits batch p u.1) :
    ∀ u ∈ updates', Waits [] p' u.1 := by
  induction batch generalizing updates p with
  | nil =>
      cases hrun
      exact hw
  | cons k rest ih =>
      have hothers : ∀ u ∈ updates, u.1 ≠ k → Waits rest p u.1 := by
        intro u hu huk hconnected
        rcases hw u hu hconnected with h | h | h
        · exact Or.inl h
        · exact Or.inr (Or.inl ((List.mem_cons.mp h).resolve_left huk))
        · exact Or.inr (Or.inr h)
      rw [runBatch] at hrun
      split at hrun
      · rename_i hconnected
        obtain ⟨e, he⟩ := Option.isSome_iff_exists.mp (exists?_of_isConnected hconnected)
        have hupdate := updateOne_update backend hooks he
        split at hrun
        · rename_i previous p₁ hresult
          rw [hresult] at hupdate
          refine ih hrun (hupdate.queueKnown hq) ?_
          intro u hu
          refine hupdate.waits he hq fun huk => ?_
          rcases List.mem_cons.mp hu with rfl | hu
          · exact (huk rfl).elim
          · exact hothers u hu huk
        · cases hrun
      · rename_i hconnected
        refine ih (p := p.note (.skipped k)) hrun hq ?_
        intro u hu
        by_cases huk : u.1 = k
        · -- the skipped element is not connected
          intro hu'
          rw [huk] at hu'
          exact (hconnected hu').elim
        · exact hothers u hu huk

/-- When the queue stays empty, nothing is staged for any connected element
that was updated. -/
theorem runRounds_settled {rounds : Nat}
    (hrun : runRounds backend hooks rounds updates p = some (updates', none, p'))
    (hw : ∀ u ∈ updates, Waits [] p u.1) :
    ∀ u ∈ updates', p'.isConnected u.1 = true → p'.staged u.1 = .empty := by
  induction rounds generalizing updates p with
  | zero => simp [runRounds] at hrun
  | succ rounds ih =>
      rw [runRounds] at hrun
      split at hrun
      · rename_i p₁ htake
        obtain ⟨hpending, rfl⟩ := Prod.mk.inj htake
        cases hrun
        intro u hu hconnected
        rcases hw u hu hconnected with h | h | h
        · exact h
        · simp at h
        · rw [hpending] at h
          simp at h
      · rename_i k rest p₁ htake
        obtain ⟨hpending, rfl⟩ := Prod.mk.inj htake
        simp only at hrun
        split at hrun
        · cases hrun
        · rename_i us p₂ hresult
          refine ih hrun (runBatch_waits hresult ?_ ?_)
          · intro j
            simp [note]
          · intro u hu hconnected
            rcases hw u hu hconnected with h | h | h
            · exact Or.inl h
            · simp at h
            · rw [hpending] at h
              exact Or.inr (Or.inl h)

end LiveMarkup.Page
