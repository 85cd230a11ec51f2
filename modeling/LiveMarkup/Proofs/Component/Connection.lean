import LiveMarkup.Proofs.Component.History

/-!
# Who is shown

An element is connected when its update starts, but its own code may disconnect
it before what it rendered is shown. Everything that is shown belongs to an
update that began while its element was connected; so after a disconnection,
until the next connection, nothing is shown but what the update rendered during
which the element was disconnected.
-/

namespace LiveMarkup

variable {k : ComponentId}

/-- Whatever has happened since an element's update started is that update's own. -/
def InUpdate (k : ComponentId) (own before : List Event) (journal : List Event) : Prop :=
  journal = own ++ .updateStarted k :: before ∧ ∀ e ∈ own, e.isOwn k = true

/-- What is shown belongs to an update that started while the element was
connected. -/
def ShownLaw (e : Event) (earlier : List Event) : Prop :=
  match e with
  | .shown k _ _ => ∃ own before, InUpdate k own before earlier ∧
      (Ledger.of before).connected k = true
  | _ => True

theorem ruled_shown : Page.Ruled ShownLaw fun _ _ => True where
  plain {e} he earlier := by
    cases e <;> trivial
  done _ := trivial
  round _ := ⟨trivial, trivial⟩
  skipped _ := trivial
  update {k rest journal own} _ hconnected hown hlaw := by
    have hstarted : Always ShownLaw (.updateStarted k :: journal) := ⟨trivial, hlaw⟩
    refine ⟨hstarted.append ?_, trivial⟩
    rintro later e earlier rfl
    cases e with
    | shown j mount ui =>
        have hj : j = k := of_decide_eq_true (hown (.shown j mount ui) (by simp))
        subst hj
        refine ⟨earlier, journal, ⟨rfl, ?_⟩, hconnected⟩
        intro e he
        exact hown e (List.mem_append_right _ (List.mem_cons_of_mem _ he))
    | _ => trivial

/-! ## Connections -/

theorem not_connected {later earlier : List Event} (h : Event.connected k ∉ later) :
    (Ledger.of (later ++ .disconnected k :: earlier)).connected k = false := by
  induction later with
  | nil => simp [Ledger.of, Ledger.after]
  | cons e later ih =>
      obtain ⟨hne, hlater⟩ : Event.connected k ≠ e ∧ Event.connected k ∉ later := by
        simpa using h
      rw [List.cons_append, Ledger.of]
      cases e with
      | connected j =>
          have hkj : k ≠ j := by
            rintro rfl
            exact hne rfl
          show Function.update (Ledger.of _).connected j true k = false
          rw [Function.update_of_ne hkj]
          exact ih hlater
      | disconnected j =>
          show Function.update (Ledger.of _).connected j false k = false
          rcases eq_or_ne k j with rfl | hkj
          · rw [Function.update_self]
          · rw [Function.update_of_ne hkj]
            exact ih hlater
      | _ => exact ih hlater

theorem still_connected {own before : List Event} (hconnected : (Ledger.of before).connected k = true)
    (h : Event.disconnected k ∉ own) : (Ledger.of (own ++ before)).connected k = true := by
  have happend := Ledger.of_append own.reverse before
  rw [List.reverse_reverse] at happend
  rw [happend]
  exact Ledger.connected_afterAll hconnected (by simpa using h)

namespace Page

variable {σ ρ : Type} {p : Page σ ρ}

/-- Who is shown, as the journal of a page tells. -/
structure ShowsConnected (p : Page σ ρ) : Prop where
  /-- The journal tells who is connected. -/
  connected : ∀ k, p.isConnected k = (Ledger.of p.journal).connected k
  /-- Who is shown was connected when its update started, and is connected now
  unless it was disconnected during that update. -/
  shown : ∀ later k mount ui earlier, p.journal = later ++ .shown k mount ui :: earlier →
    ∃ own before, InUpdate k own before earlier ∧ (Ledger.of before).connected k = true ∧
      ((Ledger.of earlier).connected k = true ∨ Event.disconnected k ∈ own)
  /-- After a disconnection, until the next connection, nothing is shown but what
  the update rendered during which the element was disconnected. -/
  after : ∀ later k earlier, p.journal = later ++ .disconnected k :: earlier →
    Event.connected k ∉ later → ∀ behind mount ui between,
      later = behind ++ .shown k mount ui :: between →
        ∃ own before, InUpdate k own before earlier ∧ ∀ e ∈ between, e.isOwn k = true

/-- An update that started while its element was connected, and during which or
before which the element was disconnected: it is the former. -/
theorem disconnected_inUpdate {between earlier : List Event} {k : ComponentId}
    (hbetween : Event.connected k ∉ between) {own before : List Event}
    (hupdate : InUpdate k own before (between ++ .disconnected k :: earlier))
    (hconnected : (Ledger.of before).connected k = true) :
    ∃ own before, InUpdate k own before earlier ∧ ∀ e ∈ between, e.isOwn k = true := by
  obtain ⟨hsplit, hown⟩ := hupdate
  rcases List.append_eq_append_iff.mp hsplit with ⟨own', rfl, hrest⟩ | ⟨middle, rfl, hrest⟩
  · cases own' with
    | nil => cases (List.cons.inj hrest).1
    | cons e own' =>
        obtain ⟨rfl, rfl⟩ := List.cons.inj hrest
        refine ⟨own', before, ⟨rfl, ?_⟩, ?_⟩
        · intro e he
          exact hown e (List.mem_append_right _ (List.mem_cons_of_mem _ he))
        · intro e he
          exact hown e (List.mem_append_left _ he)
  · -- the disconnection would have come before the update
    cases middle with
    | nil => cases (List.cons.inj hrest).1
    | cons e middle =>
        obtain ⟨rfl, rfl⟩ := List.cons.inj hrest
        have hgone : (Ledger.of (middle ++ .disconnected k :: earlier)).connected k = false := by
          apply not_connected
          intro hmem
          exact hbetween (by simp [hmem])
        exact absurd (hgone.symm.trans hconnected) Bool.false_ne_true

/-- In every run, only who is connected is shown, but for what disconnects itself
while it is updated. -/
theorem Passed.showsConnected {backend : Backend σ ρ} {hooks : Hooks σ ρ}
    (hp : Passed backend hooks (Reachable backend hooks) p) : p.ShowsConnected := by
  obtain ⟨⟨-, hagree⟩, hlaw⟩ := ruled_shown.passed hp
  constructor
  · intro k
    exact congrFun hagree.connected k
  · intro later k mount ui earlier hsplit
    obtain ⟨own, before, hupdate, hconnected⟩ := always_iff.mp hlaw _ _ _ hsplit
    refine ⟨own, before, hupdate, hconnected, ?_⟩
    by_cases hdisconnected : Event.disconnected k ∈ own
    · exact Or.inr hdisconnected
    · left
      rw [hupdate.1]
      exact still_connected hconnected hdisconnected
  · intro later k earlier hsplit hlater behind mount ui between hshown
    rw [hshown, List.append_assoc] at hsplit
    obtain ⟨own, before, hupdate, hconnected⟩ := always_iff.mp hlaw _ _ _ hsplit
    refine disconnected_inUpdate ?_ hupdate hconnected
    intro hmem
    apply hlater
    rw [hshown]
    exact List.mem_append_right _ (List.mem_cons_of_mem _ hmem)

end Page

end LiveMarkup
