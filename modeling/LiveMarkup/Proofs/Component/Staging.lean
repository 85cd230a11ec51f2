import LiveMarkup.Proofs.Component.Requests
import LiveMarkup.Proofs.Component.Writes
import Mathlib.Data.List.Induction

/-!
# What a failing update leaves

Whatever code runs, what is staged for an element is what was staged before with
the writes since laid over it in order. An update that fails, before it renders or
while it does, is no exception: it leaves what was committed, and what is staged
is as if its writes had been made with no update at all.
-/

namespace LiveMarkup

variable {k : ComponentId} {es es' : List Event}

/-! ## Writes -/

/-- A write to an element. -/
inductive Write where
  | prop (name : String) (value : Value)
  | attr (name : String) (value : Option String)

namespace Write

/-- Lays a write over inputs. -/
def stage : Write → Inputs → Inputs
  | prop name value, i => i.withProp name value
  | attr name value, i => i.withAttr name value

def stageAll (ws : List Write) (i : Inputs) : Inputs :=
  ws.foldl (fun i w => w.stage i) i

/-- Whether a component takes a write. -/
def Declared (schema : Schema) : Write → Prop
  | prop name _ => name ∈ schema.properties
  | attr name _ => name ∈ schema.attributes

/-- What a taken write notes. -/
def event (k : ComponentId) : Write → Event
  | prop name value => .propWritten k name value
  | attr name value => .attrWritten k name value

theorem stageAll_append (ws ws' : List Write) (i : Inputs) :
    stageAll (ws ++ ws') i = stageAll ws' (stageAll ws i) :=
  List.foldl_append

end Write

/-- The write to an element that an event tells of. -/
def Event.write? (k : ComponentId) : Event → Option Write
  | .propWritten j name value => if j = k then some (.prop name value) else none
  | .attrWritten j name value => if j = k then some (.attr name value) else none
  | _ => none

def writes (k : ComponentId) (es : List Event) : List Write :=
  es.filterMap (Event.write? k)

theorem writes_append (k : ComponentId) (es es' : List Event) :
    writes k (es ++ es') = writes k es ++ writes k es' :=
  List.filterMap_append

theorem writes_event (j k : ComponentId) (w : Write) :
    writes j [w.event k] = if j = k then [w] else [] := by
  rcases eq_or_ne j k with rfl | hjk
  · cases w <;> simp [writes, Write.event, Event.write?]
  · cases w <;> simp [writes, Write.event, Event.write?, hjk, Ne.symm hjk]

namespace Inputs

theorem ext_get? {i j : Inputs} (hprops : ∀ name, i.props.get? name = j.props.get? name)
    (hattrs : ∀ name, i.attrs.get? name = j.attrs.get? name) : i = j := by
  obtain ⟨props, attrs⟩ := i
  obtain ⟨props', attrs'⟩ := j
  congr 1
  · exact OrderedMap.ext_get? hprops
  · exact OrderedMap.ext_get? hattrs

end Inputs

namespace Field

variable {α : Type} {f : Field α}

/-- The last value that writes to an element give to a field. -/
def last (f : Field α) (k : ComponentId) (ws : List Write) : Option α :=
  ws.reverse.findSome? fun w => f.read k (w.event k)

theorem last_append (f : Field α) (k : ComponentId) (ws ws' : List Write) :
    f.last k (ws ++ ws') = (f.last k ws').or (f.last k ws) := by
  unfold last
  rw [List.reverse_append, List.findSome?_append]

/-- The last write to a field wins. -/
theorem Lawful.stageAll (hf : f.Lawful) (k : ComponentId) (ws : List Write) (i : Inputs) :
    f.look (Write.stageAll ws i) = (f.last k ws).or (f.look i) := by
  induction ws using List.reverseRecOn with
  | nil => rfl
  | append_singleton ws w ih =>
      rw [Write.stageAll_append, last_append, Option.or_assoc, ← ih]
      change f.look (w.stage (Write.stageAll ws i)) = _
      cases w with
      | prop name value =>
          have hlook := hf.prop k (Write.stageAll ws i) name value
          simpa [last, Write.event, Write.stage] using hlook
      | attr name value =>
          have hlook := hf.attr k (Write.stageAll ws i) name value
          simpa [last, Write.event, Write.stage] using hlook

end Field

/-- Laying over what was taken whatever was staged since is laying over it the
writes. -/
theorem Inputs.merge_stageAll (taken : Inputs) (ws : List Write) :
    taken.merge (Write.stageAll ws .empty) = Write.stageAll ws taken := by
  have hlook : ∀ {α : Type} {f : Field α}, f.Lawful →
      f.look (taken.merge (Write.stageAll ws .empty)) = f.look (Write.stageAll ws taken) := by
    intro α f hf
    rw [hf.merge, hf.stageAll 0, hf.stageAll 0, hf.empty, Option.or_none]
  exact ext_get? (fun name => hlook (Field.lawful_prop name))
    (fun name => hlook (Field.lawful_attr name))

namespace Page

variable {σ ρ : Type} {p p' q q' : Page σ ρ} {e : Element}

/-! ## What steps stage -/

/-- Events lead from a page to another, and what is staged is what they write. -/
structure Stages (p : Page σ ρ) (es : List Event) (q : Page σ ρ) : Prop where
  journal : q.journal = es.reverse ++ p.journal
  staged : ∀ k, q.staged k = Write.stageAll (writes k es) (p.staged k)

namespace Stages

theorem refl (p : Page σ ρ) : Stages p [] p :=
  ⟨rfl, fun _ => rfl⟩

theorem trans (h : Stages p es q) (h' : Stages q es' p') : Stages p (es ++ es') p' where
  journal := by rw [h'.journal, h.journal, List.reverse_append, List.append_assoc]
  staged k := by rw [h'.staged, h.staged, writes_append, Write.stageAll_append]

theorem note (p : Page σ ρ) {event : Event} (hevent : ∀ k, event.write? k = none) :
    Stages p [event] (p.note event) where
  journal := rfl
  staged k := by
    have hnone : writes k [event] = [] := by simp [writes, hevent k]
    rw [hnone]
    rfl

theorem modify (p : Page σ ρ) (j : ComponentId) (g : Element → Element)
    (hkeep : ∀ e, (g e).staged = e.staged) : Stages p [] (p.modify j g) :=
  ⟨rfl, fun k => staged_modify p j g hkeep k⟩

theorem request (p : Page σ ρ) (j : ComponentId) : Stages p [.requested j] (p.request j) where
  journal := journal_request p j
  staged k := staged_request p j k

theorem write (he : p.exists? k = true) (w : Write) :
    Stages p [w.event k] ((p.note (w.event k)).modify k fun e =>
      { e with staged := w.stage e.staged }) where
  journal := rfl
  staged j := by
    rw [writes_event]
    split
    · rename_i hjk
      subst hjk
      exact staged_modify_self (p := p.note _) he w.stage
    · rename_i hjk
      exact staged_modify_other (p.note _) _ hjk

end Stages

theorem Step.stages (h : Step p p') : ∃ es, Stages p es p' := by
  cases h with
  | world => exact ⟨[], rfl, fun _ => rfl⟩
  | create schema mount =>
      exact ⟨[], rfl, fun k => element_create p schema mount k Element.staged⟩
  | request k => exact ⟨_, .request p k⟩
  | writeProp name value he => exact ⟨_, (Stages.write he (.prop name value)).trans (.request _ _)⟩
  | writeAttr name value he => exact ⟨_, (Stages.write he (.attr name value)).trans (.request _ _)⟩
  | @connect k _ =>
      refine ⟨_, ((Stages.note p fun _ => rfl).trans (.modify _ k _ ?_)).trans (.request _ _)⟩
      intro e
      rfl
  | @drop k _ =>
      refine ⟨_, (Stages.note p fun _ => rfl).trans (.modify _ k _ ?_)⟩
      intro e
      rfl

theorem Steps.stages (h : Steps p p') : ∃ es, Stages p es p' := by
  induction h with
  | refl => exact ⟨[], .refl p⟩
  | tail _ hstep ih =>
      obtain ⟨es, hstages⟩ := ih
      obtain ⟨es', hstages'⟩ := hstep.stages
      exact ⟨es ++ es', hstages.trans hstages'⟩

/-! ## Taken writes -/

/-- What an element declares. -/
def schema? (p : Page σ ρ) (k : ComponentId) : Option Schema :=
  (p.elements[k]?).map Element.schema

/-- Whether an element takes a write. -/
def Accepts (p : Page σ ρ) (k : ComponentId) (w : Write) : Prop :=
  ∃ schema, p.schema? k = some schema ∧ w.Declared schema

/-- Writes to an element. -/
def write (p : Page σ ρ) (k : ComponentId) : Write → Page σ ρ
  | .prop name value => (p.setProp k name value).2
  | .attr name value => (p.setAttribute k name value).2

def writeAll (p : Page σ ρ) (ws : List (ComponentId × Write)) : Page σ ρ :=
  ws.foldl (fun p w => p.write w.1 w.2) p

variable {schema : Schema} {start : List Event} {w : Write}

theorem schema?_modify (p : Page σ ρ) (j : ComponentId) (g : Element → Element)
    (hkeep : ∀ e, (g e).schema = e.schema) (k : ComponentId) :
    (p.modify j g).schema? k = p.schema? k := by
  unfold schema?
  rw [element_modify]
  split
  · rw [Option.map_map]
    congr 1
    funext e
    exact hkeep e
  · rfl

theorem schema?_request (p : Page σ ρ) (j k : ComponentId) :
    (p.request j).schema? k = p.schema? k := by
  unfold schema?
  rw [elements_request]

theorem write_accepted (h : p.Accepts k w) :
    p.write k w = ((p.note (w.event k)).modify k fun e =>
      { e with staged := w.stage e.staged }).request k := by
  obtain ⟨schema, hschema, hdeclared⟩ := h
  obtain ⟨e, he, rfl⟩ := Option.map_eq_some_iff.mp hschema
  cases w with
  | prop name value =>
      have hname : name ∈ e.schema.properties := hdeclared
      simp only [write, setProp, he, if_pos hname]
      rfl
  | attr name value =>
      have hname : name ∈ e.schema.attributes := hdeclared
      simp only [write, setAttribute, he, if_pos hname]
      rfl

theorem schema?_write (h : p.Accepts k w) (j : ComponentId) :
    (p.write k w).schema? j = p.schema? j := by
  rw [write_accepted h, schema?_request]
  refine schema?_modify (p.note _) k _ ?_ j
  intro e
  rfl

theorem committed_write (h : p.Accepts k w) (j : ComponentId) :
    (p.write k w).committed j = p.committed j := by
  rw [write_accepted h]
  unfold committed
  rw [elements_request]
  refine committed_modify (p.note _) k _ ?_ j
  intro e
  rfl

theorem staged_write (h : p.Accepts k w) : (p.write k w).staged k = w.stage (p.staged k) := by
  obtain ⟨schema, hschema, -⟩ := id h
  obtain ⟨e, he, -⟩ := Option.map_eq_some_iff.mp hschema
  rw [write_accepted h, staged_request]
  exact staged_modify_self (p := p.note _) (exists?_of_element he) w.stage

/-- What an element would render from now. -/
def latest (p : Page σ ρ) (k : ComponentId) : Inputs :=
  (p.committed k).merge (p.staged k)

/-- Taken writes to one element are staged in order. -/
theorem latest_writeAll {ws : List Write} (h : ∀ w ∈ ws, p.Accepts k w) :
    (p.writeAll (ws.map (k, ·))).latest k =
      (p.committed k).merge (Write.stageAll ws (p.staged k)) := by
  unfold writeAll
  induction ws generalizing p with
  | nil => rfl
  | cons w ws ih =>
      have hw := h w List.mem_cons_self
      have hrest : ∀ w' ∈ ws, (p.write k w).Accepts k w' := by
        intro w' hw'
        unfold Accepts
        rw [schema?_write hw]
        exact h w' (List.mem_cons_of_mem w hw')
      rw [List.map_cons, List.foldl_cons, ih hrest, committed_write hw, staged_write hw]
      rfl

/-- Since an earlier journal an element has been given only writes that it takes. -/
def Takes (start : List Event) (schema : Schema) (k : ComponentId) (p : Page σ ρ) : Prop :=
  p.schema? k = some schema ∧
    ∃ es, p.journal = es.reverse ++ start ∧ ∀ w ∈ writes k es, w.Declared schema

namespace Takes

theorem noted (h : Takes start schema k p) {event : Event}
    (hevent : ∀ w, event.write? k = some w → w.Declared schema) :
    Takes start schema k (p.note event) := by
  obtain ⟨hschema, es, hjournal, hes⟩ := h
  refine ⟨hschema, es ++ [event], by simp [note, hjournal], ?_⟩
  intro w hw
  rw [writes_append] at hw
  rcases List.mem_append.mp hw with hw | hw
  · exact hes w hw
  · obtain ⟨event', hmem, hwrite⟩ := List.mem_filterMap.mp hw
    obtain rfl := List.mem_singleton.mp hmem
    exact hevent w hwrite

theorem modify (h : Takes start schema k p) (j : ComponentId) (g : Element → Element)
    (hkeep : ∀ e, (g e).schema = e.schema) : Takes start schema k (p.modify j g) :=
  ⟨(schema?_modify p j g hkeep k).trans h.1, h.2⟩

theorem request (h : Takes start schema k p) (j : ComponentId) :
    Takes start schema k (p.request j) := by
  have hnoted : Takes start schema k (p.note (.requested j)) := h.noted (by simp [Event.write?])
  obtain ⟨hschema, es, hjournal, hes⟩ := hnoted
  refine ⟨(schema?_request p j k).trans hschema, es, ?_, hes⟩
  rw [journal_request]
  exact hjournal

theorem drop (h : Takes start schema k p) (j : ComponentId) : Takes start schema k (p.drop j) := by
  unfold Page.drop
  split
  · refine (h.noted (by simp [Event.write?])).modify j _ ?_
    intro e
    rfl
  · exact h

/-- A write that is taken is one that the element takes. -/
theorem written (h : Takes start schema k p) {j : ComponentId} {w : Write}
    (hj : ∀ schema', p.schema? j = some schema' → w.Declared schema') (change : Inputs → Inputs) :
    Takes start schema k (((p.note (w.event j)).modify j fun e =>
      { e with staged := change e.staged }).request j) := by
  have hnoted : Takes start schema k (p.note (w.event j)) := by
    apply h.noted
    intro w' hw'
    have hmem : w' ∈ writes k [w.event j] := List.mem_filterMap.mpr ⟨_, List.mem_singleton_self _, hw'⟩
    rw [writes_event] at hmem
    split at hmem
    · rename_i hkj
      obtain rfl := List.mem_singleton.mp hmem
      subst hkj
      exact hj schema h.1
    · cases hmem
  refine (hnoted.modify j _ ?_).request j
  intro e
  rfl

end Takes

variable {backend : Backend σ ρ} {hooks : Hooks σ ρ}

theorem conduct_takes : Conduct backend (fun _ => True) (Takes (σ := σ) (ρ := ρ) start schema k) where
  host _ h := h
  answer {p c} _ h := by
    cases c with
    | create schema' mount =>
        refine ⟨?_, h.2⟩
        obtain ⟨e, he, hschema⟩ := Option.map_eq_some_iff.mp h.1
        have hlt : k < p.elements.length := (List.getElem?_eq_some_iff.mp he).1
        refine Option.map_eq_some_iff.mpr ⟨e, ?_, hschema⟩
        exact (List.getElem?_append_left hlt).trans he
    | setProp j name value =>
        simp only [answer, setProp]
        split
        · exact h
        · rename_i e he
          split
          · rename_i hname
            refine h.written (w := .prop name value) ?_ fun i => i.withProp name value
            intro schema' hschema'
            rw [schema?, he] at hschema'
            obtain rfl := Option.some.inj hschema'
            exact hname
          · exact h
    | setAttribute j name value =>
        simp only [answer, setAttribute]
        split
        · exact h
        · rename_i e he
          split
          · rename_i hname
            refine h.written (w := .attr name value) ?_ fun i => i.withAttr name value
            intro schema' hschema'
            rw [schema?, he] at hschema'
            obtain rfl := Option.some.inj hschema'
            exact hname
          · exact h
    | connect j =>
        simp only [answer, connect]
        split
        · exact h
        · split
          · exact h
          · refine ((h.noted (by simp [Event.write?])).modify j _ ?_).request j
            intro e
            rfl
    | disconnect j =>
        simp only [answer, disconnect]
        split
        · exact h
        · split
          · unfold unmount
            split
            · exact h.drop j
            · exact h.drop j
          · exact h
    | setRenderer | clearRenderer | tick | flush => exact h
  note {p event} hcall h := by
    apply h.noted
    intro w hw
    cases event with
    | propWritten | attrWritten => cases hcall
    | _ => cases hw
  inputs j inputs h := by
    refine h.modify j _ ?_
    intro e
    rfl

/-! ## Updates that fail -/

theorem committed_restore (he : q.exists? k = true) (previous taken : Inputs) :
    (q.restore k previous taken).committed k = previous := by
  obtain ⟨e, he⟩ := Option.isSome_iff_exists.mp he
  unfold restore committed
  rw [element_modify, if_pos rfl, he]
  rfl

theorem staged_restore (he : q.exists? k = true) (previous taken : Inputs) :
    (q.restore k previous taken).staged k = taken.merge (q.staged k) := by
  obtain ⟨e, he⟩ := Option.isSome_iff_exists.mp he
  unfold restore staged
  rw [element_modify, if_pos rfl, he]
  rfl

section

variable (backend : Backend σ ρ) (hooks : Hooks σ ρ)

/-- The ways in which an update can fail: the code before it refuses, or it commits
and rendering fails. -/
theorem update_error_cases {error : UpdateError}
    (h : p.update backend hooks k = (.error error, p')) :
    ∃ e q, p.elements[k]? = some e ∧ q.exists? k = true ∧
      (q = p ∨ Steps (p.note (.beforeUpdate k e.latest)) q) ∧
        ((error.phase? = some .beforeUpdate ∧ p' = q) ∨
          error.phase? = some .render ∧ ∃ q', Steps (q.commit k e.latest) q' ∧
            p' = q'.restore k (q.committed k) (q.staged k)) := by
  cases he : p.elements[k]? with
  | none =>
      simp only [update, he] at h
      cases h
  | some e =>
      simp only [update, he] at h
      generalize hbefore : (if e.rendered then
        p.runBefore backend hooks k e.schema.tag (e.committed.merge e.staged)
        else (none, p)) = before at h
      obtain ⟨hphase, -, hexists⟩ := before_answers backend hooks he _ hbefore
      obtain ⟨failed, q⟩ := before
      have hq : q = p ∨ Steps (p.note (.beforeUpdate k e.latest)) q := by
        split at hbefore
        · right
          have hsteps := runBefore_steps backend hooks p k e.schema.tag e.latest
          change Steps _ (p.runBefore backend hooks k e.schema.tag
            (e.committed.merge e.staged)).2 at hsteps
          rwa [hbefore] at hsteps
        · cases hbefore
          exact Or.inl rfl
      refine ⟨e, q, rfl, hexists, hq, ?_⟩
      cases failed with
      | some error' =>
          cases h
          exact Or.inl ⟨hphase error rfl, rfl⟩
      | none =>
          obtain ⟨now, hnow⟩ := Option.isSome_iff_exists.mp hexists
          simp only [hnow] at h
          have hrenders := (commitAndRender_answers backend hooks hnow
            (e.committed.merge e.staged)).1
          obtain ⟨q', hrender, ⟨ui, hok⟩ | ⟨error', hfailed⟩⟩ :=
            commitAndRender_cases backend hooks hnow (e.committed.merge e.staged)
          · rw [hok] at h
            cases h
          · rw [hfailed] at h hrenders
            cases h
            rcases hrenders with ⟨error', herror, hrender'⟩ | ⟨ui, previous, hok⟩
            · obtain rfl := Except.error.inj herror
              exact Or.inr ⟨hrender', q', hrender, rfl⟩
            · cases hok

/-- A failed update stages what is written meanwhile, and commits nothing. -/
theorem update_error_stages {error : UpdateError}
    (h : p.update backend hooks k = (.error error, p')) :
    ∃ es, p'.journal = es.reverse ++ p.journal ∧ p'.committed k = p.committed k ∧
      p'.staged k = Write.stageAll (writes k es) (p.staged k) := by
  obtain ⟨e, q, -, hq, hbefore, hcases⟩ := update_error_cases backend hooks h
  obtain ⟨es, hstages, hcommitted⟩ : ∃ es, Stages p es q ∧ q.committed = p.committed := by
    rcases hbefore with rfl | hsteps
    · exact ⟨[], .refl q, rfl⟩
    · obtain ⟨es, hstages⟩ := hsteps.stages
      exact ⟨_, (Stages.note p fun _ => rfl).trans hstages, hsteps.committed⟩
  rcases hcases with ⟨-, rfl⟩ | ⟨-, q', hrender, rfl⟩
  · exact ⟨es, hstages.journal, congrFun hcommitted k, hstages.staged k⟩
  · -- what is written while rendering is staged over what the commitment took
    obtain ⟨es', hstages'⟩ := hrender.stages
    have hq' : q'.exists? k = true := hrender.exists? ((exists?_modify _ _ _ _).trans hq)
    have hsince : q'.staged k = Write.stageAll (writes k es') .empty := by
      rw [hstages'.staged, staged_commit hq]
    refine ⟨es ++ .render k e.latest :: es', ?_, ?_, ?_⟩
    · show q'.journal = _
      rw [hstages'.journal]
      show _ ++ .render k e.latest :: q.journal = _
      rw [hstages.journal]
      simp
    · rw [committed_restore hq', hcommitted]
    · rw [staged_restore hq', hsince, Inputs.merge_stageAll, hstages.staged, writes_append,
        Write.stageAll_append]
      rfl

/-- An update that fails leaves what was committed, and what is staged is what was
staged before with the writes that code made meanwhile. So the element would render
next from what it would if these writes had been made with no update. -/
theorem update_error_invisible {error : UpdateError}
    (h : p.update backend hooks k = (.error error, p')) :
    (error.phase? = some .beforeUpdate ∨ error.phase? = some .render) ∧
      ∃ es, p'.journal = es.reverse ++ p.journal ∧
        p'.committed k = p.committed k ∧
        p'.staged k = Write.stageAll (writes k es) (p.staged k) ∧
        (∀ name, (p'.staged k).props.get? name =
          ((Field.prop name).last k (writes k es)).or ((p.staged k).props.get? name)) ∧
        (∀ name, (p'.staged k).attrs.get? name =
          ((Field.attr name).last k (writes k es)).or ((p.staged k).attrs.get? name)) ∧
        (∀ w ∈ writes k es, p.Accepts k w) ∧
        p'.latest k = (p.writeAll ((writes k es).map (k, ·))).latest k := by
  obtain ⟨e, q, he, hq, hbefore, hcases⟩ := update_error_cases backend hooks h
  obtain ⟨es, hjournal, hcommitted, hstaged⟩ := update_error_stages backend hooks h
  have haccepts : ∀ w ∈ writes k es, p.Accepts k w := by
    have hschema : p.schema? k = some e.schema := by
      unfold schema?
      rw [he]
      rfl
    have htakes : Takes p.journal e.schema k (p.update backend hooks k).2 :=
      conduct_takes.update hooks.use_all ⟨hschema, [], rfl, by simp [writes]⟩
    rw [h] at htakes
    obtain ⟨-, es', hjournal', htaken⟩ := htakes
    obtain rfl : es' = es :=
      List.reverse_injective (List.append_cancel_right (hjournal'.symm.trans hjournal))
    exact fun w hw => ⟨e.schema, hschema, htaken w hw⟩
  refine ⟨?_, es, hjournal, hcommitted, hstaged, ?_, ?_, haccepts, ?_⟩
  · rcases hcases with ⟨hphase, -⟩ | ⟨hphase, -⟩
    · exact Or.inl hphase
    · exact Or.inr hphase
  · intro name
    rw [hstaged]
    exact (Field.lawful_prop name).stageAll k _ _
  · intro name
    rw [hstaged]
    exact (Field.lawful_attr name).stageAll k _ _
  · unfold latest
    rw [hcommitted, hstaged]
    exact (latest_writeAll haccepts).symm

end

end Page

/-! ## An element that writes to itself and fails -/

namespace Revising

/-- A component with a label that observes its title. -/
def schema : Schema :=
  ⟨"x-revising", ["label"], ["title"]⟩

/-- An element writes its label before each update but the first. Once the host state
says so, it writes its label and its title while it renders, and fails. -/
def hooks : Hooks Bool Unit where
  beforeUpdate k _ := .call (.setProp k "label" (.str "before")) fun _ => .done (.ok ())
  render k _ := .observe fun view =>
    if view.host then
      .call (.setProp k "label" (.str "within")) fun _ =>
      .call (.setAttribute k "title" none) fun _ => .done (.error "not now")
    else .done (.ok .undefined)
  afterUpdate _ _ := .done (.ok ())

/-- An element renders, and its label is written. -/
def program : Program Bool Unit Unit :=
  .call (.create schema 0) fun _ =>
  .call (.connect 0) fun _ =>
  .call (.setRenderer ()) fun _ =>
  .modifyHost (fun _ => true) <|
  .call (.setProp 0 "label" (.str "outside")) fun _ =>
  .done ()

def page : Page Bool Unit :=
  (program.start .blank hooks 3 (.new false)).elim (.new false) Prod.snd

/-- The page after the update of the element. -/
def failed : Page Bool Unit :=
  (page.update .blank hooks 0).2

/-- What the element fails with. -/
def error : UpdateError :=
  .lifecycle "x-revising" .render "not now"

theorem update_page : page.update .blank hooks 0 = (.error error, failed) :=
  rfl

end Revising

/-- The label is the one that the element wrote last. -/
theorem Page.update_error_invisible_revising :
    Revising.page.update .blank Revising.hooks 0 = (.error Revising.error, Revising.failed) ∧
    (Revising.failed.staged 0).props.get? "label" = some (.str "within") ∧
    (Revising.error.phase? = some .beforeUpdate ∨ Revising.error.phase? = some .render) ∧
    ∃ es, Revising.failed.journal = es.reverse ++ Revising.page.journal ∧
      Revising.failed.committed 0 = Revising.page.committed 0 ∧
      Revising.failed.staged 0 = Write.stageAll (writes 0 es) (Revising.page.staged 0) ∧
      (∀ name, (Revising.failed.staged 0).props.get? name =
        ((Field.prop name).last 0 (writes 0 es)).or ((Revising.page.staged 0).props.get? name)) ∧
      (∀ name, (Revising.failed.staged 0).attrs.get? name =
        ((Field.attr name).last 0 (writes 0 es)).or ((Revising.page.staged 0).attrs.get? name)) ∧
      (∀ w ∈ writes 0 es, Revising.page.Accepts 0 w) ∧
      Revising.failed.latest 0 =
        (Revising.page.writeAll ((writes 0 es).map (0, ·))).latest 0 :=
  ⟨Revising.update_page, rfl,
    Page.update_error_invisible .blank Revising.hooks Revising.update_page⟩

end LiveMarkup
