import Mathlib.Data.List.Dedup
import Mathlib.Data.List.Induction
import LiveMarkup.Template.Cache

/-!
# What a cache answers

A cache is called any number of times, with any segments. Its answers are the
templates that compiling gives, and its errors those of compiling. What a call
may do is said once (`Call`); from it follows how a cache hangs together with
all the calls that it has got: it keeps one template for each list of segments
that was compiled, and every template that was ever answered is still there.
-/

namespace LiveMarkup

namespace TemplateCache

/-! ## Calls -/

/-- The answer to a call. -/
def answer (c : TemplateCache) (segments : List String) :
    Except MarkupError CompiledTemplate :=
  (c.compile segments).map Prod.fst

/-- The cache behind a call. A call that fails gives none, and the cache stays. -/
def after (c : TemplateCache) (segments : List String) : TemplateCache :=
  match c.compile segments with
  | .ok (_, c') => c'
  | .error _ => c

/-- The cache behind calls, one after another. -/
def run (c : TemplateCache) (calls : List (List String)) : TemplateCache :=
  calls.foldl after c

/-- The answers to calls, one after another. -/
def answers (c : TemplateCache) :
    List (List String) → List (Except MarkupError CompiledTemplate)
  | [] => []
  | segments :: rest => c.answer segments :: (c.after segments).answers rest

theorem run_concat (c : TemplateCache) (calls : List (List String)) (segments : List String) :
    c.run (calls ++ [segments]) = (c.run calls).after segments := by
  rw [run, List.foldl_concat]
  rfl

/-- The cache with one more template. -/
def keep (c : TemplateCache) (segments : List String) (t : Template) : TemplateCache :=
  ⟨c.entries ++ [(segments, ⟨c.next, t⟩)], c.next + 1⟩

/-- What a call answers and which cache it leaves. -/
inductive Call (c : TemplateCache) (segments : List String) :
    Except MarkupError CompiledTemplate → TemplateCache → Prop
  /-- There is a template for the segments. -/
  | kept {t : CompiledTemplate} (h : c.entries.lookup segments = some t) :
      Call c segments (.ok t) c
  /-- There is one now. -/
  | made {t : Template} (hnone : c.entries.lookup segments = none)
      (h : Template.ofSegments segments = .ok t) :
      Call c segments (.ok ⟨c.next, t⟩) (c.keep segments t)
  | failed {e : MarkupError} (hnone : c.entries.lookup segments = none)
      (h : Template.ofSegments segments = .error e) :
      Call c segments (.error e) c

theorem call (c : TemplateCache) (segments : List String) :
    Call c segments (c.answer segments) (c.after segments) := by
  unfold answer after
  cases hlookup : c.entries.lookup segments with
  | some t =>
      have hcompile : c.compile segments = .ok (t, c) := by
        rw [compile, hlookup]
      rw [hcompile]
      exact .kept hlookup
  | none =>
      cases hcompiles : Template.ofSegments segments with
      | error e =>
          have hcompile : c.compile segments = .error e := by
            rw [compile, hlookup, compileFresh, hcompiles]
            rfl
          rw [hcompile]
          exact .failed hlookup hcompiles
      | ok t =>
          have hcompile : c.compile segments = .ok (⟨c.next, t⟩, c.keep segments t) := by
            rw [compile, hlookup, compileFresh, hcompiles]
            rfl
          rw [hcompile]
          exact .made hlookup hcompiles

variable {c : TemplateCache} {calls : List (List String)} {segments other : List String}

/-! ## What stays -/

theorem mem_of_lookup {t : CompiledTemplate} (h : c.entries.lookup segments = some t) :
    (segments, t) ∈ c.entries := by
  obtain ⟨before, later, hsplit, -⟩ := List.lookup_eq_some_iff.mp h
  rw [hsplit]
  exact List.mem_append_right before List.mem_cons_self

theorem lookup_keep_self (h : c.entries.lookup segments = none) (t : Template) :
    (c.keep segments t).entries.lookup segments = some ⟨c.next, t⟩ := by
  rw [keep, List.lookup_append, h]
  simp

theorem lookup_after {t : CompiledTemplate} (h : c.entries.lookup other = some t)
    (segments : List String) : (c.after segments).entries.lookup other = some t := by
  have hcall := c.call segments
  generalize c.answer segments = answer, c.after segments = c' at hcall ⊢
  cases hcall with
  | kept | failed => exact h
  | made =>
      rw [keep, List.lookup_append, h]
      rfl

theorem lookup_run {t : CompiledTemplate} (h : c.entries.lookup segments = some t)
    (calls : List (List String)) : (c.run calls).entries.lookup segments = some t := by
  induction calls generalizing c with
  | nil => exact h
  | cons first rest ih => exact ih (lookup_after h first)

theorem lookup_of_answer {t : CompiledTemplate} (h : c.answer segments = .ok t) :
    (c.after segments).entries.lookup segments = some t := by
  have hcall := c.call segments
  rw [h] at hcall
  generalize hanswer : Except.ok t = answer, c.after segments = c' at hcall ⊢
  cases hcall with
  | failed => cases hanswer
  | kept hkept =>
      cases hanswer
      exact hkept
  | made hnone =>
      cases hanswer
      exact lookup_keep_self hnone _

/-- Every answer is kept for the segments of its call. -/
theorem lookup_of_answers {i : Nat} {t : CompiledTemplate}
    (h : (c.answers calls)[i]? = some (.ok t)) :
    ∃ segments, calls[i]? = some segments ∧
      (c.run calls).entries.lookup segments = some t := by
  induction calls generalizing c i with
  | nil => cases h
  | cons first rest ih =>
      cases i with
      | zero =>
          have hanswer := Option.some.inj h
          exact ⟨first, rfl, lookup_run (lookup_of_answer hanswer) rest⟩
      | succ i => exact ih h

theorem after_of_error {e : MarkupError} (h : c.answer segments = .error e) :
    c.after segments = c := by
  unfold answer at h
  unfold after
  cases hcompile : c.compile segments with
  | error e' => rfl
  | ok found =>
      rw [hcompile] at h
      cases h

/-! ## The cache of a history -/

/-- How a cache hangs together with the calls that it has got. -/
structure Reflects (calls : List (List String)) (c : TemplateCache) : Prop where
  /-- No segments have two templates. -/
  nodup : (c.entries.map Prod.fst).Nodup
  /-- There are templates for what was called and can be compiled. -/
  mem_iff : ∀ segments, segments ∈ c.entries.map Prod.fst ↔
    segments ∈ calls ∧ (Template.ofSegments segments).isOk = true
  compiled : ∀ entry ∈ c.entries, Template.ofSegments entry.1 = .ok entry.2.template
  /-- Templates to come have numbers of their own. -/
  fresh : ∀ entry ∈ c.entries, entry.2.id < c.next
  /-- No two templates have the same number. -/
  distinct : (c.entries.map fun entry => entry.2.id).Nodup

theorem reflects_empty : Reflects [] empty := by
  refine ⟨.nil, ?_, ?_, ?_, .nil⟩ <;> simp [empty]

theorem Reflects.unchanged (h : Reflects calls c)
    (hold : segments ∈ calls ∨ (Template.ofSegments segments).isOk = false) :
    Reflects (calls ++ [segments]) c := by
  refine ⟨h.nodup, ?_, h.compiled, h.fresh, h.distinct⟩
  intro other
  rw [h.mem_iff, List.mem_append, List.mem_singleton]
  constructor
  · rintro ⟨hmem, hok⟩
    exact ⟨Or.inl hmem, hok⟩
  · rintro ⟨hmem | rfl, hok⟩
    · exact ⟨hmem, hok⟩
    · rcases hold with hmem | hfails
      · exact ⟨hmem, hok⟩
      · rw [hok] at hfails
        cases hfails

theorem Reflects.keep (h : Reflects calls c) (hnone : c.entries.lookup segments = none)
    {t : Template} (ht : Template.ofSegments segments = .ok t) :
    Reflects (calls ++ [segments]) (c.keep segments t) := by
  have hnew : segments ∉ c.entries.map Prod.fst := by
    intro hmem
    obtain ⟨entry, hentry, rfl⟩ := List.mem_map.mp hmem
    have hne := List.lookup_eq_none_iff.mp hnone entry hentry
    simp at hne
  have hok : (Template.ofSegments segments).isOk = true := by
    rw [ht]
    rfl
  constructor
  · rw [TemplateCache.keep, List.map_append, List.map_singleton, ← List.concat_eq_append]
    exact h.nodup.concat hnew
  · intro other
    simp only [TemplateCache.keep, List.map_append, List.map_singleton, List.mem_append,
      h.mem_iff, List.mem_singleton]
    constructor
    · rintro (⟨hmem, hother⟩ | rfl)
      · exact ⟨Or.inl hmem, hother⟩
      · exact ⟨Or.inr rfl, hok⟩
    · rintro ⟨hmem | rfl, hother⟩
      · exact Or.inl ⟨hmem, hother⟩
      · exact Or.inr rfl
  · intro entry hentry
    rcases List.mem_append.mp hentry with hentry | hentry
    · exact h.compiled entry hentry
    · rw [List.mem_singleton.mp hentry]
      exact ht
  · intro entry hentry
    rcases List.mem_append.mp hentry with hentry | hentry
    · exact Nat.lt_succ_of_lt (h.fresh entry hentry)
    · rw [List.mem_singleton.mp hentry]
      exact Nat.lt_succ_self c.next
  · have hid : c.next ∉ c.entries.map fun entry => entry.2.id := by
      intro hmem
      obtain ⟨entry, hentry, hid⟩ := List.mem_map.mp hmem
      exact Nat.lt_irrefl _ (hid ▸ h.fresh entry hentry)
    rw [TemplateCache.keep, List.map_append, List.map_singleton, ← List.concat_eq_append]
    exact h.distinct.concat hid

theorem Reflects.after (h : Reflects calls c) (segments : List String) :
    Reflects (calls ++ [segments]) (c.after segments) := by
  have hcall := c.call segments
  generalize c.answer segments = answer, c.after segments = c' at hcall
  cases hcall with
  | kept hkept =>
      have hmem := List.mem_map_of_mem (f := Prod.fst) (mem_of_lookup hkept)
      exact h.unchanged (Or.inl ((h.mem_iff segments).mp hmem).1)
  | failed _ herror =>
      refine h.unchanged (Or.inr ?_)
      rw [herror]
      rfl
  | made hnone ht => exact h.keep hnone ht

theorem reflects_run (calls : List (List String)) : Reflects calls (empty.run calls) := by
  induction calls using List.reverseRecOn with
  | nil => exact reflects_empty
  | append_singleton calls segments ih =>
      rw [run_concat]
      exact ih.after segments

/-- There is one template for each of the different lists of segments that were compiled. -/
theorem Reflects.size_eq (h : Reflects calls c) :
    c.size = (calls.filter fun segments => (Template.ofSegments segments).isOk).dedup.length := by
  have hperm : (c.entries.map Prod.fst).Perm
      (calls.filter fun segments => (Template.ofSegments segments).isOk).dedup := by
    rw [List.perm_ext_iff_of_nodup h.nodup (List.nodup_dedup _)]
    intro segments
    rw [h.mem_iff, List.mem_dedup, List.mem_filter]
  rw [size, ← hperm.length_eq, List.length_map]

/-- Templates have the same number exactly if they are kept for the same segments. -/
theorem Reflects.id_eq_iff (h : Reflects calls c) {t t' : CompiledTemplate}
    (ht : c.entries.lookup segments = some t) (ht' : c.entries.lookup other = some t') :
    t.id = t'.id ↔ segments = other := by
  constructor
  · intro hid
    have hentry := List.inj_on_of_nodup_map h.distinct (mem_of_lookup ht) (mem_of_lookup ht') hid
    exact (Prod.mk.inj hentry).1
  · rintro rfl
    rw [ht] at ht'
    cases ht'
    rfl

/-! ## Answers -/

theorem Reflects.answer (h : Reflects calls c) (segments : List String) :
    (c.answer segments).map CompiledTemplate.template = Template.ofSegments segments := by
  have hcall := c.call segments
  generalize c.answer segments = answer, c.after segments = c' at hcall ⊢
  cases hcall with
  | kept hkept => exact (h.compiled _ (mem_of_lookup hkept)).symm
  | made _ ht => exact ht.symm
  | failed _ herror => exact herror.symm

theorem Reflects.answer_error (h : Reflects calls c) {e : MarkupError}
    (herror : Template.ofSegments segments = .error e) : c.answer segments = .error e := by
  have hanswer := h.answer segments
  rw [herror] at hanswer
  cases hfound : c.answer segments with
  | error e' =>
      rw [hfound] at hanswer
      cases hanswer
      rfl
  | ok t =>
      rw [hfound] at hanswer
      cases hanswer

theorem Reflects.answers {before : List (List String)} (h : Reflects before c)
    (calls : List (List String)) :
    (c.answers calls).map (Except.map CompiledTemplate.template) =
      calls.map Template.ofSegments := by
  induction calls generalizing c before with
  | nil => rfl
  | cons segments rest ih =>
      rw [TemplateCache.answers, List.map_cons, List.map_cons, h.answer segments,
        ih (h.after segments)]

/-- Whatever a cache is called with, each answer is what compiling the segments of its call
gives, be it a template or an error. Two calls get the same template exactly if their segments
are the same, one by one. A call that fails leaves the cache as it was. There are as many
templates as different lists of segments that were compiled. -/
theorem calls_answered_exactly (calls : List (List String)) :
    (empty.answers calls).map (Except.map CompiledTemplate.template) =
        calls.map Template.ofSegments ∧
      (∀ (i j : Nat) (t t' : CompiledTemplate), (empty.answers calls)[i]? = some (.ok t) →
        (empty.answers calls)[j]? = some (.ok t') →
          (t.id = t'.id ↔ calls[i]? = calls[j]?) ∧ (t.id = t'.id → t = t')) ∧
      (∀ segments e, Template.ofSegments segments = .error e →
        empty.run (calls ++ [segments]) = empty.run calls) ∧
      (empty.run calls).size =
        (calls.filter fun segments => (Template.ofSegments segments).isOk).dedup.length := by
  have hreflects := reflects_run calls
  refine ⟨reflects_empty.answers calls, ?_, ?_, hreflects.size_eq⟩
  · intro i j t t' hi hj
    obtain ⟨segments, hsegments, ht⟩ := lookup_of_answers hi
    obtain ⟨other, hother, ht'⟩ := lookup_of_answers hj
    have hid := hreflects.id_eq_iff ht ht'
    rw [hsegments, hother, Option.some.injEq]
    refine ⟨hid, ?_⟩
    intro heq
    rw [hid.mp heq, ht'] at ht
    exact (Option.some.inj ht).symm
  · intro segments e herror
    rw [run_concat]
    exact after_of_error (hreflects.answer_error herror)

/-- Two lists that join to the same text, one that cannot be compiled, and the first again. -/
def joinedCalls : List (List String) :=
  [["<p>", "</p>"], ["<p></p>"], ["<p>"], ["<p>", "</p>"]]

theorem calls_answered_exactly_joined :
    ∃ t t', empty.answers joinedCalls =
        [.ok t, .ok t', .error (.unclosedElement "p"), .ok t] ∧
      t.id ≠ t'.id ∧ (empty.run joinedCalls).size = 2 := by
  have hboundary : Template.ofSegments ["<p>", "</p>"] =
      .ok (Template.ofNodes [.element "p" [] [.placeholder]]) := by
    have htokens : Token.ofSegments ["<p>", "</p>"] =
        .ok [.startOpen "p", .startClose "p", .placeholder, .elementEnd "p"] := by cbv
    rw [Template.ofSegments, htokens]
    rfl
  have hwhole : Template.ofSegments ["<p></p>"] =
      .ok (Template.ofNodes [.element "p" [] []]) := by
    have htokens : Token.ofSegments ["<p></p>"] =
        .ok [.startOpen "p", .startClose "p", .elementEnd "p"] := by cbv
    rw [Template.ofSegments, htokens]
    rfl
  have hopen : Template.ofSegments ["<p>"] = .error (.unclosedElement "p") := by
    have htokens : Token.ofSegments ["<p>"] = .ok [.startOpen "p", .startClose "p"] := by cbv
    rw [Template.ofSegments, htokens]
    rfl
  have hanswers : empty.answers joinedCalls =
      [.ok ⟨0, Template.ofNodes [.element "p" [] [.placeholder]]⟩,
        .ok ⟨1, Template.ofNodes [.element "p" [] []]⟩, .error (.unclosedElement "p"),
        .ok ⟨0, Template.ofNodes [.element "p" [] [.placeholder]]⟩] := by
    simp [joinedCalls, answers, answer, after, compile, compileFresh, empty, hboundary, hwhole,
      hopen, List.lookup_cons, bind, Except.bind, pure, Except.pure, Except.map]
  have hkept : joinedCalls.filter (fun segments => (Template.ofSegments segments).isOk) =
      [["<p>", "</p>"], ["<p></p>"], ["<p>", "</p>"]] := by
    simp [joinedCalls, hboundary, hwhole, hopen, Except.toBool]
  obtain ⟨-, hsame, -, hsize⟩ := calls_answered_exactly joinedCalls
  rw [hanswers] at hsame
  rw [hkept] at hsize
  refine ⟨_, _, hanswers, ?_, hsize⟩
  intro hid
  have hcalls := (hsame 0 1 _ _ rfl rfl).1.mp hid
  simp [joinedCalls] at hcalls

end TemplateCache

end LiveMarkup
