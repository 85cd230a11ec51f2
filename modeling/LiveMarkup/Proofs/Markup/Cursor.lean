import LiveMarkup.Proofs.Markup.Boundaries

/-!
# The course of a scan

A scan goes through its segments lexeme by lexeme, and over each boundary to the
next segment. It ends at the end of the last segment or in front of an offence,
and nowhere else; so the offences are all that can be wrong with the tokens of
segments, and an error tells the segment and the byte at which one stands.
-/

namespace LiveMarkup

namespace Scan

/-! ## Where a scan arrives -/

/-- From the beginning of the segments a scan comes to the segment with this number, with
these tokens made, at this place, with these characters of the segment read and those not. -/
inductive Arrives (segments : List String) :
    List Token → Nat → Place → List Char → List Char → Prop
  | start {s : String} (hfirst : segments[0]? = some s) :
      Arrives segments [] 0 .content [] s.toList
  | lexeme {ts more : List Token} {index : Nat} {place next : Place}
      {read cs rest : List Char} (h : Arrives segments ts index place read (cs ++ rest))
      (hlexeme : Lexes place cs rest more next) :
      Arrives segments (ts ++ more) index next (read ++ cs) rest
  | boundary {ts : List Token} {index : Nat} {place : Place} {read : List Char} {s : String}
      (h : Arrives segments ts index place read []) (hnext : segments[index + 1]? = some s) :
      Arrives segments (ts ++ [.placeholder]) (index + 1) place [] s.toList

/-- A scan comes to the end of the last segment with these tokens, at this place. Without
segments it is there at once. -/
inductive Finishes (segments : List String) : List Token → Place → Prop
  | nothing (hnone : segments = []) : Finishes segments [] .content
  | last {ts : List Token} {index : Nat} {place : Place} {read : List Char}
      (h : Arrives segments ts index place read []) (hlast : index + 1 = segments.length) :
      Finishes segments ts place

/-- A scan comes to an offence. The error has the number of its segment and counts the bytes
in front of it. -/
inductive Refuses (segments : List String) : MarkupError → Prop
  | intro {ts : List Token} {index : Nat} {place : Place} {read before rest : List Char}
      {kind : Nat → Nat → MarkupError}
      (h : Arrives segments ts index place read (before ++ rest))
      (hoffence : Offends place before rest kind) :
      Refuses segments (kind index (String.ofList (read ++ before)).utf8ByteSize)

/-! ## Positions -/

theorem byteLength_eq (cs : List Char) : byteLength cs = (String.ofList cs).utf8ByteSize := by
  induction cs with
  | nil => rfl
  | cons c cs ih =>
      rw [String.ofList_cons, String.utf8ByteSize_append, String.utf8ByteSize_singleton, ← ih]
      rfl

theorem byteLength_append (cs ds : List Char) :
    byteLength (cs ++ ds) = byteLength cs + byteLength ds := by
  simp only [byteLength_eq, String.ofList_append, String.utf8ByteSize_append]

/-- Behind characters of a text begins a character, or the text ends. -/
theorem isValid_of_append {s : String} {cs rest : List Char} (h : s.toList = cs ++ rest) :
    String.Pos.Raw.IsValid s ⟨(String.ofList cs).utf8ByteSize⟩ := by
  rw [String.Pos.Raw.isValid_iff_exists_append]
  refine ⟨String.ofList cs, String.ofList rest, ?_, rfl⟩
  rw [← String.ofList_append, ← h, String.ofList_toList]

/-- What was read and what was not make up the segment. -/
theorem Arrives.segment {segments : List String} {ts : List Token} {index : Nat}
    {place : Place} {read rest : List Char} (h : Arrives segments ts index place read rest) :
    ∃ s, segments[index]? = some s ∧ s.toList = read ++ rest := by
  induction h with
  | @start s hfirst => exact ⟨s, hfirst, rfl⟩
  | lexeme _ _ ih =>
      obtain ⟨s, hs, hrow⟩ := ih
      refine ⟨s, hs, ?_⟩
      rw [hrow, List.append_assoc]
  | @boundary _ _ _ _ s _ hnext => exact ⟨s, hnext, rfl⟩

/-- An error stands at the beginning of a character of its segment, or at the end of it. -/
theorem Refuses.position {segments : List String} {e : MarkupError} (h : Refuses segments e) :
    ∃ index offset s, (e = .syntaxError index offset ∨ e = .missingElementName index offset) ∧
      segments[index]? = some s ∧ offset ≤ s.utf8ByteSize ∧
        String.Pos.Raw.IsValid s ⟨offset⟩ := by
  cases h with
  | @intro ts index place read before rest kind h hoffence =>
      obtain ⟨s, hs, hrow⟩ := h.segment
      rw [← List.append_assoc] at hrow
      have hvalid := isValid_of_append hrow
      refine ⟨index, _, s, ?_, hs, hvalid.le_utf8ByteSize, hvalid⟩
      cases hoffence with
      | equals | slash | noValue => exact Or.inl rfl
      | noName => exact Or.inr rfl

/-! ## What is left of a scan -/

/-- Goes on with a segment of which some characters are left. -/
def resume (index : Nat) (place : Place) (whole rest : List Char) (later : List String) :
    Except MarkupError (List Token × Place) :=
  match segment place rest with
  | .error fault => .error (faultError index whole fault)
  | .ok (tokens, next) =>
      match later with
      | [] => .ok (tokens, next)
      | _ :: _ =>
          match segments (index + 1) next later with
          | .error e => .error e
          | .ok (more, last) => .ok (tokens ++ .placeholder :: more, last)

theorem behind_append {α : Type} (ts more : List Token) (r : Except α (List Token × Place)) :
    behind (ts ++ more) r = behind ts (behind more r) := by
  cases r with
  | error e => rfl
  | ok found =>
      show Except.ok (ts ++ more ++ found.1, found.2) = Except.ok (ts ++ (more ++ found.1), found.2)
      rw [List.append_assoc]

theorem segments_eq_resume (index : Nat) (place : Place) (s : String) (later : List String) :
    segments index place (s :: later) = resume index place s.toList s.toList later := by
  rw [segments]
  rfl

theorem resume_lexeme {place next : Place} {cs rest : List Char} {ts : List Token}
    (h : Lexes place cs rest ts next) (index : Nat) (whole : List Char) (later : List String) :
    resume index place whole (cs ++ rest) later =
      behind ts (resume index next whole rest later) := by
  unfold resume
  rw [segment_lexeme h]
  cases segment next rest with
  | error fault => rfl
  | ok found =>
      cases later with
      | nil => rfl
      | cons s later =>
          show (match segments (index + 1) found.2 (s :: later) with
            | .error e => Except.error e
            | .ok (more, last) => Except.ok (ts ++ found.1 ++ Token.placeholder :: more, last)) = _
          dsimp only
          cases segments (index + 1) found.2 (s :: later) with
          | error e => rfl
          | ok others =>
              show Except.ok (ts ++ found.1 ++ .placeholder :: others.1, others.2) =
                Except.ok (ts ++ (found.1 ++ .placeholder :: others.1), others.2)
              rw [List.append_assoc]

theorem resume_boundary (index : Nat) (place : Place) (whole : List Char) (s : String)
    (later : List String) :
    resume index place whole [] (s :: later) =
      behind [.placeholder] (resume (index + 1) place s.toList s.toList later) := by
  rw [← segments_eq_resume]
  unfold resume
  rw [segment_nil]
  dsimp only
  cases segments (index + 1) place (s :: later) <;> rfl

theorem Arrives.resumes {segments : List String} {ts : List Token} {index : Nat}
    {place : Place} {read rest : List Char} (h : Arrives segments ts index place read rest) :
    Scan.segments 0 .content segments =
      behind ts (resume index place (read ++ rest) rest (segments.drop (index + 1))) := by
  induction h with
  | @start s hfirst =>
      obtain ⟨later, rfl⟩ := List.head?_eq_some_iff.mp (List.head?_eq_getElem? ▸ hfirst)
      rw [segments_eq_resume]
      show _ = behind [] (resume 0 .content s.toList s.toList later)
      cases resume 0 .content s.toList s.toList later <;> rfl
  | lexeme _ hlexeme ih => rw [ih, resume_lexeme hlexeme, behind_append, List.append_assoc]
  | @boundary ts index place read s h hnext ih =>
      obtain ⟨hlt, hs⟩ := List.getElem?_eq_some_iff.mp hnext
      rw [ih, List.drop_eq_getElem_cons hlt, hs, resume_boundary, behind_append]
      rfl

/-! ## How a scan ends -/

theorem Finishes.segments {segments : List String} {ts : List Token} {place : Place}
    (h : Finishes segments ts place) : Scan.segments 0 .content segments = .ok (ts, place) := by
  cases h with
  | nothing hnone =>
      subst hnone
      rfl
  | last h hlast =>
      rw [h.resumes, hlast, List.drop_length, resume, segment_nil]
      show Except.ok (ts ++ [], place) = _
      rw [List.append_nil]

theorem Refuses.segments {segments : List String} {e : MarkupError} (h : Refuses segments e) :
    Scan.segments 0 .content segments = .error e := by
  cases h with
  | @intro ts index place read before rest kind h hoffence =>
      obtain ⟨fault, hstep, hfault⟩ := hoffence.step
      have hoffset : byteLength (read ++ (before ++ rest)) - byteLength rest =
          (String.ofList (read ++ before)).utf8ByteSize := by
        rw [← List.append_assoc, byteLength_append, ← byteLength_eq]
        exact Nat.add_sub_cancel _ _
      rw [h.resumes, resume, segment_fault hstep]
      show Except.error (faultError index _ fault) = _
      rw [hfault, hoffset]

/-- Where something is left to read stands a lexeme or an offence. -/
theorem lexes_or_offends (place : Place) {rest : List Char} (hne : rest ≠ []) :
    (∃ cs after ts next, rest = cs ++ after ∧ Lexes place cs after ts next) ∨
      ∃ before after kind, rest = before ++ after ∧ Offends place before after kind := by
  cases hstep : step place rest with
  | ok s =>
      obtain ⟨cs, hrow, hlexes⟩ := lexeme_of_step hne hstep
      exact Or.inl ⟨cs, s.rest, s.tokens, s.place, hrow, hlexes⟩
  | error fault =>
      obtain ⟨before, after, kind, hrow, hoffends, -⟩ := offence_of_step hstep
      exact Or.inr ⟨before, after, kind, hrow, hoffends⟩

theorem Arrives.through {segments : List String} {ts : List Token} {index : Nat}
    {place : Place} {read rest : List Char} (h : Arrives segments ts index place read rest) :
    (∃ ts' place' read', Arrives segments ts' index place' read' []) ∨
      ∃ e, Refuses segments e := by
  induction hlength : rest.length using Nat.strongRecOn generalizing ts place read rest with
  | ind length ih =>
      by_cases hne : rest = []
      · subst hne
        exact Or.inl ⟨ts, place, read, h⟩
      · rcases lexes_or_offends place hne with
          ⟨cs, after, more, next, rfl, hlexes⟩ | ⟨before, after, kind, rfl, hoffends⟩
        · have hpos := List.length_pos_iff.mpr hlexes.ne_nil
          rw [List.length_append] at hlength
          exact ih after.length (by omega) (h.lexeme hlexes) rfl
        · exact Or.inr ⟨_, .intro h hoffends⟩

theorem finishes_or_refuses (segments : List String) :
    (∃ ts place, Finishes segments ts place) ∨ ∃ e, Refuses segments e := by
  have hreach : ∀ index < segments.length,
      (∃ ts place read, Arrives segments ts index place read []) ∨ ∃ e, Refuses segments e := by
    intro index hindex
    induction index with
    | zero => exact (Arrives.start (List.getElem?_eq_getElem hindex)).through
    | succ index ih =>
        rcases ih (Nat.lt_of_succ_lt hindex) with ⟨ts, place, read, h⟩ | hrefuses
        · exact (h.boundary (List.getElem?_eq_getElem hindex)).through
        · exact Or.inr hrefuses
  by_cases hnone : segments = []
  · exact Or.inl ⟨[], .content, .nothing hnone⟩
  · have hpos := List.length_pos_iff.mpr hnone
    rcases hreach (segments.length - 1) (by omega) with ⟨ts, place, read, h⟩ | hrefuses
    · exact Or.inl ⟨ts, place, .last h (by omega)⟩
    · exact Or.inr hrefuses

theorem segments_eq_ok_iff {segments : List String} {ts : List Token} {place : Place} :
    Scan.segments 0 .content segments = .ok (ts, place) ↔ Finishes segments ts place := by
  constructor
  · intro h
    rcases finishes_or_refuses segments with ⟨ts', place', hfinishes⟩ | ⟨e, hrefuses⟩
    · rw [hfinishes.segments] at h
      cases h
      exact hfinishes
    · rw [hrefuses.segments] at h
      cases h
  · exact Finishes.segments

theorem segments_eq_error_iff {segments : List String} {e : MarkupError} :
    Scan.segments 0 .content segments = .error e ↔ Refuses segments e := by
  constructor
  · intro h
    rcases finishes_or_refuses segments with ⟨ts, place, hfinishes⟩ | ⟨e', hrefuses⟩
    · rw [hfinishes.segments] at h
      cases h
    · rw [hrefuses.segments] at h
      cases h
      exact hrefuses
  · exact Refuses.segments

end Scan

namespace Token

theorem ofSegments_eq_error {segments : List String} {e : MarkupError} :
    ofSegments segments = .error e ↔ Scan.segments 0 .content segments = .error e := by
  unfold ofSegments
  cases Scan.segments 0 .content segments with
  | error e' => simp [Except.map]
  | ok read => simp [Except.map]

/-- The tokens of segments are those that a scan has made at the end of the last segment.
There are none exactly if a scan comes to an offence: in a tag to an equals sign or to a slash
that does not end the tag where the name of an attribute is expected, or to the end of the
tag where a value is; in content to the beginning of a tag without a name. The error has the
number of the segment and the offset in bytes of the place that offends, which is where one
of the characters begins or where the segment ends. Wherever a scan stands, it stands between
two characters, and in front of what is left of the segment stands an offence or a lexeme that
leaves less; the texts of its tokens are pieces of it. -/
theorem ofSegments_refuses_offences (segments : List String) :
    (∀ ts, ofSegments segments = .ok ts ↔ ∃ place, Scan.Finishes segments ts place) ∧
      (∀ e, ofSegments segments = .error e ↔ Scan.Refuses segments e) ∧
      (∀ e, ofSegments segments = .error e → ∃ index offset s,
        (e = .syntaxError index offset ∨ e = .missingElementName index offset) ∧
          segments[index]? = some s ∧ offset ≤ s.utf8ByteSize ∧
            String.Pos.Raw.IsValid s ⟨offset⟩) ∧
      ∀ ts index place read rest, Scan.Arrives segments ts index place read rest →
        (∃ s, segments[index]? = some s ∧ s.toList = read ++ rest ∧
          String.Pos.Raw.IsValid s ⟨(String.ofList read).utf8ByteSize⟩) ∧
        (rest ≠ [] →
          (∃ cs after more next, cs ≠ [] ∧ rest = cs ++ after ∧
            Scan.Lexes place cs after more next ∧
              ∀ t ∈ more, t.value.toList <:+: cs ∨ place.tag? = some t.value) ∨
          ∃ before after kind, rest = before ++ after ∧
            Scan.Offends place before after kind) := by
  refine ⟨?_, ?_, ?_, ?_⟩
  · intro ts
    simp only [ofSegments_eq_ok, Scan.segments_eq_ok_iff]
  · intro e
    rw [ofSegments_eq_error, Scan.segments_eq_error_iff]
  · intro e h
    rw [ofSegments_eq_error, Scan.segments_eq_error_iff] at h
    exact h.position
  · intro ts index place read rest h
    obtain ⟨s, hs, hrow⟩ := h.segment
    refine ⟨⟨s, hs, hrow, Scan.isValid_of_append hrow⟩, ?_⟩
    intro hne
    rcases Scan.lexes_or_offends place hne with
      ⟨cs, after, more, next, hrest, hlexes⟩ | hoffends
    · exact Or.inl ⟨cs, after, more, next, hlexes.ne_nil, hrest, hlexes, hlexes.slices⟩
    · exact Or.inr hoffends

/-- A stray equals sign behind a value that began in another segment, and behind a letter of
two bytes. -/
theorem ofSegments_refuses_offences_multibyte :
    Scan.Refuses ["<p a='x", "ü' =y>"] (.syntaxError 1 4) ∧
      String.Pos.Raw.IsValid "ü' =y>" ⟨4⟩ := by
  have hfirst : Scan.segment .content "<p a='x".toList =
      .ok ([.startOpen "p", .attributeName "a", .attributeValue "x"], .quoted "p" '\'') := by cbv
  have hsecond : Scan.segment (.quoted "p" '\'') "ü' =y>".toList =
      .error (.syntaxError "=y>".toList) := by cbv
  have h : ofSegments ["<p a='x", "ü' =y>"] = .error (.syntaxError 1 4) := by
    rw [ofSegments, Scan.segments, hfirst]
    dsimp only
    rw [Scan.segments, hsecond]
    rfl
  obtain ⟨-, hrefuses, hposition, -⟩ := ofSegments_refuses_offences ["<p a='x", "ü' =y>"]
  refine ⟨(hrefuses _).mp h, ?_⟩
  obtain ⟨index, offset, s, he, hs, -, hvalid⟩ := hposition _ h
  rcases he with he | he
  · cases he
    cases hs
    exact hvalid
  · cases he

end Token

end LiveMarkup
