import LiveMarkup.Proofs.Markup.Stepping

/-!
# Scanning what is written

Markup is looked at as a row of marks: characters, and boundaries between
segments. Each lemma scans one lexeme at the beginning of a row and leaves what
follows it, so that longer rows are scanned lexeme by lexeme.
-/

namespace LiveMarkup

/-! ## Marks -/

/-- Characters as marks; a boundary between two segments is `none`. -/
def verbatim (cs : List Char) : List (Option Char) :=
  cs.map some

/-- The characters before the first boundary. -/
def lead : List (Option Char) → List Char
  | some c :: marks => c :: lead marks
  | _ => []

/-- The segments after the first boundary. -/
def laterSegments : List (Option Char) → List String
  | [] => []
  | some _ :: marks => laterSegments marks
  | none :: marks => String.ofList (lead marks) :: laterSegments marks

/-- The segments between the boundaries. -/
def segmentsOf (marks : List (Option Char)) : List String :=
  String.ofList (lead marks) :: laterSegments marks

example : segmentsOf [some 'a', none, none, some 'b'] = ["a", "", "b"] := by rfl

theorem verbatim_append (cs ds : List Char) :
    verbatim (cs ++ ds) = verbatim cs ++ verbatim ds :=
  List.map_append

theorem lead_verbatim (cs : List Char) (marks : List (Option Char)) :
    lead (verbatim cs ++ marks) = cs ++ lead marks := by
  induction cs with
  | nil => rfl
  | cons c cs ih =>
      show c :: lead (verbatim cs ++ marks) = c :: (cs ++ lead marks)
      rw [ih]

theorem laterSegments_verbatim (cs : List Char) (marks : List (Option Char)) :
    laterSegments (verbatim cs ++ marks) = laterSegments marks := by
  induction cs with
  | nil => rfl
  | cons c cs ih => exact ih

theorem segmentsOf_verbatim (cs : List Char) : segmentsOf (verbatim cs) = [String.ofList cs] := by
  have hlead := lead_verbatim cs []
  have hlater := laterSegments_verbatim cs []
  rw [List.append_nil] at hlead hlater
  rw [segmentsOf, hlead, hlater]
  show [String.ofList (cs ++ [])] = _
  rw [List.append_nil]

namespace Scan

/-! ## Scanning rows of marks -/

theorem segment_nil (place : Place) : segment place [] = .ok ([], place) := by
  rw [segment]
  rfl

/-- Tokens that were made before. -/
def behind {α : Type} (ts : List Token) (r : Except α (List Token × Place)) :
    Except α (List Token × Place) :=
  r.map fun (more, last) => (ts ++ more, last)

theorem segment_step {place next : Place} {cs rest : List Char} {ts : List Token}
    (hne : cs ≠ []) (hstep : step place cs = .ok ⟨ts, next, rest⟩) :
    segment place cs = behind ts (segment next rest) := by
  rw [segment, dif_neg hne]
  split
  · rename_i hfault
    rw [hstep] at hfault
    cases hfault
  · rename_i hok
    rw [hstep] at hok
    cases hok
    dsimp only
    cases segment next rest <;> rfl

theorem segment_lexeme {place next : Place} {cs rest : List Char} {ts : List Token}
    (h : Lexes place cs rest ts next) :
    segment place (cs ++ rest) = behind ts (segment next rest) := by
  apply segment_step _ h.step
  intro hnil
  exact h.ne_nil (List.append_eq_nil_iff.mp hnil).1

theorem segment_fault {place : Place} {cs : List Char} {fault : ScanFault}
    (hstep : step place cs = .error fault) : segment place cs = .error fault := by
  have hne : cs ≠ [] := by
    rintro rfl
    cases place <;> cases hstep
  rw [segment, dif_neg hne]
  split
  · rename_i hfault
    rw [hstep] at hfault
    cases hfault
    rfl
  · rename_i hok
    rw [hstep] at hok
    cases hok

theorem segments_singleton_eq_ok {index : Nat} {place last : Place} {s : String}
    {ts : List Token} :
    segments index place [s] = .ok (ts, last) ↔ segment place s.toList = .ok (ts, last) := by
  rw [segments]
  cases segment place s.toList with
  | error fault => simp
  | ok found => simp [Prod.ext_iff]

theorem segments_cons_eq_ok {index : Nat} {place last : Place} {s : String}
    {later : List String} (hlater : later ≠ []) {ts : List Token} :
    segments index place (s :: later) = .ok (ts, last) ↔
      ∃ own next more, segment place s.toList = .ok (own, next) ∧
        segments (index + 1) next later = .ok (more, last) ∧ ts = own ++ .placeholder :: more := by
  obtain ⟨s', later, rfl⟩ := List.exists_cons_of_ne_nil hlater
  rw [segments]
  cases segment place s.toList with
  | error fault => simp
  | ok found =>
      dsimp only
      cases hrest : segments (index + 1) found.2 (s' :: later) with
      | error e =>
          constructor
          · intro h
            cases h
          · rintro ⟨own, next, more, hown, hmore, -⟩
            cases hown
            rw [hrest] at hmore
            cases hmore
      | ok others =>
          constructor
          · intro h
            cases h
            exact ⟨_, _, _, rfl, hrest, rfl⟩
          · rintro ⟨own, next, more, hown, hmore, rfl⟩
            cases hown
            rw [hrest] at hmore
            cases hmore
            rfl

/-- From this place the marks are scanned as these tokens, up to the last place. -/
def Scans (place : Place) (marks : List (Option Char)) (ts : List Token) (last : Place) : Prop :=
  ∀ index, segments index place (segmentsOf marks) = .ok (ts, last)

theorem Scans.nil (place : Place) : Scans place [] [] place := by
  intro index
  show segments index place [String.ofList []] = _
  rw [segments, String.toList_ofList, segment_nil]

theorem Scans.boundary {place last : Place} {marks : List (Option Char)} {ts : List Token}
    (h : Scans place marks ts last) : Scans place (none :: marks) (.placeholder :: ts) last := by
  intro index
  show segments index place (String.ofList [] :: segmentsOf marks) = _
  rw [segments, String.toList_ofList, segment_nil]
  unfold segmentsOf
  dsimp only
  have hmarks := h (index + 1)
  unfold segmentsOf at hmarks
  rw [hmarks]
  rfl

theorem Scans.before {place next last : Place} {cs : List Char} {marks : List (Option Char)}
    {ts : List Token} (h : Scans next marks ts last) (more : List Token)
    (hsegment : ∀ us middle, segment next (lead marks) = .ok (us, middle) →
      segment place (cs ++ lead marks) = .ok (more ++ us, middle)) :
    Scans place (verbatim cs ++ marks) (more ++ ts) last := by
  intro index
  have hmarks := h index
  unfold segmentsOf at hmarks ⊢
  rw [lead_verbatim, laterSegments_verbatim]
  cases hlead : segment next (lead marks) with
  | error fault =>
      rw [segments, String.toList_ofList, hlead] at hmarks
      cases hmarks
  | ok result =>
      obtain ⟨us, middle⟩ := result
      rw [segments, String.toList_ofList, hlead] at hmarks
      rw [segments, String.toList_ofList, hsegment us middle hlead]
      cases hlater : laterSegments marks with
      | nil =>
          rw [hlater] at hmarks
          cases hmarks
          rfl
      | cons s rest =>
          rw [hlater] at hmarks
          dsimp only at hmarks ⊢
          cases hrest : segments (index + 1) middle (s :: rest) with
          | error e =>
              rw [hrest] at hmarks
              cases hmarks
          | ok result =>
              rw [hrest] at hmarks
              cases hmarks
              simp

theorem Scans.lexeme {place next last : Place} {cs : List Char} {marks : List (Option Char)}
    {more ts : List Token} (hlexeme : Lexes place cs (lead marks) more next)
    (h : Scans next marks ts last) : Scans place (verbatim cs ++ marks) (more ++ ts) last := by
  apply h.before more
  intro us middle hmarks
  rw [segment_lexeme hlexeme, hmarks]
  rfl

/-! ## Lexemes of content -/

variable {marks : List (Option Char)} {ts : List Token} {last : Place}

/-- The marks start with a tag or with a boundary, or there are none. -/
def Stops (marks : List (Option Char)) : Prop :=
  ∀ c ∈ (lead marks).head?, c = '<'

theorem scans_text {data : List Char} (hne : data ≠ []) (hfree : '<' ∉ data)
    (hstops : Stops marks) (h : Scans .content marks ts last) :
    Scans .content (verbatim data ++ marks) (.text (String.ofList data) :: ts) last := by
  refine Scans.lexeme (.text hne hfree ?_) h
  intro c hc
  rw [hstops c hc]
  rfl

theorem scans_comment {data : List Char} (hfree : ¬ ['-', '-', '>'] <:+: data)
    (h : Scans .content marks ts last) :
    Scans .content (verbatim (['<', '!', '-', '-'] ++ data ++ ['-', '-', '>']) ++ marks)
      (.comment (String.ofList data) :: ts) last :=
  Scans.lexeme (.comment _ hfree) h

/-- What follows a name in a tag that is written here: a blank or the end of the tag. -/
def EndsName (marks : List (Option Char)) : Prop :=
  ∀ c ∈ (lead marks).head?, c = ' ' ∨ c = '>'

theorem scans_startOpen {name : List Char} (hname : TagName name)
    (hcomment : ¬ ['!', '-', '-'] <+: name) (hends : EndsName marks)
    (h : Scans (.tag (String.ofList name)) marks ts last) :
    Scans .content (verbatim ('<' :: name) ++ marks) (.startOpen (String.ofList name) :: ts)
      last := by
  have hstop : Ends isElementNameChar (lead marks) := by
    intro c hc
    rcases hends c hc with rfl | rfl <;> rfl
  have hblanks : Blanks [] := by
    intro c hc
    cases hc
  have hwhole := comment?_eq_none_iff.mp (comment?_startTag hname.nonempty hcomment hends)
  exact Scans.lexeme (.startTag hblanks hname hstop hwhole) h

theorem scans_endTag {name : List Char} (hname : TagName name)
    (h : Scans .content marks ts last) :
    Scans .content (verbatim ('<' :: '/' :: name ++ ['>']) ++ marks)
      (.elementEnd (String.ofList (trimWhiteSpace name)) :: ts) last :=
  Scans.lexeme (.endTag _ hname.nonempty hname.close_notMem) h

/-! ## Lexemes of a tag -/

variable {name : String} {word : List Char} {q : Char}

theorem scans_startClose (h : Scans .content marks ts last) :
    Scans (.tag name) (verbatim ['>'] ++ marks) (.startClose name :: ts) last :=
  Scans.lexeme (.startClose name _) h

theorem scans_blank (hword : AttributeName word)
    (h : Scans (.tag name) (verbatim word ++ marks) ts last) :
    Scans (.tag name) (verbatim (' ' :: word) ++ marks) ts last := by
  have hblank : Lexes (.tag name) [' '] (lead (verbatim word ++ marks)) [] (.tag name) := by
    obtain ⟨c, more, rfl, hc, -⟩ := hword.head
    refine .blanks name (List.cons_ne_nil _ _) ?_ ?_
    · intro b hb
      rw [List.mem_singleton.mp hb]
      rfl
    · intro b hb
      cases hb
      exact hc
  exact Scans.lexeme hblank h

theorem scans_bare (hword : AttributeName word) (hends : EndsName marks)
    (hassign : assign? (lead marks) = none) (h : Scans (.tag name) marks ts last) :
    Scans (.tag name) (verbatim word ++ marks) (.attributeName (String.ofList word) :: ts)
      last := by
  have hstop : Ends isAttributeNameChar (lead marks) := by
    intro c hc
    rcases hends c hc with rfl | rfl <;> rfl
  exact Scans.lexeme (.bare name hword hstop (assign?_eq_none_iff.mp hassign)) h

theorem assign?_blank (hword : AttributeName word) (rest : List Char) :
    assign? (' ' :: (word ++ rest)) = none := by
  obtain ⟨c, more, rfl, hblank, -, -, hequals⟩ := hword.head
  have hdrop : (' ' :: (c :: more ++ rest)).dropWhile isTagBlank = c :: more ++ rest := by
    rw [List.dropWhile_cons_of_pos rfl]
    exact List.dropWhile_cons_of_neg (by simp [hblank])
  unfold assign?
  rw [hdrop]
  split
  · rename_i heq
    exact absurd (List.cons.inj heq).1 hequals
  · rfl

theorem equalsSign_singleton : EqualsSign ['='] := by
  refine ⟨[], [], ?_, ?_, rfl⟩ <;> exact nofun

theorem scans_closed (hword : AttributeName word) (hq : q = '"' ∨ q = '\'') {text : List Char}
    (hfree : q ∉ text) (h : Scans (.tag name) marks ts last) :
    Scans (.tag name) (verbatim (word ++ '=' :: q :: text ++ [q]) ++ marks)
      (.attributeName (String.ofList word) :: .attributeValue (String.ofList text) :: ts)
      last := by
  have hrow : word ++ '=' :: q :: text ++ [q] = word ++ ['='] ++ q :: text ++ [q] := by simp
  rw [hrow]
  exact Scans.lexeme (.closed name _ hword equalsSign_singleton hq hfree) h

theorem step_quote (hword : AttributeName word) (hq : q = '"' ∨ q = '\'') (rest : List Char) :
    Scan.step (.tag name) (word ++ ['='] ++ q :: rest) =
      match splitAtChar q rest with
      | some (value, after) =>
          .ok ⟨[.attributeName (String.ofList word), .attributeValue (String.ofList value)],
            .tag name, after⟩
      | none => .ok ⟨.attributeName (String.ofList word) :: valueTokens rest, .quoted name q, []⟩
      := by
  have hvalue : valueStep name (q :: rest) =
      match splitAtChar q rest with
      | some (value, after) => .ok ([.attributeValue (String.ofList value)], .tag name, after)
      | none => .ok (valueTokens rest, .quoted name q, []) :=
    if_pos hq
  rw [step_value hword equalsSign_singleton (ends_quote hq rest), hvalue]
  cases splitAtChar q rest <;> rfl

theorem segment_quoted {cs : List Char} {us : List Token} {middle : Place}
    (h : segment (.quoted name q) cs = .ok (us, middle)) :
    ∃ vs, segment (quotedStep name q cs).place (quotedStep name q cs).rest = .ok (vs, middle) ∧
      us = (quotedStep name q cs).tokens ++ vs := by
  rw [segment] at h
  split at h
  · rename_i hnil
    cases hnil
    cases h
    exact ⟨[], segment_nil _, rfl⟩
  · split at h
    · cases h
    · rename_i hstep
      cases hstep
      split at h
      · cases h
      · rename_i hrest
        cases h
        exact ⟨_, hrest, rfl⟩

theorem scans_opened (hword : AttributeName word) (hq : q = '"' ∨ q = '\'')
    (hhead : ∀ c ∈ (lead marks).head?, c ≠ q) (h : Scans (.quoted name q) marks ts last) :
    Scans (.tag name) (verbatim (word ++ ['=', q]) ++ marks)
      (.attributeName (String.ofList word) :: ts) last := by
  apply h.before [.attributeName (String.ofList word)]
  intro us middle hmarks
  obtain ⟨vs, hrest, rfl⟩ := segment_quoted hmarks
  have hstep : Scan.step (.tag name) (word ++ ['=', q] ++ lead marks) =
      .ok ⟨.attributeName (String.ofList word) :: (quotedStep name q (lead marks)).tokens,
        (quotedStep name q (lead marks)).place, (quotedStep name q (lead marks)).rest⟩ := by
    have hrow : word ++ ['=', q] ++ lead marks = word ++ ['='] ++ q :: lead marks := by simp
    rw [hrow, step_quote hword hq, quotedStep]
    cases hsplit : splitAtChar q (lead marks) with
    | none => rfl
    | some result =>
        obtain ⟨value, after⟩ := result
        -- an empty value would be a token here, but not in a later segment
        have hvalue := splitAtChar_ne_nil hsplit hhead
        simp [valueTokens, hvalue]
  rw [segment_step (by simp) hstep, hrest]
  rfl

theorem scans_quoteEnd {text : List Char} (hfree : q ∉ text)
    (h : Scans (.tag name) marks ts last) :
    Scans (.quoted name q) (verbatim (text ++ [q]) ++ marks) (valueTokens text ++ ts) last :=
  Scans.lexeme (.quoteEnd name _ hfree) h

theorem scans_piece {text : List Char} (hne : text ≠ []) (hfree : q ∉ text)
    (hbreak : lead marks = []) (h : Scans (.quoted name q) marks ts last) :
    Scans (.quoted name q) (verbatim text ++ marks)
      (.attributeValue (String.ofList text) :: ts) last := by
  have hpiece := Lexes.piece name hne hfree
  rw [← hbreak] at hpiece
  exact Scans.lexeme hpiece h

end Scan

end LiveMarkup
