import LiveMarkup.Proofs.Markup.Searching

/-!
# Steps are lexemes

At every place in front of any characters stands either a lexeme or an offence,
and never both: the scanner's step is the rule that applies.
-/

namespace LiveMarkup

namespace Scan

/-! ## Rules are stepped -/

theorem EqualsSign.ends_word {sign : List Char} (h : EqualsSign sign) (rest : List Char) :
    Ends isAttributeNameChar (sign ++ rest) := by
  obtain ⟨before, after, hbefore, -, rfl⟩ := h
  intro c hc
  cases before with
  | nil =>
      cases hc
      rfl
  | cons b before =>
      cases hc
      have hblank := hbefore c List.mem_cons_self
      rw [isAttributeNameChar, hblank]
      rfl

theorem step_word {name : String} {word : List Char} (hword : AttributeName word) {rest : List Char}
    (hstop : ∀ c ∈ rest.head?, isAttributeNameChar c = false) :
    Scan.step (.tag name) (word ++ rest) =
      match assign? rest with
      | none => .ok ⟨[.attributeName (String.ofList word)], .tag name, rest⟩
      | some after => do
          let (tokens, place, rest) ← valueStep name after
          return ⟨.attributeName (String.ofList word) :: tokens, place, rest⟩ := by
  have htake := takeWhile_run hword.chars hstop
  have hdrop := dropWhile_run hword.chars hstop
  obtain ⟨c, more, rfl, hblank, hclose, hslash, -⟩ := hword.head
  have htag : tagStep name (c :: more ++ rest) = attributeStep name (c :: more ++ rest) := by
    rw [List.cons_append]
    generalize more ++ rest = after
    unfold tagStep
    split
    · rename_i heq
      cases heq
      exact absurd rfl hclose
    · rename_i heq
      cases heq
      exact absurd rfl hslash
    · rename_i heq
      cases heq
      rw [hblank]
      rfl
    · rename_i heq
      cases heq
  show tagStep name (c :: more ++ rest) = _
  rw [htag]
  simp only [attributeStep, htake, hdrop]
  rfl

theorem step_value {tag : String} {word sign rest : List Char} (hword : AttributeName word)
    (hsign : EqualsSign sign) (hends : Ends isTagBlank rest) :
    step (.tag tag) (word ++ sign ++ rest) = do
      let (ts, place, rest) ← valueStep tag rest
      return ⟨.attributeName (String.ofList word) :: ts, place, rest⟩ := by
  rw [List.append_assoc, step_word hword (hsign.ends_word rest), assign?_found hsign hends]

theorem ends_quote {q : Char} (hq : q = '"' ∨ q = '\'') (rest : List Char) :
    Ends isTagBlank (q :: rest) := by
  intro c hc
  cases hc
  rcases hq with rfl | rfl <;> rfl

theorem contentStep_comment {cs body rest : List Char} (h : comment? cs = some (body, rest)) :
    contentStep cs = .ok ⟨[.comment (String.ofList body)], .content, rest⟩ := by
  unfold contentStep
  rw [h]

theorem contentStep_endTag {cs name rest : List Char} (hcomment : comment? cs = none)
    (h : endTag? cs = some (name, rest)) :
    contentStep cs =
      .ok ⟨[.elementEnd (String.ofList (trimWhiteSpace name))], .content, rest⟩ := by
  unfold contentStep
  rw [hcomment, h]

theorem contentStep_startTag {cs : List Char} (hcomment : comment? ('<' :: cs) = none)
    (hend : endTag? ('<' :: cs) = none) : contentStep ('<' :: cs) = tagStart cs := by
  unfold contentStep
  rw [hcomment, hend]
  rfl

theorem tagStep_blank {c : Char} (hc : isTagBlank c = true) (tag : String) (cs : List Char) :
    tagStep tag (c :: cs) = .ok ⟨[], .tag tag, cs.dropWhile isTagBlank⟩ := by
  unfold tagStep
  split
  · rename_i heq
    cases heq
    cases hc
  · rename_i heq
    cases heq
    cases hc
  · rename_i heq
    cases heq
    exact if_pos hc
  · rename_i heq
    cases heq

theorem step_startTag {blanks name rest : List Char} (hblanks : Blanks blanks)
    (hname : TagName name) (hends : Ends isElementNameChar rest)
    (hcomment : ¬ StartsComment ('<' :: blanks ++ name ++ rest)) :
    step .content ('<' :: blanks ++ name ++ rest) =
      .ok ⟨[.startOpen (String.ofList name)], .tag (String.ofList name), rest⟩ := by
  have htake := takeWhile_run hname.chars hends
  have hdrop := dropWhile_run hname.chars hends
  obtain ⟨c, more, rfl⟩ := List.exists_cons_of_ne_nil hname.nonempty
  have hc := hname.chars c List.mem_cons_self
  have hother : isTagBlank c = false ∧ c ≠ '/' := by
    simp only [isElementNameChar, Bool.not_eq_true', Bool.or_eq_false_iff,
      beq_eq_false_iff_ne] at hc
    exact ⟨hc.1.1, hc.1.2⟩
  have hclear : (blanks ++ (c :: more ++ rest)).dropWhile isTagBlank = c :: more ++ rest := by
    apply dropWhile_run hblanks
    intro b hb
    cases hb
    exact hother.1
  have hend : endTag? ('<' :: (blanks ++ (c :: more ++ rest))) = none := by
    cases blanks with
    | nil => simp [endTag?, hother.2]
    | cons b blanks =>
        have hb : b ≠ '/' := by
          rintro rfl
          have hblank := hblanks '/' List.mem_cons_self
          cases hblank
        simp [endTag?, hb]
  rw [List.append_assoc, List.cons_append] at hcomment ⊢
  show contentStep ('<' :: (blanks ++ (c :: more ++ rest))) = _
  rw [contentStep_startTag (comment?_eq_none_iff.mpr hcomment) hend]
  simp only [tagStart, hclear, htake, hdrop]
  rfl

theorem Lexes.step {place next : Place} {cs rest : List Char} {ts : List Token}
    (h : Lexes place cs rest ts next) : Scan.step place (cs ++ rest) = .ok ⟨ts, next, rest⟩ := by
  cases h with
  | @text data _ hne hfree hends =>
      have hother := bne_of_notMem hfree
      obtain ⟨c, more, rfl⟩ := List.exists_cons_of_ne_nil hne
      have hc : c ≠ '<' := by
        rintro rfl
        exact hfree List.mem_cons_self
      have hcomment : comment? (c :: more ++ rest) = none := by simp [comment?, hc]
      have hend : endTag? (c :: more ++ rest) = none := by simp [endTag?, hc]
      show contentStep _ = _
      rw [contentStep, hcomment, hend]
      dsimp only
      rw [takeWhile_run hother hends, dropWhile_run hother hends]
      simp [hc]
  | comment _ hfree => exact contentStep_comment (comment?_found hfree rest)
  | endTag _ hne hfree => exact contentStep_endTag rfl (endTag?_found hne hfree rest)
  | startTag hblanks hname hends hcomment => exact step_startTag hblanks hname hends hcomment
  | @blanks cs _ tag hne hblanks hends =>
      obtain ⟨c, more, rfl⟩ := List.exists_cons_of_ne_nil hne
      have hc := hblanks c List.mem_cons_self
      have hmore : ∀ b ∈ more, isTagBlank b = true :=
        fun b hb => hblanks b (List.mem_cons_of_mem c hb)
      show tagStep tag (c :: (more ++ rest)) = _
      rw [tagStep_blank hc, dropWhile_run hmore hends]
  | startClose => rfl
  | selfClose => rfl
  | bare tag hword hends hequals =>
      rw [step_word hword hends, assign?_eq_none_iff.mpr hequals]
  | deferred tag hword hsign =>
      have hends : Ends isTagBlank [] := by
        intro c hc
        cases hc
      rw [step_value hword hsign hends]
      rfl
  | @unquoted word sign value _ tag hword hsign hne hvalue hends =>
      have htake := takeWhile_run hvalue hends
      have hdrop := dropWhile_run hvalue hends
      obtain ⟨c, more, rfl⟩ := List.exists_cons_of_ne_nil hne
      have hc := hvalue c List.mem_cons_self
      have hother : isTagBlank c = false ∧ ¬ (c = '"' ∨ c = '\'') := by
        simp only [isBareValueChar, Bool.not_eq_true', Bool.or_eq_false_iff,
          beq_eq_false_iff_ne] at hc
        exact ⟨hc.1.1.1, not_or.mpr ⟨hc.1.2, hc.2⟩⟩
      have hblank : Ends isTagBlank (c :: more ++ rest) := by
        intro b hb
        cases hb
        exact hother.1
      have hstep : valueStep tag (c :: more ++ rest) =
          .ok ([.attributeValue (String.ofList (c :: more))], .tag tag, rest) := by
        rw [List.cons_append] at htake hdrop ⊢
        simp only [valueStep, if_neg hother.2, if_pos hc, htake, hdrop]
      rw [List.append_assoc _ (c :: more), step_value hword hsign hblank, hstep]
      rfl
  | @closed word sign text q tag _ hword hsign hq hfree =>
      have hstep : valueStep tag (q :: (text ++ q :: rest)) =
          .ok ([.attributeValue (String.ofList text)], .tag tag, rest) := by
        simp only [valueStep, if_pos hq, splitAtChar_found hfree]
      have hrow : word ++ sign ++ q :: text ++ [q] ++ rest =
          word ++ sign ++ q :: (text ++ q :: rest) := by simp
      rw [hrow, step_value hword hsign (ends_quote hq _), hstep]
      rfl
  | @opened word sign text q tag hword hsign hq hfree =>
      have hstep : valueStep tag (q :: text) = .ok (valueTokens text, .quoted tag q, []) := by
        simp only [valueStep, if_pos hq, splitAtChar_missing hfree]
      rw [List.append_nil, step_value hword hsign (ends_quote hq _), hstep]
      rfl
  | @quoteEnd text q tag _ hfree =>
      have hrow : text ++ [q] ++ rest = text ++ q :: rest := by simp
      show Except.ok (quotedStep tag q _) = _
      rw [hrow, quotedStep, splitAtChar_found hfree]
  | @piece text q tag hne hfree =>
      show Except.ok (quotedStep tag q _) = _
      rw [List.append_nil, quotedStep, splitAtChar_missing hfree, valueTokens]
      simp [hne]

theorem Offends.step {place : Place} {before rest : List Char} {kind : Nat → Nat → MarkupError}
    (h : Offends place before rest kind) :
    ∃ fault, Scan.step place (before ++ rest) = .error fault ∧
      ∀ index whole,
        faultError index whole fault = kind index (byteLength whole - byteLength rest) := by
  cases h with
  | equals tag more => exact ⟨.syntaxError _, rfl, fun _ _ => rfl⟩
  | @slash more tag hmore =>
      refine ⟨.syntaxError _, ?_, fun _ _ => rfl⟩
      show tagStep tag ('/' :: more) = _
      cases more with
      | nil => rfl
      | cons c more =>
          have hc : c ≠ '>' := by
            rintro rfl
            exact hmore rfl
          simp [tagStep, hc, isTagBlank, attributeStep, isAttributeNameChar]
  | @noValue word sign tag more hword hsign =>
      refine ⟨.syntaxError _, ?_, fun _ _ => rfl⟩
      have hends : Ends isTagBlank ('>' :: more) := by
        intro c hc
        cases hc
        rfl
      rw [step_value hword hsign hends]
      rfl
  | @noName blanks _ hblanks hcomment hend hrest =>
      refine ⟨.missingElementName _, ?_, fun _ _ => rfl⟩
      have hother : ∀ c ∈ rest.head?, isTagBlank c = false ∧ isElementNameChar c = false := by
        intro c hc
        rcases hrest with rfl | hhead | hhead
        · cases hc
        · rw [hhead] at hc
          cases hc
          exact ⟨rfl, rfl⟩
        · rw [hhead] at hc
          cases hc
          exact ⟨rfl, rfl⟩
      have hclear : (blanks ++ rest).dropWhile isTagBlank = rest :=
        dropWhile_run hblanks fun c hc => (hother c hc).1
      have hname : rest.takeWhile isElementNameChar = [] := by
        cases rest with
        | nil => rfl
        | cons c more => simp [(hother c rfl).2]
      rw [List.cons_append] at hcomment hend ⊢
      show contentStep _ = _
      rw [contentStep_startTag (comment?_eq_none_iff.mpr hcomment)
        (endTag?_eq_none_iff.mpr hend)]
      simp only [tagStart, hclear, hname]
      rfl

/-! ## A step is a lexeme or an offence -/

/-- A lexeme at the front of what a step is given. -/
def ReadsLexeme (place : Place) (cs : List Char) (s : ScanStep) : Prop :=
  ∃ lexeme, cs = lexeme ++ s.rest ∧ Lexes place lexeme s.rest s.tokens s.place

/-- An offence at the front of what a step is given, and the fault that tells of it. -/
def MeetsOffence (place : Place) (cs : List Char) (fault : ScanFault) : Prop :=
  ∃ before rest kind, cs = before ++ rest ∧ Offends place before rest kind ∧
    ∀ index whole, faultError index whole fault = kind index (byteLength whole - byteLength rest)

theorem lexeme_tagStart {cs : List Char} {s : ScanStep}
    (hcomment : ¬ StartsComment ('<' :: cs)) (h : tagStart cs = .ok s) :
    ReadsLexeme .content ('<' :: cs) s := by
  unfold tagStart at h
  dsimp only at h
  split at h
  · cases h
  · rename_i hname
    cases h
    have hblanks : cs.takeWhile isTagBlank ++ cs.dropWhile isTagBlank = cs :=
      List.takeWhile_append_dropWhile
    have hrun : (cs.dropWhile isTagBlank).takeWhile isElementNameChar ++
        (cs.dropWhile isTagBlank).dropWhile isElementNameChar = cs.dropWhile isTagBlank :=
      List.takeWhile_append_dropWhile
    have hrow : '<' :: cs = '<' :: cs.takeWhile isTagBlank ++
        (cs.dropWhile isTagBlank).takeWhile isElementNameChar ++
          (cs.dropWhile isTagBlank).dropWhile isElementNameChar := by
      rw [List.append_assoc, hrun, List.cons_append, hblanks]
    refine ⟨_, hrow, .startTag (blanks_takeWhile cs) ⟨?_, ?_⟩ (ends_dropWhile _ _) ?_⟩
    · simpa using hname
    · intro c hc
      exact List.mem_takeWhile_imp hc
    · rwa [← hrow]

/-- Behind blanks, what cannot begin a name is a slash, the end of the tag or the end of the
segment. -/
theorem offence_tagStart {cs : List Char} {fault : ScanFault}
    (hcomment : ¬ StartsComment ('<' :: cs)) (hend : ¬ StartsEndTag ('<' :: cs))
    (h : tagStart cs = .error fault) : MeetsOffence .content ('<' :: cs) fault := by
  unfold tagStart at h
  dsimp only at h
  split at h
  · rename_i hname
    cases h
    have hblanks : cs.takeWhile isTagBlank ++ cs.dropWhile isTagBlank = cs :=
      List.takeWhile_append_dropWhile
    have hrow : '<' :: cs = '<' :: cs.takeWhile isTagBlank ++ cs.dropWhile isTagBlank := by
      rw [List.cons_append, hblanks]
    refine ⟨_, _, _, hrow, .noName (blanks_takeWhile cs) ?_ ?_ ?_, fun _ _ => rfl⟩
    · rwa [← hrow]
    · rwa [← hrow]
    · have hblank := ends_dropWhile isTagBlank cs
      cases hdrop : cs.dropWhile isTagBlank with
      | nil => exact Or.inl rfl
      | cons c more =>
          rw [hdrop] at hname hblank
          have hc : isElementNameChar c = false := by
            cases hchar : isElementNameChar c with
            | false => rfl
            | true => simp [hchar] at hname
          have hother := hblank c rfl
          have hstop : c = '/' ∨ c = '>' := by
            simpa [isElementNameChar, hother, or_iff_not_imp_left] using hc
          simpa using hstop
  · cases h

theorem lexeme_contentStep {cs : List Char} {s : ScanStep} (hne : cs ≠ [])
    (h : contentStep cs = .ok s) : ReadsLexeme .content cs s := by
  unfold contentStep at h
  split at h
  · rename_i body rest hcomment
    cases h
    obtain ⟨rfl, hfree⟩ := comment?_eq_some hcomment
    exact ⟨_, rfl, .comment rest hfree⟩
  · rename_i hcomment
    split at h
    · rename_i name rest hend
      cases h
      obtain ⟨rfl, hname, hfree⟩ := endTag?_eq_some hend
      exact ⟨_, rfl, .endTag rest hname hfree⟩
    · split at h
      · exact lexeme_tagStart (comment?_eq_none_iff.mp hcomment) h
      · rename_i hother
        cases h
        have hrow : cs.takeWhile (· != '<') ++ cs.dropWhile (· != '<') = cs :=
          List.takeWhile_append_dropWhile
        refine ⟨_, hrow.symm, .text ?_ (not_mem_takeWhile_bne _ _) (ends_dropWhile _ _)⟩
        obtain ⟨c, more, rfl⟩ := List.exists_cons_of_ne_nil hne
        have hc : c ≠ '<' := by
          rintro rfl
          exact hother more rfl
        simp [hc]

theorem offence_contentStep {cs : List Char} {fault : ScanFault}
    (h : contentStep cs = .error fault) : MeetsOffence .content cs fault := by
  unfold contentStep at h
  split at h
  · cases h
  · rename_i hcomment
    split at h
    · cases h
    · rename_i hend
      split at h
      · exact offence_tagStart (comment?_eq_none_iff.mp hcomment)
          (endTag?_eq_none_iff.mp hend) h
      · cases h

/-- A value that is there is in quotes that end in the segment, in quotes that do not, or
without quotes. -/
theorem lexeme_valueStep {tag : String} {word sign cs rest : List Char} {ts : List Token}
    {place : Place} (hword : AttributeName word) (hsign : EqualsSign sign)
    (h : valueStep tag cs = .ok (ts, place, rest)) :
    ReadsLexeme (.tag tag) (word ++ sign ++ cs)
      ⟨.attributeName (String.ofList word) :: ts, place, rest⟩ := by
  unfold valueStep at h
  split at h
  · cases h
    exact ⟨_, rfl, .deferred tag hword hsign⟩
  · rename_i c after
    split at h
    · rename_i hq
      split at h
      · rename_i value rest' hsplit
        cases h
        obtain ⟨rfl, hfree⟩ := splitAtChar_eq_some hsplit
        refine ⟨word ++ sign ++ c :: value ++ [c], ?_, .closed tag _ hword hsign hq hfree⟩
        simp
      · rename_i hsplit
        cases h
        refine ⟨word ++ sign ++ c :: after, ?_,
          .opened tag hword hsign hq (splitAtChar_eq_none hsplit)⟩
        simp
    · split at h
      · rename_i hc
        cases h
        have hrow : (c :: after).takeWhile isBareValueChar ++
            (c :: after).dropWhile isBareValueChar = c :: after :=
          List.takeWhile_append_dropWhile
        refine ⟨word ++ sign ++ (c :: after).takeWhile isBareValueChar, ?_,
          .unquoted tag hword hsign ?_ ?_ (ends_dropWhile _ _)⟩
        · rw [List.append_assoc _ _ (List.dropWhile _ _), hrow]
        · simp [hc]
        · intro b hb
          exact List.mem_takeWhile_imp hb
      · cases h

/-- Behind an equals sign and blanks, the one thing that begins no value is the end of the
tag. -/
theorem offence_valueStep {tag : String} {word sign cs : List Char} {fault : ScanFault}
    (hword : AttributeName word) (hsign : EqualsSign sign) (hends : Ends isTagBlank cs)
    (h : valueStep tag cs = .error fault) : MeetsOffence (.tag tag) (word ++ sign ++ cs) fault := by
  unfold valueStep at h
  split at h
  · cases h
  · rename_i c after
    split at h
    · split at h <;> cases h
    · rename_i hq
      split at h
      · cases h
      · rename_i hc
        cases h
        have hblank := hends c rfl
        have hclose : c = '>' := by
          simp only [isBareValueChar, hblank, Bool.false_or, Bool.not_eq_true', Bool.not_eq_false,
            Bool.or_eq_true, beq_iff_eq] at hc
          rcases hc with (hc | hc) | hc
          · exact hc
          · exact absurd (Or.inl hc) hq
          · exact absurd (Or.inr hc) hq
        subst hclose
        exact ⟨_, _, _, rfl, .noValue tag after hword hsign, fun _ _ => rfl⟩

theorem exists_word {cs : List Char}
    (hword : (cs.takeWhile isAttributeNameChar).isEmpty = false) :
    cs = cs.takeWhile isAttributeNameChar ++ cs.dropWhile isAttributeNameChar ∧
      AttributeName (cs.takeWhile isAttributeNameChar) := by
  refine ⟨List.takeWhile_append_dropWhile.symm, ?_, ?_⟩
  · simpa using hword
  · intro c hc
    exact List.mem_takeWhile_imp hc

theorem lexeme_attributeStep {tag : String} {cs : List Char} {s : ScanStep}
    (h : attributeStep tag cs = .ok s) : ReadsLexeme (.tag tag) cs s := by
  unfold attributeStep at h
  dsimp only at h
  split at h
  · cases h
  · rename_i hne
    obtain ⟨hrow, hword⟩ := exists_word (Bool.eq_false_iff.mpr hne)
    split at h
    · rename_i hassign
      cases h
      exact ⟨_, hrow, .bare tag hword (ends_dropWhile _ _) (assign?_eq_none_iff.mp hassign)⟩
    · rename_i after hassign
      obtain ⟨⟨sign, hsign, hafter⟩, -⟩ := assign?_eq_some hassign
      cases hvalue : valueStep tag after with
      | error fault =>
          rw [hvalue] at h
          cases h
      | ok read =>
          obtain ⟨ts, place, rest⟩ := read
          rw [hvalue] at h
          cases h
          have hlexeme := lexeme_valueStep hword hsign hvalue
          rwa [List.append_assoc, ← hafter, ← hrow] at hlexeme

theorem offence_attributeStep {tag : String} {c : Char} {more : List Char} {fault : ScanFault}
    (hblank : isTagBlank c = false) (hclose : c ≠ '>')
    (hslash : c = '/' → more.head? ≠ some '>')
    (h : attributeStep tag (c :: more) = .error fault) :
    MeetsOffence (.tag tag) (c :: more) fault := by
  unfold attributeStep at h
  dsimp only at h
  split at h
  · rename_i hword
    cases h
    have hc : c = '=' ∨ c = '/' := by
      cases hchar : isAttributeNameChar c with
      | true => simp [hchar] at hword
      | false =>
          simpa [isAttributeNameChar, hblank, hclose, or_iff_not_imp_left] using hchar
    rcases hc with rfl | rfl
    · exact ⟨[], _, _, rfl, .equals tag more, fun _ _ => rfl⟩
    · exact ⟨[], _, _, rfl, .slash tag (hslash rfl), fun _ _ => rfl⟩
  · rename_i hne
    obtain ⟨hrow, hword⟩ := exists_word (Bool.eq_false_iff.mpr hne)
    split at h
    · cases h
    · rename_i after hassign
      obtain ⟨⟨sign, hsign, hafter⟩, hends⟩ := assign?_eq_some hassign
      cases hvalue : valueStep tag after with
      | error fault' =>
          rw [hvalue] at h
          cases h
          have hoffence := offence_valueStep hword hsign hends hvalue
          rwa [List.append_assoc, ← hafter, ← hrow] at hoffence
      | ok read =>
          rw [hvalue] at h
          cases h

theorem lexeme_tagStep {tag : String} {cs : List Char} {s : ScanStep} (hne : cs ≠ [])
    (h : tagStep tag cs = .ok s) : ReadsLexeme (.tag tag) cs s := by
  unfold tagStep at h
  split at h
  · rename_i rest
    cases h
    exact ⟨['>'], rfl, .startClose tag rest⟩
  · rename_i rest
    cases h
    exact ⟨['/', '>'], rfl, .selfClose tag rest⟩
  · rename_i c rest _ _
    split at h
    · rename_i hblank
      cases h
      have hrow : rest.takeWhile isTagBlank ++ rest.dropWhile isTagBlank = rest :=
        List.takeWhile_append_dropWhile
      refine ⟨c :: rest.takeWhile isTagBlank, ?_,
        .blanks tag (List.cons_ne_nil _ _) ?_ (ends_dropWhile _ _)⟩
      · rw [List.cons_append, hrow]
      · intro b hb
        rcases List.mem_cons.mp hb with rfl | hb
        · exact hblank
        · exact blanks_takeWhile rest b hb
    · exact lexeme_attributeStep h
  · exact absurd rfl hne

theorem offence_tagStep {tag : String} {cs : List Char} {fault : ScanFault}
    (h : tagStep tag cs = .error fault) : MeetsOffence (.tag tag) cs fault := by
  unfold tagStep at h
  split at h
  · cases h
  · cases h
  · rename_i c rest hclose hself
    split at h
    · cases h
    · rename_i hblank
      refine offence_attributeStep (by simpa using hblank) ?_ ?_ h
      · intro heq
        exact hclose heq
      · rintro heq hhead
        obtain ⟨after, rfl⟩ := List.head?_eq_some_iff.mp hhead
        exact hself after heq rfl
  · cases h

theorem lexeme_quotedStep {tag : String} {q : Char} {cs : List Char} (hne : cs ≠ []) :
    ReadsLexeme (.quoted tag q) cs (quotedStep tag q cs) := by
  unfold quotedStep
  cases hsplit : splitAtChar q cs with
  | some found =>
      obtain ⟨rfl, hfree⟩ := splitAtChar_eq_some hsplit
      exact ⟨found.1 ++ [q], by simp, .quoteEnd tag found.2 hfree⟩
  | none =>
      have htokens : valueTokens cs = [.attributeValue (String.ofList cs)] := by
        simp [valueTokens, hne]
      refine ⟨cs, (List.append_nil cs).symm, ?_⟩
      dsimp only
      rw [htokens]
      exact .piece tag hne (splitAtChar_eq_none hsplit)

theorem lexeme_of_step {place : Place} {cs : List Char} {s : ScanStep} (hne : cs ≠ [])
    (h : step place cs = .ok s) : ReadsLexeme place cs s := by
  cases place with
  | content => exact lexeme_contentStep hne h
  | tag name => exact lexeme_tagStep hne h
  | quoted name q =>
      cases h
      exact lexeme_quotedStep hne

theorem offence_of_step {place : Place} {cs : List Char} {fault : ScanFault}
    (h : step place cs = .error fault) : MeetsOffence place cs fault := by
  cases place with
  | content => exact offence_contentStep h
  | tag name => exact offence_tagStep h
  | quoted name q => cases h

end Scan

end LiveMarkup
