import LiveMarkup.Markup.Error
import LiveMarkup.Markup.Token
import LiveMarkup.Text.Blank

/-!
# Tokens of segments

Markup arrives as segments with a placeholder at every boundary. Where a
segment ends, the next one goes on: in content, inside a tag, or inside a
quoted attribute value. One step reads the longest token that can stand at the
current place; every step leaves a shorter rest (`step_length_lt`), so scanning
ends.
-/

namespace LiveMarkup

/-- Where the scanner stands. -/
inductive Place where
  /-- Outside of tags. -/
  | content
  /-- Inside the tag of a named element. -/
  | tag (name : String)
  /-- Inside an attribute value of that tag, up to a quote character. -/
  | quoted (name : String) (delimiter : Char)
deriving DecidableEq, Repr

/-- A place where scanning cannot go on; `rest` is what was not read. -/
inductive ScanFault where
  | syntaxError (rest : List Char)
  | missingElementName (rest : List Char)
deriving DecidableEq, Repr

/-- What one step reads. -/
structure ScanStep where
  tokens : List Token
  place : Place
  rest : List Char

namespace Scan

/-! ## Character classes -/

def isElementNameChar (c : Char) : Bool :=
  !(isTagBlank c || c == '/' || c == '>')

def isAttributeNameChar (c : Char) : Bool :=
  !(isTagBlank c || c == '=' || c == '>' || c == '/')

/-- Characters of an attribute value without quotes. -/
def isBareValueChar (c : Char) : Bool :=
  !(isTagBlank c || c == '>' || c == '"' || c == '\'')

/-! ## Lexemes -/

/-- Splits at the first end of a comment. -/
def splitCommentEnd : List Char → Option (List Char × List Char)
  | [] => none
  | '-' :: '-' :: '>' :: rest => some ([], rest)
  | c :: rest => (splitCommentEnd rest).map fun (body, after) => (c :: body, after)

/-- A whole comment: its body and what follows. -/
def comment? : List Char → Option (List Char × List Char)
  | '<' :: '!' :: '-' :: '-' :: rest => splitCommentEnd rest
  | _ => none

/-- A whole end tag: what stands before its `>`, at least one character, and
what follows. -/
def endTag? : List Char → Option (List Char × List Char)
  | '<' :: '/' :: rest =>
      match rest.takeWhile (· != '>'), rest.dropWhile (· != '>') with
      | c :: name, '>' :: after => some (c :: name, after)
      | _, _ => none
  | _ => none

/-- An equals sign with blanks around it: what follows. -/
def assign? (cs : List Char) : Option (List Char) :=
  match cs.dropWhile isTagBlank with
  | '=' :: rest => some (rest.dropWhile isTagBlank)
  | _ => none

/-- Splits at the first occurrence of a character, which is dropped. -/
def splitAtChar (d : Char) (cs : List Char) : Option (List Char × List Char) :=
  match cs.dropWhile (· != d) with
  | [] => none
  | _ :: after => some (cs.takeWhile (· != d), after)

/-- A value token, unless there is nothing in it. -/
def valueTokens (cs : List Char) : List Token :=
  if cs.isEmpty then [] else [.attributeValue (String.ofList cs)]

/-! ## Steps -/

/-- The beginning of a tag, after its `<`. -/
def tagStart (cs : List Char) : Except ScanFault ScanStep :=
  let cs := cs.dropWhile isTagBlank
  let name := cs.takeWhile isElementNameChar
  if name.isEmpty then .error (.missingElementName cs)
  else
    let name := String.ofList name
    .ok ⟨[.startOpen name], .tag name, cs.dropWhile isElementNameChar⟩

/-- A step in content: a comment, an end tag, the beginning of a tag, or text
up to the next `<`. -/
def contentStep (cs : List Char) : Except ScanFault ScanStep :=
  match comment? cs with
  | some (body, rest) => .ok ⟨[.comment (String.ofList body)], .content, rest⟩
  | none =>
      match endTag? cs with
      | some (name, rest) =>
          .ok ⟨[.elementEnd (String.ofList (trimWhiteSpace name))], .content, rest⟩
      | none =>
          match cs with
          | '<' :: rest => tagStart rest
          | _ =>
              .ok ⟨[.text (String.ofList (cs.takeWhile (· != '<')))], .content,
                cs.dropWhile (· != '<')⟩

/-- The value after an equals sign. At the end of a segment the placeholder
there supplies it; a quoted value that does not end in its segment goes on in
the next. -/
def valueStep (name : String) (cs : List Char) :
    Except ScanFault (List Token × Place × List Char) :=
  match cs with
  | [] => .ok ([], .tag name, [])
  | c :: rest =>
      if c = '"' ∨ c = '\'' then
        match splitAtChar c rest with
        | some (value, after) =>
            .ok ([.attributeValue (String.ofList value)], .tag name, after)
        | none => .ok (valueTokens rest, .quoted name c, [])
      else if isBareValueChar c then
        .ok ([.attributeValue (String.ofList (cs.takeWhile isBareValueChar))],
          .tag name, cs.dropWhile isBareValueChar)
      else .error (.syntaxError cs)

/-- An attribute's name and, after an equals sign, its value. -/
def attributeStep (name : String) (cs : List Char) : Except ScanFault ScanStep :=
  let word := cs.takeWhile isAttributeNameChar
  let rest := cs.dropWhile isAttributeNameChar
  if word.isEmpty then .error (.syntaxError cs)
  else
    let token := Token.attributeName (String.ofList word)
    match assign? rest with
    | none => .ok ⟨[token], .tag name, rest⟩
    | some after => do
        let (tokens, place, rest) ← valueStep name after
        return ⟨token :: tokens, place, rest⟩

/-- A step inside a tag: blanks, the end of the tag, or an attribute. -/
def tagStep (name : String) (cs : List Char) : Except ScanFault ScanStep :=
  match cs with
  | '>' :: rest => .ok ⟨[.startClose name], .content, rest⟩
  | '/' :: '>' :: rest => .ok ⟨[.elementEnd name], .content, rest⟩
  | c :: rest =>
      if isTagBlank c then .ok ⟨[], .tag name, rest.dropWhile isTagBlank⟩
      else attributeStep name (c :: rest)
  | [] => .ok ⟨[], .tag name, []⟩

/-- A step inside a quoted value that an earlier segment began. -/
def quotedStep (name : String) (delimiter : Char) (cs : List Char) : ScanStep :=
  match splitAtChar delimiter cs with
  | some (value, rest) => ⟨valueTokens value, .tag name, rest⟩
  | none => ⟨valueTokens cs, .quoted name delimiter, []⟩

/-- The step at a place. -/
def step : Place → List Char → Except ScanFault ScanStep
  | .content, cs => contentStep cs
  | .tag name, cs => tagStep name cs
  | .quoted name delimiter, cs => .ok (quotedStep name delimiter cs)

/-! ## Every step reads something -/

theorem length_dropWhile_le (p : Char → Bool) (cs : List Char) :
    (cs.dropWhile p).length ≤ cs.length :=
  (List.dropWhile_sublist p).length_le

theorem length_dropWhile_lt {p : Char → Bool} {cs : List Char}
    (h : (cs.takeWhile p).isEmpty = false) :
    (cs.dropWhile p).length < cs.length := by
  have happend : cs.takeWhile p ++ cs.dropWhile p = cs :=
    List.takeWhile_append_dropWhile
  have hsplit := congrArg List.length happend
  rw [List.length_append] at hsplit
  have hpos : 0 < (cs.takeWhile p).length := by
    cases htake : cs.takeWhile p with
    | nil => simp [htake] at h
    | cons c rest => simp
  omega

theorem splitCommentEnd_length {cs body rest : List Char}
    (h : splitCommentEnd cs = some (body, rest)) : rest.length < cs.length := by
  fun_induction splitCommentEnd cs generalizing body with
  | case1 => simp at h
  | case2 after =>
      obtain ⟨-, rfl⟩ := Prod.mk.inj (Option.some.inj h)
      simp only [List.length_cons]
      omega
  | case3 c after _ ih =>
      obtain ⟨⟨body', rest'⟩, hrec, heq⟩ := Option.map_eq_some_iff.mp h
      obtain ⟨-, rfl⟩ := Prod.mk.inj heq
      exact Nat.lt_succ_of_lt (ih hrec)

theorem comment?_length {cs body rest : List Char}
    (h : comment? cs = some (body, rest)) : rest.length < cs.length := by
  unfold comment? at h
  split at h
  · have := splitCommentEnd_length h
    simp only [List.length_cons]
    omega
  · simp at h

theorem endTag?_length {cs name rest : List Char}
    (h : endTag? cs = some (name, rest)) : rest.length < cs.length := by
  unfold endTag? at h
  split at h
  · rename_i after
    split at h
    · rename_i hdrop
      obtain ⟨-, rfl⟩ := Prod.mk.inj (Option.some.inj h)
      have := length_dropWhile_le (· != '>') after
      rw [hdrop] at this
      simp only [List.length_cons] at this ⊢
      omega
    · simp at h
  · simp at h

theorem assign?_length {cs rest : List Char} (h : assign? cs = some rest) :
    rest.length < cs.length := by
  unfold assign? at h
  split at h
  · rename_i after hdrop
    obtain rfl := Option.some.inj h
    have hle := length_dropWhile_le isTagBlank cs
    have hle' := length_dropWhile_le isTagBlank after
    rw [hdrop] at hle
    simp only [List.length_cons] at hle
    omega
  · simp at h

theorem splitAtChar_length {d : Char} {cs value rest : List Char}
    (h : splitAtChar d cs = some (value, rest)) : rest.length < cs.length := by
  unfold splitAtChar at h
  split at h
  · simp at h
  · rename_i hdrop
    obtain ⟨-, rfl⟩ := Prod.mk.inj (Option.some.inj h)
    have hle := length_dropWhile_le (· != d) cs
    rw [hdrop] at hle
    simp only [List.length_cons] at hle
    omega

theorem tagStart_length {cs : List Char} {s : ScanStep}
    (h : tagStart cs = .ok s) : s.rest.length ≤ cs.length := by
  unfold tagStart at h
  simp only at h
  split at h
  · simp at h
  · obtain rfl := Except.ok.inj h
    exact Nat.le_trans (length_dropWhile_le _ _) (length_dropWhile_le _ _)

theorem contentStep_length {cs : List Char} {s : ScanStep} (hne : cs ≠ [])
    (h : contentStep cs = .ok s) : s.rest.length < cs.length := by
  unfold contentStep at h
  split at h
  · rename_i hc
    obtain rfl := Except.ok.inj h
    exact comment?_length hc
  · split at h
    · rename_i he
      obtain rfl := Except.ok.inj h
      exact endTag?_length he
    · split at h
      · exact Nat.lt_succ_of_le (tagStart_length h)
      · rename_i htext
        obtain rfl := Except.ok.inj h
        apply length_dropWhile_lt
        cases cs with
        | nil => exact absurd rfl hne
        | cons c rest =>
            have hc : c ≠ '<' := fun heq => htext rest (by rw [heq])
            simp [hc]

theorem valueStep_length {name : String} {cs rest : List Char}
    {tokens : List Token} {place : Place}
    (h : valueStep name cs = .ok (tokens, place, rest)) :
    rest.length ≤ cs.length := by
  unfold valueStep at h
  split at h
  · simp only [Except.ok.injEq, Prod.mk.injEq] at h
    simp [← h.2.2]
  · split at h
    · split at h
      · rename_i hsplit
        simp only [Except.ok.injEq, Prod.mk.injEq] at h
        have := splitAtChar_length hsplit
        rw [← h.2.2]
        simp only [List.length_cons]
        omega
      · simp only [Except.ok.injEq, Prod.mk.injEq] at h
        simp [← h.2.2]
    · split at h
      · simp only [Except.ok.injEq, Prod.mk.injEq] at h
        rw [← h.2.2]
        exact length_dropWhile_le _ _
      · simp at h

theorem attributeStep_length {name : String} {cs : List Char} {s : ScanStep}
    (h : attributeStep name cs = .ok s) : s.rest.length < cs.length := by
  unfold attributeStep at h
  simp only at h
  split at h
  · simp at h
  · rename_i hname
    have hlt : (cs.dropWhile isAttributeNameChar).length < cs.length :=
      length_dropWhile_lt (by simpa using hname)
    split at h
    · obtain rfl := Except.ok.inj h
      exact hlt
    · rename_i after hassign
      have hafter := assign?_length hassign
      cases hvalue : valueStep name after with
      | error fault => simp [hvalue, bind, Except.bind] at h
      | ok result =>
          obtain ⟨tokens, place, rest⟩ := result
          have hrest := valueStep_length hvalue
          rw [hvalue] at h
          obtain rfl := Except.ok.inj h
          simp only
          omega

theorem tagStep_length {name : String} {cs : List Char} {s : ScanStep}
    (hne : cs ≠ []) (h : tagStep name cs = .ok s) :
    s.rest.length < cs.length := by
  unfold tagStep at h
  split at h
  · obtain rfl := Except.ok.inj h
    simp
  · obtain rfl := Except.ok.inj h
    simp only [List.length_cons]
    omega
  · split at h
    · obtain rfl := Except.ok.inj h
      exact Nat.lt_succ_of_le (length_dropWhile_le _ _)
    · exact attributeStep_length h
  · exact absurd rfl hne

theorem quotedStep_length (name : String) (delimiter : Char) {cs : List Char}
    (hne : cs ≠ []) : (quotedStep name delimiter cs).rest.length < cs.length := by
  unfold quotedStep
  split
  · rename_i hsplit
    exact splitAtChar_length hsplit
  · exact List.length_pos_iff.mpr hne

/-- A step leaves less than it was given. -/
theorem step_length_lt {place : Place} {cs : List Char} {s : ScanStep}
    (hne : cs ≠ []) (h : step place cs = .ok s) : s.rest.length < cs.length := by
  cases place with
  | content => exact contentStep_length hne h
  | tag name => exact tagStep_length hne h
  | quoted name delimiter =>
      obtain rfl := Except.ok.inj h
      exact quotedStep_length name delimiter hne

/-! ## Whole segments -/

/-- The tokens of one segment, and the place at its end. -/
def segment (place : Place) (cs : List Char) :
    Except ScanFault (List Token × Place) :=
  if _hne : cs = [] then .ok ([], place)
  else
    match _hstep : step place cs with
    | .error fault => .error fault
    | .ok s =>
        match segment s.place s.rest with
        | .error fault => .error fault
        | .ok (tokens, last) => .ok (s.tokens ++ tokens, last)
termination_by cs.length
decreasing_by exact step_length_lt _hne _hstep

/-- How many bytes characters take in UTF-8. -/
def byteLength (cs : List Char) : Nat :=
  cs.foldr (fun c bytes => c.utf8Size + bytes) 0

/-- A fault as an error: the number of the segment and the byte offset of what
was not read. -/
def faultError (index : Nat) (cs : List Char) : ScanFault → MarkupError
  | .syntaxError rest => .syntaxError index (byteLength cs - byteLength rest)
  | .missingElementName rest =>
      .missingElementName index (byteLength cs - byteLength rest)

/-- The tokens of segments numbered from `index` on, with a placeholder at
every boundary, and the place at the end. -/
def segments (index : Nat) (place : Place) :
    List String → Except MarkupError (List Token × Place)
  | [] => .ok ([], place)
  | s :: rest =>
      match segment place s.toList with
      | .error fault => .error (faultError index s.toList fault)
      | .ok (tokens, next) =>
          match rest with
          | [] => .ok (tokens, next)
          | _ :: _ =>
              match segments (index + 1) next rest with
              | .error e => .error e
              | .ok (more, last) => .ok (tokens ++ .placeholder :: more, last)

end Scan

/-- The tokens of segments. Between two segments stands one placeholder. -/
def Token.ofSegments (segments : List String) : Except MarkupError (List Token) :=
  (Scan.segments 0 .content segments).map Prod.fst

end LiveMarkup
