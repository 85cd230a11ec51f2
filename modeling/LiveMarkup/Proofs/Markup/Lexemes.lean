import LiveMarkup.Markup.Scan

/-!
# Lexemes and offences

What can stand at a place, one rule for each lexeme, and what cannot, one rule
for each offence. A rule says what is read, what may come behind it in the same
segment, which tokens it makes and at which place it ends; how the scanner finds
it is not in it.
-/

namespace LiveMarkup

/-- The tag that a place lies in. -/
def Place.tag? : Place → Option String
  | content => none
  | tag name | quoted name _ => some name

namespace Scan

/-! ## Names -/

/-- The name of an element, as a start tag can write it. -/
structure TagName (name : List Char) : Prop where
  nonempty : name ≠ []
  chars : ∀ c ∈ name, isElementNameChar c = true

theorem TagName.close_notMem {name : List Char} (h : TagName name) : '>' ∉ name := by
  intro hmem
  have hchar := h.chars '>' hmem
  cases hchar

/-- The name of an element, as a start tag and an end tag can both write it. -/
structure ElementName (name : List Char) : Prop where
  nonempty : name ≠ []
  chars : ∀ c ∈ name, isElementNameChar c = true
  noComment : ¬ ['!', '-', '-'] <+: name
  head : ∀ c ∈ name.head?, isWhiteSpace c = false
  last : ∀ c ∈ name.getLast?, isWhiteSpace c = false

theorem ElementName.tagName {name : List Char} (h : ElementName name) : TagName name :=
  ⟨h.nonempty, h.chars⟩

/-- The name of an attribute. -/
structure AttributeName (name : List Char) : Prop where
  nonempty : name ≠ []
  chars : ∀ c ∈ name, isAttributeNameChar c = true

theorem AttributeName.head {word : List Char} (hword : AttributeName word) :
    ∃ c more, word = c :: more ∧ isTagBlank c = false ∧ c ≠ '>' ∧ c ≠ '/' ∧ c ≠ '=' := by
  obtain ⟨c, more, rfl⟩ := List.exists_cons_of_ne_nil hword.nonempty
  have hc := hword.chars c List.mem_cons_self
  simp only [isAttributeNameChar, Bool.not_eq_true', Bool.or_eq_false_iff,
    beq_eq_false_iff_ne] at hc
  obtain ⟨⟨⟨hblank, hequals⟩, hclose⟩, hslash⟩ := hc
  exact ⟨c, more, rfl, hblank, hclose, hslash, hequals⟩

/-! ## Rules -/

/-- Blanks of a tag, any number of them. -/
def Blanks (cs : List Char) : Prop :=
  ∀ c ∈ cs, isTagBlank c = true

/-- No character of a class stands at the front. -/
def Ends (p : Char → Bool) (cs : List Char) : Prop :=
  ∀ c ∈ cs.head?, p c = false

/-- An equals sign with any blanks around it. -/
def EqualsSign (cs : List Char) : Prop :=
  ∃ before after, Blanks before ∧ Blanks after ∧ cs = before ++ '=' :: after

/-- At the front stands a comment that is whole. -/
def StartsComment (cs : List Char) : Prop :=
  ∃ body after, cs = ['<', '!', '-', '-'] ++ body ++ ['-', '-', '>'] ++ after

/-- At the front stands an end tag that is whole. -/
def StartsEndTag (cs : List Char) : Prop :=
  ∃ name after, name ≠ [] ∧ '>' ∉ name ∧ cs = ['<', '/'] ++ name ++ ['>'] ++ after

/-- At the front stands an equals sign, perhaps behind blanks. -/
def StartsEquals (cs : List Char) : Prop :=
  ∃ sign after, EqualsSign sign ∧ cs = sign ++ after

/-- At a place these characters are a lexeme if this is the rest of their segment; the
tokens that it makes, and the place behind it. -/
inductive Lexes : Place → List Char → List Char → List Token → Place → Prop
  /-- Text goes on to the next angle bracket. -/
  | text {data rest : List Char} (hne : data ≠ []) (hfree : '<' ∉ data)
      (hends : Ends (· != '<') rest) :
      Lexes .content data rest [.text (String.ofList data)] .content
  /-- A comment ends where it first can. -/
  | comment {body : List Char} (rest : List Char) (hfree : ¬ ['-', '-', '>'] <:+: body) :
      Lexes .content (['<', '!', '-', '-'] ++ body ++ ['-', '-', '>']) rest
        [.comment (String.ofList body)] .content
  | endTag {name : List Char} (rest : List Char) (hne : name ≠ []) (hfree : '>' ∉ name) :
      Lexes .content (['<', '/'] ++ name ++ ['>']) rest
        [.elementEnd (String.ofList (trimWhiteSpace name))] .content
  | startTag {blanks name rest : List Char} (hblanks : Blanks blanks) (hname : TagName name)
      (hends : Ends isElementNameChar rest)
      (hcomment : ¬ StartsComment ('<' :: blanks ++ name ++ rest)) :
      Lexes .content ('<' :: blanks ++ name) rest [.startOpen (String.ofList name)]
        (.tag (String.ofList name))
  | blanks {cs rest : List Char} (tag : String) (hne : cs ≠ []) (hblanks : Blanks cs)
      (hends : Ends isTagBlank rest) :
      Lexes (.tag tag) cs rest [] (.tag tag)
  | startClose (tag : String) (rest : List Char) :
      Lexes (.tag tag) ['>'] rest [.startClose tag] .content
  | selfClose (tag : String) (rest : List Char) :
      Lexes (.tag tag) ['/', '>'] rest [.elementEnd tag] .content
  /-- An attribute without a value. -/
  | bare {word rest : List Char} (tag : String) (hword : AttributeName word)
      (hends : Ends isAttributeNameChar rest) (hequals : ¬ StartsEquals rest) :
      Lexes (.tag tag) word rest [.attributeName (String.ofList word)] (.tag tag)
  /-- An attribute whose value is left to the placeholder behind the segment. -/
  | deferred {word sign : List Char} (tag : String) (hword : AttributeName word)
      (hsign : EqualsSign sign) :
      Lexes (.tag tag) (word ++ sign) [] [.attributeName (String.ofList word)] (.tag tag)
  | unquoted {word sign value rest : List Char} (tag : String) (hword : AttributeName word)
      (hsign : EqualsSign sign) (hne : value ≠ [])
      (hvalue : ∀ c ∈ value, isBareValueChar c = true) (hends : Ends isBareValueChar rest) :
      Lexes (.tag tag) (word ++ sign ++ value) rest
        [.attributeName (String.ofList word), .attributeValue (String.ofList value)] (.tag tag)
  | closed {word sign text : List Char} {q : Char} (tag : String) (rest : List Char)
      (hword : AttributeName word) (hsign : EqualsSign sign) (hq : q = '"' ∨ q = '\'')
      (hfree : q ∉ text) :
      Lexes (.tag tag) (word ++ sign ++ q :: text ++ [q]) rest
        [.attributeName (String.ofList word), .attributeValue (String.ofList text)] (.tag tag)
  /-- A value that goes on in the next segment. -/
  | opened {word sign text : List Char} {q : Char} (tag : String) (hword : AttributeName word)
      (hsign : EqualsSign sign) (hq : q = '"' ∨ q = '\'') (hfree : q ∉ text) :
      Lexes (.tag tag) (word ++ sign ++ q :: text) []
        (.attributeName (String.ofList word) :: valueTokens text) (.quoted tag q)
  /-- The last piece of a value that an earlier segment began. -/
  | quoteEnd {text : List Char} {q : Char} (tag : String) (rest : List Char)
      (hfree : q ∉ text) :
      Lexes (.quoted tag q) (text ++ [q]) rest (valueTokens text) (.tag tag)
  /-- A piece of a value between two boundaries. -/
  | piece {text : List Char} {q : Char} (tag : String) (hne : text ≠ []) (hfree : q ∉ text) :
      Lexes (.quoted tag q) text [] [.attributeValue (String.ofList text)] (.quoted tag q)

/-- At a place these characters lead to something that cannot stand behind them, and what
is wrong there. -/
inductive Offends : Place → List Char → List Char → (Nat → Nat → MarkupError) → Prop
  /-- An equals sign where the name of an attribute is expected. -/
  | equals (tag : String) (more : List Char) :
      Offends (.tag tag) [] ('=' :: more) .syntaxError
  /-- A slash that does not end its tag. -/
  | slash {more : List Char} (tag : String) (hmore : more.head? ≠ some '>') :
      Offends (.tag tag) [] ('/' :: more) .syntaxError
  /-- The end of the tag where a value is expected. -/
  | noValue {word sign : List Char} (tag : String) (more : List Char)
      (hword : AttributeName word) (hsign : EqualsSign sign) :
      Offends (.tag tag) (word ++ sign) ('>' :: more) .syntaxError
  /-- A tag without a name. -/
  | noName {blanks rest : List Char} (hblanks : Blanks blanks)
      (hcomment : ¬ StartsComment ('<' :: blanks ++ rest))
      (hend : ¬ StartsEndTag ('<' :: blanks ++ rest))
      (hrest : rest = [] ∨ rest.head? = some '/' ∨ rest.head? = some '>') :
      Offends .content ('<' :: blanks) rest .missingElementName

/-! ## What a lexeme reads -/

theorem Lexes.ne_nil {place next : Place} {cs rest : List Char} {ts : List Token}
    (h : Lexes place cs rest ts next) : cs ≠ [] := by
  have hword : ∀ {word : List Char} (more : List Char), AttributeName word → word ++ more ≠ [] :=
    fun more hword hnil => hword.nonempty (List.append_eq_nil_iff.mp hnil).1
  cases h with
  | text hne | piece tag hne | blanks tag hne => exact hne
  | bare tag hname => exact hname.nonempty
  | comment | endTag | startTag | startClose | selfClose | quoteEnd | closed | opened => simp
  | deferred tag hname => exact hword _ hname
  | unquoted tag hname =>
      rw [List.append_assoc]
      exact hword _ hname

theorem trimWhiteSpace_isPrefix (cs : List Char) :
    trimWhiteSpace cs <+: cs.dropWhile isWhiteSpace := by
  rw [← List.reverse_suffix, trimWhiteSpace, List.reverse_reverse]
  exact List.dropWhile_suffix _

theorem trimWhiteSpace_isInfix (cs : List Char) : trimWhiteSpace cs <:+: cs :=
  (trimWhiteSpace_isPrefix cs).isInfix.trans (List.dropWhile_suffix _).isInfix

theorem eq_of_mem_valueTokens {text : List Char} {t : Token} (ht : t ∈ valueTokens text) :
    t = .attributeValue (String.ofList text) := by
  unfold valueTokens at ht
  split at ht
  · cases ht
  · exact List.mem_singleton.mp ht

theorem Lexes.slices {place next : Place} {cs rest : List Char} {ts : List Token}
    (h : Lexes place cs rest ts next) :
    ∀ t ∈ ts, t.value.toList <:+: cs ∨ place.tag? = some t.value := by
  have hpiece : ∀ (t : Token) {data more : List Char}, t.value = String.ofList data →
      data <:+: more → t.value.toList <:+: more ∨ place.tag? = some t.value := by
    intro t data more hvalue hinfix
    rw [hvalue, String.toList_ofList]
    exact Or.inl hinfix
  cases h with
  | text => exact List.forall_mem_singleton.mpr (hpiece _ rfl List.infix_rfl)
  | comment => exact List.forall_mem_singleton.mpr (hpiece _ rfl (List.infix_append _ _ _))
  | endTag =>
      exact List.forall_mem_singleton.mpr
        (hpiece _ rfl ((trimWhiteSpace_isInfix _).trans (List.infix_append _ _ _)))
  | startTag =>
      exact List.forall_mem_singleton.mpr (hpiece _ rfl (List.suffix_append _ _).isInfix)
  | blanks => exact nofun
  | startClose | selfClose => exact List.forall_mem_singleton.mpr (Or.inr rfl)
  | bare => exact List.forall_mem_singleton.mpr (hpiece _ rfl List.infix_rfl)
  | deferred =>
      exact List.forall_mem_singleton.mpr (hpiece _ rfl (List.prefix_append _ _).isInfix)
  | @unquoted word sign value =>
      refine List.forall_mem_cons.mpr ⟨hpiece _ rfl ⟨[], sign ++ value, by simp⟩, ?_⟩
      exact List.forall_mem_singleton.mpr (hpiece _ rfl (List.suffix_append _ _).isInfix)
  | @closed word sign text q =>
      refine List.forall_mem_cons.mpr
        ⟨hpiece _ rfl ⟨[], sign ++ q :: text ++ [q], by simp⟩, ?_⟩
      exact List.forall_mem_singleton.mpr (hpiece _ rfl ⟨word ++ sign ++ [q], [q], by simp⟩)
  | @opened word sign text q =>
      refine List.forall_mem_cons.mpr ⟨hpiece _ rfl ⟨[], sign ++ q :: text, by simp⟩, ?_⟩
      intro t ht
      rw [eq_of_mem_valueTokens ht]
      exact hpiece _ rfl ⟨word ++ sign ++ [q], [], by simp⟩
  | quoteEnd =>
      intro t ht
      rw [eq_of_mem_valueTokens ht]
      exact hpiece _ rfl (List.prefix_append _ _).isInfix
  | piece => exact List.forall_mem_singleton.mpr (hpiece _ rfl List.infix_rfl)

end Scan

end LiveMarkup
