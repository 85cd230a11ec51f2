import LiveMarkup.Proofs.Template.Serialization

/-!
# The outline of markup

What is left of tokens without texts and without the values of attributes: the
elements, the names of attributes, the comments, and how they are nested. The
markup of a forest is read as tokens with the outline of the forest, whatever
its texts and its values are: both are escaped, so that a text ends where the
next tag or comment begins and a value ends at its own quote.
-/

namespace LiveMarkup

open Scan

/-! ## Outlines -/

namespace Token

/-- What an outline keeps of a token: nothing of a text, and no value of an attribute. -/
def outlined : Token → Option Token
  | text _ => none
  | attributeValue _ => some (attributeValue "")
  | t => some t

/-- The outline of tokens. -/
def outline (ts : List Token) : List Token :=
  ts.filterMap outlined

example : outline [.startOpen "p", .attributeName "a", .attributeValue "x", .startClose "p",
    .text "y", .elementEnd "p"] =
      [.startOpen "p", .attributeName "a", .attributeValue "", .startClose "p",
        .elementEnd "p"] := by rfl

/-- The outline of attributes with values. -/
def ofNames (names : List String) : List Token :=
  names.flatMap fun name => [attributeName name, attributeValue ""]

theorem outline_escaped (as : Attributes) :
    outline (Attribute.tokensAll as.escaped) = ofNames as.keys := by
  induction as with
  | nil => rfl
  | cons a as ih =>
      have hnames : ofNames (Attributes.keys (a :: as)) =
          [.attributeName a.1, .attributeValue ""] ++ ofNames (Attributes.keys as) := rfl
      rw [hnames, ← ih]
      rfl

theorem outline_startTag (tag : String) (as : Attributes) (ts : List Token) :
    outline (.startOpen tag :: (Attribute.tokensAll as.escaped ++ .startClose tag :: ts)) =
      .startOpen tag :: (ofNames as.keys ++ .startClose tag :: outline ts) := by
  rw [← outline_escaped]
  simp [outline, outlined]

end Token

namespace Tree

/-- The outline of a forest that markup can write: names can be written, and no comment ends
early. -/
inductive Outlines : List Tree → List Token → Prop
  | nil : Outlines [] []
  | text {as : Attributes} {under rest : List Tree} {ts : List Token} (data : String)
      (hrest : Outlines rest ts) : Outlines (node (.text data) as under :: rest) ts
  | comment {as : Attributes} {under rest : List Tree} {ts : List Token} {data : String}
      (hend : ¬ ['-', '-', '>'] <:+: data.toList) (hrest : Outlines rest ts) :
      Outlines (node (.comment data) as under :: rest) (.comment data :: ts)
  /-- A void element is its start tag. -/
  | void {tag : String} {as : Attributes} {under rest : List Tree} {ts : List Token}
      (hvoid : isVoidElement tag = true) (htag : TagName tag.toList)
      (hcomment : ¬ ['!', '-', '-'] <+: tag.toList) (has : ∀ a ∈ as, AttributeName a.1.toList)
      (hrest : Outlines rest ts) :
      Outlines (node (.element tag) as under :: rest)
        (.startOpen tag :: (Token.ofNames as.keys ++ .startClose tag :: ts))
  /-- An end tag is read without the white space around its name. -/
  | element {tag : String} {as : Attributes} {under rest : List Tree} {us ts : List Token}
      (hvoid : isVoidElement tag = false) (htag : TagName tag.toList)
      (hcomment : ¬ ['!', '-', '-'] <+: tag.toList) (has : ∀ a ∈ as, AttributeName a.1.toList)
      (hunder : Outlines under us) (hrest : Outlines rest ts) :
      Outlines (node (.element tag) as under :: rest)
        (.startOpen tag :: (Token.ofNames as.keys ++ .startClose tag ::
          (us ++ .elementEnd (String.ofList (trimWhiteSpace tag.toList)) :: ts)))

end Tree

/-! ## Reading outlines -/

/-- Marks that are read as tokens with an outline, also behind text: what stands before them
may be added to a text with which they begin. -/
def ReadsAs (marks : List (Option Char)) (outline : List Token) : Prop :=
  ∀ cs : List Char, '<' ∉ cs →
    ∃ ts, Scans .content (verbatim cs ++ marks) ts .content ∧ Token.outline ts = outline

namespace ReadsAs

variable {marks : List (Option Char)} {outline ts : List Token}

theorem of_scans (h : Scans .content marks ts .content) (hstops : Stops marks) :
    ReadsAs marks (Token.outline ts) := by
  intro cs hcs
  by_cases hnil : cs = []
  · subst hnil
    exact ⟨ts, h, rfl⟩
  · exact ⟨_, scans_text hnil hcs hstops h, rfl⟩

theorem scans (h : ReadsAs marks outline) :
    ∃ ts, Scans .content marks ts .content ∧ Token.outline ts = outline :=
  h [] List.not_mem_nil

theorem nil : ReadsAs [] [] := by
  refine of_scans (Scans.nil .content) ?_
  intro c hc
  cases hc

theorem text (h : ReadsAs marks outline) {cs : List Char} (hcs : '<' ∉ cs) :
    ReadsAs (verbatim cs ++ marks) outline := by
  intro before hbefore
  obtain ⟨ts, hscans, houtline⟩ := h (before ++ cs) fun hmem =>
    (List.mem_append.mp hmem).elim hbefore hcs
  rw [verbatim_append, List.append_assoc] at hscans
  exact ⟨ts, hscans, houtline⟩

theorem comment (h : ReadsAs marks outline) {data : String}
    (hend : ¬ ['-', '-', '>'] <:+: data.toList) :
    ReadsAs (verbatim (['<', '!', '-', '-'] ++ data.toList ++ ['-', '-', '>']) ++ marks)
      (.comment data :: outline) := by
  obtain ⟨ts, hscans, rfl⟩ := h.scans
  have hcomment := scans_comment hend hscans
  rw [String.ofList_toList] at hcomment
  refine of_scans hcomment ?_
  intro c hc
  cases hc
  rfl

theorem startTag (h : ReadsAs marks outline) {tag : String} (htag : TagName tag.toList)
    (hcomment : ¬ ['!', '-', '-'] <+: tag.toList) {as : Attributes}
    (has : ∀ a ∈ as, AttributeName a.1.toList) :
    ReadsAs (verbatim ('<' :: tag.toList) ++ (verbatim as.markup.toList ++
        (verbatim ['>'] ++ marks)))
      (.startOpen tag :: (Token.ofNames as.keys ++ .startClose tag :: outline)) := by
  obtain ⟨ts, hscans, rfl⟩ := h.scans
  rw [← Token.outline_startTag]
  refine of_scans (scans_startTag htag hcomment (spells_markup as)
    (Tree.wellFormed_escaped has) hscans) ?_
  intro c hc
  cases hc
  rfl

theorem endTag (h : ReadsAs marks outline) {tag : String} (htag : TagName tag.toList) :
    ReadsAs (verbatim ('<' :: '/' :: tag.toList ++ ['>']) ++ marks)
      (.elementEnd (String.ofList (trimWhiteSpace tag.toList)) :: outline) := by
  obtain ⟨ts, hscans, rfl⟩ := h.scans
  refine of_scans (scans_endTag htag hscans) ?_
  intro c hc
  cases hc
  rfl

end ReadsAs

namespace Tree

theorem Outlines.reads {forest : List Tree} {ts : List Token} (h : Outlines forest ts)
    {tail : List (Option Char)} {more : List Token} (htail : ReadsAs tail more) :
    ReadsAs (verbatim (htmlAll forest).toList ++ tail) (ts ++ more) := by
  induction h generalizing tail more with
  | nil => exact htail
  | text data _ ih =>
      have hread := (ih htail).text (Entity.lt_notMem_encodeText data)
      simpa [htmlAll, html, verbatim_append] using hread
  | comment hend _ ih =>
      have hread := (ih htail).comment hend
      simpa [htmlAll, html, verbatim] using hread
  | void hvoid htag hcomment has _ ih =>
      have hread := (ih htail).startTag htag hcomment has
      simpa [htmlAll, html, hvoid, verbatim] using hread
  | element hvoid htag hcomment has _ _ ihUnder ihRest =>
      have hread := (ihUnder ((ihRest htail).endTag htag)).startTag htag hcomment has
      simpa [htmlAll, html, hvoid, verbatim] using hread

/-- The markup of a forest is one segment with the outline of the forest. -/
theorem Outlines.ofSegments {forest : List Tree} {ts : List Token} (h : Outlines forest ts) :
    ∃ tokens, Token.ofSegments [htmlAll forest] = .ok tokens ∧ Token.outline tokens = ts := by
  obtain ⟨tokens, hscans, houtline⟩ := (h.reads .nil).scans
  have hsegments := hscans 0
  rw [List.append_nil, segmentsOf_verbatim, String.ofList_toList] at hsegments
  refine ⟨tokens, ?_, by simpa using houtline⟩
  rw [Token.ofSegments, hsegments]
  rfl

end Tree

end LiveMarkup
