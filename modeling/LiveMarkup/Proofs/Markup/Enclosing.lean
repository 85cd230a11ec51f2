import Mathlib.Data.List.ModifyLast
import LiveMarkup.Proofs.Markup.Tags

/-!
# Markup in an element

Whatever segments are read as, a start tag in front of them and an end tag
behind them make one element of it. The start tag is read before anything else;
the end tag is text to no lexeme of the last segment, since none of them reaches
into what follows unless it leaves the scan in a tag. What the end tag closes is
another matter: white space around its name is not part of the name.
-/

namespace LiveMarkup

/-- Segments in an element of this name. -/
def enclosed (name : String) (segments : List String) : List String :=
  (segments.modifyLast (· ++ ("</" ++ name ++ ">"))).modifyHead (("<" ++ name ++ ">") ++ ·)

example : enclosed "p" ["a", "b"] = ["<p>a", "b</p>"] := by decide

namespace Scan

/-! ## What follows a segment -/

/-- Characters that can be put behind a segment in content: they begin a tag and hold no end
of a comment. -/
structure Tails (tail : List Char) : Prop where
  head : ∃ rest, tail = '<' :: rest
  noCommentEnd : ¬ ['-', '-', '>'] <:+: tail

theorem Ends.append {p : Char → Bool} {rest : List Char} (h : Ends p rest) (hne : rest ≠ [])
    (tail : List Char) : Ends p (rest ++ tail) := by
  obtain ⟨c, more, rfl⟩ := List.exists_cons_of_ne_nil hne
  exact h

variable {tail : List Char}

theorem Tails.startsComment (h : Tails tail) {cs : List Char} (hne : cs ≠ [])
    (hcomment : StartsComment (cs ++ tail)) : StartsComment cs := by
  obtain ⟨body, after, heq⟩ := hcomment
  obtain ⟨rest, hrest⟩ := h.head
  have hbegin : ∃ more, cs = ['<', '!', '-', '-'] ++ more := by
    rw [hrest] at heq
    match cs, hne, heq with
    | [c], _, heq => simp at heq
    | [c, d], _, heq => simp at heq
    | [c, d, e], _, heq => simp at heq
    | c :: d :: e :: f :: more, _, heq =>
        simp only [List.cons_append, List.nil_append, List.cons.injEq] at heq
        obtain ⟨rfl, rfl, rfl, rfl, -⟩ := heq
        exact ⟨more, rfl⟩
  obtain ⟨more, rfl⟩ := hbegin
  have hends : ['-', '-', '>'] <:+: more ++ tail := by
    refine ⟨body, after, ?_⟩
    simpa using heq.symm
  rcases List.infix_append_iff.mp hends with
    ⟨before, after', hmore⟩ | hinside | ⟨l, m, hsplit, hl, hm⟩
  · exact ⟨before, after', by simp [← hmore]⟩
  · exact absurd hinside h.noCommentEnd
  · -- no part of the end of a comment begins a tag
    cases m with
    | nil =>
        rw [List.append_nil] at hsplit
        subst hsplit
        obtain ⟨before, hbefore⟩ := hl
        exact ⟨before, [], by simp [← hbefore]⟩
    | cons c m =>
        rw [hrest] at hm
        obtain ⟨rfl, -⟩ := List.cons_prefix_cons.mp hm
        have hmem : '<' ∈ ['-', '-', '>'] := by
          rw [hsplit]
          simp
        simp at hmem

theorem Tails.startsEquals (h : Tails tail) {cs : List Char}
    (hequals : StartsEquals (cs ++ tail)) : StartsEquals cs := by
  obtain ⟨sign, after, ⟨before, blanks, hbefore, hblanks, rfl⟩, heq⟩ := hequals
  obtain ⟨rest, rfl⟩ := h.head
  rw [List.append_assoc] at heq
  rcases List.append_eq_append_iff.mp heq with ⟨made, rfl, htail⟩ | ⟨made, rfl, hmade⟩
  · cases made with
    | nil => cases htail
    | cons c made =>
        obtain ⟨rfl, -⟩ := List.cons.inj htail
        have hblank := hbefore '<' (by simp)
        cases hblank
  · cases made with
    | nil => cases hmade
    | cons c made =>
        obtain ⟨rfl, -⟩ := List.cons.inj hmade
        refine ⟨before ++ ['='], made, ⟨before, [], hbefore, ?_, rfl⟩, by simp⟩
        intro c hc
        cases hc

/-- A lexeme reads the same with a tail behind its segment, unless the segment ends with it
in a tag. -/
theorem Lexes.before {place next : Place} {cs rest : List Char} {ts : List Token}
    (h : Lexes place cs rest ts next) (htail : Tails tail)
    (hrest : rest = [] → next = .content) : Lexes place cs (rest ++ tail) ts next := by
  have hne : next ≠ .content → rest ≠ [] := fun hnext hnil => hnext (hrest hnil)
  cases h with
  | text hdata hfree hends =>
      refine .text hdata hfree ?_
      by_cases hnil : rest = []
      · obtain ⟨more, rfl⟩ := htail.head
        subst hnil
        intro c hc
        cases hc
        rfl
      · exact hends.append hnil tail
  | comment _ hfree => exact .comment _ hfree
  | endTag _ hname hfree => exact .endTag _ hname hfree
  | startTag hblanks hname hends hcomment =>
      refine .startTag hblanks hname (hends.append (hne nofun) tail) ?_
      intro hstarts
      rw [← List.append_assoc] at hstarts
      exact hcomment (htail.startsComment (by simp) hstarts)
  | blanks tag hcs hblanks hends => exact .blanks tag hcs hblanks (hends.append (hne nofun) tail)
  | startClose tag => exact .startClose tag _
  | selfClose tag => exact .selfClose tag _
  | bare tag hword hends hequals =>
      exact .bare tag hword (hends.append (hne nofun) tail) (mt htail.startsEquals hequals)
  | deferred | opened | piece => exact absurd rfl (hne nofun)
  | unquoted tag hword hsign hvalue hchars hends =>
      exact .unquoted tag hword hsign hvalue hchars (hends.append (hne nofun) tail)
  | closed tag _ hword hsign hq hfree => exact .closed tag _ hword hsign hq hfree
  | quoteEnd tag _ hfree => exact .quoteEnd tag _ hfree

theorem segment_before {place : Place} {cs : List Char} {ts : List Token} (htail : Tails tail)
    (h : segment place cs = .ok (ts, .content)) :
    segment place (cs ++ tail) = behind ts (segment .content tail) := by
  fun_induction segment place cs generalizing ts with
  | case1 =>
      cases h
      show segment .content tail = _
      cases segment .content tail <;> rfl
  | case2 => cases h
  | case3 => cases h
  | case4 place cs hne s hstep more last hrest ih =>
      obtain ⟨rfl, rfl⟩ := Prod.mk.inj (Except.ok.inj h)
      obtain ⟨lexeme, rfl, hlexeme⟩ := lexeme_of_step hne hstep
      have hlast : s.rest = [] → s.place = .content := by
        intro hnil
        rw [hnil, segment_nil] at hrest
        exact (Prod.mk.inj (Except.ok.inj hrest)).2
      rw [List.append_assoc, segment_lexeme (hlexeme.before htail hlast), ih hrest,
        behind_append]

theorem segments_before {index : Nat} {place : Place} {init : List String} {s tail : String}
    {ts us : List Token} (htail : Tails tail.toList)
    (h : segments index place (init ++ [s]) = .ok (ts, .content))
    (hus : segment .content tail.toList = .ok (us, .content)) :
    segments index place (init ++ [s ++ tail]) = .ok (ts ++ us, .content) := by
  induction init generalizing index place ts with
  | nil =>
      rw [List.nil_append, segments_singleton_eq_ok] at h ⊢
      rw [String.toList_append, segment_before htail h, hus]
      rfl
  | cons first init ih =>
      rw [List.cons_append, segments_cons_eq_ok (by simp)] at h ⊢
      obtain ⟨own, next, more, hown, hmore, rfl⟩ := h
      refine ⟨own, next, more ++ us, hown, ih hmore, ?_⟩
      rw [List.append_assoc, List.cons_append]

/-! ## Tags around segments -/

theorem tails_endTag {name : List Char} (hdashes : ¬ ['-', '-'] <:+: name) :
    Tails ('<' :: '/' :: name ++ ['>']) := by
  refine ⟨⟨'/' :: name ++ ['>'], rfl⟩, ?_⟩
  intro hends
  have hpair : ['-', '-'] <:+: '<' :: '/' :: name := by
    rcases List.infix_concat_iff.mp hends with hlast | hinside
    · have hsplit : ['-', '-'] ++ ['>'] <:+ ('<' :: '/' :: name) ++ ['>'] := hlast
      exact ((List.suffix_append_inj_of_length_eq rfl).mp hsplit).1.isInfix
    · exact List.IsInfix.trans ⟨[], ['>'], rfl⟩ hinside
  rcases List.infix_cons_iff.mp hpair with hfirst | hpair
  · obtain ⟨hc, -⟩ := List.cons_prefix_cons.mp hfirst
    cases hc
  · rcases List.infix_cons_iff.mp hpair with hfirst | hpair
    · obtain ⟨hc, -⟩ := List.cons_prefix_cons.mp hfirst
      cases hc
    · exact hdashes hpair

theorem segment_endTag {name : List Char} (hname : TagName name) :
    segment .content ('<' :: '/' :: name ++ ['>']) =
      .ok ([.elementEnd (String.ofList (trimWhiteSpace name))], .content) := by
  have hlexes := Lexes.endTag [] hname.nonempty hname.close_notMem
  have hsegment := segment_lexeme hlexes
  rw [segment_nil, List.append_nil] at hsegment
  exact hsegment

theorem resume_ok {index : Nat} {place : Place} {whole rest : List Char} {later : List String}
    {r : List Token × Place} (h : resume index place whole rest later = .ok r)
    (other : List Char) : resume index place other rest later = .ok r := by
  unfold resume at h ⊢
  cases hs : segment place rest with
  | error fault =>
      rw [hs] at h
      cases h
  | ok found =>
      rw [hs] at h
      exact h

theorem segments_startTag {name : String} {segments : List String} {ts : List Token}
    {last : Place} (hname : TagName name.toList) (hcomment : ¬ ['!', '-', '-'] <+: name.toList)
    (hne : segments ≠ []) (h : Scan.segments 0 .content segments = .ok (ts, last)) :
    Scan.segments 0 .content (segments.modifyHead (("<" ++ name ++ ">") ++ ·)) =
      .ok (.startOpen name :: .startClose name :: ts, last) := by
  obtain ⟨first, later, rfl⟩ := List.exists_cons_of_ne_nil hne
  have hstart : Lexes .content ('<' :: [] ++ name.toList) (['>'] ++ first.toList)
      [.startOpen (String.ofList name.toList)] (.tag (String.ofList name.toList)) := by
    refine .startTag ?_ hname ?_ ?_
    · intro c hc
      cases hc
    · intro c hc
      cases hc
      rfl
    · rw [← comment?_eq_none_iff]
      refine comment?_startTag hname.nonempty hcomment ?_
      intro c hc
      cases hc
      exact Or.inr rfl
  rw [String.ofList_toList] at hstart
  have hclose := Lexes.startClose name first.toList
  have hrow : ("<" ++ name ++ ">" ++ first).toList =
      ('<' :: [] ++ name.toList) ++ (['>'] ++ first.toList) := by
    simp [String.toList_append]
  rw [List.modifyHead_cons]
  rw [segments_eq_resume] at h ⊢
  rw [hrow, resume_lexeme hstart, resume_lexeme hclose, resume_ok h]
  rfl

end Scan

/-- What an end tag with this name is taken to close. -/
def closingName (name : String) : String :=
  String.ofList (trimWhiteSpace name.toList)

/-- The tokens of an element around segments. -/
theorem Token.ofSegments_enclosed {name : String} {segments : List String} {ts : List Token}
    (hne : segments ≠ []) (h : Scan.segments 0 .content segments = .ok (ts, .content))
    (hname : Scan.TagName name.toList) (hcomment : ¬ ['!', '-', '-'] <+: name.toList)
    (hdashes : ¬ ['-', '-'] <:+: name.toList) :
    ofSegments (enclosed name segments) =
      .ok (.startOpen name :: .startClose name :: ts ++ [.elementEnd (closingName name)]) := by
  obtain rfl | ⟨init, s, rfl⟩ := List.eq_nil_or_concat segments
  · exact absurd rfl hne
  rw [List.concat_eq_append] at h ⊢
  have hend : ("</" ++ name ++ ">").toList = '<' :: '/' :: name.toList ++ ['>'] := by
    simp [String.toList_append]
  have htail := Scan.tails_endTag hdashes
  have hus := Scan.segment_endTag hname
  rw [← hend] at htail hus
  have hbody := Scan.segments_before htail h hus
  have hscan := Scan.segments_startTag hname hcomment (by simp) hbody
  rw [enclosed, List.modifyLast_concat, ofSegments_eq_ok]
  exact ⟨.content, hscan⟩

namespace Nesting

theorem solid_singleton {e : OpenElement} (hvoid : isVoidElement e.name = false) :
    Solid [e] := by
  intro e' he'
  rw [List.mem_singleton.mp he']
  exact hvoid

theorem read_inside {name : String} {ts : List Token} {ns : List Node}
    (hvoid : isVoidElement name = false) (h : WritesNodes ts ns) :
    empty.read (.startOpen name :: .startClose name :: ts) =
      .ok (between [] [⟨name, [], ns⟩]) := by
  have hsolid : Solid [⟨name, [], []⟩] := solid_singleton hvoid
  have hopen : empty.step (.startOpen name) = .ok (inTag [] [] name [] false) := rfl
  rw [read_cons _ hopen, read_cons _ (step_startClose hvoid [] false name),
    read_nodes [] hsolid h, pushAll_open]
  rfl

end Nesting

/-- No white space stands at either end. -/
def Trimmed (cs : List Char) : Prop :=
  (∀ c ∈ cs.head?, isWhiteSpace c = false) ∧ ∀ c ∈ cs.getLast?, isWhiteSpace c = false

/-- White space at either end is what is removed. -/
theorem trimWhiteSpace_eq_self_iff {cs : List Char} :
    trimWhiteSpace cs = cs ↔ Trimmed cs := by
  constructor
  · intro htrim
    have hlast : ∀ c ∈ (trimWhiteSpace cs).getLast?, isWhiteSpace c = false := by
      rw [trimWhiteSpace, List.getLast?_reverse]
      exact Scan.ends_dropWhile isWhiteSpace _
    have hhead : ∀ c ∈ (trimWhiteSpace cs).head?, isWhiteSpace c = false := by
      intro c hc
      obtain ⟨after, hsplit⟩ := Scan.trimWhiteSpace_isPrefix cs
      apply Scan.ends_dropWhile isWhiteSpace cs
      rw [← hsplit, List.head?_append, Option.mem_def.mp hc]
      rfl
    rw [htrim] at hlast hhead
    exact ⟨hhead, hlast⟩
  · rintro ⟨hhead, hlast⟩
    exact trimWhiteSpace_eq_self hhead hlast

theorem closingName_eq_self_iff {name : String} :
    closingName name = name ↔ Trimmed name.toList := by
  rw [← trimWhiteSpace_eq_self_iff, closingName, ← String.toList_inj, String.toList_ofList]

namespace Node

/-- The nodes that segments write. -/
def ofSegments (segments : List String) : Except MarkupError (List Node) := do
  let tokens ← Token.ofSegments segments
  ofTokens tokens

theorem ofSegments_of_tokens {segments : List String} {ts : List Token}
    (h : Token.ofSegments segments = .ok ts) : ofSegments segments = ofTokens ts := by
  rw [ofSegments, h]
  rfl

/-- Segments that write nodes end in content. -/
theorem writes_of_ofSegments {segments : List String} {ns : List Node}
    (h : ofSegments segments = .ok ns) :
    ∃ ts, Scan.segments 0 .content segments = .ok (ts, .content) ∧ WritesNodes ts ns := by
  cases htokens : Token.ofSegments segments with
  | error e =>
      rw [ofSegments, htokens] at h
      cases h
  | ok ts =>
      rw [ofSegments_of_tokens htokens] at h
      have hwrites := writes_of_ofTokens h
      obtain ⟨place, hscan⟩ := Token.ofSegments_eq_ok.mp htokens
      refine ⟨ts, ?_, hwrites⟩
      rcases Nesting.agrees_of_finishes (Scan.segments_eq_ok_iff.mp hscan) with
        ⟨n, hread, hagrees⟩ | ⟨e, hread, -⟩
      · rw [hwrites.read] at hread
        cases hread
        cases hagrees with
        | content => exact hscan
      · rw [hwrites.read] at hread
        cases hread

/-- The tokens of nodes in an element are read as the element if the end tag names it. -/
theorem ofTokens_enclosed {name : String} {ts : List Token} {ns : List Node}
    (hvoid : isVoidElement name = false) (h : WritesNodes ts ns) (ending : String) :
    ofTokens (.startOpen name :: .startClose name :: ts ++ [.elementEnd ending]) =
      if ending = name then .ok [.element name [] ns]
      else if isVoidElement ending then .error (.unclosedElement name)
      else .error (.mismatchedClose ending name) := by
  show (Nesting.empty.read _ >>= Nesting.finish) = _
  rw [Nesting.read_append _ (Nesting.read_inside hvoid h), Nesting.read_singleton]
  by_cases hname : ending = name
  · subst hname
    have hclose : (Nesting.between [] [⟨ending, [], ns⟩]).step (.elementEnd ending) =
        .ok (Nesting.push (Nesting.between [] []) (.element ending [] ns)) :=
      Nesting.step_elementEnd ⟨ending, [], ns⟩
    rw [hclose, if_pos rfl]
    rfl
  · rw [if_neg hname]
    cases hend : isVoidElement ending with
    | true =>
        have hsolid : Nesting.Solid [⟨name, [], ns⟩] := Nesting.solid_singleton hvoid
        rw [Nesting.step_voidEnd hend hsolid]
        rfl
    | false =>
        have hother : name ≠ ending := fun heq => hname heq.symm
        have hclose : (Nesting.between [] [⟨name, [], ns⟩]).step (.elementEnd ending) =
            .error (.mismatchedClose ending name) := by
          simp [Nesting.step, Nesting.closeElement, Nesting.between, hother, hend]
        rw [hclose]
        rfl

/-- Markup in an element is that element, with the nodes of the markup as its children, if no
white space stands at either end of the name. White space there is part of the name of the
start tag but not of that of the end tag, so the element stays open. -/
theorem enclosed_markup_reads {name : String} {segments : List String} {ns : List Node}
    (hne : segments ≠ []) (h : ofSegments segments = .ok ns)
    (hname : Scan.TagName name.toList) (hvoid : isVoidElement name = false)
    (hcomment : ¬ ['!', '-', '-'] <+: name.toList) (hdashes : ¬ ['-', '-'] <:+: name.toList) :
    (Trimmed name.toList → ofSegments (enclosed name segments) = .ok [.element name [] ns]) ∧
      (¬ Trimmed name.toList → ofSegments (enclosed name segments) =
        .error (if isVoidElement (closingName name) then .unclosedElement name
          else .mismatchedClose (closingName name) name)) := by
  obtain ⟨ts, hscan, hwrites⟩ := writes_of_ofSegments h
  have htokens := Token.ofSegments_enclosed hne hscan hname hcomment hdashes
  rw [ofSegments_of_tokens htokens, ofTokens_enclosed hvoid hwrites,
    ← closingName_eq_self_iff]
  constructor
  · intro hclosing
    rw [if_pos hclosing]
  · intro hclosing
    rw [if_neg hclosing]
    split <;> rfl

/-- A name that ends like a comment does, around markup that begins and ends at a boundary. -/
theorem enclosed_markup_reads_dash :
    ofSegments (enclosed "p-" ["", " <br x='", "'>"]) =
      .ok [.element "p-" [] [.placeholder, .text " ",
        .element "br" [⟨"x", [.placeholder]⟩] []]] := by
  have htokens : Token.ofSegments ["", " <br x='", "'>"] =
      .ok [.placeholder, .text " ", .startOpen "br", .attributeName "x", .placeholder,
        .startClose "br"] := by cbv
  have hname : Scan.TagName "p-".toList := ⟨by decide, List.all_eq_true.mp rfl⟩
  have hread := enclosed_markup_reads (by decide) (ofSegments_of_tokens htokens) hname
    (by decide) (by decide) (by decide)
  exact hread.1 (trimWhiteSpace_eq_self_iff.mp rfl)

/-- A name with white space at its end that a tag does not take for a blank. -/
theorem enclosed_markup_stays_open :
    ofSegments [""] = .ok [] ∧ Scan.TagName "x\u00a0".toList ∧
      isVoidElement "x\u00a0" = false ∧ ¬ ['!', '-', '-'] <+: "x\u00a0".toList ∧
      ¬ ['-', '-'] <:+: "x\u00a0".toList ∧
      ofSegments (enclosed "x\u00a0" [""]) = .error (.mismatchedClose "x" "x\u00a0") := by
  have hnothing : Token.ofSegments [""] = .ok [] := by cbv
  have hsegments : enclosed "x\u00a0" [""] = ["<x\u00a0></x\u00a0>"] := by decide
  have htokens : Token.ofSegments ["<x\u00a0></x\u00a0>"] =
      .ok [.startOpen "x\u00a0", .startClose "x\u00a0", .elementEnd "x"] := by cbv
  refine ⟨ofSegments_of_tokens hnothing, ⟨by decide, List.all_eq_true.mp rfl⟩, by decide,
    by decide, by decide, ?_⟩
  rw [hsegments, ofSegments_of_tokens htokens]
  rfl

end Node

end LiveMarkup
