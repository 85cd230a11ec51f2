import Mathlib.Data.List.Chain
import LiveMarkup.Proofs.Markup.Parsing
import LiveMarkup.Proofs.Markup.Scanning

/-!
# What is written is read back

Every well-formed tree with placeholders can be written in plain markup, and
whichever quotes are chosen for its values, scanning and reading give the same
tree again. A derivation says how a tree is written; scanning goes through it
from the left, and inside a quoted value from one boundary to the next.
-/

namespace LiveMarkup

open Scan

/-! ## Well-formed trees -/

/-- Whether a piece of a value is text. -/
def ValuePart.isLiteral : ValuePart → Bool
  | literal _ => true
  | placeholder => false

/-- Two pieces that can stand next to each other in a value. -/
def ValuePart.Apart (p p' : ValuePart) : Prop :=
  ¬ (p.isLiteral = true ∧ p'.isLiteral = true)

/-- A quote that can stand around a value: none of its literals holds it. -/
def Quotes (q : Char) (value : List ValuePart) : Prop :=
  (q = '"' ∨ q = '\'') ∧ ∀ text, .literal text ∈ value → q ∉ text.toList

/-- An attribute that can be written. -/
structure Attribute.WellFormed (a : Attribute) : Prop where
  name : AttributeName a.name.toList
  apart : a.value.IsChain ValuePart.Apart
  /-- Nothing between two quotes is a value; elsewhere an empty literal is not seen. -/
  nonempty : .literal "" ∈ a.value → a.value = [.literal ""]
  quotes : ∃ q, Quotes q a.value

/-- Whether a node is text. -/
def Node.isText : Node → Bool
  | .text _ => true
  | _ => false

/-- A node and what comes after it are not both text. -/
def Node.Apart (n : Node) (after : List Node) : Prop :=
  ∀ n' ∈ after.head?, ¬ (n.isText = true ∧ n'.isText = true)

mutual

/-- A node that can be written. -/
def Node.WellFormed : Node → Prop
  | .text data => data ≠ "" ∧ '<' ∉ data.toList
  | .comment data => ¬ ['-', '-', '>'] <:+: data.toList
  | .placeholder => True
  | .element name as children =>
      ElementName name.toList ∧ (∀ a ∈ as, a.WellFormed) ∧
        (isVoidElement name = true → children = []) ∧ Node.WellFormedAll children

def Node.WellFormedAll : List Node → Prop
  | [] => True
  | n :: ns => n.WellFormed ∧ n.Apart ns ∧ Node.WellFormedAll ns

end

/-! ## Rules of writing -/

/-- The marks of a piece of a value. -/
def ValuePart.marks : ValuePart → List (Option Char)
  | literal text => verbatim text.toList
  | placeholder => [none]

/-- Marks that spell the attributes of a tag. -/
inductive SpellsAttributes : List (Option Char) → List Attribute → Prop
  | nil : SpellsAttributes [] []
  /-- An attribute without a value is its name. -/
  | bare {ms : List (Option Char)} {as : List Attribute} (name : String)
      (hrest : SpellsAttributes ms as) :
      SpellsAttributes (verbatim (' ' :: name.toList) ++ ms) (⟨name, []⟩ :: as)
  | quoted {ms : List (Option Char)} {as : List Attribute} {value : List ValuePart} {q : Char}
      (name : String) (hvalue : value ≠ []) (hq : Quotes q value)
      (hrest : SpellsAttributes ms as) :
      SpellsAttributes (verbatim (' ' :: name.toList) ++ (verbatim ['=', q] ++
        (value.flatMap ValuePart.marks ++ (verbatim [q] ++ ms)))) (⟨name, value⟩ :: as)

mutual

/-- Marks that spell a node. -/
inductive SpellsNode : List (Option Char) → Node → Prop
  | text (data : String) : SpellsNode (verbatim data.toList) (.text data)
  | comment (data : String) :
      SpellsNode (verbatim (['<', '!', '-', '-'] ++ data.toList ++ ['-', '-', '>']))
        (.comment data)
  | placeholder : SpellsNode [none] .placeholder
  /-- A void element is its start tag. -/
  | void {ms : List (Option Char)} {as : List Attribute} {name : String}
      (hvoid : isVoidElement name = true) (has : SpellsAttributes ms as) :
      SpellsNode (verbatim ('<' :: name.toList) ++ (ms ++ verbatim ['>'])) (.element name as [])
  | element {ms us : List (Option Char)} {as : List Attribute} {children : List Node}
      {name : String} (hvoid : isVoidElement name = false) (has : SpellsAttributes ms as)
      (hchildren : SpellsNodes us children) :
      SpellsNode (verbatim ('<' :: name.toList) ++ (ms ++ (verbatim ['>'] ++
        (us ++ verbatim ('<' :: '/' :: name.toList ++ ['>']))))) (.element name as children)

/-- Marks that spell nodes. -/
inductive SpellsNodes : List (Option Char) → List Node → Prop
  | nil : SpellsNodes [] []
  | cons {ms us : List (Option Char)} {n : Node} {ns : List Node} (hnode : SpellsNode ms n)
      (hrest : SpellsNodes us ns) : SpellsNodes (ms ++ us) (n :: ns)

end

theorem SpellsNodes.append {ms us : List (Option Char)} {ns more : List Node}
    (h : SpellsNodes ms ns) (hmore : SpellsNodes us more) :
    SpellsNodes (ms ++ us) (ns ++ more) := by
  match h with
  | .nil => exact hmore
  | .cons hnode hrest =>
      rw [List.append_assoc]
      exact .cons hnode (hrest.append hmore)

theorem SpellsNodes.single {ms : List (Option Char)} {n : Node} (h : SpellsNode ms n) :
    SpellsNodes ms [n] := by
  rw [← List.append_nil ms]
  exact .cons h .nil

/-! ## Everything can be written -/

theorem spells_attributes {as : List Attribute} (hwell : ∀ a ∈ as, a.WellFormed) :
    ∃ ms, SpellsAttributes ms as := by
  induction as with
  | nil => exact ⟨[], .nil⟩
  | cons a as ih =>
      obtain ⟨ms, hrest⟩ := ih fun b hb => hwell b (List.mem_cons_of_mem a hb)
      obtain ⟨q, hq⟩ := (hwell a List.mem_cons_self).quotes
      obtain ⟨name, value⟩ := a
      cases value with
      | nil => exact ⟨_, .bare name hrest⟩
      | cons part parts => exact ⟨_, .quoted name (List.cons_ne_nil part parts) hq hrest⟩

mutual

theorem spells_node : (n : Node) → n.WellFormed → ∃ ms, SpellsNode ms n
  | .text data, _ => ⟨_, .text data⟩
  | .comment data, _ => ⟨_, .comment data⟩
  | .placeholder, _ => ⟨_, .placeholder⟩
  | .element name as children, hwell => by
      obtain ⟨-, has, hempty, hchildren⟩ := hwell
      obtain ⟨ms, hms⟩ := spells_attributes has
      cases hvoid : isVoidElement name with
      | true =>
          rw [hempty hvoid]
          exact ⟨_, .void hvoid hms⟩
      | false =>
          obtain ⟨us, hus⟩ := spells_nodes children hchildren
          exact ⟨_, .element hvoid hms hus⟩

theorem spells_nodes : (ns : List Node) → Node.WellFormedAll ns → ∃ ms, SpellsNodes ms ns
  | [], _ => ⟨[], .nil⟩
  | n :: ns, hwell => by
      obtain ⟨hn, -, hns⟩ := hwell
      obtain ⟨ms, hms⟩ := spells_node n hn
      obtain ⟨us, hus⟩ := spells_nodes ns hns
      exact ⟨ms ++ us, .cons hms hus⟩

end

/-! ## The tokens of a tree -/

mutual

/-- The tokens of a node. -/
def Node.tokens : Node → List Token
  | .text data => [.text data]
  | .comment data => [.comment data]
  | .placeholder => [.placeholder]
  | .element name as children =>
      .startOpen name :: (Attribute.tokensAll as ++ .startClose name ::
        (if isVoidElement name then [] else Node.tokensAll children ++ [.elementEnd name]))

def Node.tokensAll : List Node → List Token
  | [] => []
  | n :: ns => n.tokens ++ Node.tokensAll ns

end

mutual

theorem writes_tokens : (n : Node) → n.VoidsEmpty → WritesNode n.tokens n
  | .text data, _ => .text data
  | .comment data, _ => .comment data
  | .placeholder, _ => .placeholder
  | .element name as children, hvoids => by
      obtain ⟨hempty, hchildren⟩ := hvoids
      have has := writesAttributes_tokens as
      unfold Node.tokens
      cases hvoid : isVoidElement name with
      | true =>
          rw [hempty hvoid]
          exact .void name hvoid has
      | false =>
          have helement := WritesNode.element name hvoid has (writes_tokensAll children hchildren)
          simpa using helement

theorem writes_tokensAll :
    (ns : List Node) → Node.VoidsEmptyAll ns → WritesNodes (Node.tokensAll ns) ns
  | [], _ => .nil
  | n :: ns, hvoids => .cons (writes_tokens n hvoids.1) (writes_tokensAll ns hvoids.2)

end

mutual

theorem Node.WellFormed.voidsEmpty : {n : Node} → n.WellFormed → n.VoidsEmpty
  | .text _, _ | .comment _, _ | .placeholder, _ => trivial
  | .element .., hwell => ⟨hwell.2.2.1, Node.WellFormedAll.voidsEmpty hwell.2.2.2⟩

theorem Node.WellFormedAll.voidsEmpty :
    {ns : List Node} → Node.WellFormedAll ns → Node.VoidsEmptyAll ns
  | [], _ => trivial
  | _ :: _, hwell =>
      ⟨Node.WellFormed.voidsEmpty hwell.1, Node.WellFormedAll.voidsEmpty hwell.2.2⟩

end

/-! ## Scanning values -/

variable {tail : List (Option Char)} {ts : List Token} {last : Place} {name : String} {q : Char}

theorem scans_parts {parts : List ValuePart} (happart : parts.IsChain ValuePart.Apart)
    (hfree : ∀ text, .literal text ∈ parts → text ≠ "" ∧ q ∉ text.toList)
    (h : Scans (.tag name) tail ts last) :
    Scans (.quoted name q) (parts.flatMap ValuePart.marks ++ (verbatim [q] ++ tail))
      (parts.map ValuePart.token ++ ts) last := by
  induction parts with
  | nil =>
      have hnil : q ∉ [] := List.not_mem_nil
      have hend := scans_quoteEnd hnil h
      simpa [valueTokens] using hend
  | cons part parts ih =>
      have hrest := ih happart.tail fun text ht => hfree text (List.mem_cons_of_mem part ht)
      cases part with
      | placeholder => exact hrest.boundary
      | literal text =>
          obtain ⟨hne, hq⟩ := hfree text List.mem_cons_self
          have htext : text.toList ≠ [] := mt String.toList_eq_nil_iff.mp hne
          cases parts with
          | nil =>
              have hend := scans_quoteEnd hq h
              simpa [verbatim_append, ValuePart.marks, ValuePart.token, valueTokens, htext]
                using hend
          | cons next parts =>
              cases next with
              | placeholder =>
                  have hpiece := scans_piece htext hq rfl hrest
                  simpa [ValuePart.marks, ValuePart.token] using hpiece
              | literal more =>
                  obtain ⟨hnot, -⟩ := List.isChain_cons_cons.mp happart
                  exact absurd ⟨rfl, rfl⟩ hnot

theorem head_parts {parts : List ValuePart} (hparts : parts ≠ [])
    (hfree : ∀ text, .literal text ∈ parts → text ≠ "" ∧ q ∉ text.toList)
    (after : List (Option Char)) :
    ∀ c ∈ (lead (parts.flatMap ValuePart.marks ++ after)).head?, c ≠ q := by
  obtain ⟨part, parts, rfl⟩ := List.exists_cons_of_ne_nil hparts
  intro c hc
  rw [List.flatMap_cons, List.append_assoc] at hc
  cases part with
  | placeholder => cases hc
  | literal text =>
      obtain ⟨hne, hq⟩ := hfree text List.mem_cons_self
      obtain ⟨b, more, htext⟩ :=
        List.exists_cons_of_ne_nil (mt String.toList_eq_nil_iff.mp hne)
      rw [ValuePart.marks, lead_verbatim, htext] at hc
      cases hc
      rintro rfl
      rw [htext] at hq
      exact hq List.mem_cons_self

theorem scans_quoted {word : List Char} {value : List ValuePart} (hword : AttributeName word)
    (hvalue : value ≠ []) (happart : value.IsChain ValuePart.Apart)
    (hnonempty : .literal "" ∈ value → value = [.literal ""]) (hq : Quotes q value)
    (h : Scans (.tag name) tail ts last) :
    Scans (.tag name) (verbatim word ++ (verbatim ['=', q] ++
        (value.flatMap ValuePart.marks ++ (verbatim [q] ++ tail))))
      (.attributeName (String.ofList word) :: (value.map ValuePart.token ++ ts)) last := by
  obtain ⟨hquote, hfree⟩ := hq
  by_cases hsingle : ∃ text, value = [.literal text]
  · obtain ⟨text, rfl⟩ := hsingle
    have hclosed := scans_closed hword hquote (hfree text List.mem_cons_self) h
    simpa [verbatim_append, verbatim, ValuePart.marks, ValuePart.token] using hclosed
  · -- no literal is empty, so the value does not end where it begins
    have hpieces : ∀ text, .literal text ∈ value → text ≠ "" ∧ q ∉ text.toList := by
      intro text htext
      refine ⟨?_, hfree text htext⟩
      rintro rfl
      exact hsingle ⟨"", hnonempty htext⟩
    have hhead := head_parts hvalue hpieces (verbatim [q] ++ tail)
    have hopened := scans_opened hword hquote hhead (scans_parts happart hpieces h)
    rw [verbatim_append, List.append_assoc] at hopened
    exact hopened

/-! ## Scanning tags -/

/-- What follows an attribute, or the name of an element, ends that name and is no
equals sign. -/
theorem SpellsAttributes.follows {ms : List (Option Char)} {as : List Attribute}
    (h : SpellsAttributes ms as) (hwell : ∀ a ∈ as, a.WellFormed) (tail : List (Option Char)) :
    EndsName (ms ++ (verbatim ['>'] ++ tail)) ∧
      assign? (lead (ms ++ (verbatim ['>'] ++ tail))) = none := by
  have hblank : ∀ (a : Attribute) (more : List (Option Char)), a.WellFormed →
      EndsName (verbatim (' ' :: a.name.toList) ++ more) ∧
        assign? (lead (verbatim (' ' :: a.name.toList) ++ more)) = none := by
    intro a more ha
    constructor
    · intro b hb
      cases hb
      exact Or.inl rfl
    · rw [lead_verbatim]
      exact assign?_blank ha.name (lead more)
  cases h with
  | nil =>
      constructor
      · intro c hc
        cases hc
        exact Or.inr rfl
      · rfl
  | bare name hrest =>
      rw [List.append_assoc]
      exact hblank ⟨name, []⟩ _ (hwell _ List.mem_cons_self)
  | @quoted _ _ value _ name _ _ hrest =>
      rw [List.append_assoc]
      exact hblank ⟨name, value⟩ _ (hwell _ List.mem_cons_self)

theorem scans_attributes {ms : List (Option Char)} {as : List Attribute}
    (h : SpellsAttributes ms as) (hwell : ∀ a ∈ as, a.WellFormed)
    (htail : Scans (.tag name) (verbatim ['>'] ++ tail) ts last) :
    Scans (.tag name) (ms ++ (verbatim ['>'] ++ tail)) (Attribute.tokensAll as ++ ts) last := by
  induction h with
  | nil => exact htail
  | @bare ms as key hrest ih =>
      have hwell' : ∀ a ∈ as, a.WellFormed := fun a ha => hwell a (List.mem_cons_of_mem _ ha)
      have hkey := (hwell _ List.mem_cons_self).name
      obtain ⟨hends, hassign⟩ := hrest.follows hwell' tail
      have hbare := scans_blank hkey (scans_bare hkey hends hassign (ih hwell'))
      rw [String.ofList_toList] at hbare
      rw [List.append_assoc]
      exact hbare
  | @quoted ms as value q key hvalue hq hrest ih =>
      have hwell' : ∀ a ∈ as, a.WellFormed := fun a ha => hwell a (List.mem_cons_of_mem _ ha)
      have ha := hwell _ List.mem_cons_self
      have hquoted := scans_blank ha.name
        (scans_quoted ha.name hvalue ha.apart ha.nonempty hq (ih hwell'))
      rw [String.ofList_toList] at hquoted
      simpa [Attribute.tokensAll, Attribute.tokens] using hquoted

theorem scans_startTag {ms : List (Option Char)} {as : List Attribute}
    (hname : TagName name.toList) (hcomment : ¬ ['!', '-', '-'] <+: name.toList)
    (has : SpellsAttributes ms as) (hwell : ∀ a ∈ as, a.WellFormed)
    (h : Scans .content tail ts last) :
    Scans .content (verbatim ('<' :: name.toList) ++ (ms ++ (verbatim ['>'] ++ tail)))
      (.startOpen name :: (Attribute.tokensAll as ++ .startClose name :: ts)) last := by
  have hattributes : Scans (.tag (String.ofList name.toList)) (ms ++ (verbatim ['>'] ++ tail))
      (Attribute.tokensAll as ++ .startClose name :: ts) last := by
    rw [String.ofList_toList]
    exact scans_attributes has hwell (scans_startClose h)
  obtain ⟨hends, -⟩ := has.follows hwell tail
  have hopen := scans_startOpen hname hcomment hends hattributes
  rw [String.ofList_toList] at hopen
  exact hopen

/-! ## Scanning trees -/

theorem SpellsNodes.stops {ms : List (Option Char)} {ns : List Node} (h : SpellsNodes ms ns)
    (hhead : ∀ n ∈ ns.head?, n.isText = false) (htail : Stops tail) : Stops (ms ++ tail) := by
  cases h with
  | nil => exact htail
  | cons hnode hrest =>
      intro c hc
      cases hnode with
      | text data => cases hhead _ rfl
      | placeholder => cases hc
      | comment | void | element =>
          cases hc
          rfl

mutual

theorem scans_node {tail : List (Option Char)} {ts : List Token} {last : Place}
    {ms : List (Option Char)} {n : Node} (hwell : n.WellFormed)
    (hstops : n.isText = true → Stops tail) (h : Scans .content tail ts last) :
    SpellsNode ms n → Scans .content (ms ++ tail) (n.tokens ++ ts) last
  | .text data => by
      obtain ⟨hne, hfree⟩ := hwell
      have htext : data.toList ≠ [] := mt String.toList_eq_nil_iff.mp hne
      have hscans := scans_text htext hfree (hstops rfl) h
      rw [String.ofList_toList] at hscans
      exact hscans
  | .comment data => by
      have hscans := scans_comment hwell h
      rw [String.ofList_toList] at hscans
      exact hscans
  | .placeholder => h.boundary
  | @SpellsNode.void ms as name hvoid has => by
      obtain ⟨hname, hattributes, -, -⟩ := hwell
      have hscans := scans_startTag hname.tagName hname.noComment has hattributes h
      simpa [Node.tokens, hvoid] using hscans
  | @SpellsNode.element ms us as children name hvoid has hchildren => by
      obtain ⟨hname, hattributes, -, hwell⟩ := hwell
      have hend := scans_endTag hname.tagName h
      rw [trimWhiteSpace_eq_self hname.head hname.last, String.ofList_toList] at hend
      have hstop : Stops (verbatim ('<' :: '/' :: name.toList ++ ['>']) ++ tail) := by
        intro c hc
        cases hc
        rfl
      have hscans := scans_startTag hname.tagName hname.noComment has hattributes
        (scans_nodes hwell hstop hend hchildren)
      simpa [Node.tokens, hvoid] using hscans

theorem scans_nodes {tail : List (Option Char)} {ts : List Token} {last : Place}
    {ms : List (Option Char)} {ns : List Node} (hwell : Node.WellFormedAll ns)
    (hstops : Stops tail) (h : Scans .content tail ts last) :
    SpellsNodes ms ns → Scans .content (ms ++ tail) (Node.tokensAll ns ++ ts) last
  | .nil => h
  | @SpellsNodes.cons ms us n ns hnode hrest => by
      obtain ⟨hn, happart, hns⟩ := hwell
      have hnext : n.isText = true → Stops (us ++ tail) := by
        intro htext
        apply hrest.stops _ hstops
        intro n' hn'
        cases hother : n'.isText with
        | false => rfl
        | true => exact absurd ⟨htext, hother⟩ (happart n' hn')
      have hscans := scans_node hn hnext (scans_nodes hns hstops h hrest) hnode
      rw [List.append_assoc, Node.tokensAll, List.append_assoc]
      exact hscans

end

/-- The tokens of what is written. -/
theorem SpellsNodes.ofSegments {ms : List (Option Char)} {ns : List Node}
    (h : SpellsNodes ms ns) (hwell : Node.WellFormedAll ns) :
    Token.ofSegments (segmentsOf ms) = .ok (Node.tokensAll ns) := by
  have hstops : Stops [] := by
    intro c hc
    cases hc
  have hscans := scans_nodes hwell hstops (Scans.nil .content) h 0
  rw [List.append_nil, List.append_nil] at hscans
  rw [Token.ofSegments, hscans]
  rfl

theorem SpellsNodes.read {ms : List (Option Char)} {ns : List Node} (h : SpellsNodes ms ns)
    (hwell : Node.WellFormedAll ns) :
    (Token.ofSegments (segmentsOf ms) >>= Node.ofTokens) = .ok ns := by
  rw [h.ofSegments hwell]
  exact (writes_tokensAll ns hwell.voidsEmpty).ofTokens

/-- Every well-formed tree can be written, and however it is written, it is read back. -/
theorem Node.written_read (ns : List Node) (hwell : Node.WellFormedAll ns) :
    (∃ ms, SpellsNodes ms ns) ∧
      ∀ ms, SpellsNodes ms ns →
        (Token.ofSegments (segmentsOf ms) >>= Node.ofTokens) = .ok ns := by
  constructor
  · exact spells_nodes ns hwell
  · intro ms h
    exact h.read hwell

/-- A value that ends at a boundary, an attribute without a value, a void element. -/
theorem Node.written_read_interrupted :
    (Token.ofSegments ["<p a='x", "' b>", "<br></p>"] >>= Node.ofTokens) =
      .ok [.element "p" [⟨"a", [.literal "x", .placeholder]⟩, ⟨"b", []⟩]
        [.placeholder, .element "br" [] []]] := by
  have hquotes : Quotes '\'' [.literal "x", .placeholder] := by
    refine ⟨Or.inr rfl, ?_⟩
    intro text htext
    simp only [List.mem_cons, ValuePart.literal.injEq, reduceCtorEq, List.not_mem_nil,
      or_false] at htext
    rw [htext]
    decide
  have hp : ElementName "p".toList := by
    constructor <;> simp [isElementNameChar, isTagBlank, isWhiteSpace]
  have hbr : ElementName "br".toList := by
    constructor <;> simp [isElementNameChar, isTagBlank, isWhiteSpace]
  have ha : Attribute.WellFormed ⟨"a", [.literal "x", .placeholder]⟩ :=
    ⟨⟨by simp, by simp [isAttributeNameChar, isTagBlank]⟩,
      by simp [ValuePart.Apart, ValuePart.isLiteral], by simp, ⟨_, hquotes⟩⟩
  have hb : Attribute.WellFormed ⟨"b", []⟩ :=
    ⟨⟨by simp, by simp [isAttributeNameChar, isTagBlank]⟩, by simp, by simp,
      ⟨'"', Or.inl rfl, by simp⟩⟩
  have hwell : Node.WellFormedAll [.element "p" [⟨"a", [.literal "x", .placeholder]⟩, ⟨"b", []⟩]
      [.placeholder, .element "br" [] []]] := by
    refine ⟨⟨hp, ?_, ?_, trivial, ?_, ⟨hbr, by simp, fun _ => rfl, trivial⟩, ?_, trivial⟩, ?_,
      trivial⟩
    · simp [ha, hb]
    · intro hvoid
      exact absurd hvoid (by decide)
    all_goals simp [Node.Apart, Node.isText]
  have hspells : SpellsNodes _ [.element "p" [⟨"a", [.literal "x", .placeholder]⟩, ⟨"b", []⟩]
      [.placeholder, .element "br" [] []]] :=
    .cons (.element (by decide) (.quoted "a" (by simp) hquotes (.bare "b" .nil))
      (.cons .placeholder (.cons (.void (by decide) .nil) .nil))) .nil
  have hread := (Node.written_read _ hwell).2 _ hspells
  convert hread using 3
  decide

end LiveMarkup
