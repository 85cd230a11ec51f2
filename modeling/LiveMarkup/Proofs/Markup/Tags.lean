import LiveMarkup.Proofs.Markup.Cursor
import LiveMarkup.Proofs.Markup.Parsing
import LiveMarkup.Template.Compile

/-!
# Scanning and reading agree on tags

The scanner keeps its place, and the reader of the tokens the tag that it is in.
Neither knows of the other, but the tokens of a scan lead the reader into a tag
and out of it together with the scanner. So no token of a scan is unexpected, and
what the reader finds wrong about tags is where segments begin and end.
-/

namespace LiveMarkup

/-! ## What a scan tells of a tag -/

/-- Whether a token begins a tag or names an attribute. -/
def Token.isHeading : Token → Bool
  | startOpen _ | attributeName _ => true
  | _ => false

/-- The last of the beginnings of tags and the names of attributes. -/
def Token.heading? (ts : List Token) : Option Token :=
  (ts.filter isHeading).getLast?

theorem Token.heading?_append_singleton (ts : List Token) (t : Token) :
    heading? (ts ++ [t]) = if t.isHeading then some t else heading? ts := by
  unfold heading?
  rw [List.filter_append]
  cases h : t.isHeading <;> simp [h]

namespace Scan

/-- A scan has made these tokens, and no others, and stands at this place. The tokens of a
lexeme are made one after another, and the place changes with the last of them. -/
inductive HasMade (segments : List String) : List Token → Place → Prop
  | nothing : HasMade segments [] .content
  | behind {ts : List Token} {index : Nat} {place : Place} {read rest : List Char}
      (h : Arrives segments ts index place read rest) : HasMade segments ts place
  | within {ts more later : List Token} {t : Token} {index : Nat} {place next : Place}
      {read cs rest : List Char} (h : Arrives segments ts index place read (cs ++ rest))
      (hlexeme : Lexes place cs rest (more ++ t :: later) next) :
      HasMade segments (ts ++ more) place

/-- A scan makes the tokens that it has made one by one. -/
theorem Arrives.hasMade {segments : List String} {ts before after : List Token} {index : Nat}
    {place : Place} {read rest : List Char} (h : Arrives segments ts index place read rest)
    (hts : ts = before ++ after) : ∃ place, HasMade segments before place := by
  induction h generalizing before after with
  | start hfirst =>
      obtain ⟨rfl, -⟩ := List.append_eq_nil_iff.mp hts.symm
      exact ⟨_, .nothing⟩
  | @lexeme ts more _ _ next _ _ _ h hlexeme ih =>
      rcases List.append_eq_append_iff.mp hts with ⟨made, rfl, rfl⟩ | ⟨made, hmade, -⟩
      · cases after with
        | nil =>
            rw [List.append_nil] at hlexeme
            exact ⟨_, .behind (h.lexeme hlexeme)⟩
        | cons t later => exact ⟨_, .within h hlexeme⟩
      · exact ih hmade
  | @boundary ts index place read s h hnext ih =>
      rcases List.append_eq_append_iff.mp hts with ⟨made, rfl, hmore⟩ | ⟨made, hmade, -⟩
      · cases made with
        | nil =>
            rw [List.append_nil]
            exact ⟨_, .behind h⟩
        | cons t made =>
            obtain ⟨rfl, hnil⟩ := List.cons.inj hmore
            obtain ⟨rfl, rfl⟩ := List.append_eq_nil_iff.mp hnil.symm
            exact ⟨_, .behind (h.boundary hnext)⟩
      · exact ih hmade

theorem length_valueTokens_le (text : List Char) : (valueTokens text).length ≤ 1 := by
  unfold valueTokens
  split <;> simp

/-- Within a lexeme of several tokens a scan is in a tag and has made the name of an
attribute. -/
theorem Lexes.within {place next : Place} {cs rest : List Char} {more later : List Token}
    {t : Token} (h : Lexes place cs rest (more ++ t :: later) next) :
    more = [] ∨ ∃ tag key, place = .tag tag ∧ more = [.attributeName key] := by
  generalize hmade : more ++ t :: later = made at h
  cases more with
  | nil => exact Or.inl rfl
  | cons m more =>
      right
      cases h with
      | text | comment | endTag | startTag | startClose | selfClose | bare | deferred | piece =>
          simp at hmade
      | blanks => cases hmade
      | unquoted tag | closed tag =>
          obtain ⟨rfl, hrest⟩ := List.cons.inj hmade
          cases more with
          | nil => exact ⟨tag, _, rfl, rfl⟩
          | cons m' more => simp at hrest
      | @opened word sign text q tag =>
          obtain ⟨rfl, hrest⟩ := List.cons.inj hmade
          have hlength := length_valueTokens_le text
          rw [← hrest] at hlength
          cases more with
          | nil => exact ⟨tag, _, rfl, rfl⟩
          | cons m' more => simp at hlength
      | @quoteEnd text =>
          have hlength := length_valueTokens_le text
          rw [← hmade] at hlength
          simp at hlength

end Scan

namespace Nesting

/-- What has been read of the tokens that a scan has made agrees with the place of the
scan. -/
inductive Agrees (ts : List Token) : Place → Nesting → Prop
  | content (finished : List Node) (stack : List OpenElement) :
      Agrees ts .content (between finished stack)
  /-- In a tag that has no attribute yet. -/
  | opened {name : String} (finished : List Node) (stack : List OpenElement)
      (hheading : Token.heading? ts = some (.startOpen name)) :
      Agrees ts (.tag name) (inTag finished stack name [] false)
  | named {key : String} (finished : List Node) (stack : List OpenElement) (name : String)
      (as : List Attribute) (a : Attribute)
      (hheading : Token.heading? ts = some (.attributeName key)) :
      Agrees ts (.tag name) (inTag finished stack name (as ++ [a]) true)
  | quoted {key : String} (finished : List Node) (stack : List OpenElement) (name : String)
      (as : List Attribute) (a : Attribute) (q : Char)
      (hheading : Token.heading? ts = some (.attributeName key)) :
      Agrees ts (.quoted name q) (inTag finished stack name (as ++ [a]) true)

theorem Agrees.tag {ts : List Token} {place : Place} {n : Nesting} (h : Agrees ts place n) :
    n.tag.map OpenTag.name = place.tag? := by
  cases h <;> rfl

theorem read_singleton (n : Nesting) (t : Token) : n.read [t] = n.step t := by
  show (n.step t >>= fun n' => Except.ok n') = _
  cases n.step t <;> rfl

theorem exists_push_between (finished : List Node) (stack : List OpenElement) (node : Node) :
    ∃ finished' stack', push (between finished stack) node = between finished' stack' := by
  cases stack with
  | nil => exact ⟨_, _, rfl⟩
  | cons e outer => exact ⟨_, _, rfl⟩

theorem Agrees.pushed (ts : List Token) (finished : List Node) (stack : List OpenElement)
    (node : Node) : Agrees ts .content (push (between finished stack) node) := by
  obtain ⟨finished', stack', hpush⟩ := exists_push_between finished stack node
  rw [hpush]
  exact .content finished' stack'

/-- What an end tag in content can be refused for. -/
def IsCloseFault (e : MarkupError) : Prop :=
  (∃ name, e = .unexpectedClose name) ∨ ∃ found opened, e = .mismatchedClose found opened

theorem step_endTag (ts : List Token) (finished : List Node) (stack : List OpenElement)
    (name : String) :
    (∃ n, (between finished stack).step (.elementEnd name) = .ok n ∧ Agrees ts .content n) ∨
      ∃ e, (between finished stack).step (.elementEnd name) = .error e ∧ IsCloseFault e := by
  simp only [step, closeElement, between]
  cases stack with
  | nil =>
      by_cases hvoid : isVoidElement name = true
      · exact Or.inl ⟨between finished [], by simp [hvoid, between], .content finished []⟩
      · exact Or.inr ⟨.unexpectedClose name, by simp [hvoid], Or.inl ⟨name, rfl⟩⟩
  | cons e outer =>
      by_cases hname : e.name = name
      · exact Or.inl ⟨_, by simp [hname]; rfl, .pushed ts finished outer e.close⟩
      · by_cases hvoid : isVoidElement name = true
        · exact Or.inl ⟨between finished (e :: outer), by simp [hname, hvoid, between],
            .content finished (e :: outer)⟩
        · exact Or.inr ⟨.mismatchedClose name e.name, by simp [hname, hvoid],
            Or.inr ⟨name, e.name, rfl⟩⟩

theorem step_tagEnd (ts : List Token) (finished : List Node) (stack : List OpenElement)
    (name : String) (as : List Attribute) (inValue : Bool) (closing : String) :
    ∃ n, (inTag finished stack name as inValue).step (.startClose closing) = .ok n ∧
      Agrees ts .content n := by
  cases hvoid : isVoidElement name with
  | true => exact ⟨_, step_startClose_void hvoid as inValue closing, .pushed ts finished stack _⟩
  | false => exact ⟨_, step_startClose hvoid as inValue closing, .content finished _⟩

theorem Agrees.inTag {ts : List Token} {name : String} {n : Nesting}
    (h : Agrees ts (.tag name) n) :
    ∃ finished stack as inValue, n = Nesting.inTag finished stack name as inValue := by
  cases h with
  | opened finished stack => exact ⟨finished, stack, [], false, rfl⟩
  | named finished stack _ as a => exact ⟨finished, stack, as ++ [a], true, rfl⟩

theorem heading?_value {vs : List Token} {value : List ValuePart} (h : WritesValue vs value)
    (ts : List Token) : Token.heading? (ts ++ vs) = Token.heading? ts := by
  have hnone : vs.filter Token.isHeading = [] := by
    rw [h.tokens_eq, List.filter_eq_nil_iff]
    intro t ht
    obtain ⟨part, -, rfl⟩ := List.mem_map.mp ht
    cases part <;> simp [ValuePart.token, Token.isHeading]
  rw [Token.heading?, List.filter_append, hnone, List.append_nil]
  rfl

theorem heading?_attribute {vs : List Token} {value : List ValuePart} (h : WritesValue vs value)
    (ts : List Token) (key : String) :
    Token.heading? (ts ++ .attributeName key :: vs) = some (.attributeName key) := by
  rw [List.append_cons, heading?_value h, Token.heading?_append_singleton]
  rfl

theorem writes_valueTokens (text : List Char) :
    ∃ value, WritesValue (Scan.valueTokens text) value := by
  unfold Scan.valueTokens
  split
  · exact ⟨_, .nil⟩
  · exact ⟨_, .literal _ .nil⟩

theorem read_attribute {vs : List Token} {value : List ValuePart} (h : WritesValue vs value)
    (finished : List Node) (stack : List OpenElement) (name : String) (as : List Attribute)
    (inValue : Bool) (key : String) :
    (inTag finished stack name as inValue).read (.attributeName key :: vs) =
      .ok (inTag finished stack name (as ++ [⟨key, value⟩]) true) := by
  have hstep : (inTag finished stack name as inValue).step (.attributeName key) =
      .ok (inTag finished stack name (as ++ [⟨key, []⟩]) true) := rfl
  rw [read_cons vs hstep, read_value finished stack h name as ⟨key, []⟩]
  rfl

/-- The tokens of a lexeme lead the reader where the lexeme leads the scan, or they are an
end tag that is refused. -/
theorem Agrees.lexeme {ts more : List Token} {place next : Place} {cs rest : List Char}
    {n : Nesting} (h : Agrees ts place n) (hlexeme : Scan.Lexes place cs rest more next) :
    (∃ n', n.read more = .ok n' ∧ Agrees (ts ++ more) next n') ∨
      ∃ e, n.read more = .error e ∧ IsCloseFault e := by
  cases hlexeme with
  | text =>
      cases h with
      | content finished stack =>
          exact Or.inl ⟨_, rfl, .pushed _ finished stack _⟩
  | comment =>
      cases h with
      | content finished stack =>
          exact Or.inl ⟨_, rfl, .pushed _ finished stack _⟩
  | endTag =>
      cases h with
      | content finished stack =>
          rw [read_singleton]
          exact step_endTag _ finished stack _
  | startTag =>
      cases h with
      | content finished stack =>
          refine Or.inl ⟨_, rfl, .opened finished stack ?_⟩
          rw [Token.heading?_append_singleton]
          rfl
  | blanks =>
      rw [List.append_nil]
      exact Or.inl ⟨n, rfl, h⟩
  | startClose tag =>
      obtain ⟨finished, stack, as, inValue, rfl⟩ := h.inTag
      rw [read_singleton]
      exact Or.inl (step_tagEnd _ finished stack tag as inValue tag)
  | selfClose tag =>
      obtain ⟨finished, stack, as, inValue, rfl⟩ := h.inTag
      exact Or.inl ⟨_, rfl, .pushed _ finished stack _⟩
  | bare tag | deferred tag =>
      obtain ⟨finished, stack, as, inValue, rfl⟩ := h.inTag
      exact Or.inl ⟨_, read_attribute .nil finished stack tag as inValue _,
        .named finished stack tag as _ (heading?_attribute .nil ts _)⟩
  | unquoted tag | closed tag =>
      obtain ⟨finished, stack, as, inValue, rfl⟩ := h.inTag
      exact Or.inl ⟨_, read_attribute (.literal _ .nil) finished stack tag as inValue _,
        .named finished stack tag as _ (heading?_attribute (.literal _ .nil) ts _)⟩
  | @opened word sign text q tag =>
      obtain ⟨finished, stack, as, inValue, rfl⟩ := h.inTag
      obtain ⟨value, hvalue⟩ := writes_valueTokens text
      exact Or.inl ⟨_, read_attribute hvalue finished stack tag as inValue _,
        .quoted finished stack tag as _ q (heading?_attribute hvalue ts _)⟩
  | @quoteEnd text q tag =>
      obtain ⟨value, hvalue⟩ := writes_valueTokens text
      cases h with
      | quoted finished stack _ as a _ hheading =>
          rw [← heading?_value hvalue ts] at hheading
          exact Or.inl ⟨_, read_value finished stack hvalue tag as a,
            .named finished stack tag as _ hheading⟩
  | piece tag =>
      have hvalue := WritesValue.literal (String.ofList cs) WritesValue.nil
      cases h with
      | quoted finished stack _ as a _ hheading =>
          rw [← heading?_value hvalue ts] at hheading
          exact Or.inl ⟨_, read_value finished stack hvalue tag as a,
            .quoted finished stack tag as _ _ hheading⟩

/-- The placeholder of a boundary leaves the reader where it is, unless it is in a tag that
has no attribute yet. -/
theorem Agrees.boundary {ts : List Token} {place : Place} {n : Nesting}
    (h : Agrees ts place n) :
    (∃ n', n.step .placeholder = .ok n' ∧ Agrees (ts ++ [.placeholder]) place n') ∨
      ∃ name, n.step .placeholder = .error (.strayPlaceholder name) ∧
        place.tag? = some name ∧ Token.heading? ts = some (.startOpen name) := by
  have hvalue := WritesValue.placeholder WritesValue.nil
  cases h with
  | content finished stack => exact Or.inl ⟨_, rfl, .pushed _ finished stack _⟩
  | opened finished stack hheading => exact Or.inr ⟨_, rfl, rfl, hheading⟩
  | named finished stack name as a hheading =>
      rw [← heading?_value hvalue ts] at hheading
      have hread := read_value finished stack hvalue name as a
      rw [read_singleton] at hread
      exact Or.inl ⟨_, hread, .named finished stack name as _ hheading⟩
  | quoted finished stack name as a q hheading =>
      rw [← heading?_value hvalue ts] at hheading
      have hread := read_value finished stack hvalue name as a
      rw [read_singleton] at hread
      exact Or.inl ⟨_, hread, .quoted finished stack name as _ q hheading⟩

/-! ## Reading along a scan -/

/-- What can be wrong with the tokens of a scan before they end: an end tag, or a segment that
ends in a tag of which no attribute was named. -/
inductive Stumbles (segments : List String) : MarkupError → Prop
  | close {e : MarkupError} (h : IsCloseFault e) : Stumbles segments e
  | stray {ts : List Token} {index : Nat} {place : Place} {read : List Char} {n : Nesting}
      {name : String} (h : Scan.Arrives segments ts index place read [])
      (hnext : index + 1 < segments.length) (hread : empty.read ts = .ok n)
      (htag : place.tag? = some name) (hheading : Token.heading? ts = some (.startOpen name)) :
      Stumbles segments (.strayPlaceholder name)

theorem read_append_error {n : Nesting} {ts : List Token} {e : MarkupError} (us : List Token)
    (h : n.read ts = .error e) : n.read (ts ++ us) = .error e := by
  unfold read at h ⊢
  rw [List.foldlM_append, h]
  rfl

/-- Wherever a scan is, the reader of the tokens so far agrees with it, unless it has stumbled
before. -/
theorem agrees_of_arrives {segments : List String} {ts : List Token} {index : Nat}
    {place : Place} {read rest : List Char}
    (h : Scan.Arrives segments ts index place read rest) :
    (∃ n, empty.read ts = .ok n ∧ Agrees ts place n) ∨
      ∃ e, empty.read ts = .error e ∧ Stumbles segments e := by
  induction h with
  | start => exact Or.inl ⟨empty, rfl, .content [] []⟩
  | @lexeme ts more _ _ _ _ _ _ _ hlexeme ih =>
      rcases ih with ⟨n, hread, hagrees⟩ | ⟨e, hread, hstumbles⟩
      · rw [read_append more hread]
        rcases hagrees.lexeme hlexeme with hmore | ⟨e, hmore, hclose⟩
        · exact Or.inl hmore
        · exact Or.inr ⟨e, hmore, .close hclose⟩
      · exact Or.inr ⟨e, read_append_error more hread, hstumbles⟩
  | @boundary ts index place read s h hnext ih =>
      rcases ih with ⟨n, hread, hagrees⟩ | ⟨e, hread, hstumbles⟩
      · rw [read_append _ hread, read_singleton]
        rcases hagrees.boundary with hmore | ⟨name, hmore, htag, hheading⟩
        · exact Or.inl hmore
        · obtain ⟨hlt, -⟩ := List.getElem?_eq_some_iff.mp hnext
          exact Or.inr ⟨_, hmore, .stray h hlt hread htag hheading⟩
      · exact Or.inr ⟨e, read_append_error _ hread, hstumbles⟩

/-- The reader of tokens that a scan has made is in a tag exactly if the scan is, in the
same. -/
theorem tag_of_hasMade {segments : List String} {ts : List Token} {place : Place}
    {n : Nesting} (h : Scan.HasMade segments ts place) (hread : empty.read ts = .ok n) :
    n.tag.map OpenTag.name = place.tag? := by
  have hagrees : ∀ {ts index place read rest m},
      Scan.Arrives segments ts index place read rest → empty.read ts = .ok m →
        Agrees ts place m := by
    intro ts index place read rest m harrives hm
    rcases agrees_of_arrives harrives with ⟨m', hm', hagrees⟩ | ⟨e, he, -⟩
    · rw [hm] at hm'
      cases hm'
      exact hagrees
    · rw [hm] at he
      cases he
  cases h with
  | nothing =>
      cases hread
      rfl
  | behind harrives => exact (hagrees harrives hread).tag
  | @within ts more later t _ _ next _ _ _ harrives hlexeme =>
      rcases hlexeme.within with rfl | ⟨tag, key, rfl, rfl⟩
      · rw [List.append_nil] at hread
        exact (hagrees harrives hread).tag
      · obtain ⟨m, hm, hkey⟩ := read_append_eq_ok hread
        obtain ⟨finished, stack, as, inValue, rfl⟩ := (hagrees harrives hm).inTag
        rw [read_attribute .nil] at hkey
        cases hkey
        rfl

end Nesting

theorem Scan.Arrives.prefix_of_ok {segments : List String} {ts all : List Token} {index : Nat}
    {place : Place} {read rest : List Char}
    (h : Arrives segments ts index place read rest) (hall : Token.ofSegments segments = .ok all) :
    ∃ more, all = ts ++ more := by
  obtain ⟨last, hscan⟩ := Token.ofSegments_eq_ok.mp hall
  rw [h.resumes] at hscan
  cases hrest : resume index place (read ++ rest) rest (segments.drop (index + 1)) with
  | error e =>
      rw [hrest] at hscan
      cases hscan
  | ok found =>
      rw [hrest] at hscan
      cases hscan
      exact ⟨found.1, rfl⟩

/-! ## What can be wrong with a template -/

theorem Node.ofTokens_eq_error {ts : List Token} {e : MarkupError} :
    Node.ofTokens ts = .error e ↔
      Nesting.empty.read ts = .error e ∨
        ∃ n, Nesting.empty.read ts = .ok n ∧ n.finish = .error e := by
  show (Nesting.empty.read ts >>= Nesting.finish) = .error e ↔ _
  cases Nesting.empty.read ts with
  | error e' => simp [bind, Except.bind]
  | ok n => simp [bind, Except.bind]

namespace Template

theorem ofSegments_eq_error_of_tokens {segments : List String} {ts : List Token}
    (h : Token.ofSegments segments = .ok ts) {e : MarkupError} :
    ofSegments segments = .error e ↔ Node.ofTokens ts = .error e := by
  unfold ofSegments
  rw [h]
  show (Node.ofTokens ts >>= fun nodes => Except.ok (ofNodes nodes)) = .error e ↔ _
  cases Node.ofTokens ts with
  | error e' => simp [bind, Except.bind]
  | ok ns => simp [bind, Except.bind]

theorem ofSegments_eq_error_of_error {segments : List String} {e : MarkupError}
    (h : Token.ofSegments segments = .error e) : ofSegments segments = .error e := by
  unfold ofSegments
  rw [h]
  rfl

end Template

namespace Nesting

theorem agrees_of_finishes {segments : List String} {ts : List Token} {place : Place}
    (h : Scan.Finishes segments ts place) :
    (∃ n, empty.read ts = .ok n ∧ Agrees ts place n) ∨
      ∃ e, empty.read ts = .error e ∧ Stumbles segments e := by
  cases h with
  | nothing => exact Or.inl ⟨empty, rfl, .content [] []⟩
  | last harrives => exact agrees_of_arrives harrives

theorem finish_eq_error {n : Nesting} {e : MarkupError} (h : n.finish = .error e) :
    (∃ t, n.tag = some t ∧ e = .unclosedTag t.name) ∨
      n.tag = none ∧ ∃ name, e = .unclosedElement name := by
  obtain ⟨finished, stack, tag, inValue⟩ := n
  cases tag with
  | some t =>
      cases h
      exact Or.inl ⟨t, rfl, rfl⟩
  | none =>
      cases stack with
      | nil => cases h
      | cons e' outer =>
          cases h
          exact Or.inr ⟨rfl, e'.name, rfl⟩

theorem finish_inTag {n : Nesting} {name : String} (h : n.tag.map OpenTag.name = some name) :
    n.finish = .error (.unclosedTag name) := by
  obtain ⟨finished, stack, tag, inValue⟩ := n
  cases tag with
  | none => cases h
  | some t =>
      cases h
      rfl

end Nesting

theorem Node.ofTokens_eq_error_cases {segments : List String} {ts : List Token}
    (h : Token.ofSegments segments = .ok ts) {e : MarkupError}
    (he : Node.ofTokens ts = .error e) :
    Nesting.Stumbles segments e ∨
      ∃ n, Nesting.empty.read ts = .ok n ∧ n.finish = .error e := by
  obtain ⟨place, hscan⟩ := Token.ofSegments_eq_ok.mp h
  rcases ofTokens_eq_error.mp he with hread | hfinish
  · rcases Nesting.agrees_of_finishes (Scan.segments_eq_ok_iff.mp hscan) with
      ⟨n, hn, -⟩ | ⟨e', he', hstumbles⟩
    · rw [hread] at hn
      cases hn
    · rw [hread] at he'
      cases he'
      exact Or.inl hstumbles
  · exact Or.inr hfinish

namespace Template

/-- No token of a scan is unexpected. -/
theorem ofSegments_ne_unexpectedToken (segments : List String) (kind : String) :
    ofSegments segments ≠ .error (.unexpectedToken kind) := by
  intro h
  cases htokens : Token.ofSegments segments with
  | error e =>
      rw [ofSegments_eq_error_of_error htokens] at h
      cases h
      have hrefuses := Scan.segments_eq_error_iff.mp (Token.ofSegments_eq_error.mp htokens)
      obtain ⟨index, offset, s, he | he, -⟩ := hrefuses.position <;> cases he
  | ok ts =>
      have hnodes := (ofSegments_eq_error_of_tokens htokens).mp h
      rcases Node.ofTokens_eq_error_cases htokens hnodes with hstumbles | ⟨n, -, hfinish⟩
      · cases hstumbles with
        | close hclose => rcases hclose with ⟨name, he⟩ | ⟨found, opened, he⟩ <;> cases he
      · rcases Nesting.finish_eq_error hfinish with ⟨t, -, he⟩ | ⟨-, name, he⟩ <;> cases he

/-- A placeholder is stray exactly if everything before it is read and it stands at the end
of a segment that ends in a tag of which no attribute was named. -/
theorem ofSegments_eq_strayPlaceholder {segments : List String} {ts : List Token}
    (h : Token.ofSegments segments = .ok ts) (name : String) :
    ofSegments segments = .error (.strayPlaceholder name) ↔
      ∃ before index place read n, Scan.Arrives segments before index place read [] ∧
        index + 1 < segments.length ∧ Nesting.empty.read before = .ok n ∧
          place.tag? = some name ∧ Token.heading? before = some (.startOpen name) := by
  rw [ofSegments_eq_error_of_tokens h]
  constructor
  · intro he
    rcases Node.ofTokens_eq_error_cases h he with hstumbles | ⟨n, -, hfinish⟩
    · cases hstumbles with
      | close hclose => rcases hclose with ⟨other, he⟩ | ⟨found, opened, he⟩ <;> cases he
      | stray harrives hnext hread htag hheading =>
          exact ⟨_, _, _, _, _, harrives, hnext, hread, htag, hheading⟩
    · rcases Nesting.finish_eq_error hfinish with ⟨t, -, he⟩ | ⟨-, other, he⟩ <;> cases he
  · rintro ⟨before, index, place, read, n, harrives, hnext, hread, htag, hheading⟩
    obtain ⟨more, hts⟩ :=
      (harrives.boundary (List.getElem?_eq_getElem hnext)).prefix_of_ok h
    rcases Nesting.agrees_of_arrives harrives with ⟨m, hm, hagrees⟩ | ⟨e, he, -⟩
    · have hstep : m.step .placeholder = .error (.strayPlaceholder name) := by
        cases hagrees with
        | content => cases htag
        | opened =>
            cases htag
            rfl
        | named _ _ _ _ _ hother | quoted _ _ _ _ _ _ hother =>
            rw [hheading] at hother
            cases hother
      have herror : Nesting.empty.read (before ++ [.placeholder]) =
          .error (.strayPlaceholder name) := by
        rw [Nesting.read_append _ hm, Nesting.read_singleton, hstep]
      rw [hts, Node.ofTokens_eq_error]
      exact Or.inl (Nesting.read_append_error more herror)
    · rw [hread] at he
      cases he

/-- A tag is left open exactly if all tokens are read and the last segment ends in it. -/
theorem ofSegments_eq_unclosedTag {segments : List String} {ts : List Token}
    (h : Token.ofSegments segments = .ok ts) (name : String) :
    ofSegments segments = .error (.unclosedTag name) ↔
      ∃ place n, Scan.Finishes segments ts place ∧ Nesting.empty.read ts = .ok n ∧
        place.tag? = some name := by
  rw [ofSegments_eq_error_of_tokens h]
  obtain ⟨place, hscan⟩ := Token.ofSegments_eq_ok.mp h
  have hfinishes := Scan.segments_eq_ok_iff.mp hscan
  have htag : ∀ {n place'}, Scan.Finishes segments ts place' → Nesting.empty.read ts = .ok n →
      n.tag.map OpenTag.name = place'.tag? := by
    intro n place' hfinishes' hread
    rcases Nesting.agrees_of_finishes hfinishes' with ⟨m, hm, hagrees⟩ | ⟨e, he, -⟩
    · rw [hread] at hm
      cases hm
      exact hagrees.tag
    · rw [hread] at he
      cases he
  constructor
  · intro he
    rcases Node.ofTokens_eq_error_cases h he with hstumbles | ⟨n, hread, hfinish⟩
    · cases hstumbles with
      | close hclose => rcases hclose with ⟨other, he⟩ | ⟨found, opened, he⟩ <;> cases he
    · rcases Nesting.finish_eq_error hfinish with ⟨t, ht, hname⟩ | ⟨-, other, hname⟩
      · cases hname
        refine ⟨place, n, hfinishes, hread, ?_⟩
        rw [← htag hfinishes hread, ht]
        rfl
      · cases hname
  · rintro ⟨place', n, hfinishes', hread, hplace⟩
    rw [Node.ofTokens_eq_error]
    exact Or.inr ⟨n, hread, Nesting.finish_inTag ((htag hfinishes' hread).trans hplace)⟩

/-- Whatever segments are scanned, no token is unexpected when the tokens are read. After each
beginning of the tokens that is read, the reader is in a tag exactly if the scan is there, in
the same. A placeholder is stray exactly if all before it is read and its segment ends in a
tag before the name of the first attribute; a tag is left open exactly if all is read and the
last segment ends in it. -/
theorem reading_follows_scanning (segments : List String) :
    (∀ kind, ofSegments segments ≠ .error (.unexpectedToken kind)) ∧
      ∀ ts, Token.ofSegments segments = .ok ts →
        (∀ before after n, ts = before ++ after → Nesting.empty.read before = .ok n →
          (∃ place, Scan.HasMade segments before place) ∧
            ∀ place, Scan.HasMade segments before place →
              n.tag.map OpenTag.name = place.tag?) ∧
        (∀ name, ofSegments segments = .error (.strayPlaceholder name) ↔
          ∃ before index place read n, Scan.Arrives segments before index place read [] ∧
            index + 1 < segments.length ∧ Nesting.empty.read before = .ok n ∧
              place.tag? = some name ∧ Token.heading? before = some (.startOpen name)) ∧
        ∀ name, ofSegments segments = .error (.unclosedTag name) ↔
          ∃ place n, Scan.Finishes segments ts place ∧ Nesting.empty.read ts = .ok n ∧
            place.tag? = some name := by
  refine ⟨ofSegments_ne_unexpectedToken segments, ?_⟩
  intro ts h
  refine ⟨?_, ofSegments_eq_strayPlaceholder h, ofSegments_eq_unclosedTag h⟩
  intro before after n hts hread
  obtain ⟨place, hscan⟩ := Token.ofSegments_eq_ok.mp h
  refine ⟨?_, fun place' hmade => Nesting.tag_of_hasMade hmade hread⟩
  cases Scan.segments_eq_ok_iff.mp hscan with
  | nothing =>
      obtain ⟨rfl, -⟩ := List.append_eq_nil_iff.mp hts.symm
      exact ⟨_, .nothing⟩
  | last harrives => exact harrives.hasMade hts

/-- The second of three segments ends in a tag without attributes, the first one in a value. -/
theorem reading_follows_scanning_stray :
    ∃ before index place read n,
      Scan.Arrives ["<p a='x", "'><i ", ">"] before index place read [] ∧ index + 1 < 3 ∧
        Nesting.empty.read before = .ok n ∧ place.tag? = some "i" ∧
          Token.heading? before = some (.startOpen "i") := by
  have htokens : Token.ofSegments ["<p a='x", "'><i ", ">"] =
      .ok [.startOpen "p", .attributeName "a", .attributeValue "x", .placeholder,
        .startClose "p", .startOpen "i", .placeholder, .startClose "i"] := by cbv
  have hstray : ofSegments ["<p a='x", "'><i ", ">"] = .error (.strayPlaceholder "i") := by
    rw [ofSegments, htokens]
    rfl
  obtain ⟨-, hread⟩ := reading_follows_scanning ["<p a='x", "'><i ", ">"]
  exact ((hread _ htokens).2.1 "i").mp hstray

end Template

end LiveMarkup
