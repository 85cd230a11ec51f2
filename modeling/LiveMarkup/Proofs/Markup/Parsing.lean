import LiveMarkup.Markup.Nesting
import LiveMarkup.Proofs.Markup.Grammar

/-!
# Reading follows the grammar

Tokens are read as nodes exactly if they write these nodes. For the one half,
reading goes through whatever the rules derive and adds it to the innermost
open element. For the other, what has been read at any time is written by the
rules, piece by piece: what is finished, what each open element has so far, and
the attributes of the tag that is being read.
-/

namespace LiveMarkup

namespace Nesting

/-! ## Adding nodes -/

/-- Adds finished nodes to the innermost open element. -/
def pushAll (n : Nesting) (nodes : List Node) : Nesting :=
  nodes.foldl push n

/-- Between tags: nothing is read but what is finished and what is open. -/
def between (finished : List Node) (stack : List OpenElement) : Nesting :=
  ⟨finished, stack, none, false⟩

/-- In the tag of an element. -/
def inTag (finished : List Node) (stack : List OpenElement) (name : String)
    (attributes : List Attribute) (inValue : Bool) : Nesting :=
  ⟨finished, stack, some ⟨name, attributes⟩, inValue⟩

/-- No open element is void. -/
def Solid (stack : List OpenElement) : Prop :=
  ∀ e ∈ stack, isVoidElement e.name = false

theorem push_between (finished : List Node) {stack : List OpenElement} (hsolid : Solid stack)
    (node : Node) : ∃ finished' stack', Solid stack' ∧
      push (between finished stack) node = between finished' stack' := by
  cases stack with
  | nil => exact ⟨finished ++ [node], [], hsolid, rfl⟩
  | cons e outer =>
      refine ⟨finished, { e with children := e.children ++ [node] } :: outer, ?_, rfl⟩
      intro e' he'
      rcases List.mem_cons.mp he' with rfl | he'
      · exact hsolid e List.mem_cons_self
      · exact hsolid e' (List.mem_cons_of_mem e he')

theorem pushAll_open (finished : List Node) (e : OpenElement) (outer : List OpenElement)
    (nodes : List Node) :
    pushAll (between finished (e :: outer)) nodes =
      between finished ({ e with children := e.children ++ nodes } :: outer) := by
  unfold pushAll
  induction nodes generalizing e with
  | nil => simp
  | cons node nodes ih =>
      rw [List.foldl_cons]
      show nodes.foldl push
        (between finished ({ e with children := e.children ++ [node] } :: outer)) = _
      rw [ih]
      simp

theorem pushAll_top (finished nodes : List Node) :
    pushAll (between finished []) nodes = between (finished ++ nodes) [] := by
  unfold pushAll
  induction nodes generalizing finished with
  | nil => simp
  | cons node nodes ih =>
      rw [List.foldl_cons]
      show nodes.foldl push (between (finished ++ [node]) []) = _
      rw [ih]
      simp

theorem extendLast_snoc (part : ValuePart) (as : List Attribute) (a : Attribute) :
    extendLast part (as ++ [a]) = some (as ++ [{ a with value := a.value ++ [part] }]) := by
  induction as with
  | nil => rfl
  | cons b as ih =>
      cases as with
      | nil => rfl
      | cons c as =>
          show ((extendLast part (c :: as ++ [a])).map (b :: ·)) = _
          rw [ih]
          rfl

/-! ## Reading what the rules derive -/

/-- Reads tokens one after another. -/
def read (n : Nesting) (ts : List Token) : Except MarkupError Nesting :=
  ts.foldlM step n

theorem read_cons {n n' : Nesting} {t : Token} (ts : List Token) (h : n.step t = .ok n') :
    n.read (t :: ts) = n'.read ts := by
  unfold read
  rw [List.foldlM_cons, h]
  rfl

theorem read_append {n n' : Nesting} {ts : List Token} (us : List Token)
    (h : n.read ts = .ok n') : n.read (ts ++ us) = n'.read us := by
  unfold read at h ⊢
  rw [List.foldlM_append, h]
  rfl

theorem read_cons_eq_ok {n n' : Nesting} {t : Token} {ts : List Token}
    (h : n.read (t :: ts) = .ok n') : ∃ m, n.step t = .ok m ∧ m.read ts = .ok n' := by
  unfold read at h
  rw [List.foldlM_cons] at h
  cases hstep : n.step t with
  | error e =>
      rw [hstep] at h
      cases h
  | ok m =>
      rw [hstep] at h
      exact ⟨m, rfl, h⟩

theorem read_append_eq_ok {n n' : Nesting} {ts us : List Token}
    (h : n.read (ts ++ us) = .ok n') : ∃ m, n.read ts = .ok m ∧ m.read us = .ok n' := by
  induction ts generalizing n with
  | nil => exact ⟨n, rfl, h⟩
  | cons t ts ih =>
      obtain ⟨q, hstep, hread⟩ := read_cons_eq_ok h
      obtain ⟨m, hm, hus⟩ := ih hread
      exact ⟨m, by rw [read_cons ts hstep, hm], hus⟩

variable (finished : List Node) (stack : List OpenElement)

theorem read_value {ts : List Token} {parts : List ValuePart} (h : WritesValue ts parts)
    (name : String) (as : List Attribute) (a : Attribute) :
    (inTag finished stack name (as ++ [a]) true).read ts =
      .ok (inTag finished stack name (as ++ [{ a with value := a.value ++ parts }]) true) := by
  induction h generalizing a with
  | nil =>
      rw [List.append_nil]
      rfl
  | @literal ts parts text _ ih =>
      have hstep : (inTag finished stack name (as ++ [a]) true).step (.attributeValue text) =
          .ok (inTag finished stack name
            (as ++ [{ a with value := a.value ++ [.literal text] }]) true) := by
        simp [step, extendValue, inTag, extendLast_snoc]
      rw [read_cons ts hstep, ih]
      simp
  | @placeholder ts parts _ ih =>
      have hstep : (inTag finished stack name (as ++ [a]) true).step .placeholder =
          .ok (inTag finished stack name
            (as ++ [{ a with value := a.value ++ [.placeholder] }]) true) := by
        simp [step, extendValue, inTag, extendLast_snoc]
      rw [read_cons ts hstep, ih]
      simp

theorem read_attributes {ts : List Token} {more : List Attribute} (h : WritesAttributes ts more)
    (name : String) (as : List Attribute) (inValue : Bool) :
    ∃ inValue', (inTag finished stack name as inValue).read ts =
      .ok (inTag finished stack name (as ++ more) inValue') := by
  induction h generalizing as inValue with
  | nil =>
      rw [List.append_nil]
      exact ⟨inValue, rfl⟩
  | @cons vs ts value more key hvalue _ ih =>
      obtain ⟨inValue', hrest⟩ := ih (as ++ [⟨key, value⟩]) true
      refine ⟨inValue', ?_⟩
      have hstep : (inTag finished stack name as inValue).step (.attributeName key) =
          .ok (inTag finished stack name (as ++ [⟨key, []⟩]) true) := rfl
      rw [List.cons_append, read_cons _ hstep,
        read_append ts (read_value finished stack hvalue name as ⟨key, []⟩)]
      simpa using hrest

theorem read_startTag {ts : List Token} {as : List Attribute} (h : WritesAttributes ts as)
    (name : String) : ∃ inValue, (between finished stack).read (.startOpen name :: ts) =
      .ok (inTag finished stack name as inValue) := by
  obtain ⟨inValue, hread⟩ := read_attributes finished stack h name [] false
  exact ⟨inValue, hread⟩

variable {finished stack}

theorem step_startClose_void {name : String} (hvoid : isVoidElement name = true)
    (as : List Attribute) (inValue : Bool) (closing : String) :
    (inTag finished stack name as inValue).step (.startClose closing) =
      .ok (push (between finished stack) (.element name as [])) := by
  simp [step, closeTag, inTag, between, hvoid]

theorem step_startClose {name : String} (hvoid : isVoidElement name = false)
    (as : List Attribute) (inValue : Bool) (closing : String) :
    (inTag finished stack name as inValue).step (.startClose closing) =
      .ok (between finished (⟨name, as, []⟩ :: stack)) := by
  simp [step, closeTag, inTag, between, hvoid]

theorem step_elementEnd (e : OpenElement) :
    (between finished (e :: stack)).step (.elementEnd e.name) =
      .ok (push (between finished stack) e.close) := by
  simp [step, closeElement, between]

theorem step_voidEnd {name : String} (hvoid : isVoidElement name = true)
    (hsolid : Solid stack) :
    (between finished stack).step (.elementEnd name) = .ok (between finished stack) := by
  cases stack with
  | nil => simp [step, closeElement, between, hvoid]
  | cons e outer =>
      have hname : e.name ≠ name := by
        rintro rfl
        have hopen := hsolid e List.mem_cons_self
        rw [hvoid] at hopen
        cases hopen
      simp [step, closeElement, between, hvoid, hname]

mutual

theorem read_node (finished : List Node) {stack : List OpenElement} {ts : List Token}
    {n : Node} (hsolid : Solid stack) : WritesNode ts n →
      (between finished stack).read ts = .ok (push (between finished stack) n)
  | .text _ | .comment _ | .placeholder => rfl
  | .selfClosed name _ has => by
      obtain ⟨inValue, htag⟩ := read_startTag finished stack has name
      rw [read_append _ htag]
      rfl
  | .void closing hvoid has => by
      obtain ⟨inValue, htag⟩ := read_startTag finished stack has _
      rw [read_append _ htag, read_cons [] (step_startClose_void hvoid _ inValue closing)]
      rfl
  | @WritesNode.element ts us as children name closing hvoid has hchildren => by
      obtain ⟨inValue, htag⟩ := read_startTag finished stack has name
      have hsolid' : Solid (⟨name, as, []⟩ :: stack) := by
        intro e he
        rcases List.mem_cons.mp he with rfl | he
        · exact hvoid
        · exact hsolid e he
      rw [List.append_assoc, read_append _ htag, List.cons_append,
        read_cons _ (step_startClose hvoid as inValue closing),
        read_append _ (read_nodes finished hsolid' hchildren), pushAll_open, List.nil_append,
        read_cons [] (step_elementEnd ⟨name, as, children⟩)]
      rfl

theorem read_nodes (finished : List Node) {stack : List OpenElement} {ts : List Token}
    {ns : List Node} (hsolid : Solid stack) : WritesNodes ts ns →
      (between finished stack).read ts = .ok (pushAll (between finished stack) ns)
  | .nil => rfl
  | @WritesNodes.cons ts us n ns hnode hrest => by
      obtain ⟨finished', stack', hsolid', hpush⟩ := push_between finished hsolid n
      have hread := read_node finished hsolid hnode
      rw [hpush] at hread
      rw [read_append us hread, read_nodes finished' hsolid' hrest]
      show _ = Except.ok (ns.foldl push (push (between finished stack) n))
      rw [hpush]
      rfl
  | .voidEnd hvoid hrest => by
      rw [read_cons _ (step_voidEnd hvoid hsolid)]
      exact read_nodes finished hsolid hrest

end

end Nesting

theorem WritesNodes.read {ts : List Token} {ns : List Node} (h : WritesNodes ts ns) :
    Nesting.empty.read ts = .ok (.between ns []) := by
  have hsolid : Nesting.Solid [] := by
    intro e he
    cases he
  have hnodes := Nesting.read_nodes [] hsolid h
  rw [Nesting.pushAll_top, List.nil_append] at hnodes
  exact hnodes

/-- Whatever the rules derive is read. -/
theorem WritesNodes.ofTokens {ts : List Token} {ns : List Node} (h : WritesNodes ts ns) :
    Node.ofTokens ts = .ok ns := by
  have hread := h.read
  unfold Nesting.read at hread
  unfold Node.ofTokens
  rw [hread]
  rfl

namespace Nesting

/-! ## What has been read -/

/-- What has been read is written by the rules: finished nodes, and for each open
element, outermost first, its start tag and what it has so far. -/
inductive Written : List Token → List Node → List OpenElement → Prop
  | top {ts : List Token} {ns : List Node} (h : WritesNodes ts ns) : Written ts ns []
  | inside {ts us vs : List Token} {finished : List Node} {outer : List OpenElement}
      {name : String} {as : List Attribute} {children : List Node} (closing : String)
      (houter : Written ts finished outer) (hvoid : isVoidElement name = false)
      (has : WritesAttributes us as) (hchildren : WritesNodes vs children) :
      Written (ts ++ (.startOpen name :: us ++ .startClose closing :: vs)) finished
        (⟨name, as, children⟩ :: outer)

/-- The same with the tag that is being read, if any. -/
inductive Stands : List Token → Nesting → Prop
  | between {ts : List Token} {finished : List Node} {stack : List OpenElement}
      (inValue : Bool) (h : Written ts finished stack) :
      Stands ts ⟨finished, stack, none, inValue⟩
  | inTag {ts us : List Token} {finished : List Node} {stack : List OpenElement}
      {as : List Attribute} (name : String) (inValue : Bool) (h : Written ts finished stack)
      (has : WritesAttributes us as) :
      Stands (ts ++ .startOpen name :: us) ⟨finished, stack, some ⟨name, as⟩, inValue⟩

theorem Written.push {ts us : List Token} {finished : List Node} {stack : List OpenElement}
    {node : Node} (h : Written ts finished stack) (hnode : WritesNode us node)
    (inValue : Bool) :
    Stands (ts ++ us) (Nesting.push ⟨finished, stack, none, inValue⟩ node) := by
  cases h with
  | top hnodes => exact .between inValue (.top (hnodes.snoc hnode))
  | inside closing houter hvoid has hchildren =>
      have hmore := Written.inside closing houter hvoid has (hchildren.snoc hnode)
      apply Stands.between inValue
      simpa using hmore

theorem Written.voidEnd {ts : List Token} {finished : List Node} {stack : List OpenElement}
    {name : String} (h : Written ts finished stack) (hvoid : isVoidElement name = true) :
    Written (ts ++ [.elementEnd name]) finished stack := by
  have hend : WritesNodes [.elementEnd name] [] := .voidEnd hvoid .nil
  cases h with
  | top hnodes =>
      have hmore := hnodes.append hend
      rw [List.append_nil] at hmore
      exact .top hmore
  | inside closing houter hvoid' has hchildren =>
      have hmore := Written.inside closing houter hvoid' has (hchildren.append hend)
      simpa using hmore

theorem extendLast_writes {ts : List Token} {as as' : List Attribute} {part : ValuePart}
    (h : WritesAttributes ts as) (hpart : extendLast part as = some as') :
    WritesAttributes (ts ++ [part.token]) as' := by
  rcases List.eq_nil_or_concat as with rfl | ⟨before, a, rfl⟩
  · cases hpart
  · rw [List.concat_eq_append] at h hpart
    rw [extendLast_snoc] at hpart
    cases hpart
    have htokens : ts ++ [part.token] =
        Attribute.tokensAll (before ++ [{ a with value := a.value ++ [part] }]) := by
      rw [h.tokens_eq]
      simp [Attribute.tokensAll, Attribute.tokens]
    rw [htokens]
    exact writesAttributes_tokens _

theorem Stands.extendValue {ts us : List Token} {n' : Nesting} {finished : List Node}
    {stack : List OpenElement} {name : String} {as : List Attribute} {inValue : Bool}
    (part : ValuePart) (h : Written ts finished stack) (has : WritesAttributes us as)
    (hextend : Nesting.extendValue ⟨finished, stack, some ⟨name, as⟩, inValue⟩ part.token part =
      .ok n') : Stands (ts ++ .startOpen name :: us ++ [part.token]) n' := by
  cases hlast : extendLast part as with
  | none =>
      rw [Nesting.extendValue, Option.bind_some, hlast] at hextend
      cases hextend
  | some as' =>
      rw [Nesting.extendValue, Option.bind_some, hlast] at hextend
      cases hextend
      have hmore := Stands.inTag name inValue h
        (extendLast_writes has hlast)
      simpa using hmore

/-- The end of an element outside of tags: it closes the innermost open element, or
it ends a void element. -/
theorem Written.closeElement {ts : List Token} {n' : Nesting} {finished : List Node}
    {stack : List OpenElement} {inValue : Bool} {name : String} (h : Written ts finished stack)
    (hclose : Nesting.closeElement ⟨finished, stack, none, inValue⟩ name = .ok n') :
    Stands (ts ++ [.elementEnd name]) n' := by
  cases h with
  | top hnodes =>
      simp only [Nesting.closeElement] at hclose
      split at hclose
      · rename_i hvoid
        cases hclose
        exact .between _ ((Written.top hnodes).voidEnd hvoid)
      · cases hclose
  | inside closing houter hvoid has hchildren =>
      simp only [Nesting.closeElement] at hclose
      split at hclose
      · rename_i hname
        cases hname
        cases hclose
        have hmore := houter.push (.element closing hvoid has hchildren) false
        simpa [OpenElement.close] using hmore
      · split at hclose
        · rename_i hend
          cases hclose
          exact .between _ ((Written.inside closing houter hvoid has hchildren).voidEnd hend)
        · cases hclose

theorem Written.closeTag {ts us : List Token} {n' : Nesting} {finished : List Node}
    {stack : List OpenElement} {name closing : String} {as : List Attribute} {inValue : Bool}
    (h : Written ts finished stack) (has : WritesAttributes us as)
    (hclose : Nesting.closeTag ⟨finished, stack, some ⟨name, as⟩, inValue⟩
      (.startClose closing) = .ok n') :
    Stands (ts ++ .startOpen name :: us ++ [.startClose closing]) n' := by
  simp only [Nesting.closeTag] at hclose
  split at hclose
  · rename_i hvoid
    cases hclose
    have hmore := h.push (.void closing hvoid has) false
    simpa using hmore
  · rename_i hvoid
    cases hclose
    have hmore := Stands.between false
      (Written.inside closing h (by simpa using hvoid) has .nil)
    simpa using hmore

theorem Stands.step {ts : List Token} {n n' : Nesting} {t : Token} (h : Stands ts n)
    (hstep : n.step t = .ok n') : Stands (ts ++ [t]) n' := by
  cases h with
  | @between _ _ _ inValue h =>
      cases t with
      | text data =>
          cases hstep
          exact h.push (.text data) inValue
      | comment data =>
          cases hstep
          exact h.push (.comment data) inValue
      | startOpen name =>
          cases hstep
          exact .inTag name false h .nil
      | startClose | attributeName | attributeValue => cases hstep
      | elementEnd name => exact h.closeElement hstep
      | placeholder =>
          -- with no tag there is no value that it could belong to
          cases inValue with
          | true => cases hstep
          | false =>
              cases hstep
              exact h.push .placeholder false
  | @inTag _ _ _ _ as name inValue h has =>
      cases t with
      | text | comment | startOpen => cases hstep
      | startClose closing => exact h.closeTag has hstep
      | elementEnd ending =>
          cases hstep
          have hmore := h.push (.selfClosed name ending has) false
          simpa using hmore
      | attributeName key =>
          cases hstep
          have hmore := Stands.inTag name true h
            (has.append (.cons key .nil .nil))
          simpa using hmore
      | attributeValue text => exact Stands.extendValue (.literal text) h has hstep
      | placeholder =>
          cases inValue with
          | true => exact Stands.extendValue .placeholder h has hstep
          | false => cases hstep

theorem Stands.read {ts us : List Token} {n n' : Nesting} (h : Stands ts n)
    (hread : n.read us = .ok n') : Stands (ts ++ us) n' := by
  induction us generalizing ts n with
  | nil =>
      cases hread
      rw [List.append_nil]
      exact h
  | cons t us ih =>
      obtain ⟨q, hstep, hrest⟩ := read_cons_eq_ok hread
      have hmore := ih (h.step hstep) hrest
      rw [List.append_assoc] at hmore
      exact hmore

end Nesting

/-- Whatever is read, the rules derive. -/
theorem writes_of_ofTokens {ts : List Token} {ns : List Node} (h : Node.ofTokens ts = .ok ns) :
    WritesNodes ts ns := by
  unfold Node.ofTokens at h
  cases hread : ts.foldlM Nesting.step .empty with
  | error e =>
      rw [hread] at h
      cases h
  | ok n =>
      rw [hread] at h
      have hempty : Nesting.Stands [] .empty := .between false (.top .nil)
      have hstands : Nesting.Stands ts n := hempty.read hread
      cases hstands with
      | inTag => cases h
      | between _ hwritten =>
          cases hwritten with
          | inside => cases h
          | top hnodes =>
              cases h
              exact hnodes

/-- Reading accepts exactly the grammar, and what the tokens hold is in the nodes as it
was written: nothing is dropped, doubled or moved, and no void element has children. -/
theorem Node.ofTokens_exact (ts : List Token) (ns : List Node) :
    (Node.ofTokens ts = .ok ns ↔ WritesNodes ts ns) ∧
      (Node.ofTokens ts = .ok ns →
        ts.filter Token.isPiece = Node.piecesAll ns ∧ Node.VoidsEmptyAll ns) := by
  constructor
  · constructor
    · exact writes_of_ofTokens
    · exact WritesNodes.ofTokens
  · intro h
    have hwrites := writes_of_ofTokens h
    exact ⟨hwrites.pieces_eq, hwrites.voidsEmpty⟩

/-- The end of a void element before and inside an element, a tag that closes itself, and
a value in three pieces. -/
theorem Node.ofTokens_exact_strayEnds :
    [Token.startOpen "p", .attributeName "id", .attributeValue "a", .placeholder,
        .attributeValue "b", .startOpen "i", .text "x"] =
      Node.piecesAll [.element "p" [⟨"id", [.literal "a", .placeholder, .literal "b"]⟩]
        [.element "i" [] [], .text "x"]] ∧
    Node.VoidsEmptyAll [.element "p" [⟨"id", [.literal "a", .placeholder, .literal "b"]⟩]
        [.element "i" [] [], .text "x"]] :=
  (Node.ofTokens_exact
    [.elementEnd "br", .startOpen "p", .attributeName "id", .attributeValue "a", .placeholder,
      .attributeValue "b", .startClose ">", .startOpen "i", .elementEnd "/>",
      .elementEnd "br", .text "x", .elementEnd "p"]
    [.element "p" [⟨"id", [.literal "a", .placeholder, .literal "b"]⟩]
      [.element "i" [] [], .text "x"]]).2 (by rfl)

end LiveMarkup
