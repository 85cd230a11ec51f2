import LiveMarkup.Markup.Node
import LiveMarkup.Markup.Token
import LiveMarkup.Markup.Void

/-!
# The grammar of tokens

Which tokens write which nodes, one rule for each way to write a node. The
tokens that are more than an end write everything that the nodes hold, in the
same order, and no void element gets children.
-/

namespace LiveMarkup

/-! ## Rules -/

/-- Tokens that write the pieces of a value. -/
inductive WritesValue : List Token → List ValuePart → Prop
  | nil : WritesValue [] []
  | literal {ts : List Token} {parts : List ValuePart} (text : String)
      (hrest : WritesValue ts parts) :
      WritesValue (.attributeValue text :: ts) (.literal text :: parts)
  | placeholder {ts : List Token} {parts : List ValuePart} (hrest : WritesValue ts parts) :
      WritesValue (.placeholder :: ts) (.placeholder :: parts)

/-- Tokens that write the attributes of a tag. -/
inductive WritesAttributes : List Token → List Attribute → Prop
  | nil : WritesAttributes [] []
  | cons {vs ts : List Token} {value : List ValuePart} {as : List Attribute} (name : String)
      (hvalue : WritesValue vs value) (hrest : WritesAttributes ts as) :
      WritesAttributes (.attributeName name :: vs ++ ts) (⟨name, value⟩ :: as)

mutual

/-- Tokens that write a node. -/
inductive WritesNode : List Token → Node → Prop
  | text (data : String) : WritesNode [.text data] (.text data)
  | comment (data : String) : WritesNode [.comment data] (.comment data)
  | placeholder : WritesNode [.placeholder] .placeholder
  /-- A tag that closes itself, whatever name its end carries. -/
  | selfClosed {ts : List Token} {as : List Attribute} (name ending : String)
      (has : WritesAttributes ts as) :
      WritesNode (.startOpen name :: ts ++ [.elementEnd ending]) (.element name as [])
  /-- A void element is its start tag. -/
  | void {ts : List Token} {as : List Attribute} {name : String} (closing : String)
      (hvoid : isVoidElement name = true) (has : WritesAttributes ts as) :
      WritesNode (.startOpen name :: ts ++ [.startClose closing]) (.element name as [])
  | element {ts us : List Token} {as : List Attribute} {children : List Node} {name : String}
      (closing : String) (hvoid : isVoidElement name = false) (has : WritesAttributes ts as)
      (hchildren : WritesNodes us children) :
      WritesNode (.startOpen name :: ts ++ .startClose closing :: us ++ [.elementEnd name])
        (.element name as children)

/-- Tokens that write nodes. The end of a void element adds nothing. -/
inductive WritesNodes : List Token → List Node → Prop
  | nil : WritesNodes [] []
  | cons {ts us : List Token} {n : Node} {ns : List Node} (hnode : WritesNode ts n)
      (hrest : WritesNodes us ns) : WritesNodes (ts ++ us) (n :: ns)
  | voidEnd {us : List Token} {ns : List Node} {name : String}
      (hvoid : isVoidElement name = true) (hrest : WritesNodes us ns) :
      WritesNodes (.elementEnd name :: us) ns

end

/-! ## What is written -/

/-- The tokens of the pieces of a value. -/
def ValuePart.token : ValuePart → Token
  | literal text => .attributeValue text
  | placeholder => .placeholder

/-- The tokens of an attribute. -/
def Attribute.tokens (a : Attribute) : List Token :=
  .attributeName a.name :: a.value.map ValuePart.token

def Attribute.tokensAll (as : List Attribute) : List Token :=
  as.flatMap Attribute.tokens

/-- Whether a token is more than an end. -/
def Token.isPiece : Token → Bool
  | startClose _ | elementEnd _ => false
  | _ => true

mutual

/-- What a node holds, in the order in which it is written. -/
def Node.pieces : Node → List Token
  | .text data => [.text data]
  | .comment data => [.comment data]
  | .placeholder => [.placeholder]
  | .element name as children =>
      .startOpen name :: Attribute.tokensAll as ++ Node.piecesAll children

def Node.piecesAll : List Node → List Token
  | [] => []
  | n :: ns => n.pieces ++ Node.piecesAll ns

end

mutual

/-- No void element of a node has children. -/
def Node.VoidsEmpty : Node → Prop
  | .element name _ children =>
      (isVoidElement name = true → children = []) ∧ Node.VoidsEmptyAll children
  | _ => True

def Node.VoidsEmptyAll : List Node → Prop
  | [] => True
  | n :: ns => n.VoidsEmpty ∧ Node.VoidsEmptyAll ns

end

theorem WritesValue.tokens_eq {ts : List Token} {parts : List ValuePart}
    (h : WritesValue ts parts) : ts = parts.map ValuePart.token := by
  induction h with
  | nil => rfl
  | literal text _ ih => rw [ih]; rfl
  | placeholder _ ih => rw [ih]; rfl

theorem WritesAttributes.tokens_eq {ts : List Token} {as : List Attribute}
    (h : WritesAttributes ts as) : ts = Attribute.tokensAll as := by
  induction h with
  | nil => rfl
  | cons name hvalue _ ih =>
      rw [ih, hvalue.tokens_eq]
      rfl

theorem writesValue_tokens (parts : List ValuePart) :
    WritesValue (parts.map ValuePart.token) parts := by
  induction parts with
  | nil => exact .nil
  | cons part parts ih =>
      cases part with
      | literal text => exact .literal text ih
      | placeholder => exact .placeholder ih

theorem writesAttributes_tokens (as : List Attribute) :
    WritesAttributes (Attribute.tokensAll as) as := by
  induction as with
  | nil => exact .nil
  | cons a as ih => exact .cons a.name (writesValue_tokens a.value) ih

theorem filter_isPiece_tokensAll (as : List Attribute) :
    (Attribute.tokensAll as).filter Token.isPiece = Attribute.tokensAll as := by
  rw [List.filter_eq_self]
  intro t ht
  obtain ⟨a, -, ht⟩ := List.mem_flatMap.mp ht
  rcases List.mem_cons.mp ht with rfl | ht
  · rfl
  · obtain ⟨part, -, rfl⟩ := List.mem_map.mp ht
    cases part <;> rfl

theorem WritesAttributes.filter_isPiece {ts : List Token} {as : List Attribute}
    (h : WritesAttributes ts as) (name : String) :
    (Token.startOpen name :: ts).filter Token.isPiece =
      .startOpen name :: Attribute.tokensAll as := by
  rw [List.filter_cons_of_pos rfl, h.tokens_eq, filter_isPiece_tokensAll]

mutual

/-- Nothing that tokens hold is dropped, doubled or moved. -/
theorem WritesNode.pieces_eq {ts : List Token} {n : Node} :
    WritesNode ts n → ts.filter Token.isPiece = n.pieces
  | .text _ => rfl
  | .comment _ => rfl
  | .placeholder => rfl
  | .selfClosed name _ has => by
      rw [List.filter_append, has.filter_isPiece name]
      rfl
  | .void _ _ has => by
      rw [List.filter_append, has.filter_isPiece]
      rfl
  | .element closing _ has hchildren => by
      rw [List.filter_append, List.filter_append, has.filter_isPiece,
        List.filter_cons_of_neg (by simp [Token.isPiece]), hchildren.pieces_eq]
      exact List.append_nil _

/-- Nothing that tokens hold is dropped, doubled or moved. -/
theorem WritesNodes.pieces_eq {ts : List Token} {ns : List Node} :
    WritesNodes ts ns → ts.filter Token.isPiece = Node.piecesAll ns
  | .nil => rfl
  | .cons hnode hrest => by
      rw [List.filter_append, hnode.pieces_eq, hrest.pieces_eq]
      rfl
  | .voidEnd _ hrest => hrest.pieces_eq

end

mutual

theorem WritesNode.voidsEmpty {ts : List Token} {n : Node} : WritesNode ts n → n.VoidsEmpty
  | .text _ | .comment _ | .placeholder => trivial
  | .selfClosed .. | .void .. => ⟨fun _ => rfl, trivial⟩
  | .element _ hvoid _ hchildren => by
      refine ⟨?_, hchildren.voidsEmpty⟩
      intro hname
      rw [hvoid] at hname
      cases hname

theorem WritesNodes.voidsEmpty {ts : List Token} {ns : List Node} :
    WritesNodes ts ns → Node.VoidsEmptyAll ns
  | .nil => trivial
  | .cons hnode hrest => ⟨hnode.voidsEmpty, hrest.voidsEmpty⟩
  | .voidEnd _ hrest => hrest.voidsEmpty

end

/-! ## Adding at the end -/

theorem WritesAttributes.append {ts us : List Token} {as more : List Attribute}
    (h : WritesAttributes ts as) (hmore : WritesAttributes us more) :
    WritesAttributes (ts ++ us) (as ++ more) := by
  induction h with
  | nil => exact hmore
  | cons name hvalue _ ih =>
      rw [List.append_assoc]
      exact .cons name hvalue ih

theorem WritesNodes.append {ts us : List Token} {ns more : List Node}
    (h : WritesNodes ts ns) (hmore : WritesNodes us more) :
    WritesNodes (ts ++ us) (ns ++ more) := by
  match h with
  | .nil => exact hmore
  | .cons hnode hrest =>
      rw [List.append_assoc]
      exact .cons hnode (hrest.append hmore)
  | .voidEnd hvoid hrest => exact .voidEnd hvoid (hrest.append hmore)

theorem WritesNodes.snoc {ts us : List Token} {ns : List Node} {n : Node}
    (h : WritesNodes ts ns) (hnode : WritesNode us n) :
    WritesNodes (ts ++ us) (ns ++ [n]) := by
  apply h.append
  rw [← List.append_nil us]
  exact .cons hnode .nil

end LiveMarkup
