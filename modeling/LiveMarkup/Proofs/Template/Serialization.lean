import LiveMarkup.Proofs.Document.Reachable
import LiveMarkup.Proofs.Markup.Writing
import LiveMarkup.Proofs.Text.References
import LiveMarkup.Template.Compile

/-!
# Compiling the markup of a document

The markup of a forest writes nodes: text and values escaped, each value
between double quotes, no end tag for a void element. Where the forest can be
represented, these nodes are well-formed, so they are read back; and compiling
them undoes the escaping. What markup does not write is lost: attributes of
text and comments.
-/

namespace LiveMarkup

open Scan

/-! ## The nodes that markup writes -/

/-- Attributes as they are written, each value escaped. -/
def Attributes.escaped (as : Attributes) : List Attribute :=
  as.map fun a => ⟨a.1, [.literal (Entity.encodeAttribute a.2)]⟩

namespace Tree

mutual

/-- The nodes that the markup of a tree writes. -/
def nodes : Tree → List Node
  | node (.text data) _ _ => [.text (Entity.encodeText data)]
  | node (.comment data) _ _ => [.comment data]
  | node .fragment _ ts => nodesAll ts
  | node (.element tag) as ts =>
      [.element tag as.escaped (if isVoidElement tag then [] else nodesAll ts)]

def nodesAll : List Tree → List Node
  | [] => []
  | t :: ts => nodes t ++ nodesAll ts

end

end Tree

theorem spells_markup (as : Attributes) :
    SpellsAttributes (verbatim as.markup.toList) as.escaped := by
  induction as with
  | nil => exact .nil
  | cons a as ih =>
      have hquotes : Quotes '"' [.literal (Entity.encodeAttribute a.2)] := by
        refine ⟨Or.inl rfl, ?_⟩
        intro text htext
        cases List.mem_singleton.mp htext
        exact Entity.quote_notMem_encodeAttribute a.2
      have hquoted := SpellsAttributes.quoted a.1 (List.cons_ne_nil _ _) hquotes ih
      simpa [Attributes.markup, Attributes.escaped, verbatim, ValuePart.marks] using hquoted

mutual

theorem spells_html : (t : Tree) → SpellsNodes (verbatim t.html.toList) t.nodes
  | .node (.text data) _ _ => .single (.text (Entity.encodeText data))
  | .node (.comment data) _ _ => by
      have hcomment := SpellsNodes.single (.comment data)
      simpa [Tree.html, Tree.nodes] using hcomment
  | .node .fragment _ ts => spells_htmlAll ts
  | .node (.element tag) as ts => by
      have has := spells_markup as
      cases hvoid : isVoidElement tag with
      | true =>
          have hnode := SpellsNodes.single (.void hvoid has)
          simpa [Tree.html, Tree.nodes, hvoid, verbatim] using hnode
      | false =>
          have hnode := SpellsNodes.single (.element hvoid has (spells_htmlAll ts))
          simpa [Tree.html, Tree.nodes, hvoid, verbatim] using hnode

theorem spells_htmlAll :
    (ts : List Tree) → SpellsNodes (verbatim (Tree.htmlAll ts).toList) (Tree.nodesAll ts)
  | [] => .nil
  | t :: ts => by
      rw [Tree.htmlAll, String.toList_append, verbatim_append]
      exact (spells_html t).append (spells_htmlAll ts)

end

/-! ## Forests that markup can represent -/

namespace Tree

/-- Whether a tree is a text node. -/
def isText : Tree → Bool
  | node (.text _) _ _ => true
  | _ => false

/-- A tree and what comes after it are not both text. -/
def Apart (t : Tree) (after : List Tree) : Prop :=
  ∀ t' ∈ after.head?, ¬ (t.isText = true ∧ t'.isText = true)

mutual

/-- A tree that markup can represent. -/
def Representable : Tree → Prop
  | node (.text data) _ ts => data ≠ "" ∧ ts = []
  | node (.comment data) _ ts =>
      '&' ∉ data.toList ∧ ¬ ['-', '-', '>'] <:+: data.toList ∧ ts = []
  | node .fragment _ ts => RepresentableAll ts
  | node (.element tag) as ts =>
      ElementName tag.toList ∧
        (∀ a ∈ as, AttributeName a.1.toList ∧ a.1.toList.head? ≠ some '.') ∧
        (isVoidElement tag = true → ts = []) ∧ RepresentableAll ts

def RepresentableAll : List Tree → Prop
  | [] => True
  | t :: ts => t.Representable ∧ t.Apart ts ∧ RepresentableAll ts

end

mutual

/-- A tree whose markup says what it holds, but for where one text ends and the next one
begins. -/
def Legible : Tree → Prop
  | node (.text _) _ ts => ts = []
  | node (.comment data) _ ts =>
      Entity.decode data = data ∧ ¬ ['-', '-', '>'] <:+: data.toList ∧ ts = []
  | node .fragment _ _ => False
  | node (.element tag) as ts =>
      ElementName tag.toList ∧
        (∀ a ∈ as, AttributeName a.1.toList ∧ a.1.toList.head? ≠ some '.') ∧ as.keys.Nodup ∧
        (isVoidElement tag = true → ts = []) ∧ LegibleAll ts

/-- A forest whose markup says what it holds, but for where one text ends and the next one
begins. -/
def LegibleAll : List Tree → Prop
  | [] => True
  | t :: ts => t.Legible ∧ LegibleAll ts

end

mutual

/-- No text of a tree is empty or stands next to another one. -/
def Separate : Tree → Prop
  | node (.text data) _ _ => data ≠ ""
  | node _ _ ts => SeparateAll ts

def SeparateAll : List Tree → Prop
  | [] => True
  | t :: ts => t.Separate ∧ t.Apart ts ∧ SeparateAll ts

end

theorem RepresentableAll.legible {ts : List Tree} (h : RepresentableAll ts)
    (hdistinct : DistinctAll ts) (hsolid : isSolidAll ts = true) :
    LegibleAll ts ∧ SeparateAll ts := by
  induction ts using forestInduction with
  | nil => exact ⟨trivial, trivial⟩
  | cons kind as children rest ihChildren ihRest =>
      obtain ⟨htree, happart, hrest⟩ := h
      obtain ⟨⟨has, hdistinctUnder⟩, hdistinctBeside⟩ := hdistinct
      simp only [isSolidAll, isSolid, Bool.and_eq_true] at hsolid
      obtain ⟨⟨hkind, hunder⟩, hbeside⟩ := hsolid
      obtain ⟨hlegible, hseparate⟩ := ihRest hrest hdistinctBeside hbeside
      cases kind with
      | text data => exact ⟨⟨htree.2, hlegible⟩, htree.1, happart, hseparate⟩
      | comment data =>
          obtain ⟨hplain, hend, rfl⟩ := htree
          exact ⟨⟨⟨Entity.decode_plain hplain, hend, rfl⟩, hlegible⟩, trivial, happart, hseparate⟩
      | fragment => cases hkind
      | element tag =>
          obtain ⟨htag, hnames, hvoid, hchildren⟩ := htree
          obtain ⟨hown, hown'⟩ := ihChildren hchildren hdistinctUnder hunder
          exact ⟨⟨⟨htag, hnames, has, hvoid, hown⟩, hlegible⟩, hown', happart, hseparate⟩

mutual

/-- What markup shows of a tree: all but the attributes of what is no element. -/
def shown : Tree → Tree
  | node (.element tag) as ts => node (.element tag) as (shownAll ts)
  | node kind _ ts => node kind [] (shownAll ts)

def shownAll : List Tree → List Tree
  | [] => []
  | t :: ts => shown t :: shownAll ts

end

theorem Legible.nodes_eq {t : Tree} (h : t.Legible) :
    ∃ n, t.nodes = [n] ∧ n.isText = t.isText := by
  obtain ⟨kind, as, ts⟩ := t
  cases kind with
  | text data => exact ⟨_, rfl, rfl⟩
  | comment data => exact ⟨_, rfl, rfl⟩
  | fragment => cases h
  | element tag => exact ⟨_, rfl, rfl⟩

theorem apart_nodesAll {t : Tree} {n : Node} {ts : List Tree} (h : LegibleAll ts)
    (htext : n.isText = t.isText) (happart : t.Apart ts) :
    n.Apart (nodesAll ts) := by
  cases ts with
  | nil =>
      intro n' hn'
      cases hn'
  | cons t' ts =>
      obtain ⟨n', hnodes, htext'⟩ := Legible.nodes_eq h.1
      rw [nodesAll, hnodes]
      intro m hm
      cases hm
      rw [htext, htext']
      exact happart t' rfl

theorem wellFormed_escaped {as : Attributes} (has : ∀ a ∈ as, AttributeName a.1.toList) :
    ∀ a ∈ as.escaped, a.WellFormed := by
  intro a ha
  obtain ⟨b, hb, rfl⟩ := List.mem_map.mp ha
  constructor
  · exact has b hb
  · exact List.isChain_singleton _
  · intro hempty
    rw [← List.mem_singleton.mp hempty]
  · refine ⟨'"', Or.inl rfl, ?_⟩
    intro text htext
    cases List.mem_singleton.mp htext
    exact Entity.quote_notMem_encodeAttribute b.2

theorem LegibleAll.wellFormed {ts : List Tree} (h : LegibleAll ts)
    (hseparate : SeparateAll ts) : Node.WellFormedAll (nodesAll ts) := by
  induction ts using forestInduction with
  | nil => trivial
  | cons kind as children rest ihChildren ihRest =>
      obtain ⟨htree, hrest⟩ := h
      obtain ⟨hown, happart, hothers⟩ := hseparate
      have hnext := ihRest hrest hothers
      cases kind with
      | text data =>
          refine ⟨⟨?_, ?_⟩, apart_nodesAll hrest rfl happart, hnext⟩
          · exact Entity.encodeText_ne hown
          · exact Entity.lt_notMem_encodeText data
      | comment data => exact ⟨htree.2.1, apart_nodesAll hrest rfl happart, hnext⟩
      | fragment => cases htree
      | element tag =>
          obtain ⟨htag, has, -, hvoid, hchildren⟩ := htree
          refine ⟨⟨htag, ?_, ?_, ?_⟩, apart_nodesAll hrest rfl happart, hnext⟩
          · exact wellFormed_escaped fun a ha => (has a ha).1
          · intro hname
            rw [if_pos hname]
          · cases isVoidElement tag with
            | true => trivial
            | false => exact ihChildren hchildren hown

end Tree

/-! ## Compiling undoes escaping -/

namespace Compile

theorem targetOf_attribute {name : String} (h : name.toList.head? ≠ some '.') :
    targetOf name = (.attribute, name) := by
  unfold targetOf
  split
  · rename_i heq
    rw [heq] at h
    exact absurd rfl h
  · rfl

theorem attributes_escaped (path : NodePath) (next : Nat) {as : Attributes}
    (hnames : ∀ a ∈ as, a.1.toList.head? ≠ some '.') (hdistinct : as.keys.Nodup) :
    attributes path next as.escaped = ⟨as, [], [], next⟩ := by
  have hfold : ∀ (as written : Attributes), (∀ a ∈ as, a.1.toList.head? ≠ some '.') →
      as.escaped.foldl (addAttribute path) ⟨written, [], [], next⟩ =
        ⟨as.foldl (fun acc a => Attributes.write a.1 a.2 acc) written, [], [], next⟩ := by
    intro as
    induction as with
    | nil => exact fun _ _ => rfl
    | cons a as ih =>
        intro written hnames
        have hstep : addAttribute path ⟨written, [], [], next⟩
            ⟨a.1, [.literal (Entity.encodeAttribute a.2)]⟩ =
              ⟨Attributes.write a.1 a.2 written, [], [], next⟩ := by
          simp [addAttribute, targetOf_attribute (hnames a List.mem_cons_self), literal?,
            Entity.decode_encodeAttribute]
        rw [Attributes.escaped, List.map_cons, List.foldl_cons, hstep, List.foldl_cons]
        exact ih _ fun b hb => hnames b (List.mem_cons_of_mem a hb)
  have hnodup : (Attributes.keys ([] ++ as)).Nodup := hdistinct
  have hwrite : as.foldl (fun acc a => Attributes.write a.1 a.2 acc) [] = as :=
    Attributes.foldl_write hnodup
  unfold attributes
  rw [hfold as [] hnames, hwrite]

theorem nodes_nodesAll {ts : List Tree} (h : Tree.LegibleAll ts) (path : NodePath)
    (index next : Nat) :
    nodes path index next (Tree.nodesAll ts) = ⟨Tree.shownAll ts, [], [], [], next⟩ := by
  induction ts using Tree.forestInduction generalizing path index next with
  | nil => rfl
  | cons kind as children rest ihChildren ihRest =>
      obtain ⟨htree, hrest⟩ := h
      have hothers := fun index => ihRest hrest path index next
      cases kind with
      | text data =>
          cases htree
          simp [Tree.nodesAll, Tree.nodes, nodes, node, hothers, Entity.decode_encodeText,
            Tree.shownAll, Tree.shown, Tree.text]
      | comment data =>
          obtain ⟨hdecode, -, rfl⟩ := htree
          simp [Tree.nodesAll, Tree.nodes, nodes, node, hothers, hdecode,
            Tree.shownAll, Tree.shown, Tree.comment]
      | fragment => cases htree
      | element tag =>
          obtain ⟨-, hnames, has, hvoid, hchildren⟩ := htree
          have hown := attributes_escaped (path ++ [index]) next (fun a ha => (hnames a ha).2) has
          have hwritten : (if isVoidElement tag = true then [] else Tree.nodesAll children) =
              Tree.nodesAll children := by
            split
            · rename_i hname
              rw [hvoid hname]
              rfl
            · rfl
          have hinner := ihChildren hchildren (path ++ [index]) 0 next
          simp [Tree.nodesAll, Tree.nodes, nodes, node, hwritten, hown, hinner, hothers,
            Tree.shownAll, Tree.shown]

end Compile

/-- Compiling the markup of a legible forest in which texts are separate. -/
theorem Template.ofSegments_legible {ts : List Tree} (h : Tree.LegibleAll ts)
    (hseparate : Tree.SeparateAll ts) :
    Template.ofSegments [Tree.htmlAll ts] = .ok ⟨Tree.shownAll ts, [], [], [], 0⟩ := by
  have hwell := h.wellFormed hseparate
  have htokens := (spells_htmlAll ts).ofSegments hwell
  rw [segmentsOf_verbatim, String.ofList_toList] at htokens
  have hnodes := (writes_tokensAll _ hwell.voidsEmpty).ofTokens
  unfold Template.ofSegments
  rw [htokens]
  show (Node.ofTokens _ >>= _) = _
  rw [hnodes]
  show Except.ok (Template.ofNodes (Tree.nodesAll ts)) = _
  rw [Template.ofNodes, Compile.nodes_nodesAll h]

/-- Compiling the markup of a representable forest. -/
theorem Template.ofSegments_htmlAll {ts : List Tree} (h : Tree.RepresentableAll ts)
    (hdistinct : Tree.DistinctAll ts) (hsolid : Tree.isSolidAll ts = true) :
    Template.ofSegments [Tree.htmlAll ts] = .ok ⟨Tree.shownAll ts, [], [], [], 0⟩ := by
  obtain ⟨hlegible, hseparate⟩ := h.legible hdistinct hsolid
  exact Template.ofSegments_legible hlegible hseparate

namespace Document

/-- Compiling the markup under a node of a reachable document gives back what stands there:
no placeholders and no bindings, every kind, tag, attribute of an element and piece of data
in its place. -/
theorem Reachable.compiles {d : Document} (h : d.Reachable) (f : NodeId)
    (hf : Tree.RepresentableAll (d.forest f)) :
    Template.ofSegments [d.innerHtml f] =
      .ok { forest := Tree.shownAll (d.forest f)
            properties := []
            attributes := []
            contents := []
            placeholderCount := 0 } := by
  have horder := h.orderly
  exact Template.ofSegments_htmlAll hf (horder.distinct_forest f) (horder.solid_forest f)

/-- A fragment with a paragraph, a value and a text that have to be escaped. -/
def escapedParagraph : Document :=
  let d := (empty.create .fragment).2
  let d := (d.create (.element "p")).2.setAttribute 1 "title" "\""
  let d := (d.create (.text "<")).2
  (d.append 1 2).append 0 1

theorem Reachable.compiles_escapedParagraph :
    Template.ofSegments ["<p title=\"&quot;\">&lt;</p>"] =
      .ok ⟨[.node (.element "p") [("title", "\"")] [.text "<"]], [], [], [], 0⟩ := by
  have hreachable : escapedParagraph.Reachable := by
    refine .insertBefore 0 none rfl (.insertBefore 1 none rfl (.create _ ?_))
    exact .setAttribute 1 "title" "\"" (.create _ (.create _ .empty))
  have hforest : escapedParagraph.forest 0 =
      [.node (.element "p") [("title", "\"")] [.text "<"]] := by rfl
  have hp : ElementName "p".toList := by
    constructor <;> simp [isElementNameChar, isTagBlank, isWhiteSpace]
  have htitle : AttributeName "title".toList := by
    constructor <;> simp [isAttributeNameChar, isTagBlank]
  have hrepresentable : Tree.RepresentableAll (escapedParagraph.forest 0) := by
    rw [hforest]
    refine ⟨⟨hp, ?_, ?_, ⟨by decide, rfl⟩, ?_, trivial⟩, ?_, trivial⟩
    · intro a ha
      cases List.mem_singleton.mp ha
      exact ⟨htitle, by decide⟩
    · intro hvoid
      exact absurd hvoid (by decide)
    all_goals
      intro t' ht'
      cases ht'
  have hcompiles := Reachable.compiles hreachable 0 hrepresentable
  rw [hforest] at hcompiles
  exact hcompiles

/-- A fragment with a text to which an attribute was given. -/
def titledText : Document :=
  (((empty.create .fragment).2.create (.text "x")).2.setAttribute 1 "title" "y").append 0 1

/-- Markup has no place for an attribute of a text. -/
theorem titledText_loses_title :
    titledText.Reachable ∧ Tree.RepresentableAll (titledText.forest 0) ∧
      ∃ t, Template.ofSegments [titledText.innerHtml 0] = .ok t ∧
        t.forest ≠ titledText.forest 0 := by
  have hreachable : titledText.Reachable :=
    .insertBefore 0 none rfl (.setAttribute 1 "title" "y" (.create _ (.create _ .empty)))
  have hforest : titledText.forest 0 = [.node (.text "x") [("title", "y")] []] := by rfl
  have hrepresentable : Tree.RepresentableAll (titledText.forest 0) := by
    rw [hforest]
    refine ⟨⟨by decide, rfl⟩, ?_, trivial⟩
    intro t' ht'
    cases ht'
  have horder := hreachable.orderly
  have hcompiles := Template.ofSegments_htmlAll hrepresentable (horder.distinct_forest 0)
    (horder.solid_forest 0)
  refine ⟨hreachable, hrepresentable, _, hcompiles, ?_⟩
  rw [hforest]
  decide

end Document

end LiveMarkup
