import LiveMarkup.Proofs.Markup.Boundaries
import LiveMarkup.Proofs.Template.Numbering
import LiveMarkup.Proofs.Template.Serialization
import LiveMarkup.Proofs.Template.Tables

/-!
# Compiling static markup again

The static markup of a template is the markup of another template that writes
the same. Names that were scanned can be written, values and texts are escaped,
and neighbouring texts, which the second template has as one, are written alike.
Comments are not escaped, so one that is decoded a second time or that holds the
end of a comment is another one afterwards.
-/

namespace LiveMarkup

open Scan

/-! ## Neighbouring texts -/

namespace Tree

/-- A tree in front of a forest. A text is joined to the text that stands there, and an
empty text is left out. -/
def joinTo : Tree → List Tree → List Tree
  | node (.text data) _ _, node (.text more) _ _ :: rest => text (data ++ more) :: rest
  | node (.text data) _ _, rest => if data = "" then rest else text data :: rest
  | t, rest => t :: rest

mutual

/-- A tree with neighbouring texts joined. -/
def joined : Tree → Tree
  | node kind as ts => node kind as (joinedAll ts)

def joinedAll : List Tree → List Tree
  | [] => []
  | t :: ts => joinTo t.joined (joinedAll ts)

end

/-- What joining does at the front: a text grows, appears or is dropped, and anything else is
put there. -/
theorem joinTo_cases (kind : NodeKind) (as : Attributes) (us ts : List Tree) :
    (∃ data, kind = .text data ∧
      ((∃ more as' us' rest, ts = node (.text more) as' us' :: rest ∧
          joinTo (node kind as us) ts = text (data ++ more) :: rest) ∨
        (data = "" ∧ joinTo (node kind as us) ts = ts) ∨
        (data ≠ "" ∧ (∀ t ∈ ts.head?, t.isText = false) ∧
          joinTo (node kind as us) ts = text data :: ts))) ∨
      ((node kind as us).isText = false ∧
        joinTo (node kind as us) ts = node kind as us :: ts) := by
  cases kind with
  | comment | fragment | element => exact Or.inr ⟨rfl, rfl⟩
  | text data =>
      refine Or.inl ⟨data, rfl, ?_⟩
      by_cases hdata : data = ""
      · cases ts with
        | nil => exact Or.inr (Or.inl ⟨hdata, by simp [joinTo, hdata]⟩)
        | cons t rest =>
            obtain ⟨kind', as', us'⟩ := t
            cases kind' with
            | text more => exact Or.inl ⟨more, as', us', rest, rfl, rfl⟩
            | comment | fragment | element =>
                exact Or.inr (Or.inl ⟨hdata, by simp [joinTo, hdata]⟩)
      · cases ts with
        | nil => exact Or.inr (Or.inr ⟨hdata, nofun, by simp [joinTo, hdata]⟩)
        | cons t rest =>
            obtain ⟨kind', as', us'⟩ := t
            cases kind' with
            | text more => exact Or.inl ⟨more, as', us', rest, rfl, rfl⟩
            | comment | fragment | element =>
                refine Or.inr (Or.inr ⟨hdata, ?_, by simp [joinTo, hdata]⟩)
                intro t ht
                cases ht
                rfl

theorem htmlAll_joinTo (t : Tree) (ts : List Tree) :
    htmlAll (joinTo t ts) = t.html ++ htmlAll ts := by
  obtain ⟨kind, as, us⟩ := t
  obtain ⟨data, rfl, ⟨more, as', us', rest, rfl, heq⟩ | ⟨rfl, heq⟩ | ⟨-, -, heq⟩⟩ | ⟨-, heq⟩ :=
    joinTo_cases kind as us ts
  · rw [heq]
    simp [htmlAll, html, text, Entity.encodeText_append, String.append_assoc]
  · rw [heq]
    simp [html, Entity.encodeText]
  · rw [heq]
    rfl
  · rw [heq]
    rfl

/-- Joined texts are written like the texts. -/
theorem htmlAll_joinedAll (ts : List Tree) : htmlAll (joinedAll ts) = htmlAll ts := by
  induction ts using forestInduction with
  | nil => rfl
  | cons kind as children rest ihChildren ihRest =>
      rw [joinedAll, htmlAll_joinTo, ihRest, joined, htmlAll]
      cases kind <;> simp only [html, ihChildren]

theorem LegibleAll.joinTo {t : Tree} {ts : List Tree} (ht : t.Legible) (hts : LegibleAll ts) :
    LegibleAll (joinTo t ts) := by
  obtain ⟨kind, as, us⟩ := t
  obtain ⟨data, rfl, ⟨more, as', us', rest, rfl, heq⟩ | ⟨rfl, heq⟩ | ⟨-, -, heq⟩⟩ | ⟨-, heq⟩ :=
    joinTo_cases kind as us ts
  · rw [heq]
    exact ⟨rfl, hts.2⟩
  · rw [heq]
    exact hts
  · rw [heq]
    exact ⟨rfl, hts⟩
  · rw [heq]
    exact ⟨ht, hts⟩

/-- Joining texts keeps a forest legible. -/
theorem LegibleAll.joinedAll {ts : List Tree} (h : LegibleAll ts) : LegibleAll (joinedAll ts) := by
  induction ts using forestInduction with
  | nil => trivial
  | cons kind as children rest ihChildren ihRest =>
      obtain ⟨htree, hrest⟩ := h
      refine LegibleAll.joinTo ?_ (ihRest hrest)
      cases kind with
      | text data =>
          cases htree
          rfl
      | comment data =>
          obtain ⟨hdecode, hend, rfl⟩ := htree
          exact ⟨hdecode, hend, rfl⟩
      | fragment => cases htree
      | element tag =>
          obtain ⟨htag, hnames, has, hvoid, hchildren⟩ := htree
          refine ⟨htag, hnames, has, ?_, ihChildren hchildren⟩
          intro hname
          rw [hvoid hname]
          rfl

theorem SeparateAll.joinTo {t : Tree} {ts : List Tree} (ht : t.isText = false → t.Separate)
    (hts : SeparateAll ts) : SeparateAll (joinTo t ts) := by
  obtain ⟨kind, as, us⟩ := t
  obtain ⟨data, rfl, ⟨more, as', us', rest, rfl, heq⟩ | ⟨rfl, heq⟩ | ⟨hdata, hhead, heq⟩⟩ |
      ⟨htext, heq⟩ := joinTo_cases kind as us ts
  · rw [heq]
    obtain ⟨hmore, happart, hrest⟩ := hts
    refine ⟨?_, happart, hrest⟩
    intro hempty
    exact hmore (String.append_eq_empty_iff.mp hempty).2
  · rw [heq]
    exact hts
  · rw [heq]
    refine ⟨hdata, ?_, hts⟩
    intro t' ht' hboth
    rw [hhead t' ht'] at hboth
    cases hboth.2
  · rw [heq]
    refine ⟨ht htext, ?_, hts⟩
    intro t' ht' hboth
    rw [htext] at hboth
    cases hboth.1

/-- Joined texts are separate. -/
theorem separateAll_joinedAll (ts : List Tree) : SeparateAll (joinedAll ts) := by
  induction ts using forestInduction with
  | nil => trivial
  | cons kind as children rest ihChildren ihRest =>
      refine SeparateAll.joinTo ?_ ihRest
      intro htext
      cases kind with
      | text data => cases htext
      | comment | fragment | element => exact ihChildren

/-- What markup does not show is not written. -/
theorem htmlAll_shownAll (ts : List Tree) : htmlAll (shownAll ts) = htmlAll ts := by
  induction ts using forestInduction with
  | nil => rfl
  | cons kind as children rest ihChildren ihRest =>
      cases kind <;> simp only [shownAll, shown, htmlAll, html, ihChildren, ihRest]

end Tree

/-! ## What nodes are compiled to -/

/-- What stays as it is when the markup of a node is read again: a comment that decoding
leaves alone and that does not end early, and the name of an element that is no beginning of
a comment and that trimming leaves alone. -/
def NodeKind.Lasting : NodeKind → Prop
  | comment data => Entity.decode data = data ∧ ¬ ['-', '-', '>'] <:+: data.toList
  | element tag =>
      ¬ ['!', '-', '-'] <+: tag.toList ∧ (∀ c ∈ tag.toList.head?, isWhiteSpace c = false) ∧
        ∀ c ∈ tag.toList.getLast?, isWhiteSpace c = false
  | text _ | fragment => True

instance : DecidablePred NodeKind.Lasting
  | .comment data =>
      inferInstanceAs (Decidable (Entity.decode data = data ∧ ¬ ['-', '-', '>'] <:+: data.toList))
  | .element tag =>
      -- Named, since the instance that goes through all characters is found first.
      letI (o : Option Char) : Decidable (∀ c ∈ o, isWhiteSpace c = false) :=
        o.decidableForallMem
      inferInstanceAs (Decidable (¬ ['!', '-', '-'] <+: tag.toList ∧
        (∀ c ∈ tag.toList.head?, isWhiteSpace c = false) ∧
          ∀ c ∈ tag.toList.getLast?, isWhiteSpace c = false))
  | .text _ | .fragment => inferInstanceAs (Decidable True)

namespace Tree

mutual

/-- The kinds of the nodes of a tree. -/
def kinds : Tree → List NodeKind
  | node kind _ ts => kind :: kindsAll ts

def kindsAll : List Tree → List NodeKind
  | [] => []
  | t :: ts => t.kinds ++ kindsAll ts

end

end Tree

/-- Names that were scanned, of nodes that were read. -/
theorem Template.spelt_pieces {segments : List String} {ts : List Token} {ns : List Node}
    (htokens : Token.ofSegments segments = .ok ts) (hnodes : Node.ofTokens ts = .ok ns) :
    ∀ t ∈ Node.piecesAll ns, t.Spelt := by
  intro t ht
  rw [← (writes_of_ofTokens hnodes).pieces_eq] at ht
  exact Token.spelt_ofSegments htokens t (List.mem_of_mem_filter ht)

theorem Attribute.spelt_key? {as : List Attribute} (has : ∀ t ∈ tokensAll as, t.Spelt)
    {a : Attribute} (ha : a ∈ as) {name : String} (h : a.key? = some name) :
    AttributeName name.toList ∧ name.toList.head? ≠ some '.' := by
  obtain ⟨rfl, hpoint⟩ := a.name_of_key? h
  exact ⟨has (.attributeName a.name) (List.mem_flatMap.mpr ⟨a, ha, List.mem_cons_self⟩), hpoint⟩

namespace Compile

theorem written_spelt (path : NodePath) (next : Nat) {as : List Attribute}
    (has : ∀ t ∈ Attribute.tokensAll as, t.Spelt) :
    ∀ a ∈ (attributes path next as).written,
      AttributeName a.1.toList ∧ a.1.toList.head? ≠ some '.' := by
  intro a ha
  have hkey : a.1 ∈ Attributes.keys (attributes path next as).written := List.mem_map_of_mem ha
  rw [keys_written, Attributes.mem_foldl_named] at hkey
  obtain ⟨b, hb, hname⟩ := List.mem_filterMap.mp (hkey.resolve_left List.not_mem_nil)
  exact Attribute.spelt_key? has (List.mem_of_mem_filter hb) hname

/-- Nodes that were scanned and read are compiled to a legible forest if what is in it
lasts. -/
theorem legible_forest (path : NodePath) (index next : Nat) {ns : List Node}
    (hspelt : ∀ t ∈ Node.piecesAll ns, t.Spelt) (hvoids : Node.VoidsEmptyAll ns)
    (hlasting : ∀ k ∈ Tree.kindsAll (nodes path index next ns).forest, k.Lasting) :
    Tree.LegibleAll (nodes path index next ns).forest := by
  induction ns using Node.forestInduction generalizing path index next with
  | nil => trivial
  | text data rest ih =>
      simp only [Node.piecesAll, List.forall_mem_append, nodes, node, Tree.kindsAll,
        List.singleton_append] at hspelt hlasting ⊢
      exact ⟨rfl, ih path (index + 1) next hspelt.2 hvoids.2 hlasting.2⟩
  | comment data rest ih =>
      simp only [Node.piecesAll, List.forall_mem_append, nodes, node, Tree.kindsAll,
        List.singleton_append] at hspelt hlasting ⊢
      obtain ⟨hdecode, hend⟩ := hlasting.1 _ List.mem_cons_self
      exact ⟨⟨hdecode, hend, rfl⟩, ih path (index + 1) next hspelt.2 hvoids.2 hlasting.2⟩
  | placeholder rest ih =>
      simp only [Node.piecesAll, List.forall_mem_append, nodes, node, Tree.kindsAll,
        List.cons_append, List.nil_append] at hspelt hlasting ⊢
      obtain ⟨hdecode, hend⟩ := hlasting.1 _ List.mem_cons_self
      have hmarker : Tree.Legible (.comment "") := ⟨hdecode, hend, rfl⟩
      exact ⟨hmarker, hmarker, ih path (index + 2) (next + 1) hspelt.2 hvoids.2 hlasting.2.2⟩
  | element name as children rest ihChildren ihRest =>
      simp only [Node.piecesAll, Node.pieces, List.forall_mem_append, List.cons_append,
        List.forall_mem_cons, nodes, node, Tree.kindsAll, Tree.kinds,
        List.nil_append] at hspelt hlasting ⊢
      obtain ⟨htag, ⟨has, hunder⟩, hbeside⟩ := hspelt
      obtain ⟨hname, hchildren, hrest⟩ := hlasting
      obtain ⟨⟨hempty, hvoidsUnder⟩, hvoidsBeside⟩ := hvoids
      refine ⟨⟨⟨htag.nonempty, htag.chars, hname.1, hname.2.1, hname.2.2⟩,
        written_spelt _ _ has, nodup_written _ _ _, ?_,
        ihChildren _ _ _ hunder hvoidsUnder hchildren⟩, ihRest _ _ _ hbeside hvoidsBeside hrest⟩
      intro hvoid
      rw [hempty hvoid]
      rfl

end Compile

/-! ## Static markup -/

namespace Template

/-- Whatever segments are compiled, the static markup of the template can be compiled, and
the template that it gives has the same static markup, if every comment of the first one
stays as it is when it is decoded again and does not end early, and no name of an element
begins a comment or is trimmed in an end tag. -/
theorem staticHtml_recompiles {segments : List String} {t : Template}
    (h : ofSegments segments = .ok t) (hlasting : ∀ k ∈ Tree.kindsAll t.forest, k.Lasting) :
    ∃ u, ofSegments [t.staticHtml] = .ok u ∧ u.staticHtml = t.staticHtml := by
  obtain ⟨ts, ns, htokens, hnodes, rfl⟩ := ofSegments_eq_ok h
  have hvoids := (writes_of_ofTokens hnodes).voidsEmpty
  have hlegible := Compile.legible_forest [] 0 0 (spelt_pieces htokens hnodes) hvoids hlasting
  have hcompiles := ofSegments_legible hlegible.joinedAll (Tree.separateAll_joinedAll _)
  rw [Tree.htmlAll_joinedAll] at hcompiles
  refine ⟨_, hcompiles, ?_⟩
  show Tree.htmlAll (Tree.shownAll (Tree.joinedAll _)) = _
  rw [Tree.htmlAll_shownAll, Tree.htmlAll_joinedAll]
  rfl

/-- References in a value, in a text and in a literal property, an end tag of a void element
between two texts, and a content region. -/
theorem staticHtml_recompiles_paragraph :
    ∃ t, ofSegments
        ["<p title='&quot;&#39;' .x=\"&amp;\">1 &lt; 2 &amp;amp; </br>", "<!--c--></p>"] = .ok t ∧
      t.staticHtml =
        "<p title=\"&quot;'\">1 &lt; 2 &amp;amp; <!----><!----><!--c--></p>" ∧
      (∀ k ∈ Tree.kindsAll t.forest, k.Lasting) ∧
      ∃ u, ofSegments [t.staticHtml] = .ok u ∧ u.staticHtml = t.staticHtml := by
  have h : ofSegments
      ["<p title='&quot;&#39;' .x=\"&amp;\">1 &lt; 2 &amp;amp; </br>", "<!--c--></p>"] =
        .ok ⟨[.node (.element "p") [("title", "\"'")]
            [.text "1 < 2 &amp; ", .comment "", .comment "", .comment "c"]],
          [⟨[0], "x", "&"⟩], [], [⟨[0, 1], 0⟩], 1⟩ := by
    decide +kernel
  have hlasting : ∀ k ∈ Tree.kindsAll [.node (.element "p") [("title", "\"'")]
      [.text "1 < 2 &amp; ", .comment "", .comment "", .comment "c"]], k.Lasting := by
    decide +kernel
  exact ⟨_, h, by decide +kernel, hlasting, staticHtml_recompiles h hlasting⟩

/-- A comment that is decoded twice, a comment that ends early, a name that an end tag cannot
write, and a name that begins a comment. -/
theorem recompiling_differs :
    ((ofSegments ["<!--&amp;amp;-->"]).map staticHtml = .ok "<!--&amp;-->" ∧
      (ofSegments ["<!--&amp;-->"]).map staticHtml = .ok "<!--&-->") ∧
    ((ofSegments ["<!--a--&gt;b-->"]).map staticHtml = .ok "<!--a-->b-->" ∧
      (ofSegments ["<!--a-->b-->"]).map staticHtml = .ok "<!--a-->b--&gt;") ∧
    ((ofSegments ["<x\u00a0/>"]).map staticHtml = .ok "<x\u00a0></x\u00a0>" ∧
      ofSegments ["<x\u00a0></x\u00a0>"] = .error (.mismatchedClose "x" "x\u00a0")) ∧
    ((ofSegments ["<!--x--/>"]).map staticHtml = .ok "<!--x--></!--x-->" ∧
      ofSegments ["<!--x--></!--x-->"] = .error (.unexpectedClose "!--x--")) := by
  decide +kernel

end Template

end LiveMarkup
