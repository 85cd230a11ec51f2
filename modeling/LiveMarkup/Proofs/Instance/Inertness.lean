import LiveMarkup.Proofs.Instance.Rendering
import LiveMarkup.Proofs.Template.Outline
import LiveMarkup.Proofs.Template.Rereading

/-!
# Strings are inert

What a new instance is serialized to after it was given strings has the outline
of its template, whatever the strings are. No string takes an attribute away, so
each element has all its names, and they stand in the order in which they are
written: those with literal values first, and those that placeholders feed
behind them. A region holds one text between its markers. So the outline of the
tree is said by the nodes of the template alone, and reading the markup gives it
back.
-/

namespace LiveMarkup

open Branch (idsAll tops sceneAll)
open Scan (AttributeName)
open Scene (AlikeAll)
open Substitution (bound attributeText)

/-! ## The outline of a template -/

/-- The names of the attributes of an element, in the order in which a new instance gets
them. -/
def Attribute.keysAll (as : List Attribute) : List String :=
  ((as.filter (!·.isBound)).filterMap key? ++ (as.filter isBound).filterMap key?).foldl
    Attributes.named []

theorem Attribute.key?_of_mem_keysAll {as : List Attribute} {name : String}
    (h : name ∈ keysAll as) : ∃ a ∈ as, a.key? = some name := by
  rw [keysAll, Attributes.mem_foldl_named, List.mem_append, List.mem_filterMap,
    List.mem_filterMap] at h
  rcases h.resolve_left List.not_mem_nil with ⟨a, ha, hkey⟩ | ⟨a, ha, hkey⟩ <;>
    exact ⟨a, List.mem_of_mem_filter ha, hkey⟩

namespace Node

mutual

/-- The outline of a node in which a text stands for each placeholder. -/
def outline : Node → List Token
  | .text _ => []
  | .comment data => [.comment (Entity.decode data)]
  | .placeholder => [.comment "", .comment ""]
  | .element name as children =>
      .startOpen name :: (Token.ofNames (Attribute.keysAll as) ++ .startClose name ::
        (if isVoidElement name then []
          else outlineAll children ++ [.elementEnd (String.ofList (trimWhiteSpace name.toList))]))

def outlineAll : List Node → List Token
  | [] => []
  | n :: ns => outline n ++ outlineAll ns

end

mutual

/-- Whether no comment of a node ends early and no name of an element begins a comment. This
holds of a node without comments if none of its elements has such a name. -/
def Tame : Node → Prop
  | .text _ | .placeholder => True
  | .comment data => ¬ ['-', '-', '>'] <:+: (Entity.decode data).toList
  | .element name _ children => ¬ ['!', '-', '-'] <+: name.toList ∧ TameAll children

def TameAll : List Node → Prop
  | [] => True
  | n :: ns => n.Tame ∧ TameAll ns

end

end Node

/-! ## Elements with all their names -/

/-- An element that has all its names, in their order. -/
def Named (_next : Nat) (as : List Attribute) (attributes : Attributes)
    (_properties : Properties) : Prop :=
  attributes.keys = Attribute.keysAll as

theorem Follows.named {value : Nat → Value} {next : Nat} {as : List Attribute} {data : NodeData}
    {attributes : Attributes} {properties : Properties}
    (h : Follows value (bound next as) data attributes properties)
    (hwritten : Written next as data.attributes data.properties)
    (hkept : ∀ o ∈ bound next as, (attributeText value o).isSome = true) :
    Named next as attributes properties := by
  obtain ⟨path, path', hattributes, -⟩ := hwritten
  have hbound : (bound next as).filterMap (fun o => o.2.key?) =
      (as.filter Attribute.isBound).filterMap Attribute.key? := by
    rw [← Substitution.map_snd_bound next as, List.filterMap_map]
    rfl
  rw [Named, h.order hkept, hbound, hattributes, Compile.keys_written, Attribute.keysAll,
    List.foldl_append]

theorem Substitution.isSome_attributeText {value : Nat → Value} {next count : Nat}
    {as : List Attribute} (hkept : ∀ k < count, (value k).isRemoval = false)
    (hcount : next + Attribute.placeholdersAll as ≤ count) :
    ∀ o ∈ bound next as, (attributeText value o).isSome = true := by
  intro o ho
  have hle := add_placeholders_le (List.mem_of_mem_filter ho)
  rw [attributeText, if_neg]
  · rfl
  · rintro ⟨hsole, hremoval⟩
    have hone : o.2.placeholders = 1 := by
      rw [Attribute.placeholders, hsole]
      rfl
    rw [hkept o.1 (by omega)] at hremoval
    cases hremoval

/-- Applying bindings to the elements of a new instance gives each of them all its names, if
no value takes an attribute away. -/
theorem Layout.applyBindings_named {value : Nat → Value} {next count : Nat} {ns : List Node}
    {elements : List NodeId} {marks : List Mark} {bs : List Branch}
    (h : Layout (fun k as attributes properties =>
      k + Attribute.placeholdersAll as ≤ count ∧ Written k as attributes properties)
      next ns elements marks bs)
    (hkept : ∀ k < count, (value k).isRemoval = false) (path : NodePath) (index : Nat)
    {d : Document} {p : NodeId} {before behind : List NodeId}
    (hplaced : d.Placed p before bs behind) :
    ∃ d' bs', LiveMarkup.applyBindings value
        ((Compile.nodes path index next ns).attributes.zip elements) d = d' ∧
      Layout Named next ns elements marks bs' ∧
      Layout.roots ns marks bs' = Layout.roots ns marks bs ∧ d'.Placed p before bs' behind ∧
      Document.Edit d d' p (idsAll bs) (idsAll bs') := by
  refine h.applyBindings_of (fun next as path d n data hsay hnode => ?_) path index hplaced
  obtain ⟨hcount, hwritten⟩ := hsay
  obtain ⟨attributes, properties, hchanges, hfollows⟩ :=
    follows_applyBindings value path (bound next as) hnode hwritten.fixed.keys
  exact ⟨attributes, properties, hchanges,
    hfollows.named hwritten (Substitution.isSome_attributeText hkept hcount)⟩

/-- A new instance that is given texts has all names of its elements, and a text between the
markers of each of its regions, if no text takes an attribute away. -/
theorem Instance.Fresh.patch_texts {markup : CompiledTemplate → List Node}
    {source : CompiledTemplate} {ns : List Node} {d d' : Document} {i : Instance}
    {bs : List Branch} (h : Fresh markup source ns d d' i bs)
    (spans : InstanceId → List NodeId) {values : List Value}
    (htexts : ∀ k, (Value.supplied values k).isTextLike = true)
    (hkept : ∀ k < Node.placeholdersAll ns, (Value.supplied values k).isRemoval = false) :
    ∃ i' d'' marks bs', i.patch spans values d' = (i', none, d'') ∧ i'.fragment = i.fragment ∧
      Layout Named 0 ns i.elements marks bs' ∧ d''.Placed i.fragment [] bs' [] ∧
      ∀ m ∈ marks,
        AlikeAll (sceneAll m.held) [.text (Value.supplied values m.placeholder).text] := by
  obtain ⟨marks, hlayout, -, hregions⟩ := h.layout
  have hbounded := hlayout.bounded (Nat.le_of_eq (Nat.zero_add (Node.placeholdersAll ns)))
  obtain ⟨d₁, bs₁, happly, hlayout₁, -, hplaced₁, -⟩ :=
    hbounded.applyBindings_named hkept [] 0 h.placed
  have hshows : ∀ r ∈ i.regions, Supply.Shows markup
      (supplyAt (Value.supplies spans values) r.placeholder)
      (Value.suppliedScenes markup values r.placeholder) := by
    intro r _
    rw [Value.supplyAt_supplies]
    exact Supply.shows_text spans (htexts r.placeholder)
  obtain ⟨regions', d₂, marks', bs₂, hupdate, hlayout₂, -, -, hplaced₂, -, hheld⟩ :=
    hlayout₁.updateAll hregions spans hshows hplaced₁
  refine ⟨{ i with regions := regions' }, d₂, marks', bs₂, ?_, rfl, hlayout₂, hplaced₂,
    fun m hm => ?_⟩
  · simp only [patch, supply, Value.supplyAt_supplies, h.template, Template.ofNodes, happly,
      hupdate]
  · have halike := hheld m hm
    rwa [Value.suppliedScenes, Value.scenes_of_isTextLike markup (htexts m.placeholder)] at halike

/-! ## Strings -/

theorem Value.isTextLike_strings (texts : List String) (k : Nat) :
    (supplied (texts.map .str) k).isTextLike = true := by
  rw [supplied, List.getElem?_map]
  cases texts[k]? <;> rfl

theorem Value.isRemoval_strings {texts : List String} {k : Nat} (hk : k < texts.length) :
    (supplied (texts.map .str) k).isRemoval = false := by
  rw [supplied, List.getElem?_map, List.getElem?_eq_getElem hk]
  rfl

/-! ## The outline of an instance -/

theorem Scene.eq_of_alikeAll_text {ss : List Scene} {data : String}
    (h : AlikeAll ss [.text data]) :
    ∃ as property under, ss = [.node (.text data) as property under] := by
  match ss, h with
  | [.node kind as property under], h =>
      obtain ⟨⟨rfl, -⟩, -⟩ := h
      exact ⟨as, property, under, rfl⟩

/-- Nodes with all names of their elements and a text between the markers of each region have
the outline that they say. -/
theorem Layout.outlines {next : Nat} {ns : List Node} {elements : List NodeId}
    {marks : List Mark} {bs : List Branch} (h : Layout Named next ns elements marks bs)
    (hheld : ∀ m ∈ marks, ∃ data, AlikeAll (sceneAll m.held) [.text data])
    (hspelt : ∀ t ∈ Node.piecesAll ns, t.Spelt) (htame : Node.TameAll ns) :
    Tree.Outlines (Scene.treeAll (sceneAll bs)) (Node.outlineAll ns) := by
  induction h with
  | nil => exact .nil
  | @text next data n rest elements marks bs _ ih =>
      rw [Node.piecesAll, List.forall_mem_append] at hspelt
      exact .text (Entity.decode data) (ih hheld hspelt.2 htame.2)
  | comment _ ih =>
      rw [Node.piecesAll, List.forall_mem_append] at hspelt
      exact .comment htame.1 (ih hheld hspelt.2 htame.2)
  | @placeholder m rest elements marks bs _ ih =>
      rw [Node.piecesAll, List.forall_mem_append] at hspelt
      obtain ⟨hown, hothers⟩ := List.forall_mem_cons.mp hheld
      obtain ⟨data, halike⟩ := hown
      obtain ⟨as, property, under, htext⟩ := Scene.eq_of_alikeAll_text halike
      have hmarker : ¬ ['-', '-', '>'] <:+: "".toList := by decide
      have hrest := ih hothers hspelt.2 htame.2
      rw [Branch.sceneAll_append, m.branches_eq m.held, Branch.sceneAll_append,
        Branch.sceneAll_append, htext]
      exact .comment hmarker (.text data (.comment hmarker hrest))
  | @element next name as children rest n attributes properties inner elements held marks
      under bs hnamed _ _ ihUnder ihRest =>
      simp only [Node.piecesAll, Node.pieces, List.forall_mem_append, List.cons_append,
        List.forall_mem_cons] at hspelt
      obtain ⟨htag, ⟨has, hchildren⟩, hothers⟩ := hspelt
      obtain ⟨⟨hcomment, htameUnder⟩, htameBeside⟩ := htame
      obtain ⟨hheldUnder, hheldBeside⟩ := List.forall_mem_append.mp hheld
      have hunder := ihUnder hheldUnder hchildren htameUnder
      have hrest := ihRest hheldBeside hothers htameBeside
      have hnames : ∀ a ∈ attributes, AttributeName a.1.toList := by
        intro a ha
        have hkey : a.1 ∈ attributes.keys := List.mem_map_of_mem ha
        rw [hnamed] at hkey
        obtain ⟨b, hb, hname⟩ := Attribute.key?_of_mem_keysAll hkey
        exact (Attribute.spelt_key? has hb hname).1
      have hkeys : attributes.keys = Attribute.keysAll as := hnamed
      rw [Node.outlineAll, Node.outline, ← hkeys]
      show Tree.Outlines (.node (.element name) attributes (Scene.treeAll (sceneAll under)) ::
        Scene.treeAll (sceneAll bs)) _
      cases hvoid : isVoidElement name with
      | true => simpa using Tree.Outlines.void hvoid htag hcomment hnames hrest
      | false => simpa using Tree.Outlines.element hvoid htag hcomment hnames hunder hrest

namespace Instance

/-- Whether markup is what a new instance of a template is serialized to once it was given
values. -/
def Serializes (spans : InstanceId → List NodeId) (source : CompiledTemplate)
    (values : List Value) (d : Document) (html : String) : Prop :=
  ∃ i d₁ i' d₂, create source d = (.ok i, d₁) ∧ i.patch spans values d₁ = (i', none, d₂) ∧
    d₂.innerHtml i'.fragment = html

variable {segments : List String} {tokens : List Token} {nodes : List Node}

/-- A new instance that is given strings is serialized to the outline of its template. -/
theorem serializes_outline (htokens : Token.ofSegments segments = .ok tokens)
    (hnodes : Node.ofTokens tokens = .ok nodes) (htame : Node.TameAll nodes)
    {source : CompiledTemplate} (hsource : source.template = Template.ofNodes nodes)
    {texts : List String} (hcount : source.template.placeholderCount ≤ texts.length)
    (spans : InstanceId → List NodeId) (d : Document) :
    ∃ html ts, Serializes spans source (texts.map .str) d html ∧
      Token.ofSegments [html] = .ok ts ∧ Token.outline ts = Node.outlineAll nodes := by
  obtain ⟨i, d₁, bs, hcreate, hfresh⟩ := create_fresh (fun _ => nodes) hsource d
  have hkept : ∀ k < Node.placeholdersAll nodes,
      (Value.supplied (texts.map .str) k).isRemoval = false := by
    intro k hk
    rw [hsource] at hcount
    change (Compile.nodes [] 0 0 nodes).next ≤ texts.length at hcount
    rw [Compile.next_nodes] at hcount
    exact Value.isRemoval_strings (by omega)
  obtain ⟨i', d₂, marks, bs', hpatch, hfragment, hlayout, hplaced, hheld⟩ :=
    hfresh.patch_texts spans (Value.isTextLike_strings texts) hkept
  have hchildren : d₂.children i.fragment = tops bs' := by simpa using hplaced.children
  have hhtml : d₂.innerHtml i'.fragment = Tree.htmlAll (Scene.treeAll (sceneAll bs')) := by
    rw [Document.innerHtml, hfragment, Document.forest_eq_treeAll,
      Document.scenes_of_grows hplaced.grows hplaced.ids_nodup hchildren]
  obtain ⟨ts, hts, houtline⟩ := (hlayout.outlines (fun m hm => ⟨_, hheld m hm⟩)
    (Template.spelt_pieces htokens hnodes) htame).ofSegments
  exact ⟨_, ts, ⟨i, d₁, i', d₂, hcreate, hpatch, hhtml⟩, hts, houtline⟩

/-- Whatever strings a new instance is given, the outline of what it is serialized to is the
same: the same elements, names of attributes and comments, nested in the same way. -/
theorem serializes_sameOutline (htokens : Token.ofSegments segments = .ok tokens)
    (hnodes : Node.ofTokens tokens = .ok nodes) (htame : Node.TameAll nodes)
    {source : CompiledTemplate} (hsource : Template.ofSegments segments = .ok source.template)
    {texts texts' : List String} (hcount : source.template.placeholderCount ≤ texts.length)
    (hcount' : source.template.placeholderCount ≤ texts'.length)
    (spans spans' : InstanceId → List NodeId) (d d' : Document) :
    ∃ html html' ts ts', Serializes spans source (texts.map .str) d html ∧
      Serializes spans' source (texts'.map .str) d' html' ∧
      Token.ofSegments [html] = .ok ts ∧ Token.ofSegments [html'] = .ok ts' ∧
      Token.outline ts = Token.outline ts' := by
  obtain ⟨tokens', nodes', htokens', hnodes', htemplate⟩ := Template.ofSegments_eq_ok hsource
  cases htokens.symm.trans htokens'
  cases hnodes.symm.trans hnodes'
  obtain ⟨html, ts, hserializes, hts, houtline⟩ :=
    serializes_outline htokens hnodes htame htemplate hcount spans d
  obtain ⟨html', ts', hserializes', hts', houtline'⟩ :=
    serializes_outline htokens hnodes htame htemplate hcount' spans' d'
  exact ⟨html, html', ts, ts', hserializes, hserializes', hts, hts', houtline.trans houtline'.symm⟩

/-- A quote and a start tag in a value, and the beginning of a comment in a text. -/
theorem serializes_sameOutline_link : ∃ (source : CompiledTemplate) (html html' : String)
    (ts ts' : List Token), Template.ofSegments ["<a href='", "'>", "</a>"] = .ok source.template ∧
      Serializes (fun _ => []) source (["\"><b>", "<!--"].map .str) .empty html ∧
      Serializes (fun _ => []) source (["", "&amp;"].map .str) .empty html' ∧
      Token.ofSegments [html] = .ok ts ∧ Token.ofSegments [html'] = .ok ts' ∧
      Token.outline ts = Token.outline ts' := by
  have htokens : Token.ofSegments ["<a href='", "'>", "</a>"] =
      .ok [.startOpen "a", .attributeName "href", .placeholder, .startClose "a", .placeholder,
        .elementEnd "a"] := by cbv
  have hnodes : Node.ofTokens [.startOpen "a", .attributeName "href", .placeholder,
      .startClose "a", .placeholder, .elementEnd "a"] =
        .ok [.element "a" [⟨"href", [.placeholder]⟩] [.placeholder]] := by rfl
  have htame : Node.TameAll [.element "a" [⟨"href", [.placeholder]⟩] [.placeholder]] :=
    ⟨⟨by decide, trivial, trivial⟩, trivial⟩
  obtain ⟨source, hsource, htwo⟩ : ∃ source : CompiledTemplate,
      Template.ofSegments ["<a href='", "'>", "</a>"] = .ok source.template ∧
        source.template.placeholderCount = 2 := by
    refine ⟨⟨0, .ofNodes [.element "a" [⟨"href", [.placeholder]⟩] [.placeholder]]⟩, ?_, rfl⟩
    rw [Template.ofSegments, htokens]
    rfl
  have hcount : source.template.placeholderCount ≤ ["\"><b>", "<!--"].length :=
    Nat.le_of_eq htwo
  have hcount' : source.template.placeholderCount ≤ ["", "&amp;"].length := Nat.le_of_eq htwo
  obtain ⟨html, html', ts, ts', hsame⟩ := serializes_sameOutline htokens hnodes htame hsource
    hcount hcount' (fun _ => []) (fun _ => []) .empty .empty
  exact ⟨source, html, html', ts, ts', hsource, hsame⟩

end Instance

end LiveMarkup
