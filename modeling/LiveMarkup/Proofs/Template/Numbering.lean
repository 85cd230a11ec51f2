import LiveMarkup.Proofs.Markup.Boundaries
import LiveMarkup.Proofs.Markup.Parsing
import LiveMarkup.Proofs.Template.Spots

/-!
# Which placeholder feeds what

Three passes deal with placeholders. Scanning makes one token at each boundary,
reading makes each of them a piece of an attribute's value or a node, and
compiling numbers what reading made. Reading one token adds the spot at which
the reader stands, if the token is a placeholder, and nothing else; compiling
gives the spots their numbers in the order in which reading added them.
-/

namespace LiveMarkup

/-! ## Reading -/

namespace Nesting

/-- The path of the innermost open element. -/
def openPath (finished : List Node) : List OpenElement → NodePath
  | [] => []
  | [_] => [Node.widthAll finished]
  | _ :: e :: outer => openPath finished (e :: outer) ++ [Node.widthAll e.children]

/-- The nodes beside which the next one comes to stand. -/
def siblings (n : Nesting) : List Node :=
  match n.stack with
  | [] => n.finished
  | e :: _ => e.children

/-- The path that the next node gets. -/
def nextPath (n : Nesting) : NodePath :=
  openPath n.finished n.stack ++ [Node.widthAll n.siblings]

/-- What a placeholder feeds if it is read next: in a tag the next piece of the last
attribute's value, and outside of tags a content region that is the next node. -/
def spot (n : Nesting) : Spot :=
  match n.tag.bind (·.attributes.getLast?) with
  | some a => a.spot n.nextPath a.value.length
  | none => .content n.nextPath

/-- The spots in finished nodes and in open elements, outermost first. -/
def openSpots (finished : List Node) : List OpenElement → List Spot
  | [] => Node.spotsAll [] 0 finished
  | e :: outer =>
      openSpots finished outer ++ Attribute.spots (openPath finished (e :: outer)) e.attributes ++
        Node.spotsAll (openPath finished (e :: outer)) 0 e.children

/-- The spots in all that has been read. -/
def spots (n : Nesting) : List Spot :=
  openSpots n.finished n.stack ++
    Attribute.spots n.nextPath ((n.tag.map (·.attributes)).getD [])

theorem openPath_cons (finished : List Node) (e : OpenElement) (outer : List OpenElement)
    (tag : Option OpenTag) (inValue : Bool) :
    openPath finished (e :: outer) = nextPath ⟨finished, outer, tag, inValue⟩ := by
  cases outer <;> rfl

theorem openSpots_push (finished : List Node) (stack : List OpenElement) (node : Node)
    (tag : Option OpenTag) (inValue : Bool) :
    let n : Nesting := ⟨finished, stack, tag, inValue⟩
    openSpots (n.push node).finished (n.push node).stack =
      openSpots finished stack ++
        node.spots (openPath finished stack) (Node.widthAll n.siblings) := by
  cases stack with
  | nil =>
      show Node.spotsAll [] 0 (finished ++ [node]) = _
      simp [Node.spotsAll_append, Node.spotsAll, openSpots, openPath, siblings]
  | cons e outer =>
      have hpath : openPath finished ({ e with children := e.children ++ [node] } :: outer) =
          openPath finished (e :: outer) := by
        cases outer <;> rfl
      show openSpots finished ({ e with children := e.children ++ [node] } :: outer) = _
      simp [openSpots, hpath, Node.spotsAll_append, Node.spotsAll, siblings]

theorem spots_push (finished : List Node) (stack : List OpenElement) (node : Node)
    (inValue : Bool) :
    (push ⟨finished, stack, none, inValue⟩ node).spots =
      spots ⟨finished, stack, none, inValue⟩ ++
        node.spots (openPath finished stack)
          (Node.widthAll (siblings ⟨finished, stack, none, inValue⟩)) := by
  have htag : (push ⟨finished, stack, none, inValue⟩ node).tag = none := by
    cases stack <;> rfl
  have hpush := openSpots_push finished stack node none inValue
  unfold spots
  rw [htag, hpush]
  simp [Attribute.spots]

/-- The end of a start tag or of an element leaves the spots as they are: the attributes
of the tag become those of the element. -/
theorem spots_push_tag (finished : List Node) (stack : List OpenElement) (t : OpenTag)
    (inValue : Bool) :
    (push ⟨finished, stack, none, false⟩ (.element t.name t.attributes [])).spots =
      spots ⟨finished, stack, some t, inValue⟩ := by
  rw [spots_push]
  show _ ++ (Attribute.spots _ t.attributes ++ []) = _
  rw [List.append_nil]
  simp [spots, Attribute.spots, nextPath, siblings]

theorem spots_extendLast (path : NodePath) (part : ValuePart) (as : List Attribute)
    (a : Attribute) :
    Attribute.spots path (as ++ [{ a with value := a.value ++ [part] }]) =
      Attribute.spots path (as ++ [a]) ++
        (if part = .placeholder then [a.spot path a.value.length] else []) := by
  have hname (i : Nat) :
      Attribute.spot path { a with value := a.value ++ [part] } i = a.spot path i := rfl
  cases part <;>
    simp [Attribute.spots, Attribute.spotsFrom, List.zipIdx_append, hname]

theorem extendValue_eq_ok {n n' : Nesting} {token : Token} {part : ValuePart}
    (h : n.extendValue token part = .ok n') :
    ∃ name as a, n.tag = some ⟨name, as ++ [a]⟩ ∧
      n' = { n with tag := some ⟨name, as ++ [{ a with value := a.value ++ [part] }]⟩ } := by
  unfold extendValue at h
  cases htag : n.tag with
  | none =>
      rw [htag] at h
      cases h
  | some t =>
      obtain ⟨name, as⟩ := t
      rw [htag] at h
      rcases List.eq_nil_or_concat as with rfl | ⟨as, a, rfl⟩
      · cases h
      · rw [List.concat_eq_append] at h ⊢
        rw [Option.bind_some, extendLast_snoc] at h
        cases h
        exact ⟨name, as, a, rfl, rfl⟩

theorem spots_extendValue {n n' : Nesting} {token : Token} {part : ValuePart}
    (h : n.extendValue token part = .ok n') :
    n'.spots = n.spots ++ (if part = .placeholder then [n.spot] else []) := by
  obtain ⟨name, as, a, htag, rfl⟩ := extendValue_eq_ok h
  have hspot : n.spot = a.spot n.nextPath a.value.length := by
    simp [spot, htag]
  unfold spots
  rw [htag, hspot, List.append_assoc]
  congr 1
  exact spots_extendLast n.nextPath part as a

/-- Reading a placeholder adds the spot at which the reader stands, and reading any other
token adds none. -/
theorem spots_step {n n' : Nesting} {t : Token} (h : n.step t = .ok n') :
    n'.spots = n.spots ++ (if t = .placeholder then [n.spot] else []) := by
  obtain ⟨finished, stack, tag, inValue⟩ := n
  cases t with
  | text data | comment data =>
      cases tag with
      | some t => cases h
      | none =>
          cases h
          rw [spots_push]
          rfl
  | startOpen name =>
      cases tag with
      | some t => cases h
      | none =>
          cases h
          rw [if_neg (by simp), List.append_nil]
          rfl
  | startClose name =>
      cases tag with
      | none => cases h
      | some t =>
          rw [if_neg (by simp), List.append_nil]
          simp only [step, closeTag] at h
          split at h
          · cases h
            exact spots_push_tag finished stack t inValue
          · cases h
            show openSpots finished stack ++
              Attribute.spots (openPath finished (⟨t.name, t.attributes, []⟩ :: stack))
                t.attributes ++ [] ++ [] = _
            rw [openPath_cons finished _ stack (some t) inValue]
            simp [spots]
  | elementEnd name =>
      rw [if_neg (by simp), List.append_nil]
      cases tag with
      | some t =>
          cases h
          exact spots_push_tag finished stack t inValue
      | none =>
          simp only [step, closeElement] at h
          split at h
          · split at h
            · cases h
              rfl
            · cases h
          · rename_i e outer
            split at h
            · cases h
              rw [spots_push]
              show openSpots finished outer ++ [] ++
                (Attribute.spots (nextPath ⟨finished, outer, none, false⟩) e.attributes ++
                  Node.spotsAll (nextPath ⟨finished, outer, none, false⟩) 0 e.children) = _
              rw [← openPath_cons finished e outer none false]
              simp [spots, openSpots, Attribute.spots]
            · split at h
              · cases h
                rfl
              · cases h
  | attributeName name =>
      cases tag with
      | none => cases h
      | some t =>
          cases h
          simp [spots, Attribute.spots, Attribute.spotsFrom, nextPath, siblings]
  | attributeValue value =>
      have hmore := spots_extendValue h
      simpa using hmore
  | placeholder =>
      simp only [step] at h
      split at h
      · exact spots_extendValue h
      · cases tag with
        | some t => cases h
        | none =>
            cases h
            rw [spots_push]
            rfl

/-- Reading adds one spot for each placeholder, behind those that it had. -/
theorem spots_read {n n' : Nesting} {ts : List Token} (h : n.read ts = .ok n') :
    ∃ more, n'.spots = n.spots ++ more ∧ more.length = ts.count .placeholder := by
  induction ts generalizing n with
  | nil =>
      cases h
      exact ⟨[], (List.append_nil _).symm, rfl⟩
  | cons t ts ih =>
      obtain ⟨q, hstep, hread⟩ := read_cons_eq_ok h
      obtain ⟨more, hmore, hlength⟩ := ih hread
      refine ⟨(if t = .placeholder then [n.spot] else []) ++ more, ?_, ?_⟩
      · rw [hmore, spots_step hstep, List.append_assoc]
      · rw [List.length_append, hlength, List.count_cons]
        by_cases ht : t = .placeholder
        · simp [ht, Nat.add_comm]
        · simp [ht]

/-- The placeholder behind some tokens adds the spot at which the reader stands there, and
as many spots come before it as the tokens have placeholders. -/
theorem spots_read_placeholder {n : Nesting} {before after : List Token}
    (h : empty.read (before ++ .placeholder :: after) = .ok n) :
    ∃ m, empty.read before = .ok m ∧ n.spots[before.count .placeholder]? = some m.spot := by
  obtain ⟨m, hbefore, hrest⟩ := read_append_eq_ok h
  obtain ⟨q, hstep, hafter⟩ := read_cons_eq_ok hrest
  obtain ⟨mine, hmine, hlength⟩ := spots_read hbefore
  obtain ⟨more, hmore, -⟩ := spots_read hafter
  refine ⟨m, hbefore, ?_⟩
  rw [hmore, spots_step hstep, if_pos rfl, hmine, ← hlength]
  simp [empty, spots, openSpots, Attribute.spots, Node.spotsAll]

end Nesting

/-- The nodes that are read have the spots that reading adds. -/
theorem Node.read_of_ofTokens {ts : List Token} {ns : List Node} (h : ofTokens ts = .ok ns) :
    ∃ n, Nesting.empty.read ts = .ok n ∧ n.spots = Node.spotsAll [] 0 ns := by
  unfold ofTokens at h
  cases hread : ts.foldlM Nesting.step .empty with
  | error e =>
      rw [hread] at h
      cases h
  | ok n =>
      rw [hread] at h
      refine ⟨n, hread, ?_⟩
      obtain ⟨finished, stack, tag, inValue⟩ := n
      cases tag with
      | some t => cases h
      | none =>
          cases stack with
          | cons e outer => cases h
          | nil =>
              cases h
              simp [Nesting.spots, Nesting.openSpots, Attribute.spots]

/-! ## From segments to tables -/

namespace Template

theorem ofSegments_eq_ok {segments : List String} {t : Template}
    (h : ofSegments segments = .ok t) :
    ∃ ts ns, Token.ofSegments segments = .ok ts ∧ Node.ofTokens ts = .ok ns ∧ t = ofNodes ns := by
  unfold ofSegments at h
  cases hts : Token.ofSegments segments with
  | error e =>
      rw [hts] at h
      cases h
  | ok ts =>
      rw [hts] at h
      dsimp only [bind, Except.bind] at h
      cases hns : Node.ofTokens ts with
      | error e =>
          rw [hns] at h
          cases h
      | ok ns =>
          rw [hns] at h
          cases h
          exact ⟨ts, ns, rfl, hns, rfl⟩

/-- Placeholders are the boundaries between segments. There is one less than there are
segments, each number below that is in the tables once and no other is, and both tables are
in the order of the numbers. The tokens before the placeholder with a number are the tokens
of the segments up to its boundary, and in the tables the number stands at the spot at which
reading these tokens arrives. -/
theorem placeholders_of_boundaries {segments : List String} {t : Template}
    (hne : segments ≠ []) (h : ofSegments segments = .ok t) :
    t.placeholderCount + 1 = segments.length ∧
      t.numbers.Perm (List.range t.placeholderCount) ∧
      (t.attributes.flatMap AttributeBinding.numbers).Pairwise (· < ·) ∧
      (t.contents.map ContentBinding.placeholder).Pairwise (· < ·) ∧
      ∃ tokens, Token.ofSegments segments = .ok tokens ∧
        ∀ k < t.placeholderCount, ∃ before after n,
          tokens = before ++ .placeholder :: after ∧ before.count .placeholder = k ∧
            Token.ofSegments (segments.take (k + 1)) = .ok before ∧
            Nesting.empty.read before = .ok n ∧ (n.spot, k) ∈ t.feeds := by
  obtain ⟨ts, ns, hts, hns, rfl⟩ := ofSegments_eq_ok h
  obtain ⟨n, hread, hspots⟩ := Node.read_of_ofTokens hns
  obtain ⟨spots, hall, hlength⟩ := Nesting.spots_read hread
  have hnone : Nesting.empty.spots = [] := rfl
  rw [hnone, List.nil_append, hspots] at hall
  have hcount : (ofNodes ns).placeholderCount + 1 = segments.length := by
    rw [placeholderCount_ofNodes, hall, hlength]
    exact Token.count_placeholder_ofSegments hne hts
  obtain ⟨hattributes, hcontents⟩ := pairwise_numbers_ofNodes ns
  refine ⟨hcount, ?_, hattributes, hcontents, ts, hts, ?_⟩
  · have hnumbers := (feeds_ofNodes ns).map Prod.snd
    rw [map_snd_feeds, List.zipIdx_map_snd, ← placeholderCount_ofNodes] at hnumbers
    rwa [← List.range_eq_range'] at hnumbers
  · intro k hk
    obtain ⟨before, after, hsplit, hbefore, htake⟩ :=
      Token.ofSegments_boundary (k := k) (by omega) hts
    rw [hsplit] at hread
    obtain ⟨m, hm, hspot⟩ := Nesting.spots_read_placeholder hread
    refine ⟨before, after, m, hsplit, hbefore, htake, hm, ?_⟩
    rw [(feeds_ofNodes ns).mem_iff, List.mk_mem_zipIdx_iff_getElem?, ← hspots, ← hspot, hbefore]

/-- A boundary in a quoted value, one between a tag and its content, and one between a void
element and the end of the element around it. -/
theorem placeholders_of_boundaries_quoted :
    ∃ t, ofSegments ["<p a='x", "' b>", "<br>", "</p>"] = .ok t ∧ t.placeholderCount = 3 ∧
      t.numbers.Perm [0, 1, 2] := by
  have hcompile : ofSegments ["<p a='x", "' b>", "<br>", "</p>"] =
      .ok (ofNodes [.element "p" [⟨"a", [.literal "x", .placeholder]⟩, ⟨"b", []⟩]
        [.placeholder, .element "br" [] [], .placeholder]]) := by
    have htokens : Token.ofSegments ["<p a='x", "' b>", "<br>", "</p>"] =
        .ok [.startOpen "p", .attributeName "a", .attributeValue "x", .placeholder,
          .attributeName "b", .startClose "p", .placeholder, .startOpen "br",
          .startClose "br", .placeholder, .elementEnd "p"] := by cbv
    rw [ofSegments, htokens]
    rfl
  obtain ⟨hcount, hnumbers, -⟩ := placeholders_of_boundaries (by simp) hcompile
  have hthree : (ofNodes _).placeholderCount = 3 := Nat.succ.inj hcount
  refine ⟨_, hcompile, hthree, ?_⟩
  rw [hthree] at hnumbers
  exact hnumbers

end Template

end LiveMarkup
