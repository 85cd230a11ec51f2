import LiveMarkup.Proofs.Markup.Tags
import LiveMarkup.Proofs.Template.Numbering

/-!
# What a placeholder belongs to

A placeholder belongs to the value of an attribute if, looking back from it, one
meets the name of an attribute before the end of a start tag or of an element.
The reader does not look back but keeps a flag. By themselves the two differ: the
beginning of a tag takes the flag down, and looking back goes on past it. They
agree because of what can be reached: while the flag is up, the reader is in a
tag that has an attribute, so that no other tag can begin there.
-/

namespace LiveMarkup

namespace Token

/-- Whether a token decides what the placeholders behind it belong to. -/
def isDeciding : Token → Bool
  | attributeName _ | startClose _ | elementEnd _ => true
  | _ => false

/-- The deciding token that is met first, looking back from the end of some tokens. -/
def lookBack? (ts : List Token) : Option Token :=
  ts.reverse.find? isDeciding

theorem lookBack?_append_singleton (ts : List Token) (t : Token) :
    lookBack? (ts ++ [t]) = if t.isDeciding then some t else lookBack? ts := by
  unfold lookBack?
  rw [List.reverse_append, List.reverse_singleton, List.singleton_append, List.find?_cons]
  cases t.isDeciding <;> rfl

/-- Looking back, one meets the name of an attribute first. -/
def BehindName (ts : List Token) : Prop :=
  ∃ key, lookBack? ts = some (.attributeName key)

theorem behindName_append_of_isDeciding (ts : List Token) {t : Token}
    (ht : t.isDeciding = true) : BehindName (ts ++ [t]) ↔ ∃ key, t = .attributeName key := by
  unfold BehindName
  rw [lookBack?_append_singleton, if_pos ht]
  simp only [Option.some.injEq]

theorem behindName_append_of_not_isDeciding (ts : List Token) {t : Token}
    (ht : t.isDeciding = false) : BehindName (ts ++ [t]) ↔ BehindName ts := by
  unfold BehindName
  rw [lookBack?_append_singleton, ht]
  rfl

end Token

namespace Nesting

/-! ## The flag -/

/-- The attribute that is being read, the last one of the tag. -/
def lastAttribute? (n : Nesting) : Option Attribute :=
  n.tag.bind (·.attributes.getLast?)

@[simp]
theorem push_tag (n : Nesting) (node : Node) : (n.push node).tag = n.tag := by
  unfold push
  split <;> rfl

@[simp]
theorem push_inValue (n : Nesting) (node : Node) : (n.push node).inValue = n.inValue := by
  unfold push
  split <;> rfl

/-- The spot of a placeholder is in a value exactly if there is an attribute for it. -/
theorem isValue_spot (n : Nesting) : n.spot.isValue = n.lastAttribute?.isSome := by
  unfold spot lastAttribute?
  cases n.tag.bind (·.attributes.getLast?) <;> rfl

/-- The flag says what looking back finds, and it is up exactly if there is an attribute
that a placeholder could belong to. -/
structure Recalls (before : List Token) (n : Nesting) : Prop where
  behindName : n.inValue = true ↔ Token.BehindName before
  isSome : n.lastAttribute?.isSome = n.inValue

theorem recalls_empty : Recalls [] empty := by
  refine ⟨⟨?_, ?_⟩, rfl⟩
  · intro h
    cases h
  · rintro ⟨key, hkey⟩
    cases hkey

theorem content_eq_ok {n n' : Nesting} {token : Token} {node : Node}
    (h : n.content token node = .ok n') : n' = n.push node := by
  unfold content at h
  split at h
  · cases h
  · cases h
    rfl

theorem closeTag_leaves {n n' : Nesting} {token : Token} (h : n.closeTag token = .ok n') :
    n'.tag = none ∧ n'.inValue = false := by
  unfold closeTag at h
  split at h
  · cases h
  · dsimp only at h
    split at h
    · cases h
      simp
    · cases h
      exact ⟨rfl, rfl⟩

theorem closeElement_leaves {n n' : Nesting} {name : String}
    (h : n.closeElement name = .ok n') : n'.tag = none ∧ n'.inValue = false := by
  unfold closeElement at h
  split at h
  · cases h
    simp
  · rename_i htag
    dsimp only at h
    split at h
    · split at h
      · cases h
        exact ⟨htag, rfl⟩
      · cases h
    · split at h
      · cases h
        simpa using htag
      · split at h
        · cases h
          exact ⟨htag, rfl⟩
        · cases h

namespace Recalls

variable {before : List Token} {n n' : Nesting} {t : Token}

theorem keep (h : Recalls before n) (ht : t.isDeciding = false)
    (hflag : n'.inValue = n.inValue)
    (hlast : n'.lastAttribute?.isSome = n.lastAttribute?.isSome) :
    Recalls (before ++ [t]) n' := by
  constructor
  · rw [Token.behindName_append_of_not_isDeciding before ht, hflag, h.behindName]
  · rw [hlast, hflag, h.isSome]

theorem extendValue {token : Token} {part : ValuePart} (h : Recalls before n)
    (ht : t.isDeciding = false) (hextend : n.extendValue token part = .ok n') :
    Recalls (before ++ [t]) n' := by
  obtain ⟨name, as, a, htag, rfl⟩ := extendValue_eq_ok hextend
  exact h.keep ht rfl (by simp [lastAttribute?, htag])

theorem push (h : Recalls before n) (ht : t.isDeciding = false) (node : Node) :
    Recalls (before ++ [t]) (n.push node) :=
  h.keep ht (push_inValue n node) (by simp [lastAttribute?])

theorem leave (before : List Token) (ht : t.isDeciding = true)
    (hname : ∀ key, t ≠ .attributeName key) (hleaves : n'.tag = none ∧ n'.inValue = false) :
    Recalls (before ++ [t]) n' := by
  obtain ⟨htag, hflag⟩ := hleaves
  constructor
  · rw [Token.behindName_append_of_isDeciding before ht]
    simp [hflag, hname]
  · simp [lastAttribute?, htag, hflag]

theorem not_behindName (h : Recalls before n) (hlast : n.lastAttribute? = none) :
    ¬ Token.BehindName before := by
  rw [← h.behindName, ← h.isSome, hlast]
  simp

theorem step (h : Recalls before n) (hstep : n.step t = .ok n') :
    Recalls (before ++ [t]) n' := by
  cases t with
  | text data | comment data =>
      rw [content_eq_ok hstep]
      exact h.push rfl _
  | startOpen name =>
      cases htag : n.tag with
      | some tag =>
          simp only [Nesting.step, htag] at hstep
          cases hstep
      | none =>
          simp only [Nesting.step, htag] at hstep
          cases hstep
          -- looking back goes on past the beginning of a tag, but a tag begins only where
          -- there is none, and so no attribute either
          have hbefore := h.not_behindName (by simp [lastAttribute?, htag])
          constructor
          · rw [Token.behindName_append_of_not_isDeciding before rfl]
            simp [hbefore]
          · rfl
  | startClose closing =>
      exact leave before rfl (by simp) (closeTag_leaves hstep)
  | elementEnd name =>
      exact leave before rfl (by simp) (closeElement_leaves hstep)
  | attributeName key =>
      cases htag : n.tag with
      | none =>
          simp only [Nesting.step, htag] at hstep
          cases hstep
      | some tag =>
          simp only [Nesting.step, htag] at hstep
          cases hstep
          constructor
          · rw [Token.behindName_append_of_isDeciding before rfl]
            simp
          · simp [lastAttribute?]
  | attributeValue text => exact h.extendValue rfl hstep
  | placeholder =>
      simp only [Nesting.step] at hstep
      split at hstep
      · exact h.extendValue rfl hstep
      · split at hstep
        · cases hstep
        · cases hstep
          exact h.push rfl _

theorem read {ts : List Token} (h : Recalls before n) (hread : n.read ts = .ok n') :
    Recalls (before ++ ts) n' := by
  induction ts generalizing before n with
  | nil =>
      cases hread
      rw [List.append_nil]
      exact h
  | cons t ts ih =>
      obtain ⟨q, hstep, hrest⟩ := read_cons_eq_ok hread
      rw [List.append_cons]
      exact ih (h.step hstep) hrest

end Recalls

/-- Whatever is read without a fault, the flag is right behind it. -/
theorem recalls_of_read {ts : List Token} {n : Nesting} (h : empty.read ts = .ok n) :
    Recalls ts n :=
  recalls_empty.read h

/-! ## Taking a placeholder -/

/-- A piece is taken into the value of the last attribute of the tag. -/
def TakesPiece (n : Nesting) (part : ValuePart) (n' : Nesting) : Prop :=
  ∃ name as a, n.tag = some ⟨name, as ++ [a]⟩ ∧
    n' = { n with tag := some ⟨name, as ++ [{ a with value := a.value ++ [part] }]⟩ }

theorem takesPiece_extendValue {n : Nesting} (h : n.lastAttribute?.isSome = true)
    (token : Token) (part : ValuePart) :
    ∃ n', n.extendValue token part = .ok n' ∧ n.TakesPiece part n' := by
  obtain ⟨a, ha⟩ := Option.isSome_iff_exists.mp h
  obtain ⟨⟨name, as⟩, htag, hlast⟩ := Option.bind_eq_some_iff.mp ha
  obtain ⟨as, rfl⟩ := List.getLast?_eq_some_iff.mp hlast
  refine ⟨_, ?_, name, as, a, htag, rfl⟩
  simp [extendValue, htag, extendLast_snoc]

/-- A placeholder is taken into a value exactly if the flag is up. -/
theorem Recalls.takesPiece_iff {before : List Token} {n : Nesting} (h : Recalls before n) :
    (∃ n', n.step .placeholder = .ok n' ∧ n.TakesPiece .placeholder n') ↔ n.inValue = true := by
  constructor
  · rintro ⟨-, -, name, as, a, htag, -⟩
    rw [← h.isSome]
    simp [lastAttribute?, htag]
  · intro hflag
    have hlast : n.lastAttribute?.isSome = true := by rw [h.isSome, hflag]
    simpa [Nesting.step, hflag] using takesPiece_extendValue hlast .placeholder .placeholder

theorem kind_of_step_unexpectedToken {n : Nesting} {t : Token} {kind : String}
    (h : n.step t = .error (.unexpectedToken kind)) : kind = t.kind := by
  have hextend : ∀ part, n.extendValue t part = .error (.unexpectedToken kind) →
      kind = t.kind := by
    intro part hpart
    unfold extendValue at hpart
    split at hpart <;> cases hpart
    rfl
  cases t with
  | text | comment =>
      simp only [step, content] at h
      split at h <;> cases h
      rfl
  | startOpen =>
      simp only [step] at h
      split at h <;> cases h
  | startClose =>
      simp only [step, closeTag] at h
      split at h
      · cases h
        rfl
      · split at h <;> cases h
  | elementEnd =>
      simp only [step, closeElement] at h
      repeat' split at h
      all_goals cases h
  | attributeName =>
      simp only [step] at h
      split at h <;> cases h
      rfl
  | attributeValue => exact hextend _ h
  | placeholder =>
      simp only [step] at h
      split at h
      · exact hextend _ h
      · split at h <;> cases h

theorem Recalls.step_ne_unexpectedToken {before : List Token} {n : Nesting}
    (h : Recalls before n) (t : Token) :
    n.step t ≠ .error (.unexpectedToken Token.placeholder.kind) := by
  intro hstep
  have hkind := kind_of_step_unexpectedToken hstep
  cases t with
  | placeholder =>
      cases hflag : n.inValue with
      | true =>
          obtain ⟨n', hn', -⟩ := h.takesPiece_iff.mpr hflag
          rw [hn'] at hstep
          cases hstep
      | false =>
          simp only [Nesting.step, hflag, Bool.false_eq_true, if_false] at hstep
          split at hstep <;> cases hstep
  | _ => simp [Token.kind] at hkind

theorem Recalls.read_ne_unexpectedToken {before : List Token} {n : Nesting}
    (h : Recalls before n) (ts : List Token) :
    n.read ts ≠ .error (.unexpectedToken Token.placeholder.kind) := by
  induction ts generalizing before n with
  | nil =>
      intro hread
      cases hread
  | cons t ts ih =>
      cases hstep : n.step t with
      | error e =>
          intro hread
          rw [Nesting.read, List.foldlM_cons, hstep] at hread
          cases hread
          exact h.step_ne_unexpectedToken t hstep
      | ok n' =>
          rw [read_cons ts hstep]
          exact ih (h.step hstep)

/-! ## Looking back -/

/-- Reads a token behind others without the flag: from a placeholder one looks back over
them. -/
def stepBack (before : List Token) (n : Nesting) (token : Token) : Except MarkupError Nesting :=
  match token with
  | .placeholder =>
      match Token.lookBack? before, n.tag with
      | some (.attributeName _), _ => n.extendValue token .placeholder
      | _, some t => .error (.strayPlaceholder t.name)
      | _, none => .ok (n.push .placeholder)
  | _ => n.step token

/-- Reads tokens behind others, one after another, without the flag. -/
def readBack (before : List Token) (n : Nesting) : List Token → Except MarkupError Nesting
  | [] => .ok n
  | t :: ts => do
      let n' ← n.stepBack before t
      readBack (before ++ [t]) n' ts

theorem Recalls.stepBack_eq {before : List Token} {n : Nesting} (h : Recalls before n)
    (t : Token) : n.stepBack before t = n.step t := by
  cases t with
  | placeholder =>
      cases hflag : n.inValue with
      | true =>
          obtain ⟨key, hkey⟩ := h.behindName.mp hflag
          simp [stepBack, Nesting.step, hkey, hflag]
      | false =>
          have hother : ∀ key, Token.lookBack? before ≠ some (.attributeName key) := by
            intro key hkey
            have hup := h.behindName.mpr ⟨key, hkey⟩
            rw [hflag] at hup
            cases hup
          simp only [stepBack, Nesting.step, hflag]
          split
          · rename_i key hkey
            exact absurd hkey (hother key)
          all_goals
            rename_i htag _
            rw [htag]
            rfl
  | _ => rfl

theorem Recalls.readBack_eq {before : List Token} {n : Nesting} (h : Recalls before n)
    (ts : List Token) : readBack before n ts = n.read ts := by
  induction ts generalizing before n with
  | nil => rfl
  | cons t ts ih =>
      rw [readBack, h.stepBack_eq t]
      cases hstep : n.step t with
      | error e =>
          rw [Nesting.read, List.foldlM_cons, hstep]
          rfl
      | ok n' =>
          rw [read_cons ts hstep]
          exact ih (h.step hstep)

end Nesting

namespace Node

/-- The nodes that tokens write, read by looking back from every placeholder. -/
def ofTokensBack (tokens : List Token) : Except MarkupError (List Node) := do
  let n ← Nesting.readBack [] .empty tokens
  n.finish

theorem ofTokensBack_eq (ts : List Token) : ofTokensBack ts = ofTokens ts := by
  unfold ofTokensBack
  rw [Nesting.recalls_empty.readBack_eq ts]
  rfl

/-- There is always an attribute for a placeholder that is taken to belong to one. -/
theorem ofTokens_ne_unexpectedToken (ts : List Token) :
    ofTokens ts ≠ .error (.unexpectedToken Token.placeholder.kind) := by
  rw [Ne, ofTokens_eq_error]
  rintro (hread | ⟨n, -, hfinish⟩)
  · exact Nesting.recalls_empty.read_ne_unexpectedToken ts hread
  · rcases Nesting.finish_eq_error hfinish with ⟨t, -, he⟩ | ⟨-, name, he⟩ <;> cases he

/-- In the nodes, a placeholder stands in a value exactly if there was an attribute for it
when it was read. -/
theorem spot_of_placeholder {before after : List Token} {n : Nesting} {ns : List Node}
    (hread : Nesting.empty.read before = .ok n)
    (h : ofTokens (before ++ .placeholder :: after) = .ok ns) :
    (spotsAll [] 0 ns)[before.count .placeholder]? = some n.spot := by
  obtain ⟨last, hlast, hspots⟩ := read_of_ofTokens h
  obtain ⟨m, hm, hspot⟩ := Nesting.spots_read_placeholder hlast
  rw [hread] at hm
  cases hm
  rw [← hspots, hspot]

/-- Keeping a flag is the same as looking back. All tokens are read alike, with the same
nodes or the same error, and the error is never that a placeholder has no attribute to go to.
Behind whatever is read without a fault the flag is up exactly if looking back meets the name
of an attribute first; exactly then a placeholder that comes next is taken into the value of
the last attribute of a tag, which is there; and exactly then it stands in a value in the
nodes, if all tokens are read in the end. -/
theorem flag_follows_lookBack (ts : List Token) :
    ofTokens ts = ofTokensBack ts ∧
      ofTokens ts ≠ .error (.unexpectedToken Token.placeholder.kind) ∧
      ∀ before after n, ts = before ++ .placeholder :: after →
        Nesting.empty.read before = .ok n →
          (n.inValue = true ↔ Token.BehindName before) ∧
          ((∃ n', n.step .placeholder = .ok n' ∧ n.TakesPiece .placeholder n') ↔
            Token.BehindName before) ∧
          ∀ ns, ofTokens ts = .ok ns →
            ∃ s, (spotsAll [] 0 ns)[before.count .placeholder]? = some s ∧
              (s.isValue = true ↔ Token.BehindName before) := by
  refine ⟨(ofTokensBack_eq ts).symm, ofTokens_ne_unexpectedToken ts, ?_⟩
  rintro before after n rfl hread
  have hrecalls := Nesting.recalls_of_read hread
  refine ⟨hrecalls.behindName, hrecalls.takesPiece_iff.trans hrecalls.behindName, ?_⟩
  intro ns hns
  refine ⟨n.spot, spot_of_placeholder hread hns, ?_⟩
  rw [Nesting.isValue_spot, hrecalls.isSome]
  exact hrecalls.behindName

/-- The second placeholder of a value, behind a literal piece. -/
theorem flag_follows_lookBack_pieces :
    (∃ n', (Nesting.inTag [.text "x"] [] "p" [⟨"a", [.placeholder, .literal "b"]⟩] true).step
        .placeholder = .ok n' ∧
      (Nesting.inTag [.text "x"] [] "p" [⟨"a", [.placeholder, .literal "b"]⟩] true).TakesPiece
        .placeholder n') ∧
    ∃ s, (spotsAll [] 0 [.text "x", .element "p"
        [⟨"a", [.placeholder, .literal "b", .placeholder]⟩] [.placeholder]])[1]? = some s ∧
      s.isValue = true := by
  have hbehind : Token.BehindName [.text "x", .startOpen "p", .attributeName "a",
      .placeholder, .attributeValue "b"] := ⟨"a", rfl⟩
  obtain ⟨-, -, hplaceholders⟩ := flag_follows_lookBack [.text "x", .startOpen "p",
    .attributeName "a", .placeholder, .attributeValue "b", .placeholder, .startClose "p",
    .placeholder, .elementEnd "p"]
  obtain ⟨-, htakes, hnodes⟩ := hplaceholders [.text "x", .startOpen "p", .attributeName "a",
    .placeholder, .attributeValue "b"] [.startClose "p", .placeholder, .elementEnd "p"] _ rfl rfl
  obtain ⟨s, hs, hvalue⟩ := hnodes _ rfl
  exact ⟨htakes.mpr hbehind, s, hs, hvalue.mpr hbehind⟩

end Node

end LiveMarkup
