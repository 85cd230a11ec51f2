import LiveMarkup.Proofs.Markup.Scanning

/-!
# Boundaries

Scanning the characters of a segment makes lexemes, whatever the place it
begins in: never a placeholder, and no name that could not be written as one.
So the placeholders among the tokens of segments are the boundaries, and what
stands before one of them is what the segments before the boundary are scanned
as.
-/

namespace LiveMarkup

open Scan (TagName AttributeName)

namespace Token

/-- A token whose name, if it has one, can be written as such a name. -/
def Spelt : Token → Prop
  | startOpen name => TagName name.toList
  | attributeName name => AttributeName name.toList
  | _ => True

/-- What the characters of a segment are scanned as. -/
def IsLexeme (t : Token) : Prop :=
  t ≠ placeholder ∧ t.Spelt

end Token

namespace Scan

/-! ## Inside a segment -/

theorem lexemes_valueTokens (cs : List Char) : ∀ t ∈ valueTokens cs, t.IsLexeme := by
  unfold valueTokens
  split <;> simp [Token.IsLexeme, Token.Spelt]

theorem lexeme_attributeName {word : List Char} (hword : AttributeName word) :
    Token.IsLexeme (.attributeName (String.ofList word)) := by
  simp [Token.IsLexeme, Token.Spelt, hword]

theorem Lexes.lexemes {place next : Place} {cs rest : List Char} {ts : List Token}
    (h : Lexes place cs rest ts next) : ∀ t ∈ ts, t.IsLexeme := by
  cases h with
  | startTag _ hname => simp [Token.IsLexeme, Token.Spelt, hname]
  | text | comment | endTag | blanks | startClose | selfClose | piece =>
      simp [Token.IsLexeme, Token.Spelt]
  | bare _ hword | deferred _ hword =>
      exact List.forall_mem_singleton.mpr (lexeme_attributeName hword)
  | unquoted _ hword | closed _ _ hword =>
      refine List.forall_mem_cons.mpr ⟨lexeme_attributeName hword, ?_⟩
      simp [Token.IsLexeme, Token.Spelt]
  | opened _ hword =>
      exact List.forall_mem_cons.mpr ⟨lexeme_attributeName hword, lexemes_valueTokens _⟩
  | quoteEnd => exact lexemes_valueTokens _

theorem lexemes_segment {place last : Place} {cs : List Char} {ts : List Token}
    (h : segment place cs = .ok (ts, last)) : ∀ t ∈ ts, t.IsLexeme := by
  fun_induction segment place cs generalizing ts last with
  | case1 =>
      cases h
      simp
  | case2 => cases h
  | case3 => cases h
  | case4 place cs hne s hstep more last' hrest ih =>
      cases h
      intro t ht
      rcases List.mem_append.mp ht with ht | ht
      · obtain ⟨lexeme, -, hlexeme⟩ := lexeme_of_step hne hstep
        exact hlexeme.lexemes t ht
      · exact ih hrest t ht

theorem placeholder_notMem_segment {place last : Place} {cs : List Char} {ts : List Token}
    (h : segment place cs = .ok (ts, last)) : .placeholder ∉ ts := by
  intro hmem
  exact (lexemes_segment h _ hmem).1 rfl

/-! ## Between segments -/

theorem count_placeholder_segments {index : Nat} {place last : Place} {s : String}
    {rest : List String} {ts : List Token}
    (h : segments index place (s :: rest) = .ok (ts, last)) :
    ts.count .placeholder = rest.length := by
  induction rest generalizing index place s ts with
  | nil =>
      rw [segments_singleton_eq_ok] at h
      exact List.count_eq_zero.mpr (placeholder_notMem_segment h)
  | cons s' rest ih =>
      rw [segments_cons_eq_ok (List.cons_ne_nil s' rest)] at h
      obtain ⟨own, next, more, hsegment, hmore, rfl⟩ := h
      have hown : own.count .placeholder = 0 :=
        List.count_eq_zero.mpr (placeholder_notMem_segment hsegment)
      rw [List.count_append, List.count_cons_self, ih hmore, hown, List.length_cons]
      omega

theorem spelt_segments {index : Nat} {place last : Place} {segments : List String}
    {ts : List Token} (h : Scan.segments index place segments = .ok (ts, last)) :
    ∀ t ∈ ts, t.Spelt := by
  induction segments generalizing index place ts with
  | nil =>
      cases h
      simp
  | cons s rest ih =>
      by_cases hrest : rest = []
      · subst hrest
        rw [segments_singleton_eq_ok] at h
        exact fun t ht => (lexemes_segment h t ht).2
      · rw [segments_cons_eq_ok hrest] at h
        obtain ⟨own, next, more, hsegment, hmore, rfl⟩ := h
        intro t ht
        rcases List.mem_append.mp ht with ht | ht
        · exact (lexemes_segment hsegment t ht).2
        · rcases List.mem_cons.mp ht with rfl | ht
          · trivial
          · exact ih hmore t ht

/-- At each boundary the tokens fall apart into those of the segments before it, the
placeholder, and the others. -/
theorem segments_boundary {index k : Nat} {place last : Place} {s : String}
    {rest : List String} {ts : List Token} (hk : k < rest.length)
    (h : segments index place (s :: rest) = .ok (ts, last)) :
    ∃ before after next, ts = before ++ .placeholder :: after ∧
      segments index place ((s :: rest).take (k + 1)) = .ok (before, next) := by
  induction rest generalizing index place s ts k with
  | nil => cases hk
  | cons s' rest ih =>
      rw [segments_cons_eq_ok (List.cons_ne_nil s' rest)] at h
      obtain ⟨own, next, more, hsegment, hmore, rfl⟩ := h
      cases k with
      | zero => exact ⟨own, more, next, rfl, segments_singleton_eq_ok.mpr hsegment⟩
      | succ k =>
          obtain ⟨before, after, next', rfl, htake⟩ := ih (Nat.lt_of_succ_lt_succ hk) hmore
          refine ⟨own ++ .placeholder :: before, after, next', by simp, ?_⟩
          have hlater : (s' :: rest).take (k + 1) ≠ [] := by
            rw [List.take_succ_cons]
            exact List.cons_ne_nil _ _
          exact (segments_cons_eq_ok hlater).mpr ⟨own, next, before, hsegment, htake, rfl⟩

end Scan

namespace Token

theorem ofSegments_eq_ok {segments : List String} {ts : List Token} :
    ofSegments segments = .ok ts ↔
      ∃ last, Scan.segments 0 .content segments = .ok (ts, last) := by
  unfold ofSegments
  cases Scan.segments 0 .content segments with
  | error e => simp [Except.map]
  | ok read =>
      obtain ⟨ts', last⟩ := read
      simp [Except.map]

theorem spelt_ofSegments {segments : List String} {ts : List Token}
    (h : ofSegments segments = .ok ts) : ∀ t ∈ ts, t.Spelt := by
  obtain ⟨last, hscan⟩ := ofSegments_eq_ok.mp h
  exact Scan.spelt_segments hscan

/-- There is one placeholder less than there are segments. -/
theorem count_placeholder_ofSegments {segments : List String} {ts : List Token}
    (hne : segments ≠ []) (h : ofSegments segments = .ok ts) :
    ts.count .placeholder + 1 = segments.length := by
  obtain ⟨last, hscan⟩ := ofSegments_eq_ok.mp h
  cases segments with
  | nil => exact absurd rfl hne
  | cons s rest => rw [Scan.count_placeholder_segments hscan, List.length_cons]

/-- What stands before the placeholder of a boundary is what the segments before the
boundary are scanned as, and it has as many placeholders as there are boundaries before. -/
theorem ofSegments_boundary {segments : List String} {ts : List Token} {k : Nat}
    (hk : k + 1 < segments.length) (h : ofSegments segments = .ok ts) :
    ∃ before after, ts = before ++ .placeholder :: after ∧
      before.count .placeholder = k ∧ ofSegments (segments.take (k + 1)) = .ok before := by
  obtain ⟨last, hscan⟩ := ofSegments_eq_ok.mp h
  cases segments with
  | nil => cases hk
  | cons s rest =>
      have hrest : k < rest.length := Nat.lt_of_succ_lt_succ hk
      obtain ⟨before, after, next, hsplit, htake⟩ := Scan.segments_boundary hrest hscan
      refine ⟨before, after, hsplit, ?_, ofSegments_eq_ok.mpr ⟨next, htake⟩⟩
      rw [List.take_succ_cons] at htake
      rw [Scan.count_placeholder_segments htake, List.length_take]
      omega

end Token

end LiveMarkup
