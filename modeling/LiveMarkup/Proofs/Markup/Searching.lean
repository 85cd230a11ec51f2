import Mathlib.Data.List.TakeWhile
import LiveMarkup.Proofs.Markup.Lexemes

/-!
# Looking for a lexeme

The scanner looks for the end of a run of characters, for a character, for the
end of a comment or of an end tag, and for an equals sign behind blanks. What it
finds is said without it, and so is that there is nothing to find.
-/

namespace LiveMarkup

namespace Scan

/-! ## Runs of characters -/

theorem takeWhile_run {p : Char → Bool} {run rest : List Char} (hrun : ∀ c ∈ run, p c = true)
    (hstop : ∀ c ∈ rest.head?, p c = false) : (run ++ rest).takeWhile p = run := by
  rw [List.takeWhile_append_of_pos hrun]
  cases rest with
  | nil => exact List.append_nil run
  | cons c rest => rw [List.takeWhile_cons_of_neg (by simp [hstop c rfl]), List.append_nil]

theorem dropWhile_run {p : Char → Bool} {run rest : List Char} (hrun : ∀ c ∈ run, p c = true)
    (hstop : ∀ c ∈ rest.head?, p c = false) : (run ++ rest).dropWhile p = rest := by
  rw [List.dropWhile_append_of_pos hrun]
  cases rest with
  | nil => rfl
  | cons c rest => rw [List.dropWhile_cons_of_neg (by simp [hstop c rfl])]

theorem bne_of_notMem {d : Char} {cs : List Char} (h : d ∉ cs) : ∀ c ∈ cs, (c != d) = true := by
  intro c hc
  rw [bne_iff_ne]
  rintro rfl
  exact h hc

theorem splitAtChar_found {d : Char} {run : List Char} (hrun : d ∉ run) (rest : List Char) :
    splitAtChar d (run ++ d :: rest) = some (run, rest) := by
  have hother := bne_of_notMem hrun
  have hstop : ∀ c ∈ (d :: rest).head?, (c != d) = false := by
    intro c hc
    cases hc
    exact bne_self_eq_false d
  rw [splitAtChar, dropWhile_run hother hstop, takeWhile_run hother hstop]

theorem splitAtChar_missing {d : Char} {cs : List Char} (hcs : d ∉ cs) :
    splitAtChar d cs = none := by
  have hdrop : (cs ++ []).dropWhile (· != d) = [] := by
    apply dropWhile_run (bne_of_notMem hcs)
    intro c hc
    cases hc
  rw [List.append_nil] at hdrop
  rw [splitAtChar, hdrop]

theorem splitAtChar_ne_nil {d : Char} {cs value after : List Char}
    (h : splitAtChar d cs = some (value, after)) (hhead : ∀ c ∈ cs.head?, c ≠ d) :
    value ≠ [] := by
  cases cs with
  | nil => cases h
  | cons c cs =>
      have hc : (c != d) = true := bne_iff_ne.mpr (hhead c rfl)
      unfold splitAtChar at h
      split at h
      · cases h
      · cases h
        have htake : (c :: cs).takeWhile (· != d) = c :: cs.takeWhile (· != d) :=
          List.takeWhile_cons_of_pos hc
        rw [htake]
        exact List.cons_ne_nil c _

/-- The first end of a comment is the one after its body: an end that began inside of the
body would have its last character among the two dashes. -/
theorem splitCommentEnd_found {body : List Char} (hbody : ¬ ['-', '-', '>'] <:+: body)
    (rest : List Char) :
    splitCommentEnd (body ++ '-' :: '-' :: '>' :: rest) = some (body, rest) := by
  induction body with
  | nil => rfl
  | cons c body ih =>
      have htail : ¬ ['-', '-', '>'] <:+: body := by
        intro hinfix
        exact hbody (List.infix_cons hinfix)
      have hrest := ih htail
      rw [List.cons_append]
      unfold splitCommentEnd
      split
      · rename_i heq
        cases heq
      · rename_i after heq
        -- the body would have to go on with a dash and a bracket
        exfalso
        match body, heq with
        | [], heq => simp at heq
        | [b], heq => simp at heq
        | b :: b' :: more, heq =>
            simp only [List.cons_append, List.cons.injEq] at heq
            obtain ⟨rfl, rfl, rfl, -⟩ := heq
            exact hbody (List.prefix_append ['-', '-', '>'] more).isInfix
      · rename_i heq
        cases heq
        rw [hrest]
        rfl

theorem ends_dropWhile (p : Char → Bool) (cs : List Char) : Ends p (cs.dropWhile p) := by
  intro c hc
  have hhead := List.head?_dropWhile_not p cs
  rw [Option.mem_def.mp hc] at hhead
  exact hhead

theorem blanks_takeWhile (cs : List Char) : Blanks (cs.takeWhile isTagBlank) := by
  intro c hc
  exact List.mem_takeWhile_imp hc

theorem not_mem_takeWhile_bne (d : Char) (cs : List Char) : d ∉ cs.takeWhile (· != d) := by
  intro hmem
  have hne := List.mem_takeWhile_imp hmem
  simp at hne

theorem splitCommentEnd_eq_some {cs body rest : List Char}
    (h : splitCommentEnd cs = some (body, rest)) :
    cs = body ++ ['-', '-', '>'] ++ rest ∧ ¬ ['-', '-', '>'] <:+: body := by
  fun_induction splitCommentEnd cs generalizing body with
  | case1 => cases h
  | case2 after =>
      cases h
      simp
  | case3 c after hother ih =>
      obtain ⟨⟨body', rest'⟩, hrec, heq⟩ := Option.map_eq_some_iff.mp h
      cases heq
      obtain ⟨rfl, hfree⟩ := ih hrec
      refine ⟨rfl, ?_⟩
      intro hinfix
      rcases List.infix_cons_iff.mp hinfix with ⟨more, hmore⟩ | hinfix
      · -- an end right here would have been found
        simp only [List.cons_append, List.nil_append, List.cons.injEq] at hmore
        obtain ⟨rfl, rfl⟩ := hmore
        exact hother _ rfl rfl
      · exact hfree hinfix

theorem splitCommentEnd_eq_none {cs : List Char} (h : splitCommentEnd cs = none) :
    ¬ ['-', '-', '>'] <:+: cs := by
  fun_induction splitCommentEnd cs with
  | case1 => simp
  | case2 => cases h
  | case3 c after hother ih =>
      intro hinfix
      rcases List.infix_cons_iff.mp hinfix with ⟨more, hmore⟩ | hinfix
      · simp only [List.cons_append, List.nil_append, List.cons.injEq] at hmore
        obtain ⟨rfl, rfl⟩ := hmore
        exact hother more rfl rfl
      · exact ih (Option.map_eq_none_iff.mp h) hinfix

theorem comment?_eq_some {cs body rest : List Char} (h : comment? cs = some (body, rest)) :
    cs = ['<', '!', '-', '-'] ++ body ++ ['-', '-', '>'] ++ rest ∧
      ¬ ['-', '-', '>'] <:+: body := by
  unfold comment? at h
  split at h
  · obtain ⟨rfl, hfree⟩ := splitCommentEnd_eq_some h
    exact ⟨by simp, hfree⟩
  · cases h

theorem comment?_found {body : List Char} (hfree : ¬ ['-', '-', '>'] <:+: body)
    (rest : List Char) :
    comment? (['<', '!', '-', '-'] ++ body ++ ['-', '-', '>'] ++ rest) = some (body, rest) := by
  rw [List.append_assoc, List.append_assoc]
  exact splitCommentEnd_found hfree rest

theorem comment?_eq_none_iff {cs : List Char} : comment? cs = none ↔ ¬ StartsComment cs := by
  constructor
  · rintro h ⟨body, after, rfl⟩
    rw [List.append_assoc, List.append_assoc] at h
    exact splitCommentEnd_eq_none h ⟨body, after, by simp⟩
  · intro h
    cases hfound : comment? cs with
    | none => rfl
    | some found =>
        obtain ⟨rfl, -⟩ := comment?_eq_some hfound
        exact absurd ⟨_, _, rfl⟩ h

theorem endTag?_eq_some {cs name rest : List Char} (h : endTag? cs = some (name, rest)) :
    cs = ['<', '/'] ++ name ++ ['>'] ++ rest ∧ name ≠ [] ∧ '>' ∉ name := by
  unfold endTag? at h
  split at h
  · rename_i after
    split at h
    · rename_i c more tail htake hdrop
      cases h
      have hsplit : after.takeWhile (· != '>') ++ after.dropWhile (· != '>') = after :=
        List.takeWhile_append_dropWhile
      have hfree := not_mem_takeWhile_bne '>' after
      rw [htake] at hsplit hfree
      rw [hdrop] at hsplit
      refine ⟨?_, List.cons_ne_nil c more, hfree⟩
      rw [← hsplit]
      simp
    · cases h
  · cases h

theorem endTag?_found {name : List Char} (hne : name ≠ []) (hfree : '>' ∉ name)
    (rest : List Char) : endTag? (['<', '/'] ++ name ++ ['>'] ++ rest) = some (name, rest) := by
  have hother := bne_of_notMem hfree
  have hstop : ∀ c ∈ ('>' :: rest).head?, (c != '>') = false := by
    intro c hc
    cases hc
    rfl
  have hrow : ['<', '/'] ++ name ++ ['>'] ++ rest = '<' :: '/' :: (name ++ '>' :: rest) := by
    simp
  rw [hrow, endTag?, takeWhile_run hother hstop, dropWhile_run hother hstop]
  obtain ⟨c, more, rfl⟩ := List.exists_cons_of_ne_nil hne
  rfl

theorem endTag?_eq_none_iff {cs : List Char} : endTag? cs = none ↔ ¬ StartsEndTag cs := by
  constructor
  · rintro h ⟨name, after, hne, hfree, rfl⟩
    rw [endTag?_found hne hfree after] at h
    cases h
  · intro h
    cases hfound : endTag? cs with
    | none => rfl
    | some found =>
        obtain ⟨rfl, hne, hfree⟩ := endTag?_eq_some hfound
        exact absurd ⟨_, _, hne, hfree, rfl⟩ h

theorem assign?_eq_some {cs rest : List Char} (h : assign? cs = some rest) :
    (∃ sign, EqualsSign sign ∧ cs = sign ++ rest) ∧ Ends isTagBlank rest := by
  unfold assign? at h
  split at h
  · rename_i after hdrop
    cases h
    have hbefore : cs.takeWhile isTagBlank ++ cs.dropWhile isTagBlank = cs :=
      List.takeWhile_append_dropWhile
    have hafter : after.takeWhile isTagBlank ++ after.dropWhile isTagBlank = after :=
      List.takeWhile_append_dropWhile
    rw [hdrop] at hbefore
    refine ⟨⟨cs.takeWhile isTagBlank ++ '=' :: after.takeWhile isTagBlank,
      ⟨_, _, blanks_takeWhile cs, blanks_takeWhile after, rfl⟩, ?_⟩, ends_dropWhile _ after⟩
    rw [List.append_assoc, List.cons_append, hafter, hbefore]
  · cases h

theorem assign?_found {sign rest : List Char} (hsign : EqualsSign sign)
    (hends : Ends isTagBlank rest) : assign? (sign ++ rest) = some rest := by
  obtain ⟨before, after, hbefore, hafter, rfl⟩ := hsign
  have hequals : ∀ c ∈ ('=' :: after ++ rest).head?, isTagBlank c = false := by
    intro c hc
    cases hc
    rfl
  rw [List.append_assoc, assign?, dropWhile_run hbefore hequals]
  show some ((after ++ rest).dropWhile isTagBlank) = _
  rw [dropWhile_run hafter hends]

theorem assign?_eq_none_iff {cs : List Char} : assign? cs = none ↔ ¬ StartsEquals cs := by
  constructor
  · rintro h ⟨sign, after, ⟨before, blanks, hbefore, -, rfl⟩, rfl⟩
    have hequals : ∀ c ∈ ('=' :: blanks ++ after).head?, isTagBlank c = false := by
      intro c hc
      cases hc
      rfl
    rw [List.append_assoc, assign?, dropWhile_run hbefore hequals] at h
    cases h
  · intro h
    cases hfound : assign? cs with
    | none => rfl
    | some after =>
        obtain ⟨⟨sign, hsign, heq⟩, -⟩ := assign?_eq_some hfound
        exact absurd ⟨sign, after, hsign, heq⟩ h

theorem splitAtChar_eq_some {d : Char} {cs value rest : List Char}
    (h : splitAtChar d cs = some (value, rest)) : cs = value ++ d :: rest ∧ d ∉ value := by
  unfold splitAtChar at h
  split at h
  · cases h
  · rename_i c after hdrop
    cases h
    have hsplit : cs.takeWhile (· != d) ++ cs.dropWhile (· != d) = cs :=
      List.takeWhile_append_dropWhile
    have hhead := ends_dropWhile (· != d) cs
    rw [hdrop] at hsplit hhead
    have hc : c = d := by simpa using hhead c rfl
    subst hc
    exact ⟨hsplit.symm, not_mem_takeWhile_bne c cs⟩

theorem splitAtChar_eq_none {d : Char} {cs : List Char} (h : splitAtChar d cs = none) :
    d ∉ cs := by
  unfold splitAtChar at h
  split at h
  · rename_i hdrop
    have hsplit : cs.takeWhile (· != d) ++ cs.dropWhile (· != d) = cs :=
      List.takeWhile_append_dropWhile
    rw [hdrop, List.append_nil] at hsplit
    rw [← hsplit]
    exact not_mem_takeWhile_bne d cs
  · cases h

theorem comment?_startTag {name rest : List Char} (hne : name ≠ [])
    (hcomment : ¬ ['!', '-', '-'] <+: name) (hends : ∀ c ∈ rest.head?, c = ' ' ∨ c = '>') :
    comment? ('<' :: (name ++ rest)) = none := by
  unfold comment?
  split
  · rename_i after heq
    exfalso
    apply hcomment
    match name, hne, heq with
    | [c], _, heq =>
        simp only [List.cons_append, List.nil_append, List.cons.injEq, true_and] at heq
        obtain ⟨-, rfl⟩ := heq
        simpa using hends '-' rfl
    | [c, c'], _, heq =>
        simp only [List.cons_append, List.nil_append, List.cons.injEq, true_and] at heq
        obtain ⟨-, -, rfl⟩ := heq
        simpa using hends '-' rfl
    | c :: c' :: c'' :: more, _, heq =>
        simp only [List.cons_append, List.cons.injEq, true_and] at heq
        obtain ⟨rfl, rfl, rfl, -⟩ := heq
        exact List.prefix_append ['!', '-', '-'] more
  · rfl

end Scan

end LiveMarkup
