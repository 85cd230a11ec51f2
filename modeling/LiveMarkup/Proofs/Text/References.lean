import LiveMarkup.Text.Entity

/-!
# References undo escaping

What escaping writes for a character is read as that character again, whatever
follows it, and text without an ampersand is read as it is. Escaping leaves no
character behind that would end the text or the value it stands in.
-/

namespace LiveMarkup.Entity

/-! ## Reading what was written -/

theorem decodeChars_escapeText (c : Char) (rest : List Char) :
    decodeChars none (escapeText c ++ rest) = c :: decodeChars none rest := by
  unfold escapeText
  split
  · rfl
  · rfl
  · rfl
  · rename_i hamp _ _
    show decodeChars none (c :: rest) = _
    rw [decodeChars, if_neg hamp]

theorem decodeChars_escapeAttribute (c : Char) (rest : List Char) :
    decodeChars none (escapeAttribute c ++ rest) = c :: decodeChars none rest := by
  unfold escapeAttribute
  split
  · rfl
  · exact decodeChars_escapeText c rest

theorem decodeChars_flatMap {escape : Char → List Char}
    (hescape : ∀ c rest, decodeChars none (escape c ++ rest) = c :: decodeChars none rest)
    (cs : List Char) : decodeChars none (cs.flatMap escape) = cs := by
  induction cs with
  | nil => rfl
  | cons c cs ih => rw [List.flatMap_cons, hescape, ih]

theorem decode_encodeText (s : String) : decode (encodeText s) = s := by
  rw [decode, encodeText, String.toList_ofList, decodeChars_flatMap decodeChars_escapeText,
    String.ofList_toList]

theorem decode_encodeAttribute (s : String) : decode (encodeAttribute s) = s := by
  rw [decode, encodeAttribute, String.toList_ofList,
    decodeChars_flatMap decodeChars_escapeAttribute, String.ofList_toList]

theorem encodeText_append (s t : String) : encodeText (s ++ t) = encodeText s ++ encodeText t := by
  simp [encodeText, String.ofList_append]

theorem decode_plain {s : String} (h : '&' ∉ s.toList) : decode s = s := by
  have hchars : ∀ cs : List Char, '&' ∉ cs → decodeChars none cs = cs := by
    intro cs hcs
    induction cs with
    | nil => rfl
    | cons c cs ih =>
        rw [List.mem_cons, not_or] at hcs
        rw [decodeChars, if_neg (Ne.symm hcs.1), ih hcs.2]
  rw [decode, hchars s.toList h, String.ofList_toList]

/-! ## What escaping leaves -/

theorem escapeText_ne_nil (c : Char) : escapeText c ≠ [] := by
  unfold escapeText
  split <;> exact List.cons_ne_nil _ _

theorem lt_notMem_escapeText (c : Char) : '<' ∉ escapeText c := by
  unfold escapeText
  split
  · decide
  · decide
  · decide
  · rename_i hlt _
    intro hmem
    exact hlt (List.mem_singleton.mp hmem).symm

theorem quote_notMem_escapeAttribute (c : Char) : '"' ∉ escapeAttribute c := by
  unfold escapeAttribute
  split
  · decide
  · rename_i hquote
    unfold escapeText
    split
    · decide
    · decide
    · decide
    · intro hmem
      exact hquote (List.mem_singleton.mp hmem).symm

theorem encodeText_ne {s : String} (h : s ≠ "") : encodeText s ≠ "" := by
  intro hempty
  have hnil : s.toList.flatMap escapeText = [] := by
    rw [← String.toList_ofList (l := s.toList.flatMap escapeText)]
    exact String.toList_eq_nil_iff.mpr hempty
  cases hs : s.toList with
  | nil => exact h (String.toList_eq_nil_iff.mp hs)
  | cons c cs =>
      rw [hs, List.flatMap_cons] at hnil
      exact escapeText_ne_nil c (List.append_eq_nil_iff.mp hnil).1

theorem lt_notMem_encodeText (s : String) : '<' ∉ (encodeText s).toList := by
  rw [encodeText, String.toList_ofList]
  intro hmem
  obtain ⟨c, -, hc⟩ := List.mem_flatMap.mp hmem
  exact lt_notMem_escapeText c hc

theorem quote_notMem_encodeAttribute (s : String) : '"' ∉ (encodeAttribute s).toList := by
  rw [encodeAttribute, String.toList_ofList]
  intro hmem
  obtain ⟨c, -, hc⟩ := List.mem_flatMap.mp hmem
  exact quote_notMem_escapeAttribute c hc

end LiveMarkup.Entity
