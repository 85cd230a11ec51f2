/-!
# Blank characters

Two different sets. Inside a tag five ASCII characters separate attributes;
around the name of an end tag every character with the Unicode property
`White_Space` is trimmed.
-/

namespace LiveMarkup

/-- The characters that separate names and attributes inside a tag: space,
tab, line feed, carriage return and form feed. -/
def isTagBlank (c : Char) : Bool :=
  c == ' ' || c == '\t' || c == '\n' || c == '\r' || c == '\x0c'

/-- The Unicode property `White_Space`. -/
def isWhiteSpace (c : Char) : Bool :=
  let n := c.toNat
  (9 ≤ n && n ≤ 13) || n == 0x20 || n == 0x85 || n == 0xa0 || n == 0x1680 ||
    (0x2000 ≤ n && n ≤ 0x200a) || n == 0x2028 || n == 0x2029 || n == 0x202f ||
    n == 0x205f || n == 0x3000

/-- Removes white space at both ends. -/
def trimWhiteSpace (cs : List Char) : List Char :=
  ((cs.dropWhile isWhiteSpace).reverse.dropWhile isWhiteSpace).reverse

/-- Text without white space at either end is left alone. -/
theorem trimWhiteSpace_eq_self {cs : List Char}
    (hhead : ∀ c ∈ cs.head?, isWhiteSpace c = false)
    (hlast : ∀ c ∈ cs.getLast?, isWhiteSpace c = false) :
    trimWhiteSpace cs = cs := by
  have key : ∀ l : List Char, (∀ c ∈ l.head?, isWhiteSpace c = false) →
      l.dropWhile isWhiteSpace = l := by
    intro l hl
    cases l with
    | nil => rfl
    | cons c rest => simp [hl c (by simp)]
  unfold trimWhiteSpace
  rw [key cs hhead, key cs.reverse (by simpa using hlast), List.reverse_reverse]

end LiveMarkup
