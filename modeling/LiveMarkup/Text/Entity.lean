import LiveMarkup.Text.EntityName

/-!
# Character references

Writing replaces the characters that would be read as markup; reading
replaces references by the characters they stand for. Reading is one pass, so
what a reference stands for is never read again.
-/

namespace LiveMarkup.Entity

/-! ## Writing -/

/-- A character inside text. -/
def escapeText (c : Char) : List Char :=
  match c with
  | '&' => ['&', 'a', 'm', 'p', ';']
  | '<' => ['&', 'l', 't', ';']
  | '>' => ['&', 'g', 't', ';']
  | _ => [c]

/-- A character inside a double-quoted attribute value. -/
def escapeAttribute (c : Char) : List Char :=
  match c with
  | '"' => ['&', 'q', 'u', 'o', 't', ';']
  | _ => escapeText c

/-- Text as it stands between tags. -/
def encodeText (s : String) : String :=
  String.ofList (s.toList.flatMap escapeText)

/-- A value as it stands between double quotes. -/
def encodeAttribute (s : String) : String :=
  String.ofList (s.toList.flatMap escapeAttribute)

/-! ## Reading -/

/-- The value of a digit in a base up to sixteen. -/
def digit? (base : Nat) (c : Char) : Option Nat :=
  let value :=
    if '0' ≤ c && c ≤ '9' then some (c.toNat - '0'.toNat)
    else if 'a' ≤ c && c ≤ 'f' then some (c.toNat - 'a'.toNat + 10)
    else if 'A' ≤ c && c ≤ 'F' then some (c.toNat - 'A'.toNat + 10)
    else none
  value.filter (· < base)

/-- The number that a nonempty run of digits writes. -/
def number? (base : Nat) (digits : List Char) : Option Nat :=
  if digits.isEmpty then none
  else digits.foldlM (fun n c => (digit? base c).map (base * n + ·)) 0

/-- The character with a given number. Surrogates, numbers beyond U+10FFFF
and the control characters below the space have none, except tab, line feed,
form feed and carriage return. -/
def numbered? (n : Nat) : Option Char :=
  if n < 0x20 && !(n == 9 || n == 10 || n == 12 || n == 13) then none
  else if n.isValidChar then some (Char.ofNat n)
  else none

/-- What the text between an ampersand and a semicolon stands for. -/
def resolve (body : List Char) : Option Char :=
  match body with
  | '#' :: 'x' :: digits | '#' :: 'X' :: digits => (number? 16 digits).bind numbered?
  | '#' :: digits => (number? 10 digits).bind numbered?
  | name => EntityName.character? name

/-- A reference that has been read to its semicolon: its character, or the
text as it is written if it stands for none. -/
def resolved (body : List Char) : List Char :=
  match resolve body with
  | some c => [c]
  | none => '&' :: body ++ [';']

/-- Reads on after some ampersand: `body` is what has been read since it, in
reverse. A second ampersand gives the first one up; the end of the text gives
up both. -/
def decodeChars : Option (List Char) → List Char → List Char
  | none, [] => []
  | some body, [] => '&' :: body.reverse
  | none, c :: rest =>
      if c = '&' then decodeChars (some []) rest else c :: decodeChars none rest
  | some body, c :: rest =>
      if c = '&' then '&' :: body.reverse ++ decodeChars (some []) rest
      else if c = ';' then resolved body.reverse ++ decodeChars none rest
      else decodeChars (some (c :: body)) rest

/-- Replaces every character reference by its character. -/
def decode (s : String) : String :=
  String.ofList (decodeChars none s.toList)

end LiveMarkup.Entity
