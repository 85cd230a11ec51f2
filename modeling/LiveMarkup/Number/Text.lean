import LiveMarkup.Number.Shortest

/-!
# Numbers as text

The shortest decimal, written out from a millionth up to below 10^21 and
with a signed exponent beyond. Neither zero has a sign.
-/

namespace LiveMarkup.Number

/-- Where the written-out form begins and ends: the least decimal exponent of
the first digit that has it, and the least above that has not. -/
structure TextFormat where
  plainFrom : Int
  plainBelow : Int

/-- Magnitudes from a millionth up to below 10^21 are written out. -/
def textFormat : TextFormat := ⟨-6, 21⟩

/-- `count` zeros. -/
def zeros (count : Nat) : List Char :=
  List.replicate count '0'

/-- A decimal written out, with a point only before a digit. -/
def plain (digits : List Char) (exponent : Int) : List Char :=
  let p := (digits.length : Int) + exponent
  if 0 ≤ exponent then digits ++ zeros exponent.toNat
  else if 0 < p then digits.take p.toNat ++ '.' :: digits.drop p.toNat
  else '0' :: '.' :: zeros (-p).toNat ++ digits

/-- A decimal with one digit before the point and a signed exponent. -/
def scientific (digits : List Char) (exponent : Int) : List Char :=
  let x := (digits.length : Int) + exponent - 1
  let mantissa :=
    match digits with
    | first :: second :: rest => first :: '.' :: second :: rest
    | _ => digits
  let sign := if x < 0 then '-' else '+'
  mantissa ++ 'e' :: sign :: Nat.toDigits 10 x.natAbs

/-- The magnitude of a finite number other than zero. -/
def magnitudeText (format : TextFormat) (x : Number) : List Char :=
  let d := x.shortest
  let digits := Nat.toDigits 10 d.digits
  let first := (digits.length : Int) + d.exponent - 1
  if format.plainFrom ≤ first ∧ first < format.plainBelow then
    plain digits d.exponent
  else scientific digits d.exponent

/-- The text of a number. -/
def text (x : Number) : String :=
  if x.isNaN then "NaN"
  else if x.isInfinite then (if x.isNegative then "-Infinity" else "Infinity")
  else if x.isZero then "0"
  else String.ofList
    ((if x.isNegative then ['-'] else []) ++ magnitudeText textFormat x)

end LiveMarkup.Number
