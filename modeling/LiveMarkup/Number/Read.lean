import LiveMarkup.Number.Rounding
import LiveMarkup.Number.Shortest

/-!
# Reading numbers

An optional sign, then either a name (`inf`, `infinity` or `nan`, in any
case) or ASCII digits with an optional point and an optional exponent. At
least one digit stands before or after the point, and at least one in an
exponent. The result is the nearest number; what is too large is infinite.
-/

namespace LiveMarkup.Number

/-- The whole number that ASCII digits write. -/
def wholeOf (digits : List Char) : Nat :=
  digits.foldl (fun n c => 10 * n + (c.toNat - '0'.toNat)) 0

/-- Splits a sign off: whether it is a minus, and what follows. -/
def splitSign (cs : List Char) : Bool × List Char :=
  match cs with
  | '-' :: rest => (true, rest)
  | '+' :: rest => (false, rest)
  | _ => (false, cs)

/-- The exponent that ends a number: nothing, or a mark, an optional sign and
digits. -/
def exponent? (cs : List Char) : Option Int :=
  match cs with
  | [] => some 0
  | mark :: rest =>
      if mark = 'e' ∨ mark = 'E' then
        let (negative, digits) := splitSign rest
        if digits.isEmpty || !digits.all Char.isDigit then none
        else
          let n : Int := wholeOf digits
          some (if negative then -n else n)
      else none

/-- Digits, an optional point with digits after it, and an exponent. -/
def decimal? (cs : List Char) : Option Decimal :=
  let whole := cs.takeWhile Char.isDigit
  let (places, rest) :=
    match cs.dropWhile Char.isDigit with
    | '.' :: rest => (rest.takeWhile Char.isDigit, rest.dropWhile Char.isDigit)
    | rest => ([], rest)
  if whole.isEmpty && places.isEmpty then none
  else (exponent? rest).map fun e =>
    ⟨wholeOf (whole ++ places), e - (places.length : Int)⟩

/-- The number nearest to a decimal. Decimals far outside the range are cut
off before any power of ten is computed. -/
def ofDecimal (negative : Bool) (d : Decimal) : Number :=
  let p := (Decimal.length d.digits : Int) + d.exponent
  if d.digits = 0 ∨ p < -400 then ofMagnitude negative 0
  else if 400 < p then ofMagnitude negative infinityBits
  else if 0 ≤ d.exponent then
    ofRatio negative (d.digits * pow10 d.exponent.toNat) 1
  else ofRatio negative d.digits (pow10 (-d.exponent).toNat)

/-- Reads a number. -/
def parse? (s : String) : Option Number :=
  let (negative, rest) := splitSign s.toList
  let name := String.ofList (rest.map Char.toLower)
  if name = "inf" ∨ name = "infinity" then
    some (ofMagnitude negative infinityBits)
  else if name = "nan" then some nan
  else (decimal? rest).map (ofDecimal negative)

end LiveMarkup.Number
