import LiveMarkup.Number.Basic

/-!
# The shortest decimal of a number

Of all decimals that read back as a given number, the ones with the fewest
digits are taken, of those the nearest to the number, and of two that are
equally near the larger. The reals that read back as `m * 2 ^ q` form an
interval around it, ends included exactly if `m` is even; the two neighbours
of the number on each decimal grid are tried, coarsest grid first.
-/

namespace LiveMarkup

/-- The decimal `digits * 10 ^ exponent`. -/
structure Decimal where
  digits : Nat
  exponent : Int
deriving DecidableEq, Repr

namespace Decimal

/-- How many decimal digits a whole number has; zero has none. -/
def length (n : Nat) : Nat :=
  if n = 0 then 0 else (Nat.toDigits 10 n).length

/-- The least `p` with `num / den < 10 ^ p`. -/
def magnitude (num den : Nat) : Int :=
  if den ≤ num then (length (num / den) : Int)
  else 1 - (length ((den + num - 1) / num - 1) : Int)

/-- The same decimal without zeros at its end; `fuel` bounds their number. -/
def trim : Nat → Decimal → Decimal
  | 0, d => d
  | fuel + 1, d =>
      if d.digits ≠ 0 ∧ d.digits % 10 = 0 then
        trim fuel ⟨d.digits / 10, d.exponent + 1⟩
      else d

end Decimal

namespace Number

/-- The interval of reals that read back as a positive number, and the number
itself, as numerators over one denominator. -/
structure Neighbourhood where
  low : Nat
  centre : Nat
  high : Nat
  den : Nat
  /-- Whether the ends belong to it. -/
  closed : Bool
deriving Repr

/-- Half the gap to each neighbour. Below a power of two the gap is half as
wide, except below the smallest of the full-width magnitudes. -/
def neighbourhood (x : Number) : Neighbourhood :=
  let m := x.significand
  let q := x.binaryExponent - 2
  let lowGap := if x.fractionBits = 0 ∧ 1 < x.exponentBits then 1 else 2
  let up := pow2 q.toNat
  { low := (4 * m - lowGap) * up
    centre := 4 * m * up
    high := (4 * m + 2) * up
    den := pow2 (-q).toNat
    closed := m % 2 == 0 }

/-- Whether `d * 10 ^ k` lies in the interval. -/
def Neighbourhood.holds (v : Neighbourhood) (d : Nat) (k : Int) : Bool :=
  let point := d * pow10 k.toNat * v.den
  let unit := pow10 (-k).toNat
  if v.closed then v.low * unit ≤ point && point ≤ v.high * unit
  else v.low * unit < point && point < v.high * unit

/-- The better of the two neighbours on the grid `10 ^ k`, if one of them
reads back. -/
def Neighbourhood.onGrid (v : Neighbourhood) (k : Int) : Option Decimal :=
  let step := pow10 k.toNat * v.den
  let scaled := v.centre * pow10 (-k).toNat
  let below := scaled / step
  match v.holds below k, v.holds (below + 1) k with
  | true, true =>
      some ⟨if 2 * (scaled % step) < step then below else below + 1, k⟩
  | true, false => some ⟨below, k⟩
  | false, true => some ⟨below + 1, k⟩
  | false, false => none

/-- Tries grids from `10 ^ k` on, each ten times finer than the one before. -/
def Neighbourhood.search (v : Neighbourhood) : Nat → Int → Option Decimal
  | 0, _ => none
  | fuel + 1, k => (v.onGrid k).or (v.search fuel (k - 1))

/-- The shortest decimal of the magnitude of a finite number other than zero.
Seventeen digits always suffice. -/
def shortest (x : Number) : Decimal :=
  let v := x.neighbourhood
  let p := Decimal.magnitude v.centre v.den
  Decimal.trim 20 ((v.search 17 (p - 1)).getD ⟨0, 0⟩)

end Number

end LiveMarkup
