import LiveMarkup.Number.Basic

/-!
# The number nearest to a fraction

A positive fraction is rounded to the nearest number, a half to the even one.
The patterns of consecutive magnitudes are consecutive, so carrying into the
next power of two, and past the largest finite number into infinity, is plain
addition.
-/

namespace LiveMarkup.Number

/-- The whole number nearest to `num / den`, a half going to the even one. -/
def nearestWhole (num den : Nat) : Nat :=
  let below := num / den
  let rest := num % den
  if 2 * rest < den then below
  else if den < 2 * rest then below + 1
  else below + below % 2

/-- Numerator and denominator of `num / den / 2 ^ q`. -/
def scaleDown (num den : Nat) (q : Int) : Nat × Nat :=
  if 0 ≤ q then (num, den * pow2 q.toNat) else (num * pow2 (-q).toNat, den)

/-- The power of two that the last binary place of `num / den` stands for,
never below that of the smallest magnitudes. -/
def lastPlace (num den : Nat) : Int :=
  let low : Int := max ((num.log2 : Int) - (den.log2 : Int) - 53) (-1074)
  let (n, d) := scaleDown num den low
  if pow2 53 ≤ n / d then low + 1 else low

/-- The number nearest to a fraction of a given sign. -/
def ofRatio (negative : Bool) (num den : Nat) : Number :=
  if num = 0 then ofMagnitude negative 0
  else
    let q := lastPlace num den
    let (n, d) := scaleDown num den q
    let pattern := (q + 1074).toNat * pow2 52 + nearestWhole n d
    ofMagnitude negative (min pattern infinityBits)

/-- The number nearest to a whole number. -/
def ofInt (n : Int) : Number :=
  ofRatio (n < 0) n.natAbs 1

end LiveMarkup.Number
