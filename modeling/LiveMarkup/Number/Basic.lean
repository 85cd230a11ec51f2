/-!
# Double-precision numbers

A number is its sixty-four bits: a sign, eleven bits of exponent and
fifty-two of fraction. Only what rendering needs is defined here: the classes
of numbers, equality, and the whole number and power of two whose product a
finite number is.
-/

namespace LiveMarkup

/-- A binary floating-point number of sixty-four bits. -/
structure Number where
  bits : UInt64
deriving DecidableEq, Repr, Inhabited

/-- A power of two. -/
def pow2 (n : Nat) : Nat := Nat.pow 2 n

/-- A power of ten. -/
def pow10 (n : Nat) : Nat := Nat.pow 10 n

namespace Number

/-- Whether the sign bit is set. -/
def isNegative (x : Number) : Bool :=
  pow2 63 ≤ x.bits.toNat

/-- The bits without the sign. -/
def magnitude (x : Number) : Nat :=
  x.bits.toNat % pow2 63

/-- The exponent bits. -/
def exponentBits (x : Number) : Nat :=
  x.magnitude / pow2 52

/-- The fraction bits. -/
def fractionBits (x : Number) : Nat :=
  x.magnitude % pow2 52

/-- The magnitude of both infinities; what lies above it is not a number. -/
def infinityBits : Nat :=
  2047 * pow2 52

def isNaN (x : Number) : Bool :=
  infinityBits < x.magnitude

def isInfinite (x : Number) : Bool :=
  x.magnitude == infinityBits

def isZero (x : Number) : Bool :=
  x.magnitude == 0

/-- The number with a given sign and magnitude. -/
def ofMagnitude (negative : Bool) (magnitude : Nat) : Number :=
  ⟨UInt64.ofNat (magnitude + if negative then pow2 63 else 0)⟩

def zero : Number := ⟨0⟩

/-- The one pattern that is written for whatever is not a number. -/
def nan : Number := ⟨0x7ff8000000000000⟩

/-- The same number, with one pattern for all that are not numbers. -/
def canonical (x : Number) : Number :=
  if x.isNaN then nan else x

/-- Equality of numbers: nothing equals what is not a number, and the two
zeros are equal. -/
def equals (x y : Number) : Bool :=
  !x.isNaN && !y.isNaN && (x.bits == y.bits || (x.isZero && y.isZero))

/-- The whole number `m` of a finite magnitude `m * 2 ^ q`. -/
def significand (x : Number) : Nat :=
  if x.exponentBits = 0 then x.fractionBits else x.fractionBits + pow2 52

/-- The power `q` of a finite magnitude `m * 2 ^ q`. -/
def binaryExponent (x : Number) : Int :=
  if x.exponentBits = 0 then -1074 else (x.exponentBits : Int) - 1075

/-- Equality is symmetric. -/
theorem equals_comm (x y : Number) : x.equals y = y.equals x := by
  have hbits : (x.bits == y.bits) = (y.bits == x.bits) := Bool.beq_comm
  unfold equals
  rw [Bool.and_comm (!x.isNaN), hbits, Bool.and_comm x.isZero]

/-- A number equals itself exactly if it is one. -/
theorem equals_self (x : Number) : x.equals x = !x.isNaN := by
  simp [equals]

end Number

end LiveMarkup
