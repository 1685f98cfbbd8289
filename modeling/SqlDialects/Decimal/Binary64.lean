/-!
# Binary floating-point numbers by their bits

A double-precision number is kept as its 64 bits, so that every statement about one is a statement
about natural numbers. The bits split into a sign, an exponent field of 11 bits and a fraction of 52;
`significand` and `exponent` read them as `significand * 2 ^ exponent`, with the hidden bit put back.

Equality of numbers is not equality of bits: a NaN equals nothing, and the two zeros are equal.
-/

set_option autoImplicit false

namespace SqlDialects.Decimal

/-- The decimal digits of a natural number. -/
def digits (n : Nat) : String :=
  String.ofList (Nat.toDigits 10 n)

def integer : Int → String
  | .ofNat n => digits n
  | .negSucc n => "-" ++ digits (n + 1)

/-- A double-precision number, by its bits. -/
structure Binary64 where
  bits : UInt64
  deriving DecidableEq, Inhabited

namespace Binary64

def isNegative (x : Binary64) : Bool := x.bits.toNat / Nat.pow 2 63 == 1

def exponentField (x : Binary64) : Nat := x.bits.toNat / Nat.pow 2 52 % Nat.pow 2 11

def fraction (x : Binary64) : Nat := x.bits.toNat % Nat.pow 2 52

/-- Whether the number is neither infinite nor a NaN. -/
def isFinite (x : Binary64) : Bool := x.exponentField != 2047

/-- Whether the bits are those of a NaN. -/
def isNaN (x : Binary64) : Bool := x.exponentField == 2047 && x.fraction != 0

/-- Whether the number is a zero of either sign. -/
def isZero (x : Binary64) : Bool := x.exponentField == 0 && x.fraction == 0

/-- The significand of a finite number, as an integer. -/
def significand (x : Binary64) : Nat :=
  if x.exponentField = 0 then x.fraction else Nat.pow 2 52 + x.fraction

/-- The power of two that the significand is scaled by. -/
def exponent (x : Binary64) : Int :=
  max x.exponentField 1 - 1075

/-- Equality of numbers: a NaN is unequal to every number, and the two zeros are equal. -/
protected def beq (x y : Binary64) : Bool :=
  !x.isNaN && !y.isNaN && (x.bits == y.bits || (x.isZero && y.isZero))

instance : BEq Binary64 := ⟨Binary64.beq⟩

/-- The integer that a finite number is equal to in magnitude, if there is one. -/
def integral? (x : Binary64) : Option Nat :=
  match x.exponent with
  | .ofNat q => some (x.significand * Nat.pow 2 q)
  | .negSucc q =>
    let scale := Nat.pow 2 (q + 1)
    if x.significand % scale = 0 then some (x.significand / scale) else none

/-- The number with the same value as the single-precision number of the given bits. A subnormal is
scaled until its leading bit is the hidden one. -/
def ofBinary32 (bits : UInt32) : Binary64 :=
  let n := bits.toNat
  let sign := n / Nat.pow 2 31 * Nat.pow 2 63
  let field := n / Nat.pow 2 23 % Nat.pow 2 8
  let fraction := n % Nat.pow 2 23
  let magnitude :=
    if field = 255 then 2047 * Nat.pow 2 52 + fraction * Nat.pow 2 29
    else if field ≠ 0 then (field + 896) * Nat.pow 2 52 + fraction * Nat.pow 2 29
    else if fraction = 0 then 0
    else
      let shift := 23 - Nat.log2 fraction
      (897 - shift) * Nat.pow 2 52 + (fraction * Nat.pow 2 shift - Nat.pow 2 23) * Nat.pow 2 29
  ⟨UInt64.ofNat (sign + magnitude)⟩

end Binary64

end SqlDialects.Decimal
