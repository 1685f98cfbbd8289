import SqlDialects.Decimal.Binary64

/-!
# The shortest decimal that reads back

A number that is no integer is written with the fewest decimal digits that still identify it. The
reals that round to a given number form an interval; its ends belong to it exactly when the
significand is even. A decimal grid is the set of multiples of a power of ten, and the coarsest grid
with a point in the interval gives the shortest text. On one grid only the two neighbours of the
number matter: the nearer one is taken, and of two equally near ones the larger.

All of it is exact arithmetic on natural numbers over a common denominator.
-/

set_option autoImplicit false

namespace SqlDialects.Decimal

/-- A positive number and the interval of reals that round to it, over one denominator. -/
structure RoundingInterval where
  low : Nat
  value : Nat
  high : Nat
  denominator : Nat
  /-- Whether the ends themselves round to the number. -/
  closed : Bool

namespace RoundingInterval

/-- The interval of the number `m * 2 ^ q`. Below a power of two the numbers lie twice as dense, so
there the lower half is half as wide. -/
def ofBinary (m : Nat) (q : Int) (atBinade : Bool) : RoundingInterval :=
  let scale := Nat.pow 2 q.toNat
  { low := (4 * m - if atBinade then 1 else 2) * scale
    value := 4 * m * scale
    high := (4 * m + 2) * scale
    denominator := 4 * Nat.pow 2 (-q).toNat
    closed := m % 2 == 0 }

/-- The multiple of `10 ^ k` that stands for the number on that grid, as its multiplier, if the grid
has a point in the interval. -/
def onGrid (r : RoundingInterval) (k : Int) : Option Nat :=
  let up := Nat.pow 10 (-k).toNat
  let unit := r.denominator * Nat.pow 10 k.toNat
  let value := r.value * up
  let below := value / unit
  let above := below + 1
  let belowIn := if r.closed then r.low * up ≤ below * unit else r.low * up < below * unit
  let aboveIn := if r.closed then above * unit ≤ r.high * up else above * unit < r.high * up
  if belowIn ∧ aboveIn then
    some (if value - below * unit < above * unit - value then below else above)
  else if belowIn then some below
  else if aboveIn then some above
  else none

/-- The multiplier and the power of ten of the shortest decimal in the interval. -/
def shortest (r : RoundingInterval) : Nat × Int :=
  let grids := (List.range 660).map (fun (i : Nat) => (310 : Int) - (i : Int))
  (grids.findSome? (fun k => (r.onGrid k).map (fun d => (d, k)))).getD (0, 0)

end RoundingInterval

/-- The positional text of `d * 10 ^ k`, without an exponent. -/
def positional (d : Nat) (k : Int) : String :=
  let ds := Nat.toDigits 10 d
  match k with
  | .ofNat n => String.ofList (ds ++ List.replicate n '0')
  | .negSucc n =>
    let places := n + 1
    let padded := List.replicate (places + 1 - ds.length) '0' ++ ds
    let whole := padded.take (padded.length - places)
    let fraction := padded.drop (padded.length - places)
    String.ofList (whole ++ '.' :: fraction)

namespace Binary64

/-- The magnitude of a finite number: an integer with all its digits and one zero after the point,
anything else by its shortest digits. -/
def magnitude (x : Binary64) : String :=
  match x.integral? with
  | some n => digits n ++ ".0"
  | none =>
    let atBinade := x.fraction == 0 && decide (1 < x.exponentField)
    let (d, k) := (RoundingInterval.ofBinary x.significand x.exponent atBinade).shortest
    positional d k

/-- The text of a number; a zero keeps its sign. -/
def text (x : Binary64) : String :=
  if x.isNaN then "NaN"
  else (if x.isNegative then "-" else "") ++ (if x.isFinite then x.magnitude else "inf")

end Binary64

end SqlDialects.Decimal
