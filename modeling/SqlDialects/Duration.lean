import SqlDialects.Decimal.Binary64

/-!
# Durations

A span of time is a count of nanoseconds. It is written in the largest unit of which it has at least one,
with a fraction down to the nanosecond and no zeros at its end.
-/

set_option autoImplicit false

namespace SqlDialects

structure Duration where
  nanoseconds : Nat
  deriving DecidableEq, Inhabited

namespace Duration

def ofSeconds (n : Nat) : Duration := ⟨n * Nat.pow 10 9⟩

/-- The whole milliseconds of a span, one that is begun counting in full. -/
def milliseconds (d : Duration) : Nat := (d.nanoseconds + (Nat.pow 10 6 - 1)) / Nat.pow 10 6

/-- The digits of a fraction of so many places, with the point before them and without zeros at their
end; nothing if no digit is left. -/
def fraction (places n : Nat) : String :=
  let digits := (Decimal.digits n).toList
  let padded := List.replicate (places - digits.length) '0' ++ digits
  match (padded.reverse.dropWhile (· == '0')).reverse with
  | [] => ""
  | ds => String.ofList ('.' :: ds)

/-- A count of nanoseconds in a unit of `10 ^ places` of them. -/
def inUnit (places n : Nat) (unit : String) : String :=
  Decimal.digits (n / Nat.pow 10 places) ++ fraction places (n % Nat.pow 10 places) ++ unit

def text (d : Duration) : String :=
  let n := d.nanoseconds
  if Nat.pow 10 9 ≤ n then inUnit 9 n "s"
  else if Nat.pow 10 6 ≤ n then inUnit 6 n "ms"
  else if Nat.pow 10 3 ≤ n then inUnit 3 n "µs"
  else inUnit 0 n "ns"

end Duration

end SqlDialects
