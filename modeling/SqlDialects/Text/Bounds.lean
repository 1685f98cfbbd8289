/-!
# Sets of numbers by their boundaries

The classes of characters that Unicode defines are sets with many gaps. Such a set is given by its
**boundaries**, in rising order: the numbers at which membership changes, beginning outside. So the
boundaries up to a number are odd in count exactly if the number is inside.
-/

set_option autoImplicit false

namespace SqlDialects.Text

/-- Whether a number lies in the set that boundaries delimit. -/
def within (bounds : List Nat) (n : Nat) : Bool :=
  (bounds.takeWhile (· ≤ n)).length % 2 == 1

/-- Below the first boundary there is nothing. -/
theorem not_within_of_lt {b n : Nat} {bounds : List Nat} (h : n < b) :
    within (b :: bounds) n = false := by
  have : ¬ b ≤ n := by omega
  simp [within, this]

end SqlDialects.Text
