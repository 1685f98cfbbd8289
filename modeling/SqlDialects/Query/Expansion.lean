import SqlDialects.Query.Inference

/-!
# Expansions into plainer trees

Where a dialect lacks a construct, it is replaced by a tree of constructs that every dialect has. The
replacements are ordinary trees, built here and rendered like any other.
-/

set_option autoImplicit false

namespace SqlDialects

namespace Extremum

/-- `GREATEST` or `LEAST` of at least two arguments as a `CASE`: null if one of the first two is null,
and otherwise the function of the winner and the rest. The first argument wins where `comparison` holds. -/
def expand (which : Extremum) (comparison : ComparisonOp) (first second : Field) (rest : List Field) :
    Field :=
  .searchedCase
    [((first.nullTest false).or (second.nullTest false),
        .null (Field.firstKnown [first.type, second.type])),
      (.compare comparison first second, .extremum which (first :: rest))]
    (some (.extremum which (second :: rest)))

end Extremum

namespace Condition

/-- A condition as a value: true, false, or null where it is neither. -/
def asCase (c : Condition) : Field :=
  .searchedCase [(c, .literal (.bool true)), (c.negate, .literal (.bool false))] Option.none

end Condition

namespace SortField

/-- The sort key that puts nulls where an ordering wants them. -/
def nullKey (field : Field) (nulls : NullOrdering) : Field :=
  let (onNull, onValue) : Int × Int :=
    match nulls with
    | .first => (0, 1)
    | .last => (1, 0)
  .searchedCase [(field.nullTest false, .literal (.int onNull))] (some (.literal (.int onValue)))

end SortField

namespace Select

/-- The names that the columns of a row null test go by. -/
def testColumns (count : Nat) : List String :=
  (List.range count).map (fun i => "v" ++ Decimal.digits (i + 1))

/-- Counts the rows of a subquery in which every column passes a null test. The subquery's columns go by
the given names and the subquery by the given alias. -/
def countPassing (inner : Select) (columns : List String) (asName : String) (negated : Bool) : Select :=
  let tests := columns.map (fun c => (Field.qualified asName c).nullTest negated)
  { ofFields [.countStar] with
    tables := [.derived inner asName []]
    condition := Condition.all tests }

end Select

end SqlDialects
