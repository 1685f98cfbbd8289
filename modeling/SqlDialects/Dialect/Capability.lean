import SqlDialects.Dialect.Set

/-!
# What each dialect offers

Every construct that at least one dialect lacks has a type of ways to write it and a function that
chooses one. When several ways would do, a dialect's own form comes first, then a function of another
name with the same meaning, then an expansion into `CASE` or comparisons; a construct is refused only
when none of these works.

Gaps that are plain absences are sets of dialects, and the yes-or-no capabilities below are membership
in their complements.
-/

set_option autoImplicit false

namespace SqlDialects.Capability

/-! ## Sets of dialects with a gap, or with a rarity -/

/-- The dialects that cannot test a subquery of several columns for null. -/
def withoutRowNullTest : DialectSet :=
  .ofFamilies [.derby, .duckDb, .firebird, .postgres, .sqlite, .trino, .yugabyteDb]

/-- The dialects whose JSON constructors take no `ON NULL` clause. -/
def withoutJsonOnNull : DialectSet :=
  .ofFamilies [.mariaDb, .mySql, .sqlite]

/-- The dialects whose `JSON_VALUE` takes no `ON EMPTY` clause. -/
def withoutJsonOnEmpty : DialectSet :=
  .ofFamilies [.trino]

def withXml : DialectSet :=
  .ofFamilies [.default, .postgres, .yugabyteDb]

def withoutLateral : DialectSet :=
  (DialectSet.ofFamilies [.cubrid, .derby, .mariaDb, .sqlite]).union
    (.ofList [.mySql57, .firebird3])

def withoutWindow : DialectSet :=
  (DialectSet.ofFamilies [.derby, .hsqldb]).union (.ofList [.mySql57])

/-- The dialects that refuse to partition by constants alone. -/
def withoutConstantPartition : DialectSet :=
  .ofFamilies [.firebird, .trino]

/-- The dialects where a derived table's alias takes no column list. -/
def withoutDerivedColumnList : DialectSet :=
  (DialectSet.ofFamilies [.cubrid, .mariaDb, .sqlite]).union (.ofList [.mySql57])

def withoutNullsOrdering : DialectSet :=
  .ofFamilies [.cubrid, .mariaDb, .mySql]

/-! ## Ways to write a construct -/

/-- Ways to write `GREATEST` and `LEAST`. -/
inductive Variadic where
  /-- Under the standard name. -/
  | native
  /-- Under another name with the same meaning. -/
  | substitute (function : String)
  /-- As nested `CASE` expressions. -/
  | caseExpansion
  deriving DecidableEq

def greatest (d : Dialect) : Variadic :=
  match d.family with
  | .firebird => .substitute "MAXVALUE"
  | .sqlite => .substitute "MAX"
  | .derby => .caseExpansion
  | _ => .native

def least (d : Dialect) : Variadic :=
  match d.family with
  | .firebird => .substitute "MINVALUE"
  | .sqlite => .substitute "MIN"
  | _ => greatest d

/-- Ways to write `COALESCE`. -/
inductive Coalescing where
  /-- The arguments as they are. -/
  | native
  /-- Arguments of boolean type in parentheses. -/
  | parenthesizedBooleans
  deriving DecidableEq

def coalesce (d : Dialect) : Coalescing :=
  match d.family with
  | .derby => .parenthesizedBooleans
  | _ => .native

/-- Ways to write a construct that is an operator in some dialects and a function in others. -/
inductive Operation where
  | operator (symbol : String)
  | function (name : String)
  | unsupported
  deriving DecidableEq

def bitNot (d : Dialect) : Operation :=
  match d.family with
  | .firebird => .function "BIN_NOT"
  | .h2 | .hsqldb => .function "BITNOT"
  | .trino => .function "bitwise_not"
  | .derby => .unsupported
  | _ => .operator "~"

def bitAnd (d : Dialect) : Operation :=
  match d.family with
  | .firebird => .function "BIN_AND"
  | .h2 | .hsqldb => .function "BITAND"
  | .trino => .function "bitwise_and"
  | .derby => .unsupported
  | _ => .operator "&"

def bitOr (d : Dialect) : Operation :=
  match d.family with
  | .firebird => .function "BIN_OR"
  | .h2 | .hsqldb => .function "BITOR"
  | .trino => .function "bitwise_or"
  | .derby => .unsupported
  | _ => .operator "|"

def modulo (d : Dialect) : Operation :=
  match d.family with
  | .derby | .firebird => .function "MOD"
  | _ => .operator "%"

def concat (d : Dialect) : Operation :=
  match d.family with
  | .mySql | .mariaDb => .function "CONCAT"
  | _ => .operator "||"

/-- Ways to name an aggregate function. -/
inductive AggregateName where
  | named (function : String)
  | unsupported
  deriving DecidableEq

/-- The aggregate that takes the bitwise conjunction of its values. -/
def bitAndAggregate (d : Dialect) : AggregateName :=
  match d.family with
  | .cubrid | .duckDb | .mariaDb | .mySql | .postgres | .yugabyteDb => .named "BIT_AND"
  | .default | .h2 | .hsqldb => .named "BIT_AND_AGG"
  | .trino => .named "bitwise_and_agg"
  | .derby | .firebird | .sqlite => .unsupported

/-- The aggregate that takes the bitwise disjunction of its values. -/
def bitOrAggregate (d : Dialect) : AggregateName :=
  match d.family with
  | .cubrid | .duckDb | .mariaDb | .mySql | .postgres | .yugabyteDb => .named "BIT_OR"
  | .default | .h2 | .hsqldb => .named "BIT_OR_AGG"
  | .trino => .named "bitwise_or_agg"
  | .derby | .firebird | .sqlite => .unsupported

/-- Ways to write the aggregates `BIT_NAND_AGG` and `BIT_NOR_AGG`. -/
inductive NegatedAggregate where
  | native
  /-- As the bitwise complement of the aggregate that is not negated. -/
  | complementOfAggregate
  deriving DecidableEq

def negatedBitAggregate (d : Dialect) : NegatedAggregate :=
  match d.family with
  | .default | .h2 => .native
  | _ => .complementOfAggregate

/-- Ways to write `JSON_OBJECT` and `JSON_ARRAY`. -/
inductive JsonConstructor where
  /-- `JSON_OBJECT(KEY k VALUE v ABSENT ON NULL)`. -/
  | standard
  /-- `JSON_OBJECT(k, v)`. -/
  | commaSeparated
  /-- `json_build_object(k, v)`. -/
  | buildFunction
  | unsupported
  deriving DecidableEq

def jsonConstructor (d : Dialect) : JsonConstructor :=
  match d.family with
  | .default | .duckDb | .h2 | .hsqldb | .trino => .standard
  | .postgres => if d = .postgres14 then .buildFunction else .standard
  | .yugabyteDb => .buildFunction
  | .mariaDb | .mySql | .sqlite => .commaSeparated
  | .cubrid | .derby | .firebird => .unsupported

def jsonOnNull (d : Dialect) : Bool := withoutJsonOnNull.complement.contains d

def jsonOnEmpty (d : Dialect) : Bool := withoutJsonOnEmpty.complement.contains d

/-- Ways to write `JSON_VALUE`. -/
inductive JsonExtraction where
  | standard
  /-- As a function of the document and the path. -/
  | substitute (function : String)
  | unsupported
  deriving DecidableEq

/-- The substitute for `JSON_VALUE` whose answer is a JSON scalar still to be unwrapped to text. -/
def jsonPathQueryFirst : String := "jsonb_path_query_first"

def jsonValue (d : Dialect) : JsonExtraction :=
  match d.family with
  | .default | .duckDb | .h2 | .mariaDb | .mySql | .trino => .standard
  | .sqlite => .substitute "json_extract"
  | .postgres | .yugabyteDb => .substitute jsonPathQueryFirst
  | .cubrid | .derby | .firebird | .hsqldb => .unsupported

/-- Ways to test a subquery for null. -/
inductive NullTest where
  /-- By the predicate, applied to the subquery. -/
  | standard
  /-- By counting the rows in which every column passes the test. -/
  | countTest
  deriving DecidableEq

/-- How a subquery of so many columns is tested for null. A single column is a scalar everywhere. -/
def selectIsNull (d : Dialect) (columns : Nat) : NullTest :=
  if columns ≠ 1 ∧ withoutRowNullTest.contains d then .countTest else .standard

/-- Ways to write the exclusive or. -/
inductive ExclusiveOr where
  | native
  /-- As `(a) <> (b)`. -/
  | notEqual
  deriving DecidableEq

def xor (d : Dialect) : ExclusiveOr :=
  match d.family with
  | .mySql | .mariaDb => .native
  | _ => .notEqual

/-- Ways to write a condition where a value is expected. -/
inductive ConditionValue where
  | native
  /-- As `CASE WHEN c THEN TRUE WHEN NOT (c) THEN FALSE END`. -/
  | caseExpansion
  deriving DecidableEq

def conditionAsField (d : Dialect) : ConditionValue :=
  match d.family with
  | .cubrid | .derby => .caseExpansion
  | _ => .native

/-- Ways to write the truth values. -/
inductive BooleanLiteral where
  | keyword
  | numeric
  deriving DecidableEq

def booleanLiteral (d : Dialect) : BooleanLiteral :=
  match d.family with
  | .cubrid => .numeric
  | _ => .keyword

/-- Where a `WITH` clause may stand. -/
inductive WithClause where
  /-- On any query. -/
  | native
  /-- On the outermost statement only. -/
  | hoistToTopLevel
  | unsupported
  deriving DecidableEq

/-- Where a `WITH` clause may stand. -/
def withClause (d : Dialect) : WithClause :=
  match d.family with
  | .derby => .unsupported
  | .mySql => if d = .mySql57 then .unsupported else .native
  | .firebird | .hsqldb => .hoistToTopLevel
  | _ => .native

/-- Ways to limit the rows of a query. -/
inductive RowLimit where
  /-- `LIMIT n OFFSET m`. -/
  | limitOffset
  /-- `OFFSET m ROWS FETCH NEXT n ROWS ONLY`. -/
  | offsetFetch
  deriving DecidableEq

def limit (d : Dialect) : RowLimit :=
  match d.family with
  | .default | .derby | .firebird | .trino => .offsetFetch
  | _ => .limitOffset

/-- The limit to write beside an offset alone, where `OFFSET` cannot stand without `LIMIT`. -/
def unboundedLimit (d : Dialect) : Option String :=
  match d.family with
  | .mySql | .mariaDb | .cubrid => some "18446744073709551615"
  | .sqlite => some "-1"
  | _ => none

def xmlExists (d : Dialect) : Bool := withXml.contains d

def lateral (d : Dialect) : Bool := withoutLateral.complement.contains d

def window (d : Dialect) : Bool := withoutWindow.complement.contains d

def constantPartition (d : Dialect) : Bool := withoutConstantPartition.complement.contains d

def derivedColumnList (d : Dialect) : Bool := withoutDerivedColumnList.complement.contains d

def nullsOrdering (d : Dialect) : Bool := withoutNullsOrdering.complement.contains d

def indexHints (d : Dialect) : Bool :=
  match d.family with
  | .mySql | .mariaDb => true
  | _ => false

end SqlDialects.Capability
