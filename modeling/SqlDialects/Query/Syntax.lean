import SqlDialects.Value

/-!
# Query trees

The trees that are rendered. Fields, conditions, tables and selects refer to each other without end:
a field may hold a subquery, a select holds fields. They are therefore one mutual family, and lists and
options of them are ordinary `List` and `Option`, so that the library's lemmas on those apply.

Nothing here is particular to a dialect. What a tree may contain is decided when it is rendered.
-/

set_option autoImplicit false

namespace SqlDialects

/-- A reference to a column, with the type it is declared with. -/
structure ColumnRef where
  table : Option String
  name : String
  type : SqlType
  deriving DecidableEq, Inhabited

/-- A value that is always written as a literal. It has a type of its own so that a null stays typed. -/
structure Literal where
  value : Value
  type : SqlType
  deriving Inhabited

inductive ArithmeticOp where
  | add
  | sub
  | mul
  | div
  | mod
  | concat
  | bitAnd
  | bitOr
  deriving DecidableEq, Inhabited

/-- The two variadic functions that pick one of their arguments by comparing them. -/
inductive Extremum where
  | greatest
  | least
  deriving DecidableEq, Inhabited

inductive ComparisonOp where
  | eq
  | notEq
  | lt
  | ltEq
  | gt
  | gtEq
  | like
  | notLike
  deriving DecidableEq, Inhabited

/-- The connectives that join any number of conditions. -/
inductive Connective where
  | and
  | or
  deriving DecidableEq, Inhabited

/-- How a document is handed to `XMLEXISTS`. -/
inductive XmlPassing where
  | byRef
  | byValue
  deriving DecidableEq, Inhabited

inductive AggregateKind where
  | count
  | countStar
  | sum
  | avg
  | min
  | max
  | bitAnd
  | bitOr
  | bitNand
  | bitNor
  deriving DecidableEq, Inhabited

/-- What a JSON constructor does with null members. -/
inductive JsonOnNull where
  | null
  | absent
  deriving DecidableEq, Inhabited

inductive SortOrder where
  | asc
  | desc
  deriving DecidableEq, Inhabited

/-- Where nulls stand in a sort. -/
inductive NullOrdering where
  | first
  | last
  deriving DecidableEq, Inhabited

inductive JoinType where
  | inner
  | left
  | right
  | full
  | cross
  | naturalLeft
  | naturalRight
  deriving DecidableEq, Inhabited

/-- What an index hint asks for. -/
inductive IndexHintKind where
  | use
  | force
  | ignore
  deriving DecidableEq, Inhabited

structure IndexHint where
  kind : IndexHintKind
  indexes : List String
  deriving DecidableEq, Inhabited

mutual

inductive Field where
  | column (column : ColumnRef)
  /-- A value that becomes a bind. -/
  | value (value : Value)
  | inline (literal : Literal)
  | arithmetic (op : ArithmeticOp) (left right : Field)
  | neg (operand : Field)
  | bitNot (operand : Field)
  | extremum (which : Extremum) (args : List Field)
  | coalesce (args : List Field)
  | call (function : String) (args : List Field)
  | aggregate (aggregate : Aggregate)
  /-- A `CASE` over conditions, tested in order. -/
  | searchedCase (branches : List (Condition × Field)) (otherwise : Option Field)
  /-- A `CASE` that compares one value with candidates, tested in order. -/
  | simpleCase (subject : Field) (branches : List (Field × Field)) (otherwise : Option Field)
  | cast (operand : Field) (type : SqlType)
  | subquery (select : Select)
  /-- A condition used as a truth value. -/
  | condition (condition : Condition)
  | jsonObject (entries : List (String × Field)) (onNull : Option JsonOnNull)
  | jsonArray (elements : List Field) (onNull : Option JsonOnNull)
  | jsonValue (document : Field) (path : String) (returning : Option SqlType)
      (onEmpty : Option JsonOnEmpty)
  /-- A row of values. In a select list it stands for its members. -/
  | row (members : List Field)
  | aliased (field : Field) (asName : String)
  | raw (template : Template)

/-- What `JSON_VALUE` yields when its path matches nothing. -/
inductive JsonOnEmpty where
  | null
  | error
  | default (value : Field)

/-- An aggregate function, over rows or over a window. Without a value it counts rows. -/
structure Aggregate where
  kind : AggregateKind
  value : Option Field
  distinct : Bool
  window : Option Window

/-- A window, `OVER (PARTITION BY ... ORDER BY ...)`. -/
structure Window where
  partitionBy : List Field
  orderBy : List SortField

structure SortField where
  field : Field
  order : Option SortOrder
  nulls : Option NullOrdering

/-- Raw SQL text in which numbers in braces stand for rendered fields. A verbatim text has none. -/
structure Template where
  text : String
  substitutes : List Field
  verbatim : Bool

inductive Condition where
  /-- The absence of a condition: neutral under the connectives and left out of clauses. -/
  | none
  | compare (op : ComparisonOp) (left right : Field)
  | isNull (operand : Field) (negated : Bool)
  | between (operand low high : Field) (negated : Bool)
  | inList (operand : Field) (candidates : List Field) (negated : Bool)
  | existence (select : Select) (negated : Bool)
  /-- A null test of every column of a subquery's row. -/
  | selectIsNull (select : Select) (negated : Bool)
  | combined (op : Connective) (conditions : List Condition)
  | xor (left right : Condition)
  | not (condition : Condition)
  | xmlExists (xpath : String) (document : Field) (passing : Option XmlPassing)
  | field (operand : Field)
  | raw (template : Template)

inductive Table where
  | named (schema : Option String) (name : String) (asName : Option String)
  /-- A subquery under an alias, with names for its columns if the list is not empty. -/
  | derived (select : Select) (asName : String) (columns : List String)
  | lateral (table : Table)
  | join (type : JoinType) (left right : Table) (matching : JoinCondition)
  | hinted (table : Table) (hint : IndexHint)

/-- How the rows of a join are matched. -/
inductive JoinCondition where
  | none
  | on (condition : Condition)
  | using (columns : List String)

/-- A named query of a `WITH` clause. -/
structure CommonTable where
  name : String
  columns : List String
  select : Select

structure With where
  recursive : Bool
  tables : List CommonTable

/-- A `SELECT` statement. An empty field list selects everything. -/
structure Select where
  withClause : Option With
  distinct : Bool
  fields : List Field
  tables : List Table
  condition : Condition
  groupBy : List Field
  having : Condition
  orderBy : List SortField
  limit : Option Nat
  offset : Option Nat

end

instance : Inhabited Field := ⟨.value .null⟩
instance : Inhabited Condition := ⟨.none⟩
instance : Inhabited Template := ⟨⟨"", [], true⟩⟩
instance : Inhabited Window := ⟨⟨[], []⟩⟩
instance : Inhabited SortField := ⟨⟨default, none, none⟩⟩
instance : Inhabited Table := ⟨.named none "" none⟩
instance : Inhabited Select := ⟨⟨none, false, [], [], .none, [], .none, [], none, none⟩⟩
instance : Inhabited CommonTable := ⟨⟨"", [], default⟩⟩

end SqlDialects
