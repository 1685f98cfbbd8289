import SqlDialects.Decimal.Binary64
import SqlDialects.Schema.Statement

/-!
# Columns declared by a creation statement

A table declares its columns between parentheses, a view by the items of its query. Both are read without
a full grammar: what stands between quotes and parentheses is passed over, a type is the words before the
first constraint, and a view column has a type only if it is a cast. A statement that cannot be followed
is refused with a reason (`StatementError`).
-/

set_option autoImplicit false

namespace SqlDialects.Schema

open Text

/-- Why a creation statement is refused. -/
inductive StatementError where
  /-- It creates neither a table nor a view. -/
  | notCreation
  /-- The parenthesis around the columns is not closed. -/
  | unbalancedColumns
  /-- A column definition does not begin with a name. -/
  | missingColumnName (definition : String)
  /-- A view is not defined by a query. -/
  | notSelection
  /-- A table is not defined by a list of columns. -/
  | noColumnList
  /-- A table or view has no columns. -/
  | noColumns (kind : ObjectKind) (name : String)
  /-- A view takes all columns of something unknown. -/
  | unknownColumns (view item : String)
  deriving DecidableEq

namespace StatementError

/-- Whether the statement has another shape, rather than the right shape and no columns to be had. -/
def isOfShape : StatementError → Bool
  | notCreation | unbalancedColumns | missingColumnName _ | notSelection => true
  | noColumnList | noColumns _ _ | unknownColumns _ _ => false

def detail : StatementError → String
  | notCreation => "expected CREATE TABLE or CREATE VIEW"
  | unbalancedColumns => "unbalanced parentheses in column list"
  | missingColumnName definition => "expected a column name in '" ++ definition ++ "'"
  | notSelection => "expected AS SELECT after view name"
  | noColumnList => "table has no column list (CREATE TABLE ... AS SELECT is not supported)"
  | noColumns .table name => "table " ++ name ++ " declares no columns"
  | noColumns .view name => "view " ++ name ++ " selects no columns"
  | unknownColumns view item =>
    "view " ++ view ++ " selects '" ++ item ++ "', whose columns are not known"

def message (e : StatementError) : String :=
  (if e.isOfShape then "Cannot parse SQL: " else "Cannot interpret SQL: ") ++ e.detail

end StatementError

/-- A column as a statement declares it. -/
structure DeclaredColumn where
  name : String
  /-- The words of its type, empty if it has none. -/
  typeName : String
  precision : Option Nat
  scale : Option Nat
  /-- The whole definition or select list item. -/
  declaration : String
  deriving DecidableEq, Inhabited

/-- Whether a text has `AUTOINCREMENT` among its plain words. -/
def mentionsAutoincrement (text : String) : Bool :=
  (plainWords text.toList).any (fun w => sameIgnoringCase (String.ofList w) "AUTOINCREMENT")

/-- Whether the declaration says `AUTOINCREMENT`. -/
def DeclaredColumn.isAutoincrement (c : DeclaredColumn) : Bool := mentionsAutoincrement c.declaration

/-- What a creation statement declares. -/
structure DeclaredObject where
  name : String
  kind : ObjectKind
  columns : List DeclaredColumn
  /-- Whether a table is declared `WITHOUT ROWID`. -/
  withoutRowid : Bool
  deriving DecidableEq, Inhabited

/-- The first column of a name, in either case. -/
def DeclaredObject.column? (o : DeclaredObject) (name : String) : Option DeclaredColumn :=
  o.columns.find? (fun c => sameIgnoringCase c.name name)

/-! ## Words with a meaning -/

/-- The words that end the type of a column and begin its constraints. -/
def constraintWords : List String :=
  ["CONSTRAINT", "PRIMARY", "NOT", "NULL", "UNIQUE", "CHECK", "DEFAULT", "COLLATE", "REFERENCES",
    "GENERATED", "AS"]

/-- The words after which an expression goes on. -/
def operatorWords : List String :=
  ["NOT", "AND", "OR", "IS", "LIKE", "GLOB", "IN", "BETWEEN", "CASE", "WHEN", "THEN", "ELSE",
    "DISTINCT", "COLLATE", "ESCAPE"]

/-- The words that begin a constraint of the whole table. -/
def tableConstraintWords : List String := ["CONSTRAINT", "PRIMARY", "UNIQUE", "CHECK", "FOREIGN"]

/-- Whether a text is one of the given words, in either case. -/
def isWordOf (words : List String) (cs : List Char) : Bool := isAnyOf words (String.ofList cs)

/-! ## Tables -/

/-- The words of a type up to the first constraint, and the text after them. -/
def takeTypeWords (cs : List Char) : List (List Char) × List Char :=
  match _h : (trimStart cs).takeWhile isPlainWordChar with
  | [] => ([], trimStart cs)
  | c :: word =>
    if isWordOf constraintWords (c :: word) then ([], trimStart cs)
    else
      let r := takeTypeWords ((trimStart cs).dropWhile isPlainWordChar)
      ((c :: word) :: r.1, r.2)
termination_by cs.length
decreasing_by
  have start := length_trimStart_le cs
  have split := congrArg List.length
    (List.takeWhile_append_dropWhile (p := isPlainWordChar) (l := trimStart cs))
  simp only [List.length_append, _h, List.length_cons] at split
  omega

/-- The column that a definition declares. A precision counts only behind a type. -/
def columnDefinition (definition : List Char) : Except StatementError DeclaredColumn :=
  match leadingName definition with
  | none => .error (.missingColumnName (String.ofList definition))
  | some (name, rest) =>
    let (words, rest) := takeTypeWords rest
    let measure := if words.isEmpty then none else (takeMeasure rest).map Prod.fst
    .ok
      { name := String.ofList name
        typeName := String.ofList ([' '].intercalate words)
        precision := Measure.precision? measure
        scale := Measure.scale? measure
        declaration := String.ofList definition }

/-- Whether an element of a column list is a constraint of the whole table. -/
def isTableConstraint (element : List Char) : Bool :=
  isWordOf tableConstraintWords ((plainWords element).head?.getD [])

/-- The table of a statement whose head has been read. -/
def declaredTable (name : String) : List Char → Except StatementError DeclaredObject
  | '(' :: body =>
    match splitClosing .top body with
    | none => .error .unbalancedColumns
    | some (inside, rest) => do
      let elements := (listItems inside).map trimChars
      let columns ← (elements.filter (fun e => !isTableConstraint e)).mapM columnDefinition
      if columns.isEmpty then throw (.noColumns .table name)
      return ⟨name, .table, columns, hasWithoutRowid false rest⟩
  | _ => .error .noColumnList

/-! ## Views -/

/-- Whether an expression cannot end here: its last character or word asks for more. -/
def asksForMore (expression : List Char) : Bool :=
  (expression.getLast?.any ("+-*/%|&<>=,(~!".toList.contains ·))
    || ((plainWords expression).getLast?.any (isWordOf operatorWords))

/-- The expression of a select list item, and the name of its alias if it has one. What only looks like an
alias, being a word of the expression, is left to the expression. -/
def splitAlias (item : List Char) : List Char × Option (List Char) :=
  match splitAtAlias item with
  | none => (item, none)
  | some (before, asName) =>
    let expression := trimChars before
    if isLevel expression && !isWordOf (constraintWords ++ ["END", "ASC", "DESC"]) asName
        && !asksForMore expression && !expression.isEmpty then
      (expression, some (unquoted asName))
    else (item, none)

/-- The name of a column that is neither renamed nor given an alias: that of the column it refers to, or
the text of the expression. -/
def expressionName (expression : List Char) : List Char :=
  if isColumnReference expression then (lastNamePart expression).getD expression else expression

/-- Whether a select list item stands for columns that it does not name. -/
def isStar (item : List Char) : Bool := item == ['*'] || ['.', '*'].isSuffixOf item

/-- The column that a select list item declares, under the name that the view gives it, if it gives one. -/
def viewColumn (item : List Char) (given : Option (List Char)) : DeclaredColumn :=
  let (expression, asName) := splitAlias item
  let target := castTarget? expression
  let measure := target.bind CastTarget.measure
  { name := String.ofList ((given.orElse fun _ => asName).getD (expressionName expression))
    typeName := String.ofList ((target.map fun t => trimChars t.name).getD [])
    precision := Measure.precision? measure
    scale := Measure.scale? measure
    declaration := String.ofList item }

/-- The columns that select list items declare. -/
def viewColumns (view : String) :
    List (List Char) → List (List Char) → Except StatementError (List DeclaredColumn)
  | _, [] => .ok []
  | given, item :: items =>
    if isStar item then .error (.unknownColumns view (String.ofList item))
    else do
      let columns ← viewColumns view given.tail items
      return viewColumn item given.head? :: columns

/-- The view of a statement whose head has been read. -/
def declaredView (name : String) (cs : List Char) : Except StatementError DeclaredObject :=
  match takeSelection cs with
  | none => .error .notSelection
  | some (names, query) => do
    let given := (listItems names).map (fun n => unquoted (trimChars n))
    let items := (listItems (beforeWord "from".toList false .top query)).map trimChars
    let columns ← viewColumns name given items
    if columns.isEmpty then throw (.noColumns .view name)
    return ⟨name, .view, columns, false⟩

/-! ## Statements -/

/-- What a creation statement declares. -/
def DeclaredObject.ofStatement (source : String) : Except StatementError DeclaredObject :=
  match takeHead source.toList with
  | none => .error .notCreation
  | some head =>
    let name := String.ofList ((lastNamePart head.name).getD [])
    match head.kind with
    | .table => declaredTable name head.rest
    | .view => declaredView name head.rest

end SqlDialects.Schema
