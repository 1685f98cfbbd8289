import SqlDialects.Query.Renaming
import SqlDialects.Render.Field

/-!
# Writing conditions

Parentheses are written around a run of the other connective, around both sides of an exclusive or and
around what is negated. A condition that stands as an operand of a comparison is put in parentheses.

Where a dialect cannot test a row for null, the rows of the subquery that pass the test in every column
are counted instead: the test holds when there is exactly one.
-/

set_option autoImplicit false

namespace SqlDialects.Visitor

open Render

def comparand (visit : Visitor) (x : Field) : Render Unit :=
  if x.isCondition then parenthesized (visit.field x) else visit.field x

def compare (visit : Visitor) (op : ComparisonOp) (left right : Field) : Render Unit := do
  visit.comparand left
  sql " "
  sql op.symbol
  sql " "
  visit.comparand right

/-- Writes a membership test. Nothing is in the empty list. -/
def inList (visit : Visitor) (x : Field) (candidates : List Field) (negated : Bool) : Render Unit :=
  if candidates.isEmpty then sql (if negated then Connective.and else Connective.or).identity
  else do
    visit.comparand x
    sql (if negated then " NOT IN (" else " IN (")
    visit.fields candidates
    sql ")"

/-- Writes a condition of a run, in parentheses if it is a run of the other connective. -/
def conjunct (visit : Visitor) (op : Connective) (c : Condition) : Render Unit :=
  match c with
  | .combined op' _ =>
    if op' = op then visit.condition c else parenthesized (visit.condition c)
  | _ => visit.condition c

/-- Writes a run of conditions under one connective. -/
def combined (visit : Visitor) (op : Connective) : List Condition → Render Unit
  | [] => sql op.identity
  | [c] => visit.condition c
  | cs => separated op.keyword (cs.map (visit.conjunct op))

def xor (visit : Visitor) (left right : Condition) : Render Unit := do
  let symbol :=
    match Capability.xor (← dialect) with
    | .native => " XOR "
    | .notEqual => " <> "
  parenthesized (visit.condition left)
  sql symbol
  parenthesized (visit.condition right)

def xmlExists (visit : Visitor) (xpath : String) (document : Field) (passing : Option XmlPassing) :
    Render Unit := do
  demand (Capability.xmlExists (← dialect)) "XMLEXISTS"
  sql "XMLEXISTS("
  literal (.text xpath)
  sql " PASSING "
  onSome passing fun p => sql p.keyword
  visit.field document
  sql ")"

/-- A boolean field used as a condition. Where truth values are numbers it is compared with one. -/
def truthTest (visit : Visitor) (x : Field) : Render Unit := do
  visit.comparand x
  let form := Capability.booleanLiteral (← dialect)
  when (form = .numeric) (sql " = 1")

/-- A select with its columns renamed, or the refusal of the construct that needs it. A projection goes
by a fresh alias. -/
def renamed (s : Select) (names : List String) (construct : String) : Render Select := do
  match s.rename? names with
  | none => unsupported construct
  | some plan =>
    let asName ← if plan.needsAlias then freshAlias "q" else pure ""
    return plan.toSelect asName

/-- Writes a row null test as a count of the rows that pass it. -/
def countTest (visit : Visitor) (s : Select) (negated : Bool) : Render Unit := do
  let columns := Select.testColumns s.flattened.length
  let inner ← renamed s columns "IS NULL over SELECT *"
  let asName ← freshAlias "t"
  let count := Select.countPassing inner columns asName negated
  visit.compare .eq (.literal (.int 1)) (.subquery count)

/-- The predicate of a null test. -/
def nullPredicate (negated : Bool) : String :=
  if negated then " IS NOT NULL" else " IS NULL"

def selectIsNull (visit : Visitor) (s : Select) (negated : Bool) : Render Unit := do
  match Capability.selectIsNull (← dialect) s.flattened.length with
  | .standard =>
    subquery (visit (.select s))
    sql (nullPredicate negated)
  | .countTest => visit.countTest s negated

def conditionParts (visit : Visitor) : Condition → Render Unit
  | .none => sql Connective.and.identity
  | .compare op l r => visit.compare op l r
  | .isNull x negated => do
    visit.comparand x
    sql (nullPredicate negated)
  | .between x low high negated => do
    visit.comparand x
    sql (if negated then " NOT BETWEEN " else " BETWEEN ")
    visit.comparand low
    sql " AND "
    visit.comparand high
  | .inList x xs negated => visit.inList x xs negated
  | .existence s negated => do
    sql (if negated then "NOT EXISTS " else "EXISTS ")
    subquery (visit (.select s))
  | .selectIsNull s negated => visit.selectIsNull s negated
  | .combined op cs => visit.combined op cs
  | .xor l r => visit.xor l r
  | .not c => do
    sql "NOT "
    parenthesized (visit.condition c)
  | .xmlExists xpath document passing => visit.xmlExists xpath document passing
  | .field x => visit.truthTest x
  | .raw t => visit.template t

end SqlDialects.Visitor
