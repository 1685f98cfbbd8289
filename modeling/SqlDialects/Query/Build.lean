import SqlDialects.Query.Syntax

/-!
# Building query trees

The constructors of the syntax hold whatever they are given. The functions here are the ones that
decide something: conditions are joined so that the absent condition stays neutral and runs of one
connective stay flat, a null test of a subquery becomes a test of its whole row, and negation leaves
an absent condition absent.
-/

set_option autoImplicit false

namespace SqlDialects

namespace Literal

def ofValue (v : Value) : Literal := ⟨v, v.type⟩

def null (t : SqlType) : Literal := ⟨.null, t⟩

end Literal

namespace Condition

def isEmpty : Condition → Bool
  | none => true
  | _ => false

/-- Two conditions under one connective. An absent one leaves the other as it is, and a left operand
that already is a run of the connective grows by the right one. -/
def join (op : Connective) (left right : Condition) : Condition :=
  match left, right with
  | none, c => c
  | c, none => c
  | combined op' cs, c => if op' = op then combined op (cs ++ [c]) else combined op [combined op' cs, c]
  | c, c' => combined op [c, c']

/-- Joining two conditions gives one of them, a run of both, or the run that the left one is with the right one at its
end. -/
theorem join_cases {P : Condition → Prop} (op : Connective) {left right : Condition} (hl : P left) (hr : P right)
    (pair : P (combined op [left, right]))
    (longer : ∀ cs, left = combined op cs → P (combined op (cs ++ [right]))) : P (join op left right) := by
  unfold join
  split
  · exact hr
  · exact hl
  · split
    · next same => exact longer _ (congrArg (combined · _) same)
    · exact pair
  · exact pair

/-- What joining keeps of two conditions holds of any number of them. -/
theorem foldl_join_closed {P : Condition → Prop} {op : Connective} (closed : ∀ l r, P l → P r → P (join op l r))
    {cs : List Condition} (h : ∀ c ∈ cs, P c) {c : Condition} (hc : P c) : P (cs.foldl (join op) c) := by
  induction cs generalizing c with
  | nil => exact hc
  | cons c' cs ih => exact ih (fun k hk => h k (.tail c' hk)) (closed c c' hc (h c' (.head cs)))

def and (left right : Condition) : Condition := join .and left right

def or (left right : Condition) : Condition := join .or left right

/-- All conditions of a list, joined from the left with `AND`. -/
def all (cs : List Condition) : Condition := cs.foldl and none

def any (cs : List Condition) : Condition := cs.foldl or none

/-- The negation of a condition; the absent condition stays absent. -/
def negate : Condition → Condition
  | none => none
  | c => not c

end Condition

namespace Field

def null (t : SqlType) : Field := inline (.null t)

/-- A value written as a literal. -/
def literal (v : Value) : Field := inline (.ofValue v)

def col (name : String) : Field := column ⟨none, name, .other⟩

/-- A column of unknown type, qualified by a table. -/
def qualified (table name : String) : Field := column ⟨some table, name, .other⟩

def countStar : Field := aggregate ⟨.countStar, none, false, none⟩

/-- The null test of a field. A subquery is tested row-wise. -/
def nullTest (f : Field) (negated : Bool) : Condition :=
  match f with
  | subquery s => .selectIsNull s negated
  | f => .isNull f negated

def unaliased : Field → Field
  | aliased f _ => f.unaliased
  | f => f

/-- The outermost alias. -/
def alias? : Field → Option String
  | aliased _ a => some a
  | _ => none

/-- Whether the field is a bind value or a literal. -/
def isConstant : Field → Bool
  | value _ | inline _ => true
  | _ => false

end Field

namespace Table

/-- Gives a named or derived table an alias; other tables are left as they are. -/
def withAlias (t : Table) (asName : String) : Table :=
  match t with
  | named s n _ => named s n (some asName)
  | derived s _ cs => derived s asName cs
  | t => t

/-- Gives a derived table names for its columns; other tables are left as they are. -/
def withColumns (t : Table) (columns : List String) : Table :=
  match t with
  | derived s a _ => derived s a columns
  | t => t

/-- The names that a `FROM` entry makes visible: aliases where there are any, table names otherwise. -/
def declaredNames : Table → List String
  | named _ n a => [a.getD n]
  | derived _ a _ => [a]
  | lateral t | hinted t _ => t.declaredNames
  | join _ l r _ => l.declaredNames ++ r.declaredNames

def isJoin : Table → Bool
  | join _ _ _ _ => true
  | _ => false

end Table

namespace JoinType

/-- Whether a join of this kind is followed by a condition. -/
def takesCondition : JoinType → Bool
  | cross | naturalLeft | naturalRight => false
  | _ => true

end JoinType

namespace Select

/-- A select of the given fields and nothing else. -/
def ofFields (fields : List Field) : Select :=
  { withClause := none, distinct := false, fields := fields, tables := [], condition := .none,
    groupBy := [], having := .none, orderBy := [], limit := none, offset := none }

/-- Adds a `WHERE` condition to those there are. -/
def filter (s : Select) (c : Condition) : Select :=
  { s with condition := s.condition.and c }

/-- Adds a `HAVING` condition to those there are. -/
def filterGroups (s : Select) (c : Condition) : Select :=
  { s with having := s.having.and c }

end Select

end SqlDialects
