import SqlDialects.Dialect.Capability
import SqlDialects.Query.Build

/-!
# Operators and keywords

How each operator, connective, aggregate and join is spelled, and how tightly the binary operators
bind. A larger precedence binds tighter; all of them associate to the left.
-/

set_option autoImplicit false

namespace SqlDialects

namespace ArithmeticOp

/-- How tightly an operator binds. -/
def precedence : ArithmeticOp → Nat
  | bitOr => 5
  | bitAnd => 6
  | add | sub | concat => 8
  | mul | div | mod => 9

/-- What an operator is called when it is refused. -/
def construct : ArithmeticOp → String
  | add => "addition"
  | sub => "subtraction"
  | mul => "multiplication"
  | div => "division"
  | mod => "MOD"
  | concat => "concatenation"
  | bitAnd => "BIT_AND"
  | bitOr => "BIT_OR"

def operation (d : Dialect) : ArithmeticOp → Capability.Operation
  | add => .operator "+"
  | sub => .operator "-"
  | mul => .operator "*"
  | div => .operator "/"
  | mod => Capability.modulo d
  | concat => Capability.concat d
  | bitAnd => Capability.bitAnd d
  | bitOr => Capability.bitOr d

end ArithmeticOp

namespace ComparisonOp

def symbol : ComparisonOp → String
  | eq => "="
  | notEq => "<>"
  | lt => "<"
  | ltEq => "<="
  | gt => ">"
  | gtEq => ">="
  | like => "LIKE"
  | notLike => "NOT LIKE"

end ComparisonOp

namespace XmlPassing

def keyword : XmlPassing → String
  | byRef => "BY REF "
  | byValue => "BY VALUE "

end XmlPassing

namespace Connective

def keyword : Connective → String
  | and => " AND "
  | or => " OR "

/-- The text of the connective over no conditions. -/
def identity : Connective → String
  | and => "1 = 1"
  | or => "1 = 0"

end Connective

namespace Extremum

def function : Extremum → String
  | greatest => "GREATEST"
  | least => "LEAST"

def strategy (d : Dialect) : Extremum → Capability.Variadic
  | greatest => Capability.greatest d
  | least => Capability.least d

/-- The comparison by which the first of two arguments wins. It holds of equal arguments, so the first
one wins ties. -/
def comparison : Extremum → ComparisonOp
  | greatest => .gtEq
  | least => .ltEq

end Extremum

namespace AggregateKind

/-- The name of an aggregate in a dialect, or what it is called when it is refused. -/
def name (d : Dialect) : AggregateKind → Except String String
  | count | countStar => .ok "COUNT"
  | sum => .ok "SUM"
  | avg => .ok "AVG"
  | min => .ok "MIN"
  | max => .ok "MAX"
  | bitAnd =>
    match Capability.bitAndAggregate d with
    | .named f => .ok f
    | .unsupported => .error "BIT_AND_AGG"
  | bitOr =>
    match Capability.bitOrAggregate d with
    | .named f => .ok f
    | .unsupported => .error "BIT_OR_AGG"
  | bitNand => .ok "BIT_NAND_AGG"
  | bitNor => .ok "BIT_NOR_AGG"

/-- The aggregate whose bitwise complement this one is. -/
def complemented? : AggregateKind → Option AggregateKind
  | bitNand => some bitAnd
  | bitNor => some bitOr
  | _ => none

end AggregateKind

namespace JoinType

def keyword : JoinType → String
  | inner => "JOIN"
  | left => "LEFT JOIN"
  | right => "RIGHT JOIN"
  | full => "FULL JOIN"
  | cross => "CROSS JOIN"
  | naturalLeft => "NATURAL LEFT JOIN"
  | naturalRight => "NATURAL RIGHT JOIN"

end JoinType

namespace SortOrder

def keyword : SortOrder → String
  | asc => " ASC"
  | desc => " DESC"

end SortOrder

namespace NullOrdering

def keyword : NullOrdering → String
  | first => " NULLS FIRST"
  | last => " NULLS LAST"

end NullOrdering

namespace JsonOnNull

def clause : JsonOnNull → String
  | null => "NULL ON NULL"
  | absent => "ABSENT ON NULL"

end JsonOnNull

namespace Field

/-- Whether a field needs no parentheses as the operand of an operator before it. -/
def isAtomic : Field → Bool
  | column _ | extremum _ _ | coalesce _ | call _ _ | aggregate _ | searchedCase _ _
  | simpleCase _ _ _ | cast _ _ | subquery _ | jsonObject _ _ | jsonArray _ _ | jsonValue _ _ _ _
  | row _ => true
  | value _ | inline _ | arithmetic _ _ _ | neg _ | bitNot _ | condition _ | aliased _ _ | raw _ => false

def isCondition : Field → Bool
  | condition _ => true
  | _ => false

/-- Whether an operand of a binary operator is put in parentheses: it binds less tightly, or as tightly
on the right, or it is a condition. -/
def needsParentheses (parent : ArithmeticOp) (onRight : Bool) : Field → Bool
  | arithmetic op _ _ =>
    op.precedence < parent.precedence || (onRight && op.precedence == parent.precedence)
  | condition _ => true
  | _ => false

end Field

end SqlDialects
