import SqlDialects.Dialect
import SqlDialects.Decimal.Binary64

/-!
# Why a query cannot be rendered
-/

set_option autoImplicit false

namespace SqlDialects

/-- Why a part of a query cannot be rendered. -/
inductive RenderError where
  /-- The dialect has neither the construct nor a way around it. -/
  | unsupported (construct : String) (dialect : Dialect)
  /-- A common table cannot be moved to the outermost statement, because another one of its name with
  a different definition is moved there. -/
  | shadowing (name : String) (dialect : Dialect)
  /-- A `WITH` clause declares a name twice. -/
  | duplicateCommonTable (name : String)
  /-- A template refers to a substitute it does not have. -/
  | missingSubstitute (index available : Nat)
  /-- The parts of a query are nested deeper than was allowed for. The bound is computed from the
  query, so that this does not arise for a whole query. -/
  | nestingExceeded
  deriving DecidableEq

def RenderError.message : RenderError → String
  | unsupported construct d => construct ++ " is not supported by dialect " ++ d.name
  | shadowing name d =>
    "common table expression '" ++ name
      ++ "' shadows an outer declaration and cannot be moved to the top level for dialect " ++ d.name
  | duplicateCommonTable name =>
    "common table expression '" ++ name ++ "' is declared more than once in the same WITH clause"
  | missingSubstitute index available =>
    "template placeholder \x7b" ++ Decimal.digits index ++ "\x7d has no substitute ("
      ++ Decimal.digits available ++ " supplied)"
  | nestingExceeded => "the query is nested too deeply"

end SqlDialects
