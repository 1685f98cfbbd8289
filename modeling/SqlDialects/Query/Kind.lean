import SqlDialects.Query.Node

/-!
# The kinds of nodes

A word for what a node is, for those who follow a transformation or report on a tree. Fields, conditions
and tables have their kinds apart, so a word may name a field and a condition: `field` is the condition
that is a field, and `condition` the field that is a condition.
-/

set_option autoImplicit false

namespace SqlDialects

def Node.kind (n : Node) : String :=
  match n.label with
  | .column _ => "column"
  | .value => "value"
  | .inline _ => "inline"
  | .arithmetic _ => "arithmetic"
  | .neg => "neg"
  | .bitNot => "bitnot"
  | .extremum .greatest => "greatest"
  | .extremum .least => "least"
  | .coalesce => "coalesce"
  | .call _ => "function"
  | .aggregate _ _ _ _ => "aggregate"
  | .searchedCase _ | .simpleCase _ => "case"
  | .cast _ => "cast"
  | .subquery => "subquery"
  | .condition => "condition"
  | .jsonObject _ _ => "json_object"
  | .jsonArray _ => "json_array"
  | .jsonValue _ _ _ => "json_value"
  | .row => "row"
  | .aliased _ => "aliased"
  | .raw _ _ | .rawCondition _ _ => "raw"
  | .noCondition => "none"
  | .compare _ => "compare"
  | .isNull _ => "is_null"
  | .between _ => "between"
  | .inList _ => "in"
  | .existence _ => "exists"
  | .selectIsNull _ => "select_is_null"
  | .combined .and => "and"
  | .combined .or => "or"
  | .xor => "xor"
  | .not => "not"
  | .xmlExists _ _ => "xml_exists"
  | .fieldCondition => "field"
  | .named _ _ _ => "named"
  | .derived _ _ => "derived"
  | .lateral => "lateral"
  | .join _ _ => "join"
  | .hinted => "hinted"
  | .select _ _ _ _ _ _ _ _ => "select"
  | .sortField _ _ => "sort"
  | .commonTable _ _ => "cte"
  | .window _ => "window"
  | .hint _ => "hint"

end SqlDialects
