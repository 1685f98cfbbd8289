import SqlDialects.Query.Build

/-!
# Select lists and the types of fields

A row value in a select list stands for its members, at any depth; `Select.flattened` is the list that
results. `Field.type` infers the type of a field as far as it can be told from the tree: where several
operands could decide, the first whose type is known does.
-/

set_option autoImplicit false

namespace SqlDialects

namespace Field

mutual

/-- The members of a field as they stand in a select list. An alias on a row is dropped with the row. -/
def flatten : Field → List Field
  | row members => flattenAll members
  | aliased (row members) _ => flattenAll members
  | f => [f]

def flattenAll : List Field → List Field
  | [] => []
  | f :: fs => flatten f ++ flattenAll fs

end

theorem flattenAll_eq_flatMap (fs : List Field) : flattenAll fs = fs.flatMap flatten := by
  induction fs with
  | nil => simp [flattenAll]
  | cons f fs ih => simp [flattenAll, ih]

def firstKnown (ts : List SqlType) : SqlType :=
  (ts.find? SqlType.isKnown).getD .other

mutual

/-- The type of a field, as far as it can be told. A subquery has the type of its only column. -/
def type : Field → SqlType
  | column c => c.type
  | value v => v.type
  | inline l => l.type
  | arithmetic .concat _ _ => .varchar none
  | arithmetic _ l r => firstKnown [l.type, r.type]
  | neg x | bitNot x | aliased x _ => x.type
  | extremum _ xs | coalesce xs => firstKnown (types xs)
  | call _ _ | row _ | raw _ => .other
  | aggregate ⟨.count, _, _, _⟩ | aggregate ⟨.countStar, _, _, _⟩ => .bigInt
  | aggregate ⟨.avg, _, _, _⟩ => .decimal none none
  | aggregate ⟨_, some x, _, _⟩ => x.type
  | aggregate ⟨_, none, _, _⟩ => .other
  | searchedCase bs e => firstKnown (conditionResultTypes bs ++ elseType e)
  | simpleCase _ bs e => firstKnown (candidateResultTypes bs ++ elseType e)
  | cast _ t => t
  | subquery ⟨_, _, fields, _, _, _, _, _, _, _⟩ =>
    match columnTypes fields with
    | [t] => t
    | _ => .other
  | condition _ => .boolean
  | jsonObject _ _ | jsonArray _ _ => .json
  | jsonValue _ _ returning _ => returning.getD .other

def types : List Field → List SqlType
  | [] => []
  | f :: fs => f.type :: types fs

/-- The types of the columns that a select list has when its rows are expanded. -/
def columnTypes : List Field → List SqlType
  | [] => []
  | row members :: fs => columnTypes members ++ columnTypes fs
  | aliased (row members) _ :: fs => columnTypes members ++ columnTypes fs
  | f :: fs => f.type :: columnTypes fs

def conditionResultTypes : List (Condition × Field) → List SqlType
  | [] => []
  | (_, f) :: bs => f.type :: conditionResultTypes bs

def candidateResultTypes : List (Field × Field) → List SqlType
  | [] => []
  | (_, f) :: bs => f.type :: candidateResultTypes bs

def elseType : Option Field → List SqlType
  | none => []
  | some f => [f.type]

end

/-- The possible results of a `CASE`, the `ELSE` result last. -/
def caseResults : Field → List Field
  | searchedCase bs e => bs.map Prod.snd ++ e.toList
  | simpleCase _ bs e => bs.map Prod.snd ++ e.toList
  | _ => []

end Field

namespace Select

def flattened (s : Select) : List Field := Field.flattenAll s.fields

end Select

end SqlDialects
