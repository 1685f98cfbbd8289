import SqlDialects.Query.Inference

/-!
# Bottom-up transformation

`Field.transform` visits every field node of a tree that is not inside a select, children before
parents and from left to right, rebuilds each node from the transformed children and hands it to a step
function. The step may have effects; the order of its calls is the order in which the fields are
written. `Condition.mapFields` does the same for the operands of a condition, and `Condition.transform`
transforms the conditions themselves, through the connectives only.
-/

set_option autoImplicit false

namespace SqlDialects

variable {m : Type → Type} [Monad m]

mutual

/-- Transforms a field bottom-up. Columns, values, literals and subqueries have no children here. -/
def Field.transform (step : Field → m Field) : Field → m Field
  | .column c => step (.column c)
  | .value v => step (.value v)
  | .inline l => step (.inline l)
  | .subquery s => step (.subquery s)
  | .arithmetic op l r => do
    let l ← l.transform step
    let r ← r.transform step
    step (.arithmetic op l r)
  | .neg x => do step (.neg (← x.transform step))
  | .bitNot x => do step (.bitNot (← x.transform step))
  | .extremum w xs => do step (.extremum w (← Field.transformAll step xs))
  | .coalesce xs => do step (.coalesce (← Field.transformAll step xs))
  | .call f xs => do step (.call f (← Field.transformAll step xs))
  | .aggregate ⟨kind, value, distinct, window⟩ => do
    let value ← Field.transformOption step value
    let window ← Window.transform step window
    step (.aggregate ⟨kind, value, distinct, window⟩)
  | .searchedCase bs e => do
    let bs ← Field.transformTests step bs
    let e ← Field.transformOption step e
    step (.searchedCase bs e)
  | .simpleCase x bs e => do
    let x ← x.transform step
    let bs ← Field.transformCandidates step bs
    let e ← Field.transformOption step e
    step (.simpleCase x bs e)
  | .cast x t => do step (.cast (← x.transform step) t)
  | .condition c => do step (.condition (← c.mapFields step))
  | .jsonObject es n => do step (.jsonObject (← Field.transformEntries step es) n)
  | .jsonArray xs n => do step (.jsonArray (← Field.transformAll step xs) n)
  | .jsonValue x p r (some (.default d)) => do
    let x ← x.transform step
    let d ← d.transform step
    step (.jsonValue x p r (some (.default d)))
  | .jsonValue x p r e => do
    let x ← x.transform step
    step (.jsonValue x p r e)
  | .row xs => do step (.row (← Field.transformAll step xs))
  | .aliased x a => do step (.aliased (← x.transform step) a)
  | .raw ⟨text, xs, verbatim⟩ => do
    let xs ← Field.transformAll step xs
    step (.raw ⟨text, xs, verbatim⟩)

def Field.transformAll (step : Field → m Field) : List Field → m (List Field)
  | [] => pure []
  | x :: xs => do
    let x ← x.transform step
    let xs ← Field.transformAll step xs
    pure (x :: xs)

def Field.transformOption (step : Field → m Field) : Option Field → m (Option Field)
  | none => pure none
  | some x => do pure (some (← x.transform step))

def Field.transformTests (step : Field → m Field) :
    List (Condition × Field) → m (List (Condition × Field))
  | [] => pure []
  | (c, x) :: bs => do
    let c ← c.mapFields step
    let x ← x.transform step
    let bs ← Field.transformTests step bs
    pure ((c, x) :: bs)

def Field.transformCandidates (step : Field → m Field) :
    List (Field × Field) → m (List (Field × Field))
  | [] => pure []
  | (c, x) :: bs => do
    let c ← c.transform step
    let x ← x.transform step
    let bs ← Field.transformCandidates step bs
    pure ((c, x) :: bs)

def Field.transformEntries (step : Field → m Field) :
    List (String × Field) → m (List (String × Field))
  | [] => pure []
  | (k, x) :: es => do
    let x ← x.transform step
    let es ← Field.transformEntries step es
    pure ((k, x) :: es)

/-- Transforms a window, the partitions before the sort keys. -/
def Window.transform (step : Field → m Field) : Option Window → m (Option Window)
  | none => pure none
  | some ⟨ps, os⟩ => do
    let ps ← Field.transformAll step ps
    let os ← SortField.transformAll step os
    pure (some ⟨ps, os⟩)

def SortField.transformAll (step : Field → m Field) : List SortField → m (List SortField)
  | [] => pure []
  | ⟨x, order, nulls⟩ :: os => do
    let x ← x.transform step
    let os ← SortField.transformAll step os
    pure (⟨x, order, nulls⟩ :: os)

/-- Transforms every field operand of a condition. Selects are not entered. -/
def Condition.mapFields (step : Field → m Field) : Condition → m Condition
  | .none => pure .none
  | .existence s n => pure (.existence s n)
  | .selectIsNull s n => pure (.selectIsNull s n)
  | .compare op l r => do
    let l ← l.transform step
    let r ← r.transform step
    pure (.compare op l r)
  | .isNull x n => do pure (.isNull (← x.transform step) n)
  | .between x l h n => do
    let x ← x.transform step
    let l ← l.transform step
    let h ← h.transform step
    pure (.between x l h n)
  | .inList x xs n => do
    let x ← x.transform step
    let xs ← Field.transformAll step xs
    pure (.inList x xs n)
  | .combined op cs => do pure (.combined op (← Condition.mapFieldsAll step cs))
  | .xor l r => do
    let l ← l.mapFields step
    let r ← r.mapFields step
    pure (.xor l r)
  | .not c => do pure (.not (← c.mapFields step))
  | .xmlExists p x by' => do pure (.xmlExists p (← x.transform step) by')
  | .field x => do pure (.field (← x.transform step))
  | .raw ⟨text, xs, verbatim⟩ => do
    let xs ← Field.transformAll step xs
    pure (.raw ⟨text, xs, verbatim⟩)

def Condition.mapFieldsAll (step : Field → m Field) : List Condition → m (List Condition)
  | [] => pure []
  | c :: cs => do
    let c ← c.mapFields step
    let cs ← Condition.mapFieldsAll step cs
    pure (c :: cs)

end

mutual

/-- Transforms a condition bottom-up, through the connectives and negation. -/
def Condition.transform (step : Condition → m Condition) : Condition → m Condition
  | .combined op cs => do step (.combined op (← Condition.transformAll step cs))
  | .xor l r => do
    let l ← l.transform step
    let r ← r.transform step
    step (.xor l r)
  | .not c => do step (.not (← c.transform step))
  | c => step c

def Condition.transformAll (step : Condition → m Condition) : List Condition → m (List Condition)
  | [] => pure []
  | c :: cs => do
    let c ← c.transform step
    let cs ← Condition.transformAll step cs
    pure (c :: cs)

end

namespace Field

/-- A field with its arguments, elements or substitutes replaced. Only the fields that are a function
of a list of fields have any. -/
def withArgs (f : Field) (args : List Field) : Field :=
  match f with
  | extremum w _ => extremum w args
  | coalesce _ => coalesce args
  | call g _ => call g args
  | jsonArray _ n => jsonArray args n
  | raw t => raw { t with substitutes := args }
  | f => f

/-- An aggregate over another value; other fields are left as they are. -/
def withValue (f x : Field) : Field :=
  match f with
  | aggregate a => aggregate { a with value := some x }
  | f => f

end Field

end SqlDialects
