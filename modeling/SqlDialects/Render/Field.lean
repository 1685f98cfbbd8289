import SqlDialects.Render.Json
import SqlDialects.Render.Template

/-!
# Writing fields

The operands of a binary operator are put in parentheses when they bind less tightly than the operator,
or as tightly on its right; the operand of an operator before it when it is not atomic. An aliased field
is its expression with the alias in a select list, and the alias alone anywhere else.
-/

set_option autoImplicit false

namespace SqlDialects.Visitor

open Render

def operand (visit : Visitor) (parent : ArithmeticOp) (onRight : Bool) (x : Field) : Render Unit :=
  if x.needsParentheses parent onRight then parenthesized (visit.field x) else visit.field x

def arithmetic (visit : Visitor) (op : ArithmeticOp) (left right : Field) : Render Unit := do
  match op.operation (← dialect) with
  | .operator symbol =>
    visit.operand op false left
    sql " "
    sql symbol
    sql " "
    visit.operand op true right
  | .function function => visit.call function [left, right]
  | .unsupported => unsupported op.construct

def column (c : ColumnRef) : Render Unit := do
  onSome c.table fun t => do
    name t
    sql "."
  name c.name

def cast (visit : Visitor) (x : Field) (type : SqlType) : Render Unit := do
  let target := type.castTarget (← dialect)
  sql "CAST("
  visit.field x
  sql " AS "
  sql target
  sql ")"

/-- Writes a condition where a value is expected. -/
def conditionField (visit : Visitor) (c : Condition) : Render Unit := do
  match Capability.conditionAsField (← dialect) with
  | .native => visit.condition c
  | .caseExpansion => visit.expansion c.asCase

/-- Writes an aliased field: with its expression where fields are declared, and there the expression
itself declares nothing more. -/
def aliased (visit : Visitor) (x : Field) (asName : String) : Render Unit := do
  let flags ← flags
  when flags.declareFields do
    withFlags { flags with declareFields := false } (visit.field x)
    sql " AS "
  name asName

/-- Writes the segments of a template. A substitute is rendered once, in a context of its own, and what
came of it is kept for the next reference to it. -/
def segments (visit : Visitor) (substitutes : List Field) (rendered : List (Option Context)) :
    List Segment → Render Unit
  | [] => pure ()
  | .text t :: rest => do
    sql t
    segments visit substitutes rendered rest
  | .substitute i :: rest =>
    match substitutes[i]?, rendered[i]?.join with
    | none, _ => throw (.missingSubstitute i substitutes.length)
    | some _, some child => do
      absorb child
      segments visit substitutes rendered rest
    | some x, none => do
      let child ← detached (visit.field x)
      absorb child
      segments visit substitutes (rendered.set i (some child)) rest

def template (visit : Visitor) (t : Template) : Render Unit :=
  if t.verbatim then sql t.text
  else
    visit.segments t.substitutes (t.substitutes.map fun _ => none) (Segment.ofTemplate t.text)

def fieldParts (visit : Visitor) : Field → Render Unit
  | .column c => column c
  | .value v => bind v
  | .inline l => literal l.value
  | .arithmetic op l r => visit.arithmetic op l r
  | .neg x => visit.prefixed "-" x
  | .bitNot x => visit.bitNot x
  | .extremum w xs => visit.extremum w xs
  | .coalesce xs => visit.coalesce xs
  | .call f xs => visit.call f xs
  | .aggregate a => visit.aggregate a
  | .searchedCase bs e => visit.searchedCase bs e
  | .simpleCase x bs e => visit.simpleCase x bs e
  | .cast x t => visit.cast x t
  | .subquery s => subquery (visit (.select s))
  | .condition c => visit.conditionField c
  | .jsonObject es n => visit.jsonObject es n
  | .jsonArray xs n => visit.jsonArray xs n
  | .jsonValue x p r e => visit.jsonValue x p r e
  | .row xs => parenthesized (visit.fields xs)
  | .aliased x a => visit.aliased x a
  | .raw t => visit.template t

end SqlDialects.Visitor
