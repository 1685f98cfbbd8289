import SqlDialects.Render.Select

/-!
# Rendering a query

Here the writers are tied together. `Render.node` gives every writer itself as the visitor, one level
of nesting further in, up to a number of levels. A writer also visits nodes that are no parts of its
own: the expansions of `GREATEST` over the remaining arguments, the renamed and wrapped selects of a row
null test and of a derived table's column list. `Node.reach` is a number of levels that is enough for all
of them, since a node that can be expanded weighs more than what it is expanded to. `Node.write` renders
with that many levels, and it is what everything else uses.
-/

set_option autoImplicit false

namespace SqlDialects

namespace Node

/-- How many levels a node may add to those of its parts. An expansion of the node adds fewer. -/
def weight : Node → Nat
  | field (.extremum _ args) => 8 + args.length
  | field (.aggregate a) => if a.kind.complemented?.isSome then 2 else 1
  | field (.condition _) => 2
  | condition (.selectIsNull _ _) | sortField _ => 8
  | table (.derived _ _ columns) => if columns.isEmpty then 1 else 4
  | _ => 1

/-- How many levels of nesting the rendering of a node may use. -/
def reach (n : Node) : Nat :=
  n.weight + (n.children.attach.map (fun c => c.1.reach)).foldr max 0
termination_by sizeOf n
decreasing_by exact sizeOf_lt_of_mem_children c.2

theorem reach_eq (n : Node) : n.reach = n.weight + (n.children.map reach).foldr max 0 := by
  have ha : n.children.attach.map (fun c => c.1.reach) = n.children.map reach := List.attach_map_val
  rw [reach, ha]

end Node

namespace Visitor

def parts (visit : Visitor) : Node → Render Unit
  | .field f => visit.fieldParts f
  | .condition c => visit.conditionParts c
  | .table t => visit.tableParts t
  | .select s => visit.select s
  | .sortField e => visit.sortField e
  | .commonTable t => visit.commonTable t
  | .window w => visit.window w
  | .hint h => hint h

end Visitor

/-- Writes a node with at most so many levels of nesting. -/
def Render.node : Nat → Visitor
  | 0, _ => throw .nestingExceeded
  | levels + 1, n => Visitor.parts (Render.node levels) n

def Node.write (n : Node) : Render Unit := Render.node n.reach n

def Node.render (n : Node) (d : Dialect) (s : Settings) : Except RenderError Rendered :=
  match n.write (Context.new d s) with
  | .ok _ c => .ok c.finish
  | .error e _ => .error e

/-- Renders a node with every value inlined. -/
def Node.renderInlined (n : Node) (d : Dialect) (s : Settings) : Except RenderError String :=
  (n.render d s.inlined).map Rendered.sql

end SqlDialects
