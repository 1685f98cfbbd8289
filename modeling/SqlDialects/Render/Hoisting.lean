import SqlDialects.Query.Node
import SqlDialects.Render.Error
import SqlDialects.Scope

/-!
# Common tables on the outermost statement

Some dialects take a `WITH` clause on the outermost statement only. For them the common tables of all
nested queries are collected and written there. A common table comes after those nested in its own body,
and those nested in the body of a query come after the query's own, so each is declared before anything
that can see it. Repeated declarations that are structurally equal collapse into one; different ones of
one name cannot be told apart once they stand side by side, so they are refused.

The walk is `Node.collect`: what happens on the way into a node, then its children in order, then what
happens on the way out.
-/

set_option autoImplicit false

namespace SqlDialects

/-- What has been collected so far. -/
structure Hoisting where
  /-- The common tables declared per query level. -/
  scopes : ScopeStack String CommonTable
  /-- The common tables to write, in order. -/
  tables : List CommonTable
  /-- Whether a `WITH` clause seen so far is recursive. -/
  recursive : Bool

namespace Hoisting

/-- Nothing collected. -/
def empty : Hoisting := ⟨ScopeStack.empty, [], false⟩

/-- Opens the level of a select. -/
def enterSelect (h : Hoisting) (s : Select) : Hoisting :=
  { h with
    scopes := h.scopes.start
    recursive := h.recursive || s.withClause.any With.recursive }

/-- Declares a common table at the current level. One `WITH` clause declares a name once, and a name
declared further out may be declared again only with an equal definition. -/
def declare (d : Dialect) (h : Hoisting) (t : CommonTable) : Except RenderError Hoisting :=
  if (h.scopes.getCurrent? t.name).isSome then .error (.duplicateCommonTable t.name)
  else if (h.scopes.get? t.name).any (· != t) then .error (.shadowing t.name d)
  else .ok { h with scopes := h.scopes.set t.name t }

/-- Adds a common table behind the others, unless an equal one of its name is among them. -/
def emit (d : Dialect) (h : Hoisting) (t : CommonTable) : Except RenderError Hoisting :=
  match h.tables.find? (fun t' => t'.name == t.name) with
  | some t' => if t' == t then .ok h else .error (.shadowing t.name d)
  | none => .ok { h with tables := h.tables ++ [t] }

/-- On the way into a node. -/
def enter (d : Dialect) (h : Hoisting) : Node → Except RenderError Hoisting
  | .select s => .ok (h.enterSelect s)
  | .commonTable t => h.declare d t
  | _ => .ok h

/-- On the way out of a node. -/
def leave (d : Dialect) (h : Hoisting) : Node → Except RenderError Hoisting
  | .select _ => .ok { h with scopes := h.scopes.finish }
  | .commonTable t => h.emit d t
  | _ => .ok h

end Hoisting

/-- Collects the common tables of a node. -/
def Node.collect (d : Dialect) (n : Node) (h : Hoisting) : Except RenderError Hoisting := do
  let h ← h.enter d n
  let h ← n.children.attach.foldlM (fun h c => c.1.collect d h) h
  h.leave d n
termination_by sizeOf n
decreasing_by exact Node.sizeOf_lt_of_mem_children c.2

/-- The `WITH` clause to write on the outermost statement. -/
def Select.hoisted (s : Select) (d : Dialect) : Except RenderError With := do
  let h ← (Node.select s).collect d .empty
  return ⟨h.recursive, h.tables⟩

end SqlDialects
