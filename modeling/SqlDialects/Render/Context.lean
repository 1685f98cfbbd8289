import SqlDialects.Render.Error
import SqlDialects.Render.Output
import SqlDialects.Query.Node
import SqlDialects.Scope
import SqlDialects.Text.Fresh

/-!
# The context of a render pass

A context collects the output and holds what decides what is written next: the dialect, the settings,
the depth of nesting, two flags and the names declared per query level. `Render` is the type of a step
that writes into a context and may fail; a failed step leaves what it has written.

A step that renders a part in isolation works in a *detached* context, which sees the same names on one
level of its own and starts without output.
-/

set_option autoImplicit false

namespace SqlDialects

/-- What changes the rendering of nested parts. -/
structure RenderFlags where
  /-- An aliased field is written with its expression, not as a reference to the alias. It is set for
  the entries of a select list. -/
  declareFields : Bool
  /-- The common tables have been written with the outermost statement, so nested selects write none. -/
  commonTablesHoisted : Bool
  deriving DecidableEq, Inhabited

/-- A value that callers keep with a context. -/
inductive DataValue where
  | flag (b : Bool)
  | int (n : Int)
  | text (s : String)
  deriving DecidableEq

/-- What a declared name stands for. -/
inductive Declaration where
  | table
  | commonTable
  /-- A name made up during rendering. -/
  | generated
  deriving DecidableEq

/-- The state of a render pass. -/
structure Context where
  dialect : Dialect
  settings : Settings
  output : Output
  /-- How many subqueries are open. -/
  indent : Nat
  flags : RenderFlags
  /-- Values kept by callers, by key. Rendering does not read them. -/
  data : List (String × DataValue)
  scopes : ScopeStack String Declaration

/-- A step of rendering. A failed step keeps the context as far as it came. -/
abbrev Render := EStateM RenderError Context

namespace Context

def new (d : Dialect) (s : Settings) : Context :=
  { dialect := d, settings := s, output := .empty, indent := 0, flags := ⟨false, false⟩, data := [],
    scopes := ScopeStack.empty }

/-- The output so far, with its placeholders numbered. -/
def finish (c : Context) : Rendered := c.output.finish

def write (c : Context) (p : Piece) : Context :=
  { c with output := c.output.write c.dialect c.settings p }

/-- A context without output that sees the same names, all on one level, and starts with the data of
the parent if it is to inherit them. -/
def detached (c : Context) (inheritData : Bool) : Context :=
  { c with
    output := .empty
    data := if inheritData then c.data else []
    scopes := c.scopes.flatten }

def absorb (c child : Context) : Context :=
  { c with output := c.output.absorb child.output }

def getData (c : Context) (key : String) : Option DataValue := c.data.lookup key

def removeData (c : Context) (key : String) : Context :=
  { c with data := c.data.filter (fun e => e.1 != key) }

def setData (c : Context) (key : String) (v : DataValue) : Context :=
  { c with data := (key, v) :: (c.removeData key).data }

/-- Declares a name at the innermost level. Without an open scope nothing is declared. -/
def declare (c : Context) (name : String) (d : Declaration) : Context :=
  { c with scopes := c.scopes.set name d }

/-- The candidates for a generated alias: the stem itself, then the stem with a number. -/
def aliasCandidate (stem : String) : Nat → String
  | 0 => stem
  | n + 1 => stem ++ Decimal.digits (n + 1)

def visibleNames (c : Context) : List String := c.scopes.toList.map Prod.fst

/-- An alias that no visible name is equal to. Without an open scope nothing is visible. -/
def freshAlias (c : Context) (stem : String) : String :=
  Text.firstFree (aliasCandidate stem) c.visibleNames

end Context

namespace Render

def write (p : Piece) : Render Unit := modify fun c => c.write p

/-- Writes text that no setting changes. -/
def sql (text : String) : Render Unit := write (.text text)

def name (n : String) : Render Unit := write (.name n)

def literal (v : Value) : Render Unit := write (.literal v)

def bind (v : Value) : Render Unit := write (.bind v)

def dialect : Render Dialect := do return (← get).dialect

def flags : Render RenderFlags := do return (← get).flags

def scopes : Render (ScopeStack String Declaration) := do return (← get).scopes

def unsupported {α : Type} (construct : String) : Render α := do
  throw (.unsupported construct (← dialect))

/-- Refuses a construct unless the dialect has it. -/
def demand (available : Bool) (construct : String) : Render Unit :=
  if available then pure () else unsupported construct

/-- A step that is taken under a condition only. -/
def when (condition : Bool) (step : Render Unit) : Render Unit :=
  if condition then step else pure ()

/-- A step for a value, if there is one. -/
def onSome {α : Type} (value : Option α) (step : α → Render Unit) : Render Unit :=
  match value with
  | some a => step a
  | none => pure ()

def gap : Render Unit := do write (.gap (← get).indent)

def indentStart : Render Unit := do
  modify fun c => { c with indent := c.indent + 1 }
  write (.edge (← get).indent)

/-- Closes a level of indentation. At the outermost one there is nothing to close. -/
def indentEnd : Render Unit := do
  modify fun c => { c with indent := c.indent - 1 }
  write (.edge (← get).indent)

def parenthesized (step : Render Unit) : Render Unit := do
  sql "("
  step
  sql ")"

/-- A step in parentheses and on a level of indentation of its own. -/
def subquery (step : Render Unit) : Render Unit := do
  sql "("
  indentStart
  step
  indentEnd
  sql ")"

/-- Steps one after the other, with a text between them. -/
def separated (between : String) : List (Render Unit) → Render Unit
  | [] => pure ()
  | [step] => step
  | step :: steps => do
    step
    sql between
    separated between steps

def nameList (names : List String) : Render Unit :=
  parenthesized (separated ", " (names.map name))

/-- A step under other flags. The flags from before hold again afterwards, however it ends. -/
def withFlags {α : Type} (flags : RenderFlags) (step : Render α) : Render α := fun c =>
  match step { c with flags := flags } with
  | .ok a c' => .ok a { c' with flags := c.flags }
  | .error e c' => .error e { c' with flags := c.flags }

/-- A step on a query level of its own. The level is closed afterwards, however the step ends. -/
def onQueryLevel {α : Type} (step : Render α) : Render α := fun c =>
  match step { c with scopes := c.scopes.start } with
  | .ok a c' => .ok a { c' with scopes := c'.scopes.finish }
  | .error e c' => .error e { c' with scopes := c'.scopes.finish }

/-- A step in a detached context. Its outcome is that context, of which nothing is written yet. -/
def detached (step : Render Unit) : Render Context := fun c =>
  match step (c.detached true) with
  | .ok _ child => .ok child c
  | .error e _ => .error e c

/-- Writes the output of a detached context. -/
def absorb (child : Context) : Render Unit := modify fun c => c.absorb child

/-- Declares a name at the current query level. -/
def declare (n : String) (d : Declaration) : Render Unit :=
  modify fun c => c.declare n d

/-- An alias that no visible name is equal to, declared at the current query level. -/
def freshAlias (stem : String) : Render String := do
  let fresh := (← get).freshAlias stem
  declare fresh .generated
  return fresh

end Render

end SqlDialects
