import SqlDialects.Decimal.Binary64
import SqlDialects.Scope
import SqlDialects.Text.Visible

/-!
# A stack of scopes as text

For looking at a stack of texts: its innermost level, which is -1 before the first scope, and the slots
of every name in the order of the names. Names and values are escaped, so the text stays on one line.
-/

set_option autoImplicit false

namespace SqlDialects.ScopeStack

/-- A slot as text. -/
def slotText : Option String → String
  | none => "None"
  | some v => "Some(" ++ Text.escaped v ++ ")"

/-- A name with its slots as text. -/
def entryText (e : String × List (Option String)) : String :=
  Text.escaped e.1 ++ ": [" ++ ", ".intercalate (e.2.map slotText) ++ "]"

/-- A stack of texts as text. -/
def summary (s : ScopeStack String String) : String :=
  "ScopeStack \x7b scope_level: " ++ Decimal.integer ((s.depth : Int) - 1) ++ ", stack: \x7b"
    ++ ", ".intercalate (s.slots.map entryText) ++ "\x7d, .. \x7d"

end SqlDialects.ScopeStack
