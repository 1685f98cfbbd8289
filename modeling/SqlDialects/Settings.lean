/-!
# Settings of the written text

Settings decide how a rendered query is spelled, never what it contains: whether values are inlined,
when names are quoted, and whether clauses stand on lines of their own.
-/

set_option autoImplicit false

namespace SqlDialects

/-- How bind values are written. -/
inductive ParamType where
  /-- As placeholders, the values being collected. -/
  | indexed
  | inlined
  deriving DecidableEq, Inhabited

/-- Which names are quoted. -/
inductive QuotedNames where
  | always
  /-- Those that are not plain words, or that are reserved. -/
  | asNeeded
  | never
  deriving DecidableEq, Inhabited

/-- The settings of the written text. -/
structure Settings where
  paramType : ParamType
  quotedNames : QuotedNames
  /-- Whether clauses and subqueries stand on lines of their own. -/
  formatted : Bool
  indentation : String
  deriving DecidableEq

namespace Settings

/-- Placeholders, names quoted as needed, one line; two blanks a level when lines are broken. -/
def default : Settings := ⟨.indexed, .asNeeded, false, "  "⟩

instance : Inhabited Settings := ⟨default⟩

/-- The same settings with a placeholder for every bind. -/
def indexed (s : Settings) : Settings := { s with paramType := .indexed }

/-- The same settings with every value inlined. -/
def inlined (s : Settings) : Settings := { s with paramType := .inlined }

end Settings

end SqlDialects
