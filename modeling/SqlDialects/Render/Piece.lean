import SqlDialects.Settings
import SqlDialects.Value

/-!
# Pieces: what one step of rendering writes

A renderer does not write characters but **pieces**. A piece is text that is the same under all settings,
a name or a value whose spelling the settings decide, or a mark where lines may break. The settings come
in only where a piece is spelled: which pieces a query consists of does not depend on them.
-/

set_option autoImplicit false

namespace SqlDialects

inductive Piece where
  | text (text : String)
  /-- An identifier, quoted if the settings ask for it. -/
  | name (name : String)
  /-- A value that is always written as a literal. -/
  | literal (value : Value)
  /-- A value that becomes a placeholder unless values are inlined. -/
  | bind (value : Value)
  /-- A break between two clauses at some depth of nesting; a blank on one line. -/
  | gap (depth : Nat)
  /-- A break beside the parenthesis of a subquery; nothing on one line. -/
  | edge (depth : Nat)

/-- The words that are quoted although they are plain. -/
def reservedWords : List String :=
  ["ALL", "AND", "AS", "ASC", "BETWEEN", "BY", "CASE", "CAST", "CHECK", "COLUMN", "CONSTRAINT",
    "CREATE", "CROSS", "DEFAULT", "DELETE", "DESC", "DISTINCT", "DROP", "ELSE", "END", "EXISTS",
    "FALSE", "FETCH", "FOR", "FOREIGN", "FROM", "FULL", "GROUP", "HAVING", "IN", "INDEX", "INNER",
    "INSERT", "INTO", "IS", "JOIN", "KEY", "LATERAL", "LEFT", "LIKE", "LIMIT", "NATURAL", "NOT",
    "NULL", "OFFSET", "ON", "OR", "ORDER", "OUTER", "OVER", "PARTITION", "PRIMARY", "REFERENCES",
    "RIGHT", "ROW", "ROWS", "SELECT", "SET", "TABLE", "THEN", "TRUE", "UNION", "UNIQUE", "UPDATE",
    "USER", "USING", "VALUE", "VALUES", "WHEN", "WHERE", "WINDOW", "WITH"]

/-- Whether a name is a plain word: an ASCII letter or underscore, then letters, digits and
underscores. -/
def isPlainName (name : String) : Bool :=
  match name.toList with
  | [] => false
  | c :: cs => (Text.isAsciiLetter c || c == '_') && cs.all Text.isPlainWordChar

/-- Whether a name has to be quoted: it is no plain word, or it is reserved. -/
def needsQuoting (name : String) : Bool :=
  !isPlainName name || Text.isAnyOf reservedWords name

def spellName (d : Dialect) (s : Settings) (name : String) : String :=
  match s.quotedNames with
  | .always => d.quoteIdentifier name
  | .never => name
  | .asNeeded => if needsQuoting name then d.quoteIdentifier name else name

/-- A line break with the indentation of a depth. -/
def lineBreak (s : Settings) (depth : Nat) : String :=
  "\n" ++ String.join (List.replicate depth s.indentation)

/-- The spelling of a piece where every value is written as a literal. -/
def Piece.spell (d : Dialect) (s : Settings) : Piece → String
  | text t => t
  | name n => spellName d s n
  | literal v | bind v => v.literal d
  | gap depth => if s.formatted then lineBreak s depth else " "
  | edge depth => if s.formatted then lineBreak s depth else ""

end SqlDialects
