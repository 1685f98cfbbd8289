import SqlDialects.Schema.Name
import SqlDialects.Schema.Nesting

/-!
# Shapes of creation statements

What the fixed parts of a statement look like: its head up to the name of what it creates, the head of
the query of a view, the `WITHOUT ROWID` option, and, inside a select list, a cast that is a whole
expression and an alias at the end of an item. Keywords are read in either case.

Where more than one reading of a text is possible, the rule says which one holds: the target of a cast
begins at the last `AS` from which the rest can be read, and is as short as can be; an alias takes up as
much of the end of an item as can be.
-/

set_option autoImplicit false

namespace SqlDialects.Schema

open Text

/-- What a statement creates. -/
inductive ObjectKind where
  | table
  | view
  deriving DecidableEq, Inhabited

/-! ## Heads -/

/-- What a creation statement begins with. -/
structure Head where
  kind : ObjectKind
  /-- The name as it is written. -/
  name : List Char
  /-- The statement after the name. -/
  rest : List Char

/-- What a statement creates, and the text after that keyword. -/
def takeKind (cs : List Char) : Option (ObjectKind × List Char) :=
  match dropWord "table" cs with
  | some rest => some (.table, rest)
  | none => (dropWord "view" cs).map (fun rest => (.view, rest))

/-- The name of a new object and the text after it. `IF NOT EXISTS` may stand before a name; before
anything else `IF` is itself the name. -/
def takeNewName (cs : List Char) : Option (List Char × List Char) :=
  match (((dropWord "if" cs).bind (dropWord "not")).bind (dropWord "exists")).bind takeDottedName with
  | some r => some r
  | none => takeDottedName cs

/-- The head of a creation statement. -/
def takeHead (cs : List Char) : Option Head := do
  let cs ← dropWord "create" (trimStart cs)
  let cs := ((dropWord "temporary" cs).orElse fun _ => dropWord "temp" cs).getD cs
  let (kind, cs) ← takeKind cs
  let (name, rest) ← takeNewName cs
  return ⟨kind, name, trimStart rest⟩

/-- The list of column names of a view, which may be missing, and the text after it. -/
def takeColumnList : List Char → List Char × List Char
  | '(' :: cs =>
    match closeAt ')' cs with
    | some (names, rest) => (names, trimStart rest)
    | none => ([], '(' :: cs)
  | cs => ([], cs)

/-- The column names of a view, and the text behind `SELECT` of its query. -/
def takeSelection (cs : List Char) : Option (List Char × List Char) := do
  let (names, cs) := takeColumnList cs
  let cs ← (dropWord "as" cs).bind (dropWord "select")
  return (names, ((dropWord "distinct" cs).orElse fun _ => dropWord "all" cs).getD cs)

/-! ## Options -/

/-- Whether a text begins with the `WITHOUT ROWID` option. -/
def beginsWithoutRowid (cs : List Char) : Bool :=
  match (dropWord "without" cs).bind (dropKeyword "rowid") with
  | some rest => !(rest.head?.any isWordChar)
  | none => false

/-- Whether `WITHOUT ROWID` occurs in a text as words of their own. -/
def hasWithoutRowid (isInsideWord : Bool) : List Char → Bool
  | [] => false
  | c :: cs =>
    (!isInsideWord && beginsWithoutRowid (c :: cs)) || hasWithoutRowid (isWordChar c) cs

/-- Whether a creation statement says `WITHOUT ROWID`. -/
def isWithoutRowid (source : String) : Bool := hasWithoutRowid false source.toList

/-! ## Casts -/

/-- The type that a cast casts to. -/
structure CastTarget where
  name : List Char
  measure : Option Measure

/-- The end of a cast after the name of its type: a precision perhaps, and the parenthesis that ends the
text. -/
def castEnd? (cs : List Char) : Option (Option Measure) :=
  match takeMeasure (trimStart cs) with
  | some (m, rest) => if trimStart rest = [')'] then some (some m) else none
  | none => if trimStart cs = [')'] then some none else none

/-- The shortest continuation of a type name after which a cast can end. -/
def castName? (cs : List Char) : Option CastTarget :=
  match castEnd? cs with
  | some m => some ⟨[], m⟩
  | none =>
    match cs with
    | [] => none
    | c :: cs =>
      if isWordChar c || c == ' ' then (castName? cs).map (fun t => { t with name := c :: t.name })
      else none

/-- The target of a cast from its `AS` on. -/
def castFromAs? (cs : List Char) : Option CastTarget :=
  match dropWord "as" cs with
  | some (c :: cs) =>
    if beginsWord c then (castName? cs).map (fun t => { t with name := c :: t.name }) else none
  | _ => none

/-- The target of a cast, from the last `AS` that can begin it. -/
def lastCastTarget? (isInsideWord : Bool) : List Char → Option CastTarget
  | [] => none
  | c :: cs =>
    match lastCastTarget? (isWordChar c) cs with
    | some t => some t
    | none => if isInsideWord then none else castFromAs? (c :: cs)

/-- The target of an expression that is a cast. -/
def castTarget? (cs : List Char) : Option CastTarget :=
  match (dropKeyword "cast" cs).map trimStart with
  | some ('(' :: body) => lastCastTarget? false body
  | _ => none

/-! ## Aliases -/

/-- Whether a text is an alias: a name between quotes, not empty, or a word. -/
def isAlias : List Char → Bool
  | '"' :: cs =>
    match closeQuoted cs with
    | some (name, rest) => !name.isEmpty && rest.isEmpty
    | none => false
  | '\x60' :: cs =>
    match closeAt '\x60' cs with
    | some (name, rest) => !name.isEmpty && rest.isEmpty
    | none => false
  | '[' :: cs =>
    match closeAt ']' cs with
    | some (name, rest) => !name.isEmpty && rest.isEmpty
    | none => false
  | c :: cs => beginsWord c && cs.all isWordChar
  | [] => false

/-- The alias that a text is, with or without `AS` before it. -/
def aliasOf? (cs : List Char) : Option (List Char) :=
  match (dropWord "as" cs).filter isAlias with
  | some asName => some asName
  | none => if isAlias cs then some cs else none

/-- An item cut at the first blanks behind which an alias stands: the text before them and the alias. -/
def splitAtAlias : List Char → Option (List Char × List Char)
  | [] => none
  | c :: cs =>
    match if isBlank c then aliasOf? (trimStart cs) else none with
    | some asName => some ([], asName)
    | none => (splitAtAlias cs).map (fun r => (c :: r.1, r.2))

end SqlDialects.Schema
