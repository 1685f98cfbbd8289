import SqlDialects.Render.Piece

/-!
# Output: text, binds and placeholders

The output of a render pass is text to which pieces are appended. A bind is counted as it is written: a
dialect with one placeholder for all binds has it in the text at once, and where placeholders are numbered
only the place of each is kept, as an offset in bytes, until the pass ends (`Output.finish`). So the output
of one pass can be appended to that of another, any number of times, and the numbers still follow the
order of the text.
-/

set_option autoImplicit false

namespace SqlDialects

/-- Rendered SQL and the values of its placeholders, in order. -/
structure Rendered where
  sql : String
  binds : List Value

/-- The output of a render pass. -/
structure Output where
  text : String
  /-- The values of the placeholders, in order. -/
  binds : List Value
  /-- The offsets in bytes at which numbered placeholders are to stand. -/
  placeholders : List Nat

namespace Output

def empty : Output := ⟨"", [], []⟩

def append (o : Output) (text : String) : Output := { o with text := o.text ++ text }

def addBind (d : Dialect) (o : Output) (v : Value) : Output :=
  match d.placeholderStyle with
  | .question => { o with text := o.text ++ "?", binds := o.binds ++ [v] }
  | .dollar =>
    { o with binds := o.binds ++ [v], placeholders := o.placeholders ++ [o.text.utf8ByteSize] }

def write (d : Dialect) (s : Settings) (o : Output) (p : Piece) : Output :=
  match p, s.paramType with
  | .bind v, .indexed => o.addBind d v
  | p, _ => o.append (p.spell d s)

/-- Appends another output. Its placeholders move with its text. -/
def absorb (o child : Output) : Output :=
  { text := o.text ++ child.text
    binds := o.binds ++ child.binds
    placeholders := o.placeholders ++ child.placeholders.map (o.text.utf8ByteSize + ·) }

/-- The text from one offset to another. -/
def slice (text : String) (start stop : Nat) : String :=
  String.Pos.Raw.extract text ⟨start⟩ ⟨stop⟩

/-- The text from an offset on, with placeholders put at offsets and numbered from a number. -/
def number (text : String) (start next : Nat) : List Nat → String
  | [] => slice text start text.utf8ByteSize
  | offset :: offsets =>
    slice text start offset ++ "$" ++ Decimal.digits next ++ number text offset (next + 1) offsets

/-- Ends the pass: the placeholders get their numbers. -/
def finish (o : Output) : Rendered := ⟨number o.text 0 1 o.placeholders, o.binds⟩

end Output

end SqlDialects
