import SqlDialects.Render.Error
import SqlDialects.Render.Output
import Mathlib.Control.Monad.Basic

/-!
# Tokens

The lexical grammar of the rendered text. A text is read character by character, and what has been read of a
token that may still go on is kept apart (`Pending`), so nothing looks ahead and the reading of a text is the
reading of its parts one after the other.

A placeholder stands for a value, and the reading resolves it: a question mark stands for the next of the
values, and `$n` does if it is the turn of the value with that number. Two dashes begin a comment. It is kept
as a token, which no expression has, so that a text cannot be read as if the comment were not there.
-/

set_option autoImplicit false

namespace SqlDialects

deriving instance DecidableEq for Value, Rendered

inductive Token where
  /-- A plain word that is not quoted: a keyword, a name or the name of a function. -/
  | word (word : String)
  /-- A quoted name, without its quotes. -/
  | name (name : String)
  /-- A quoted text with the word that stands at its opening quote. -/
  | text (tag text : String)
  | number (text : String)
  /-- A value that a placeholder stands for. -/
  | bind (value : Value)
  | symbol (symbol : String)
  | comment
  /-- What is no token: a quote that is not closed, a placeholder without a value. -/
  | stray (text : String)
  deriving DecidableEq

namespace Lexer

/-- What has been read of a token that may go on. In a quoted one, a quote that was read is either the end or
the first of two. -/
inductive Pending where
  | nothing
  | word (read : List Char)
  | number (read : List Char)
  | dollar (read : List Char)
  | name (read : List Char) (closed : Bool)
  | text (tag read : List Char) (closed : Bool)
  | symbol (first : Char)
  | comment

structure State where
  tokens : List Token
  pending : Pending
  /-- The values that no placeholder has stood for yet. -/
  values : List Value
  /-- The number of the next of them. -/
  number : Nat

namespace State

def start (values : List Value) : State := ⟨[], .nothing, values, 1⟩

def emit (st : State) (t : Token) : State :=
  { st with tokens := st.tokens ++ [t], pending := .nothing }

/-- The token of a placeholder. -/
def take (st : State) : State :=
  match st.values with
  | [] => st.emit (.stray "?")
  | v :: vs => { st.emit (.bind v) with values := vs, number := st.number + 1 }

/-- Ends the token that was being read. -/
def settle (st : State) : State :=
  match st.pending with
  | .nothing => st
  | .word cs => st.emit (.word (.ofList cs))
  | .number cs => st.emit (.number (.ofList cs))
  | .dollar cs =>
    if String.ofList cs = Decimal.digits st.number then st.take else st.emit (.stray ("$" ++ .ofList cs))
  | .name cs closed => st.emit (if closed then .name (.ofList cs) else .stray (.ofList cs))
  | .text tag cs closed => st.emit (if closed then .text (.ofList tag) (.ofList cs) else .stray (.ofList (tag ++ cs)))
  | .symbol c => st.emit (.symbol (.ofList [c]))
  | .comment => { st with pending := .nothing }

end State

/-- The symbols of two characters. -/
def pairs : List (Char × Char) := [('|', '|'), ('<', '>'), ('<', '='), ('>', '='), (':', ':')]

/-- Reads the first character of a token, or a blank. -/
def begin (d : Dialect) (st : State) (c : Char) : State :=
  if Text.isAsciiLetter c || c == '_' then { st with pending := .word [c] }
  else if Text.isAsciiDigit c then { st with pending := .number [c] }
  else if c = d.identifierQuote then { st with pending := .name [] false }
  else if c = '\'' then { st with pending := .text [] [] false }
  else if c = '?' then st.take
  else if c = '$' then { st with pending := .dollar [] }
  else if c = '-' || pairs.any (·.1 = c) then { st with pending := .symbol c }
  else if Text.isBlank c then st
  else st.emit (.symbol (.ofList [c]))

/-- Reads a character. -/
def step (d : Dialect) (st : State) (c : Char) : State :=
  match st.pending with
  | .nothing => begin d st c
  | .word cs =>
    if Text.isPlainWordChar c then { st with pending := .word (cs ++ [c]) }
    else if c = '\'' then { st with pending := .text cs [] false }
    else begin d st.settle c
  | .number cs =>
    if Text.isPlainWordChar c || c == '.' then { st with pending := .number (cs ++ [c]) }
    else begin d st.settle c
  | .dollar cs =>
    if Text.isAsciiDigit c then { st with pending := .dollar (cs ++ [c]) } else begin d st.settle c
  | .name cs false =>
    { st with pending := if c = d.identifierQuote then .name cs true else .name (cs ++ [c]) false }
  | .name cs true =>
    if c = d.identifierQuote then { st with pending := .name (cs ++ [c]) false } else begin d st.settle c
  | .text tag cs false =>
    { st with pending := if c = '\'' then .text tag cs true else .text tag (cs ++ [c]) false }
  | .text tag cs true =>
    if c = '\'' then { st with pending := .text tag (cs ++ [c]) false } else begin d st.settle c
  | .symbol a =>
    if a = '-' && c = '-' then { st.emit .comment with pending := .comment }
    else if pairs.contains (a, c) then st.emit (.symbol (.ofList [a, c]))
    else begin d st.settle c
  | .comment => if c = '\n' then st.settle else st

end Lexer

/-- The tokens of a text in which placeholders stand for the given values, and the values left over. -/
def Lexer.read (d : Dialect) (text : String) (values : List Value) : List Token × List Value :=
  let st := (text.toList.foldl (step d) (.start values)).settle
  (st.tokens, st.values)

/-- The tokens of a rendered text, if its placeholders are as many as its binds. -/
def Rendered.tokens? (r : Rendered) (d : Dialect) : Option (List Token) :=
  let (ts, left) := Lexer.read d r.sql r.binds
  if left.isEmpty then some ts else none

example : (⟨"a.\"b c\" >= $1--", [.int 5]⟩ : Rendered).tokens? .postgres14
    = some [.word "a", .symbol ".", .name "b c", .symbol ">=", .bind (.int 5), .comment] := by
  decide +kernel

end SqlDialects
