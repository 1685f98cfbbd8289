import SqlDialects.Text.Basic

/-!
# Quotes and parentheses

A statement is cut only where neither quotes nor parentheses enclose the place. Going through a text, a
reader needs to know two things about where it stands: the character that closes the quotes it is in, and
how many parentheses are open (`Nesting`). Single quotes, double quotes and backquotes always enclose;
brackets do so for some readers and are plain characters for the others. A doubled quote closes and opens
again, which comes to the same.
-/

set_option autoImplicit false

namespace SqlDialects.Schema

open Text

/-- What encloses text as quotes do. -/
inductive Quoting where
  /-- Quotes and brackets. -/
  | quotesAndBrackets
  /-- Quotes only. -/
  | quotes
  deriving DecidableEq

/-- The character that closes what a character opens. -/
def Quoting.closing? (q : Quoting) (c : Char) : Option Char :=
  if c = '\'' ∨ c = '"' ∨ c = '\x60' then some c
  else if c = '[' ∧ q = .quotesAndBrackets then some ']'
  else none

/-- Where a reader of a text stands. -/
structure Nesting where
  /-- The character that closes the quotes around this place. -/
  closing : Option Char
  /-- How many parentheses are open. -/
  depth : Nat
  deriving DecidableEq

namespace Nesting

/-- Outside everything. -/
def top : Nesting := ⟨none, 0⟩

/-- Whether neither quotes nor parentheses enclose this place. -/
def isTop (s : Nesting) : Bool := s.closing.isNone && s.depth == 0

/-- Where the reader stands after a character. A parenthesis that closes nothing changes nothing. -/
def next (q : Quoting) (s : Nesting) (c : Char) : Nesting :=
  match s.closing with
  | some close => if c = close then { s with closing := none } else s
  | none =>
    match q.closing? c with
    | some close => { s with closing := some close }
    | none =>
      if c = '(' then { s with depth := s.depth + 1 }
      else if c = ')' then { s with depth := s.depth - 1 }
      else s

end Nesting

/-- A text cut at the parenthesis that closes one opened before it: the text inside and the text after. -/
def splitClosing (s : Nesting) : List Char → Option (List Char × List Char)
  | [] => none
  | c :: cs =>
    if s.isTop && c == ')' then some ([], cs)
    else (splitClosing (s.next .quotesAndBrackets c) cs).map (fun r => (c :: r.1, r.2))

/-- A text cut at every separator outside quotes and parentheses. -/
def cutAt (separator : Char) (s : Nesting) : List Char → List (List Char)
  | [] => [[]]
  | c :: cs =>
    if s.isTop && c == separator then [] :: cutAt separator s cs
    else
      match cutAt separator (s.next .quotesAndBrackets c) cs with
      | [] => [[c]]
      | part :: parts => (c :: part) :: parts

/-- The parts between commas outside quotes and parentheses, without those that are blank. -/
def listItems (cs : List Char) : List (List Char) :=
  (cutAt ',' .top cs).filter (fun part => !part.all isBlank)

/-- By how much a text deepens the nesting of parentheses, starting inside quotes or outside. -/
def deepening (closing : Option Char) : List Char → Int
  | [] => 0
  | c :: cs =>
    match closing with
    | some close => deepening (if c = close then none else closing) cs
    | none =>
      match Quoting.quotes.closing? c with
      | some close => deepening (some close) cs
      | none =>
        (if c = '(' then 1 else if c = ')' then -1 else 0) + deepening none cs

/-- Whether a text closes as many parentheses as it opens. -/
def isLevel (cs : List Char) : Bool := deepening none cs == 0

/-- Whether a text begins with a plain word, given in small letters, in either case. -/
def beginsWithWord (word : List Char) (cs : List Char) : Bool :=
  (cs.take word.length).map lowerChar == word
    && !((cs.drop word.length).head?.any isPlainWordChar)

/-- The text before a word outside quotes and parentheses, or all of it if the word does not occur. -/
def beforeWord (word : List Char) (isInsideWord : Bool) (s : Nesting) : List Char → List Char
  | [] => []
  | c :: cs =>
    if s.isTop && !isInsideWord && beginsWithWord word (c :: cs) then []
    else c :: beforeWord word (isPlainWordChar c) (s.next .quotes c) cs

end SqlDialects.Schema
