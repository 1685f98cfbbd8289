import SqlDialects.Text.Word

/-!
# Reading a statement from its start

The smallest steps of reading: each takes a text and yields what is left of it, or nothing if the text
does not begin as asked. A step never looks beyond what it takes, so whether it succeeds depends on the
start of the text alone.
-/

set_option autoImplicit false

namespace SqlDialects.Schema

open Text

/-- The text after the letters of a keyword, given in small letters. -/
def dropLetters : List Char → List Char → Option (List Char)
  | [], cs => some cs
  | _ :: _, [] => none
  | k :: ks, c :: cs => if isReadAs k c then dropLetters ks cs else none

/-- The text after a keyword at its start. -/
def dropKeyword (keyword : String) (cs : List Char) : Option (List Char) :=
  dropLetters keyword.toList cs

/-- The text after the blanks at its start, of which there is at least one. -/
def dropBlanks : List Char → Option (List Char)
  | [] => none
  | c :: cs => if isBlank c then some (trimStart cs) else none

/-- The text after a keyword and the blanks that end it. -/
def dropWord (keyword : String) (cs : List Char) : Option (List Char) :=
  (dropKeyword keyword cs).bind dropBlanks

/-- The digits at the start of a text, of which there is at least one, and the text after them. -/
def takeDigits (cs : List Char) : Option (List Char × List Char) :=
  match cs.takeWhile isDecimalDigit with
  | [] => none
  | d :: ds => some (d :: ds, cs.dropWhile isDecimalDigit)

/-- The number that digits write, if they are ASCII ones and the number fits 32 bits. -/
def smallNumber? (digits : List Char) : Option Nat :=
  if digits.all isAsciiDigit then
    (some (digits.foldl (fun n c => 10 * n + (c.toNat - 48)) 0)).filter (· < Nat.pow 2 32)
  else none

/-- The digits of a precision and of a scale as they are written behind a type. -/
structure Measure where
  precision : List Char
  scale : Option (List Char)

/-- A precision, with or without a scale, between parentheses at the start of a text, and the text after
it. -/
def takeMeasure : List Char → Option (Measure × List Char)
  | '(' :: cs =>
    match takeDigits (trimStart cs) with
    | none => none
    | some (p, cs) =>
      match trimStart cs with
      | ')' :: rest => some (⟨p, none⟩, rest)
      | ',' :: cs =>
        match takeDigits (trimStart cs) with
        | none => none
        | some (s, cs) =>
          match trimStart cs with
          | ')' :: rest => some (⟨p, some s⟩, rest)
          | _ => none
      | _ => none
  | _ => none

/-- The precision that a measure gives. -/
def Measure.precision? (m : Option Measure) : Option Nat :=
  m.bind (fun m => smallNumber? m.precision)

/-- The scale that a measure gives. -/
def Measure.scale? (m : Option Measure) : Option Nat :=
  m.bind (fun m => m.scale.bind smallNumber?)

/-- Skipping blanks never lengthens a text. -/
theorem length_trimStart_le (cs : List Char) : (trimStart cs).length ≤ cs.length :=
  (List.dropWhile_suffix isBlank).length_le

end SqlDialects.Schema
