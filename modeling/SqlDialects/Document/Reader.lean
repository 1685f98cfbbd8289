/-!
# JSON documents

Settings and names of dialects may come from JSON text. Only their shapes matter, so a number keeps no
value here, and a string keeps its text only if its escapes spell one: an escape of half a surrogate
pair is legal in a part of a document that nobody reads, and illegal where the text is wanted.

Members of an object are kept in order and with repetitions, since a repeated member is an error for
some readers. The reader follows the JSON grammar to the letter: blanks are the four ASCII ones, strings
hold no bare control characters, and nothing but blanks follows the document.
-/

set_option autoImplicit false

namespace SqlDialects

/-- A JSON document. -/
inductive Document where
  | null
  | bool (b : Bool)
  | number
  | string (text : Option String)
  | array (elements : List Document)
  | object (members : List (Option String × Document))

namespace Document

/-! Each reader of a part of a text yields the part and the rest of the text. -/

/-- Whether a character may stand between the parts of a document. -/
def isSpace (c : Char) : Bool := c == ' ' || c == '\n' || c == '\t' || c == '\r'

/-- A text without the blanks at its start. -/
def skipSpace (cs : List Char) : List Char := cs.dropWhile isSpace

/-- The value of a hexadecimal digit of either case. -/
def hexValue? (c : Char) : Option Nat :=
  if '0' ≤ c ∧ c ≤ '9' then some (c.toNat - 48)
  else if 'a' ≤ c ∧ c ≤ 'f' then some (c.toNat - 87)
  else if 'A' ≤ c ∧ c ≤ 'F' then some (c.toNat - 55)
  else none

/-- Four hexadecimal digits. -/
def readUnit : List Char → Option (Nat × List Char)
  | a :: b :: c :: d :: rest => do
    let a ← hexValue? a
    let b ← hexValue? b
    let c ← hexValue? c
    let d ← hexValue? d
    return (((a * 16 + b) * 16 + c) * 16 + d, rest)
  | _ => none

/-- The character that a short escape stands for. -/
def shortEscape? : Char → Option Char
  | '"' => some '"'
  | '\\' => some '\\'
  | '/' => some '/'
  | 'b' => some '\x08'
  | 'f' => some '\x0c'
  | 'n' => some '\n'
  | 'r' => some '\r'
  | 't' => some '\t'
  | _ => none

/-- A character of a string, or a UTF-16 code unit given by an escape. -/
inductive StringItem where
  | char (c : Char)
  | unit (n : Nat)

/-- The items of a string whose opening quote has been read. The number bounds how many there may be. -/
def readItems : Nat → List Char → Option (List StringItem × List Char)
  | 0, _ => none
  | _ + 1, [] => none
  | n + 1, c :: rest =>
    if c = '"' then some ([], rest)
    else if c.toNat < 0x20 then none
    else if c = '\\' then
      match rest with
      | 'u' :: rest => do
        let (u, rest) ← readUnit rest
        let (items, rest) ← readItems n rest
        return (.unit u :: items, rest)
      | e :: rest => do
        let c ← shortEscape? e
        let (items, rest) ← readItems n rest
        return (.char c :: items, rest)
      | [] => none
    else do
      let (items, rest) ← readItems n rest
      return (.char c :: items, rest)

/-- Whether a UTF-16 code unit begins a surrogate pair. -/
def isLeading (n : Nat) : Bool := 0xD800 ≤ n && n < 0xDC00

/-- Whether a UTF-16 code unit ends a surrogate pair. -/
def isTrailing (n : Nat) : Bool := 0xDC00 ≤ n && n < 0xE000

/-- The text that items spell, if every escaped surrogate is one of a pair. -/
def textOf : List StringItem → Option (List Char)
  | [] => some []
  | .char c :: items => (textOf items).map (c :: ·)
  | .unit a :: .unit b :: items =>
    if isLeading a then
      if isTrailing b then
        (textOf items).map (Char.ofNat (0x10000 + (a - 0xD800) * 0x400 + (b - 0xDC00)) :: ·)
      else none
    else if isTrailing a then none
    else (textOf (.unit b :: items)).map (Char.ofNat a :: ·)
  | .unit a :: items =>
    if isLeading a || isTrailing a then none else (textOf items).map (Char.ofNat a :: ·)

/-- A string whose opening quote has been read. -/
def readString (cs : List Char) : Option (Option String × List Char) := do
  let (items, rest) ← readItems (cs.length + 1) cs
  return ((textOf items).map String.ofList, rest)

/-- One or more decimal digits. -/
def skipDigits (cs : List Char) : Option (List Char) :=
  match cs with
  | c :: rest => if c.isDigit then some (rest.dropWhile Char.isDigit) else none
  | [] => none

/-- The rest of a number after its integer part: an optional fraction, then an optional exponent. -/
def skipFraction (cs : List Char) : Option (List Char) := do
  let cs ← match cs with
    | '.' :: rest => skipDigits rest
    | cs => some cs
  match cs with
  | 'e' :: '+' :: rest | 'e' :: '-' :: rest | 'E' :: '+' :: rest | 'E' :: '-' :: rest => skipDigits rest
  | 'e' :: rest | 'E' :: rest => skipDigits rest
  | cs => some cs

/-- The rest of a number without its sign. No digit follows a leading zero. -/
def skipNumber : List Char → Option (List Char)
  | '0' :: c :: rest => if c.isDigit then none else skipFraction (c :: rest)
  | cs => do skipFraction (← skipDigits cs)

mutual

/-- A document, nested at most so deep. -/
def readValue : Nat → List Char → Option (Document × List Char)
  | 0, _ => none
  | n + 1, cs =>
    match skipSpace cs with
    | 'n' :: 'u' :: 'l' :: 'l' :: rest => some (null, rest)
    | 't' :: 'r' :: 'u' :: 'e' :: rest => some (bool true, rest)
    | 'f' :: 'a' :: 'l' :: 's' :: 'e' :: rest => some (bool false, rest)
    | '"' :: rest => (readString rest).map (fun r => (string r.1, r.2))
    | '[' :: rest =>
      match skipSpace rest with
      | ']' :: rest => some (array [], rest)
      | rest => (readElements n rest).map (fun r => (array r.1, r.2))
    | '\x7b' :: rest =>
      match skipSpace rest with
      | '\x7d' :: rest => some (object [], rest)
      | rest => (readMembers n rest).map (fun r => (object r.1, r.2))
    | '-' :: rest => (skipNumber rest).map (fun rest => (number, rest))
    | rest => (skipNumber rest).map (fun rest => (number, rest))

/-- One or more elements of an array and its closing bracket. -/
def readElements : Nat → List Char → Option (List Document × List Char)
  | 0, _ => none
  | n + 1, cs => do
    let (d, rest) ← readValue n cs
    match skipSpace rest with
    | ',' :: rest => (readElements n rest).map (fun r => (d :: r.1, r.2))
    | ']' :: rest => return ([d], rest)
    | _ => none

/-- One or more members of an object and its closing brace. -/
def readMembers : Nat → List Char → Option (List (Option String × Document) × List Char)
  | 0, _ => none
  | n + 1, cs =>
    match skipSpace cs with
    | '"' :: rest => do
      let (key, rest) ← readString rest
      match skipSpace rest with
      | ':' :: rest => do
        let (d, rest) ← readValue n rest
        match skipSpace rest with
        | ',' :: rest => (readMembers n rest).map (fun r => ((key, d) :: r.1, r.2))
        | '\x7d' :: rest => return ([(key, d)], rest)
        | _ => none
      | _ => none
    | _ => none

end

/-- The document that a text is. Every level of nesting and every element takes a character of the
text, so its length bounds both. -/
def ofText? (text : String) : Option Document :=
  let cs := text.toList
  match readValue (2 * cs.length + 2) cs with
  | some (d, rest) => if skipSpace rest = [] then some d else none
  | none => none

/-- The text of a string. -/
def text? : Document → Option String
  | string t => t
  | _ => none

/-- The tag of an enumeration: a string, or an object with the tag as its only member, of value null. -/
def tag? : Document → Option String
  | string t => t
  | object [(key, null)] => key
  | _ => none

end Document

end SqlDialects
