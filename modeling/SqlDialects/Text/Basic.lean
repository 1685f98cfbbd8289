/-!
# Letters, blanks and quoting

The text rules that more than one part of the library needs: ASCII case folding (identifiers are
compared that way), the set of blank characters that surround a word, the one quoting scheme of SQL
(the quote is doubled inside), and splitting at the first occurrence of a character.

Case is folded for the 26 ASCII letters only. Blanks are the characters of the Unicode property
`White_Space`, listed in full: it is a closed set of 25 characters.
-/

set_option autoImplicit false

namespace SqlDialects.Text

/-- The lower-case form of an ASCII letter; any other character is itself. -/
def lowerChar (c : Char) : Char :=
  if 'A' ≤ c ∧ c ≤ 'Z' then Char.ofNat (c.toNat + 32) else c

/-- The upper-case form of an ASCII letter; any other character is itself. -/
def upperChar (c : Char) : Char :=
  if 'a' ≤ c ∧ c ≤ 'z' then Char.ofNat (c.toNat - 32) else c

def asciiLower (s : String) : String :=
  String.ofList (s.toList.map lowerChar)

def asciiUpper (s : String) : String :=
  String.ofList (s.toList.map upperChar)

/-- Whether two texts are equal up to the case of ASCII letters. -/
def sameIgnoringCase (s t : String) : Bool :=
  s.toList.map lowerChar == t.toList.map lowerChar

/-- Whether a text is one of the given words, up to the case of ASCII letters. -/
def isAnyOf (words : List String) (s : String) : Bool :=
  words.any (sameIgnoringCase · s)

def isAsciiLetter (c : Char) : Bool :=
  ('a' ≤ c && c ≤ 'z') || ('A' ≤ c && c ≤ 'Z')

def isAsciiDigit (c : Char) : Bool :=
  '0' ≤ c && c ≤ '9'

/-- Whether a character may stand in a plain word: an ASCII letter, digit or underscore. -/
def isPlainWordChar (c : Char) : Bool :=
  isAsciiLetter c || isAsciiDigit c || c == '_'

/-- Whether a character is blank, by the Unicode property `White_Space`. -/
def isBlank (c : Char) : Bool :=
  let n := c.toNat
  (9 ≤ n && n ≤ 13) || n == 0x20 || n == 0x85 || n == 0xA0 || n == 0x1680
    || (0x2000 ≤ n && n ≤ 0x200A) || n == 0x2028 || n == 0x2029 || n == 0x202F
    || n == 0x205F || n == 0x3000

def trimStart (cs : List Char) : List Char :=
  cs.dropWhile isBlank

def trimEnd (cs : List Char) : List Char :=
  (cs.reverse.dropWhile isBlank).reverse

def trimChars (cs : List Char) : List Char :=
  trimEnd (trimStart cs)

def trim (s : String) : String :=
  String.ofList (trimChars s.toList)

/-- A text in which every occurrence of one character is written twice. -/
def doubling (q : Char) : List Char → List Char
  | [] => []
  | c :: cs => if c = q then q :: q :: doubling q cs else c :: doubling q cs

/-- A text between quotes, each quote inside it written twice. -/
def quoted (q : Char) (s : String) : String :=
  String.ofList (q :: doubling q s.toList ++ [q])

/-- The plain words of a text: its maximal runs of ASCII letters, digits and underscores. -/
def plainWords (cs : List Char) : List (List Char) :=
  (cs.splitBy (fun a b => isPlainWordChar a == isPlainWordChar b)).filter
    (fun run => run.any isPlainWordChar)

end SqlDialects.Text
