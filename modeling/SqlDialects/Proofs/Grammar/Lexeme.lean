import SqlDialects.Proofs.Grammar.Literals

/-!
# The lexeme that a text begins with

A lexer of SQL seen from one place: which lexeme stands there, and what is left behind it. Whatever is spelled as
a literal or as a name is read as one lexeme with the very value that was spelled, and nothing of what follows is
taken for a part of it, so no value and no name can reach into the text around it
(`Lexeme.spellings_read_back`). What follows may be anything that could not go on with the lexeme: behind quotes
all but another quote, behind a word all but a word character.

Quotes inside quotes are written twice. A lexer may also read a backslash in a text as an escape; that is a
parameter here (`Escapes`), for the lexers of some databases do.
-/

set_option autoImplicit false

namespace SqlDialects

inductive Lexeme where
  /-- A text, without its quotes. -/
  | text (value : List Char)
  /-- A name, without its quotes if it has them. -/
  | name (isQuoted : Bool) (value : List Char)
  | symbol (c : Char)
  deriving DecidableEq

/-- What escapes a character between single quotes, besides a quote that escapes a quote. -/
inductive Escapes where
  | none
  | backslash
  deriving DecidableEq

namespace Escapes

/-- What a character behind a backslash stands for. Some stand for control characters, two for themselves together
with the backslash, all others for themselves. -/
def behindBackslash (c : Char) : List Char :=
  match c with
  | '0' => ['\x00']
  | 'b' => ['\x08']
  | 'n' => ['\n']
  | 'r' => ['\r']
  | 't' => ['\t']
  | 'Z' => ['\x1a']
  | '%' | '_' => ['\\', c]
  | _ => [c]

/-- What two characters stand for, if the first escapes the second. -/
def value? : Escapes → Char → Char → Option (List Char)
  | none, _, _ => .none
  | backslash, c, c' => if c = '\\' then some (behindBackslash c') else .none

end Escapes

namespace Lexeme

/-- What stands between quotes, the first of which has been read, and the text behind the last. -/
def close (e : Escapes) (q : Char) : List Char → Option (List Char × List Char)
  | [] => none
  | [c] => if c = q then some ([], []) else none
  | c :: c' :: cs =>
    if c = q then
      if c' = q then (close e q cs).map fun r => (q :: r.1, r.2) else some ([], c' :: cs)
    else
      match e.value? c c' with
      | some value => (close e q cs).map fun r => (value ++ r.1, r.2)
      | none => (close e q (c' :: cs)).map fun r => (c :: r.1, r.2)

/-- The lexeme at the start of a text, and the text behind it. A quoted name is not empty. -/
def read (e : Escapes) (d : Dialect) : List Char → Option (Lexeme × List Char)
  | [] => none
  | c :: cs =>
    if c = '\'' then (close e c cs).map fun r => (text r.1, r.2)
    else if c = d.identifierQuote then
      ((close .none c cs).filter fun r => !r.1.isEmpty).map fun r => (name true r.1, r.2)
    else if Text.isAsciiLetter c || c == '_' then
      some (name false (c :: cs.takeWhile Text.isPlainWordChar), cs.dropWhile Text.isPlainWordChar)
    else some (symbol c, cs)

/-! ## Blobs -/

/-- The value of a hexadecimal digit, in either case. -/
def hexValue? (c : Char) : Option Nat :=
  if '0' ≤ c ∧ c ≤ '9' then some (c.toNat - 48)
  else if 'A' ≤ c ∧ c ≤ 'F' then some (c.toNat - 55)
  else if 'a' ≤ c ∧ c ≤ 'f' then some (c.toNat - 87)
  else none

/-- The bytes that pairs of hexadecimal digits write. -/
def bytes? : List Char → Option (List UInt8)
  | [] => some []
  | [_] => none
  | c :: c' :: cs =>
    match hexValue? c, hexValue? c' with
    | some high, some low => (bytes? cs).map (.ofNat (16 * high + low) :: ·)
    | _, _ => none

/-- The bytes that a text begins with, and the text behind them: hexadecimal digits in quotes that a plain `X`
stands before, or a text of such digits behind `\x` that is cast to `bytea`. -/
def readBlob (d : Dialect) (cs : List Char) : Option (List UInt8 × List Char) :=
  match read .none d cs with
  | some (.name false ['X'], behind) =>
    match read .none d behind with
    | some (.text digits, rest) => (bytes? digits).map fun bytes => (bytes, rest)
    | _ => none
  | some (.text ('\\' :: 'x' :: digits), ':' :: ':' :: behind) =>
    match read .none d behind with
    | some (.name false ['b', 'y', 't', 'e', 'a'], rest) => (bytes? digits).map fun bytes => (bytes, rest)
    | _ => none
  | _ => none

/-! ## Quoted lexemes -/

section Close

variable {e : Escapes} {q c c' : Char} {cs r : List Char}

theorem close_pair : close e q (q :: q :: cs) = (close e q cs).map fun r => (q :: r.1, r.2) := by
  rw [close, if_pos rfl, if_pos rfl]

theorem close_end (h : r.head? ≠ some q) : close e q (q :: r) = some ([], r) := by
  cases r with
  | nil => rw [close, if_pos rfl]
  | cons c r =>
    have hc : c ≠ q := fun hc => h (congrArg some hc)
    rw [close, if_pos rfl, if_neg hc]

/-- A character that is neither a quote nor escapes anything stands for itself. -/
theorem close_plain (hq : c ≠ q) (he : ∀ c', e.value? c c' = none) :
    close e q (c :: cs) = (close e q cs).map fun r => (c :: r.1, r.2) := by
  cases cs with
  | nil => simp [close, hq]
  | cons c' cs =>
    rw [close, if_neg hq, he c']

theorem close_escape {value : List Char} (hq : c ≠ q) (he : e.value? c c' = some value) :
    close e q (c :: c' :: cs) = (close e q cs).map fun r => (value ++ r.1, r.2) := by
  rw [close, if_neg hq, he]

/-- What is written with its quotes doubled is read as it was, if nothing else escapes. -/
theorem close_doubling (h : r.head? ≠ some q) : close .none q (Text.doubling q cs ++ q :: r) = some (cs, r) := by
  induction cs with
  | nil => exact close_end h
  | cons c cs ih =>
    by_cases hc : c = q
    · subst hc
      rw [Text.doubling, if_pos rfl, List.cons_append, List.cons_append, close_pair, ih]
      rfl
    · rw [Text.doubling, if_neg hc, List.cons_append, close_plain hc fun _ => rfl, ih]
      rfl

end Close

/-! ## Literals and names -/

variable {d : Dialect} {r : List Char}

theorem read_quotedText {cs : List Char} (h : r.head? ≠ some '\'') :
    read .none d ('\'' :: (Text.doubling '\'' cs ++ ['\'']) ++ r) = some (.text cs, r) := by
  rw [List.cons_append, List.append_assoc, List.singleton_append, read, if_pos rfl, close_doubling h]
  rfl

theorem read_quotedName {cs : List Char} (hn : cs ≠ []) (h : r.head? ≠ some d.identifierQuote) :
    read .none d (d.identifierQuote :: (Text.doubling d.identifierQuote cs ++ [d.identifierQuote]) ++ r)
      = some (.name true cs, r) := by
  have hq : d.identifierQuote ≠ '\'' := (Lexer.ne_identifierQuote (by decide) (by decide)).symm
  have full : (!cs.isEmpty) = true := by simpa using hn
  rw [List.cons_append, List.append_assoc, List.singleton_append, read, if_neg hq, if_pos rfl, close_doubling h,
    Option.filter_some, if_pos full]
  rfl

/-- A plain word ends where the word characters do. -/
theorem read_word {c : Char} {cs : List Char} (hc : (Text.isAsciiLetter c || c == '_') = true)
    (hcs : cs.all Text.isPlainWordChar = true) (h : r.head?.any Text.isPlainWordChar = false) :
    read .none d (c :: cs ++ r) = some (.name false (c :: cs), r) := by
  have other : ∀ c', (Text.isAsciiLetter c' || c' == '_') = false → c ≠ c' := by
    rintro _ hc' rfl
    rw [hc] at hc'
    cases hc'
  have hq : c ≠ d.identifierQuote := Lexer.ne_identifierQuote (other _ (by decide)) (other _ (by decide))
  have ends : ∀ a ∈ r.head?, Text.isPlainWordChar a = false := by
    intro a ha
    rwa [Option.mem_def.1 ha] at h
  obtain ⟨taken, left⟩ := Text.takeWhile_run (List.all_eq_true.1 hcs) ends
  rw [List.cons_append, read, if_neg (other _ (by decide)), if_neg hq, if_pos hc, taken, left]

theorem hexValue?_hexDigit : ∀ n < 16, hexValue? (Value.hexDigit n) = some n := by
  decide

theorem bytes?_hex (bytes : List UInt8) : bytes? (Value.hex bytes).toList = some bytes := by
  rw [Value.hex, String.toList_ofList]
  induction bytes with
  | nil => rfl
  | cons b bytes ih =>
    have hb : b.toNat < 256 := b.toNat_lt
    rw [List.flatMap_cons, List.cons_append, List.cons_append, List.nil_append, bytes?,
      hexValue?_hexDigit _ (by omega), hexValue?_hexDigit _ (by omega), ih]
    have joined : 16 * (b.toNat / 16) + b.toNat % 16 = b.toNat := Nat.div_add_mod b.toNat 16
    simp [joined]

/-- A blob between quotes with a letter before them. -/
theorem readBlob_tagged (bytes : List UInt8) (h : r.head? ≠ some '\'') :
    readBlob d (("X'" ++ Value.hex bytes ++ "'").toList ++ r) = some (bytes, r) := by
  have spelled : ("X'" ++ Value.hex bytes ++ "'").toList ++ r
      = 'X' :: [] ++ ('\'' :: (Text.doubling '\'' (Value.hex bytes).toList ++ ['\'']) ++ r) := by
    simp [Lexer.doubling_of_not_mem (Lexer.quote_not_mem_hex bytes)]
  rw [spelled, readBlob, read_word (by decide) (by decide) rfl]
  simp only [read_quotedText h, bytes?_hex, Option.map_some]

/-- A blob that is the cast of a text. -/
theorem readBlob_typed (bytes : List UInt8) (h : r.head?.any Text.isPlainWordChar = false) :
    readBlob d (("'\\x" ++ Value.hex bytes ++ "'::bytea").toList ++ r) = some (bytes, r) := by
  have hq : '\'' ∉ '\\' :: 'x' :: (Value.hex bytes).toList := by
    simpa using Lexer.quote_not_mem_hex bytes
  have spelled : ("'\\x" ++ Value.hex bytes ++ "'::bytea").toList ++ r
      = '\'' :: (Text.doubling '\'' ('\\' :: 'x' :: (Value.hex bytes).toList) ++ ['\''])
        ++ (':' :: ':' :: ('b' :: ['y', 't', 'e', 'a'] ++ r)) := by
    simp [Lexer.doubling_of_not_mem hq]
  rw [spelled, readBlob, read_quotedText (by simp)]
  simp only [read_word (d := d) (by decide : (Text.isAsciiLetter 'b' || 'b' == '_') = true)
    (by decide : ['y', 't', 'e', 'a'].all Text.isPlainWordChar = true) h, bytes?_hex, Option.map_some]

theorem readBlob_literal (bytes : List UInt8) (hq : r.head? ≠ some '\'')
    (hw : r.head?.any Text.isPlainWordChar = false) :
    readBlob d (((Value.blob bytes).literal d).toList ++ r) = some (bytes, r) := by
  rw [Value.literal]
  unfold Value.blobLiteral
  split
  · exact readBlob_typed bytes hw
  · exact readBlob_typed bytes hw
  · exact readBlob_tagged bytes hq

/-- A name that is quoted where it has to be is read as that name. It stands plainly only if it is not reserved. -/
theorem read_name {s : Settings} {n : String} (hs : s.quotedNames ≠ .never) (hn : n ≠ "")
    (hq : r.head? ≠ some d.identifierQuote) (hw : r.head?.any Text.isPlainWordChar = false) :
    ∃ isQuoted, read .none d (((Piece.name n).spell d s).toList ++ r) = some (.name isQuoted n.toList, r)
      ∧ (isQuoted = false → s.quotedNames = .asNeeded ∧ Text.isAnyOf reservedWords n = false) := by
  have full : n.toList ≠ [] := fun he => hn (String.toList_eq_nil_iff.1 he)
  have quoted : read .none d ((d.quoteIdentifier n).toList ++ r) = some (.name true n.toList, r) := by
    rw [Dialect.quoteIdentifier, Text.toList_quoted]
    exact read_quotedName full hq
  have spelled : (Piece.name n).spell d s = spellName d s n := rfl
  rw [spelled]
  unfold spellName
  split
  · exact ⟨true, quoted, fun plain => absurd plain (by decide)⟩
  · next hnever => exact absurd hnever hs
  · next hneeded =>
    split
    · exact ⟨true, quoted, fun plain => absurd plain (by decide)⟩
    · next plain =>
      obtain ⟨hp, hr⟩ : isPlainName n = true ∧ Text.isAnyOf reservedWords n = false := by
        simpa [needsQuoting] using plain
      refine ⟨false, ?_, fun _ => ⟨hneeded, hr⟩⟩
      unfold isPlainName at hp
      split at hp
      · cases hp
      · next c cs hc =>
        obtain ⟨hfirst, hrest⟩ := Bool.and_eq_true_iff.1 hp
        rw [hc]
        exact read_word hfirst hrest hw

/-- What is spelled is read back as one lexeme, and what follows it is left: a text, a blob, and a name under every
setting by which names are quoted. -/
theorem spellings_read_back (d : Dialect) (r : List Char) :
    (∀ s : String, r.head? ≠ some '\'' →
        read .none d (((Value.text s).literal d).toList ++ r) = some (.text s.toList, r))
      ∧ (∀ bytes : List UInt8, r.head? ≠ some '\'' → r.head?.any Text.isPlainWordChar = false →
        readBlob d (((Value.blob bytes).literal d).toList ++ r) = some (bytes, r))
      ∧ ∀ (s : Settings) (n : String), s.quotedNames ≠ .never → n ≠ "" → r.head? ≠ some d.identifierQuote →
        r.head?.any Text.isPlainWordChar = false →
        ∃ isQuoted, read .none d (((Piece.name n).spell d s).toList ++ r) = some (.name isQuoted n.toList, r)
          ∧ (isQuoted = false → s.quotedNames = .asNeeded ∧ Text.isAnyOf reservedWords n = false) := by
  refine ⟨?_, ?_, ?_⟩
  · intro s h
    rw [Value.literal, Text.toList_quoted]
    exact read_quotedText h
  · intro bytes hq hw
    exact readBlob_literal bytes hq hw
  · intro s n hs hn hq hw
    exact read_name hs hn hq hw

/-- Before a parenthesis: a text with quotes at both ends, bytes, and a name with the quote of names in it. -/
theorem spellings_read_back_before_parenthesis :
    read .none .mySql8 (((Value.text "'it''s'").literal .mySql8).toList ++ [')'])
        = some (.text "'it''s'".toList, [')'])
      ∧ readBlob .mySql8 (((Value.blob [0, 39, 255]).literal .mySql8).toList ++ [')']) = some ([0, 39, 255], [')'])
      ∧ ∃ isQuoted, read .none .mySql8 (((Piece.name "a\x60b").spell .mySql8 .default).toList ++ [')'])
          = some (.name isQuoted "a\x60b".toList, [')'])
        ∧ (isQuoted = false →
          Settings.default.quotedNames = .asNeeded ∧ Text.isAnyOf reservedWords "a\x60b" = false) := by
  obtain ⟨text, blob, name⟩ := spellings_read_back .mySql8 [')']
  refine ⟨text "'it''s'" (by decide), blob [0, 39, 255] (by decide) (by decide), ?_⟩
  exact name .default "a\x60b" (by decide) (by decide) (by decide) (by decide)

end Lexeme

end SqlDialects
