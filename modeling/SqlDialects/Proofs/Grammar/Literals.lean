import SqlDialects.Proofs.Grammar.Expression
import SqlDialects.Proofs.Grammar.Lexing
import SqlDialects.Value

/-!
# Literals are read as expressions

What the literal of a value is read as. Most literals are one token. A negative number is the negation of
another one, and where a dialect has no literal for bytes they are a text with its type behind it.
-/

set_option autoImplicit false

namespace SqlDialects

/-- A token with a minus sign before it if it is negative. -/
def Expression.signed (negative : Bool) (t : Token) : Expression :=
  if negative then .unary .minus (.atom t) else .atom t

/-- The expression that the literal of a value is. -/
def Value.expression (d : Dialect) : Value → Expression
  | null => .atom (.word "NULL")
  | bool b =>
    match Capability.booleanLiteral d with
    | .numeric => .atom (.number (if b then "1" else "0"))
    | .keyword => .atom (.word (if b then "TRUE" else "FALSE"))
  | int n => .signed (decide (n < 0)) (.number (Decimal.digits n.natAbs))
  | float x =>
    if x.isNaN then .atom (.word "NaN")
    else .signed x.isNegative (if x.isFinite then .number x.magnitude else .word "inf")
  | text s => .atom (.text "" s)
  | blob bytes =>
    match d.family with
    | .postgres | .yugabyteDb => .binary .typed (.atom (.text "" ("\\x" ++ hex bytes))) (.atom (.word "bytea"))
    | _ => .atom (.text "X" (hex bytes))

/-! ## The characters of a number -/

namespace Decimal

open Lexer (isNumberChar)

theorem isNumberChar_of_digit {c : Char} (h : Text.isAsciiDigit c = true) : isNumberChar c = true := by
  simp [isNumberChar, Text.isPlainWordChar, h]

/-- What begins with a digit and goes on with what may stand in a number. -/
def IsNumber (cs : List Char) : Prop :=
  ∃ c rest, cs = c :: rest ∧ Text.isAsciiDigit c = true ∧ rest.all isNumberChar = true

theorem IsNumber.append {cs cs' : List Char} (h : IsNumber cs) (h' : cs'.all isNumberChar = true) :
    IsNumber (cs ++ cs') := by
  obtain ⟨c, rest, rfl, hc, hr⟩ := h
  exact ⟨c, rest ++ cs', rfl, hc, by rw [List.all_append, hr, h']; rfl⟩

theorem isNumber_of_digits {cs : List Char} (h : cs.all Text.isAsciiDigit = true) (hn : cs ≠ []) : IsNumber cs := by
  cases cs with
  | nil => exact absurd rfl hn
  | cons c cs =>
    rw [List.all_cons, Bool.and_eq_true, List.all_eq_true] at h
    refine ⟨c, cs, rfl, h.1, ?_⟩
    rw [List.all_eq_true]
    exact fun c hc => isNumberChar_of_digit (h.2 c hc)

theorem isNumber_toDigits (n : Nat) : IsNumber (Nat.toDigits 10 n) :=
  isNumber_of_digits (Text.all_digits n) Nat.toDigits_ne_nil

theorem isNumber_positional (n : Nat) (k : Int) : IsNumber (positional n k).toList := by
  have zeros : ∀ n, (List.replicate n '0').all Text.isAsciiDigit = true := by
    intro n
    rw [List.all_eq_true]
    intro c hc
    rw [List.eq_of_mem_replicate hc]
    decide
  have numbers : ∀ {cs : List Char}, cs.all Text.isAsciiDigit = true → cs.all isNumberChar = true := by
    intro cs h
    rw [List.all_eq_true] at h ⊢
    exact fun c hc => isNumberChar_of_digit (h c hc)
  cases k with
  | ofNat m =>
    simp only [positional, String.toList_ofList]
    exact (isNumber_toDigits n).append (numbers (zeros m))
  | negSucc m =>
    simp only [positional, String.toList_ofList]
    generalize hp : List.replicate (m + 1 + 1 - (Nat.toDigits 10 n).length) '0' ++ Nat.toDigits 10 n = padded
    have digits : padded.all Text.isAsciiDigit = true := by
      rw [← hp, List.all_append, zeros, Text.all_digits]
      rfl
    have long : m + 1 < padded.length := by
      rw [← hp, List.length_append, List.length_replicate]
      omega
    have part : ∀ {cs : List Char}, cs ⊆ padded → cs.all Text.isAsciiDigit = true := by
      intro cs h
      rw [List.all_eq_true] at digits ⊢
      exact fun c hc => digits c (h hc)
    refine IsNumber.append (isNumber_of_digits (part (List.take_subset _ _)) ?_) ?_
    · -- At least one digit stands before the point.
      intro hn
      have hl := congrArg List.length hn
      rw [List.length_take, List.length_nil] at hl
      omega
    · rw [List.all_cons, numbers (part (List.drop_subset _ _))]
      decide

theorem isNumber_magnitude (x : Binary64) : IsNumber x.magnitude.toList := by
  unfold Binary64.magnitude
  split
  · next n _ =>
    rw [String.toList_append]
    refine IsNumber.append ?_ (by decide)
    rw [digits, String.toList_ofList]
    exact isNumber_toDigits n
  · dsimp only
    generalize RoundingInterval.shortest _ = p
    obtain ⟨n, k⟩ := p
    exact isNumber_positional n k

end Decimal

/-! ## Literals -/

namespace Lexer

variable {d : Dialect}

theorem reads_digits {cs : List Char} (h : Decimal.IsNumber cs) : Reads d .sign .joint cs [.number (.ofList cs)] := by
  obtain ⟨c, rest, rfl, hc, hr⟩ := h
  exact reads_number hc hr

theorem reads_plain {w : String} (h : isPlainName w = true) : Reads d .gap .joint w.toList [.word w] :=
  (reads_word h).ofSign.toJoint

/-- A sign before what begins a token of its own. -/
theorem reads_signed {cs : List Char} {t : Token} (negative : Bool) (h : Reads d .sign .joint cs [t]) :
    Reads d .gap .joint ((if negative then "-" else "").toList ++ cs) (Expression.signed negative t).tokens := by
  cases negative
  · exact h.ofSign
  · exact reads_minus.append h

theorem quote_not_mem_hex (bytes : List UInt8) : '\'' ∉ (Value.hex bytes).toList := by
  have digit : ∀ n, n < 16 → Value.hexDigit n ≠ '\'' := by decide
  simp only [Value.hex, String.toList_ofList, List.mem_flatMap, List.mem_cons, List.not_mem_nil, or_false, not_exists,
    not_and, not_or]
  intro b _
  have hb := b.toNat_lt
  exact ⟨(digit _ (by omega)).symm, (digit _ (by omega)).symm⟩

theorem reads_integer (n : Int) :
    Reads d .gap .joint (Decimal.integer n).toList
      (Expression.signed (decide (n < 0)) (.number (Decimal.digits n.natAbs))).tokens := by
  have number : ∀ n, Reads d .sign .joint (Decimal.digits n).toList [.number (Decimal.digits n)] := by
    intro n
    rw [Decimal.digits, String.toList_ofList]
    exact reads_digits (Decimal.isNumber_toDigits n)
  cases n with
  | ofNat n => exact (number n).ofSign
  | negSucc n =>
    have negative : decide (Int.negSucc n < 0) = true := decide_eq_true (Int.negSucc_lt_zero n)
    rw [Decimal.integer, String.toList_append, negative]
    exact reads_signed true (number (n + 1))

theorem reads_float (x : Decimal.Binary64) :
    Reads d .gap .joint x.text.toList (Value.expression d (.float x)).tokens := by
  simp only [Decimal.Binary64.text, Value.expression]
  split
  · exact reads_plain (by decide)
  · rw [String.toList_append]
    refine reads_signed _ ?_
    split
    · have number := reads_digits (d := d) (Decimal.isNumber_magnitude x)
      rwa [String.ofList_toList] at number
    · exact (reads_word (by decide : isPlainName "inf" = true)).toJoint

theorem reads_blob (bytes : List UInt8) :
    Reads d .gap .joint (Value.blobLiteral d bytes).toList (Value.expression d (.blob bytes)).tokens := by
  have tagged : Reads d .gap .joint ("X'" ++ Value.hex bytes ++ "'").toList [.text "X" (Value.hex bytes)] := by
    have h := (reads_tagged (d := d) (quote_not_mem_hex bytes)).ofSign
    rw [String.ofList_toList] at h
    simpa using h
  have typed : Reads d .gap .joint ("'\\x" ++ Value.hex bytes ++ "'::bytea").toList
      [.text "" ("\\x" ++ Value.hex bytes), .symbol "::", .word "bytea"] := by
    have h := (reads_typed (d := d) ("\\x" ++ Value.hex bytes) (by decide : isPlainName "bytea" = true)).ofSign
    have hq : '\'' ∉ ("\\x" ++ Value.hex bytes).toList := by
      simpa using quote_not_mem_hex bytes
    rw [Text.quoted, String.toList_ofList, doubling_of_not_mem hq] at h
    simpa using h
  unfold Value.blobLiteral Value.expression
  cases d.family <;> first | exact tagged | exact typed

/-- The literal of a value is read as its expression. -/
theorem reads_literal (v : Value) : Reads d .gap .joint (v.literal d).toList (v.expression d).tokens := by
  cases v with
  | null => exact reads_plain (show isPlainName "NULL" = true by decide)
  | bool b =>
    simp only [Value.literal, Value.boolLiteral, Value.expression]
    cases Capability.booleanLiteral d with
    | numeric => cases b <;> exact (reads_number (by decide) (by decide)).ofSign
    | keyword => cases b <;> exact reads_plain (by decide)
  | int n => exact reads_integer n
  | float x => exact reads_float x
  | text s => exact (reads_text s).ofSign
  | blob bytes => exact reads_blob bytes

end Lexer

end SqlDialects
