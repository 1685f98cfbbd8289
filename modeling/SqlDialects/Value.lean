import SqlDialects.Decimal.Shortest
import SqlDialects.Dialect.Capability
import SqlDialects.SqlType

/-!
# Values and their literals

A value reaches the output either as a bind or, through `Value.literal`, as a literal of the dialect.
Literals are closed by construction: a text's quotes are doubled, and a blob is written in hexadecimal.
-/

set_option autoImplicit false

namespace SqlDialects

/-- A value that can be bound or written as a literal. -/
inductive Value where
  | null
  | bool (b : Bool)
  | int (n : Int)
  | float (x : Decimal.Binary64)
  | text (s : String)
  | blob (bytes : List UInt8)
  deriving Inhabited

namespace Value

/-- Equality of values, as numbers for floats: a NaN differs from itself. -/
protected def beq : Value → Value → Bool
  | null, null => true
  | bool a, bool b => a == b
  | int a, int b => a == b
  | float a, float b => a == b
  | text a, text b => a == b
  | blob a, blob b => a == b
  | _, _ => false

instance : BEq Value := ⟨Value.beq⟩

/-- A hexadecimal digit, upper case. -/
def hexDigit (n : Nat) : Char :=
  if n < 10 then Char.ofNat (n + 48) else Char.ofNat (n + 55)

/-- Bytes in hexadecimal, two upper-case digits each. -/
def hex (bytes : List UInt8) : String :=
  String.ofList (bytes.flatMap (fun b => [hexDigit (b.toNat / 16), hexDigit (b.toNat % 16)]))

def boolLiteral (d : Dialect) (b : Bool) : String :=
  match Capability.booleanLiteral d with
  | .numeric => if b then "1" else "0"
  | .keyword => if b then "TRUE" else "FALSE"

def blobLiteral (d : Dialect) (bytes : List UInt8) : String :=
  match d.family with
  | .postgres | .yugabyteDb => "'\\x" ++ hex bytes ++ "'::bytea"
  | _ => "X'" ++ hex bytes ++ "'"

/-- The literal of a value. -/
def literal (d : Dialect) : Value → String
  | null => "NULL"
  | bool b => boolLiteral d b
  | int n => Decimal.integer n
  | float x => x.text
  | text s => Text.quoted '\'' s
  | blob bytes => blobLiteral d bytes

def isNull : Value → Bool
  | null => true
  | _ => false

/-- The type that comes with a value. -/
def type : Value → SqlType
  | null => .other
  | bool _ => .boolean
  | int _ => .bigInt
  | float _ => .double
  | text _ => .varchar none
  | blob _ => .blob

/-- An optional value, the missing one being null. -/
def ofOption : Option Value → Value
  | none => null
  | some v => v

end Value

end SqlDialects
