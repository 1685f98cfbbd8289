import SqlDialects.Proofs.Grammar.Token
import SqlDialects.Render.Operator

/-!
# Expressions and how they are read

The syntax of fields and conditions as a database reads it. An `Expression` is a tree of tokens, parentheses
included; a `Grammar` says how tightly the operators bind, and all of them associate to the left. A tree that
can be written down without further parentheses is `WellFormed`.

The reader is a machine that looks at one token after the other. It stands before an operand or behind one,
and what is open around it lies on a stack: operators that wait for their right operand, parentheses that wait
for their end. An operator behind an operand first completes whatever binds at least as tightly (`reduce`).
The `AND` of a `BETWEEN` is told from the connective by what is then on the top of the stack.
-/

set_option autoImplicit false

namespace SqlDialects

inductive Unary where
  | minus
  | complement
  | not
  deriving DecidableEq

inductive Binary where
  | or
  | and
  | xor
  | compare (op : ComparisonOp)
  | member (negated : Bool)
  | arithmetic (op : ArithmeticOp)
  /-- The cast that is written as an operator. -/
  | typed
  /-- A name of something in something named. -/
  | qualified
  deriving DecidableEq

/-- An expression as it is written. -/
inductive Expression where
  | atom (token : Token)
  /-- Expressions in parentheses. One in parentheses stands for itself. -/
  | group (items : List Expression)
  | call (function : String) (args : List Expression)
  | unary (op : Unary) (operand : Expression)
  | binary (op : Binary) (left right : Expression)
  | nullTest (operand : Expression) (negated : Bool)
  | range (operand low high : Expression) (negated : Bool)
  /-- The test of a subquery for rows, with the tokens of the subquery. -/
  | existence (subquery : List Token)

/-- What differs between the languages of expressions. -/
structure Grammar where
  /-- How tightly the arithmetic operators bind among each other. -/
  precedence : ArithmeticOp → Nat
  precedence_lt : ∀ op, precedence op < 80
  /-- Whether there are keywords, and with them conditions. Without them every word is a name. -/
  conditions : Bool
  /-- Whether there is an exclusive or that is written as an operator of its own. -/
  exclusiveOr : Bool

/-- The language of arithmetic, with the precedence that the writer goes by. Every word is a name in it. -/
def Grammar.arithmetic : Grammar where
  precedence := ArithmeticOp.precedence
  precedence_lt := by
    intro op
    cases op <;> decide
  conditions := false
  exclusiveOr := false

/-- The language of conditions. The exclusive or is an operator of it where the dialect has one. -/
def Grammar.logic (d : Dialect) : Grammar :=
  { Grammar.arithmetic with conditions := true, exclusiveOr := decide (Capability.xor d = .native) }

/-! ## Tokens -/

def Token.isKeyword (keyword : String) : Token → Bool
  | word w => Text.sameIgnoringCase keyword w
  | _ => false

namespace ArithmeticOp

/-- The operator as it is written where it is not a function. -/
def symbol : ArithmeticOp → String
  | add => "+"
  | sub => "-"
  | mul => "*"
  | div => "/"
  | mod => "%"
  | concat => "||"
  | bitAnd => "&"
  | bitOr => "|"

end ArithmeticOp

namespace Unary

def token : Unary → Token
  | minus => .symbol "-"
  | complement => .symbol "~"
  | not => .word "NOT"

/-- How tightly an operator before its operand binds. -/
def level : Unary → Nat
  | minus | complement => 100
  | not => 4

end Unary

namespace ComparisonOp

def tokens : ComparisonOp → List Token
  | like => [.word "LIKE"]
  | notLike => [.word "NOT", .word "LIKE"]
  | op => [.symbol op.symbol]

end ComparisonOp

namespace Binary

def tokens : Binary → List Token
  | or => [.word "OR"]
  | and => [.word "AND"]
  | xor => [.word "XOR"]
  | compare op => op.tokens
  | member negated => if negated then [.word "NOT", .word "IN"] else [.word "IN"]
  | arithmetic op => [.symbol op.symbol]
  | typed => [.symbol "::"]
  | qualified => [.symbol "."]

/-- The operator of a symbol. -/
def ofSymbol? : String → Option Binary
  | "+" => some (arithmetic .add)
  | "-" => some (arithmetic .sub)
  | "*" => some (arithmetic .mul)
  | "/" => some (arithmetic .div)
  | "%" => some (arithmetic .mod)
  | "||" => some (arithmetic .concat)
  | "&" => some (arithmetic .bitAnd)
  | "|" => some (arithmetic .bitOr)
  | "=" => some (compare .eq)
  | "<>" => some (compare .notEq)
  | "<" => some (compare .lt)
  | "<=" => some (compare .ltEq)
  | ">" => some (compare .gt)
  | ">=" => some (compare .gtEq)
  | "::" => some typed
  | "." => some qualified
  | _ => none

end Binary

namespace Grammar

/-- How tightly an operator between two operands binds. -/
def level (g : Grammar) : Binary → Nat
  | .or => 1
  | .xor => 2
  | .and => 3
  | .compare _ | .member _ => 5
  | .arithmetic op => 10 + g.precedence op
  | .typed | .qualified => 200

theorem level_arithmetic_lt (g : Grammar) (op : ArithmeticOp) : g.level (.arithmetic op) < 100 := by
  have low := g.precedence_lt op
  simp only [level]
  omega

/-- What a token begins where an operand is expected. -/
inductive Opening where
  | group
  | noArgument
  | operator (op : Unary)
  | existence
  | atom

def opening? (g : Grammar) : Token → Option Opening
  | .symbol "(" => some .group
  | .symbol ")" => some .noArgument
  | .symbol "-" => some (.operator .minus)
  | .symbol "~" => some (.operator .complement)
  | .symbol _ | .comment | .stray _ => none
  | t =>
    if g.conditions && t.isKeyword "NOT" then some (.operator .not)
    else if g.conditions && t.isKeyword "EXISTS" then some .existence
    else some .atom

/-- What a token does behind an operand. -/
inductive Joint where
  | close
  | comma
  /-- The first word of a negated predicate. -/
  | negation
  | nullTest
  | range
  | operator (op : Binary)

def joint? (g : Grammar) : Token → Option Joint
  | .symbol ")" => some .close
  | .symbol "," => some .comma
  | .symbol s => (Binary.ofSymbol? s).map .operator
  | t =>
    if !g.conditions then none
    else if t.isKeyword "OR" then some (.operator .or)
    else if t.isKeyword "AND" then some (.operator .and)
    else if t.isKeyword "XOR" then if g.exclusiveOr then some (.operator .xor) else none
    else if t.isKeyword "NOT" then some .negation
    else if t.isKeyword "IS" then some .nullTest
    else if t.isKeyword "BETWEEN" then some .range
    else if t.isKeyword "IN" then some (.operator (.member false))
    else if t.isKeyword "LIKE" then some (.operator (.compare .like))
    else none

/-- How tightly what comes behind an operand binds to it. -/
def jointLevel (g : Grammar) : Joint → Nat
  | .close | .comma => 0
  | .negation | .nullTest | .range => 5
  | .operator op => g.level op

end Grammar

/-! ## Trees -/

namespace Expression

/-- The expression of items in parentheses, the arguments of a function if there is one before them. -/
def enclosed (function : Option String) (items : List Expression) : Expression :=
  match function with
  | some f => call f items
  | none => group items

/-- How tightly an expression holds together. -/
def level (g : Grammar) : Expression → Nat
  | atom _ | group _ | call _ _ | existence _ => 300
  | unary op _ => op.level
  | binary op _ _ => g.level op
  | nullTest _ _ | range _ _ _ _ => 5

mutual

def tokens : Expression → List Token
  | atom t => [t]
  | group items => .symbol "(" :: itemTokens items
  | call f args => .word f :: .symbol "(" :: itemTokens args
  | unary op x => op.token :: x.tokens
  | binary op l r => l.tokens ++ op.tokens ++ r.tokens
  | nullTest x negated => x.tokens ++ if negated then [.word "IS", .word "NOT", .word "NULL"] else [.word "IS", .word "NULL"]
  | range x low high negated =>
    x.tokens ++ (if negated then [.word "NOT", .word "BETWEEN"] else [.word "BETWEEN"])
      ++ low.tokens ++ [.word "AND"] ++ high.tokens
  | existence ts => .word "EXISTS" :: .symbol "(" :: ts ++ [.symbol ")"]

/-- The tokens of items with commas between them, up to the parenthesis that closes them. -/
def itemTokens : List Expression → List Token
  | [] => [.symbol ")"]
  | [x] => x.tokens ++ [.symbol ")"]
  | x :: xs => x.tokens ++ .symbol "," :: itemTokens xs

end

end Expression

/-- Whether parentheses close what they open, so many being open already. -/
def Token.balanced : Nat → List Token → Bool
  | depth, [] => depth == 0
  | depth, .symbol "(" :: ts => balanced (depth + 1) ts
  | 0, .symbol ")" :: _ => false
  | depth + 1, .symbol ")" :: ts => balanced depth ts
  | depth, _ :: ts => balanced depth ts

/-- The trees that can be written down without further parentheses. -/
inductive Expression.WellFormed (g : Grammar) : Expression → Prop where
  | atom {t : Token} (h : g.opening? t = some .atom) : WellFormed g (atom t)
  | group {items : List Expression} (hn : items ≠ []) (h : ∀ x ∈ items, WellFormed g x) :
      WellFormed g (group items)
  | call {f : String} {args : List Expression} (hf : g.opening? (.word f) = some .atom)
      (h : ∀ x ∈ args, WellFormed g x) : WellFormed g (call f args)
  | unary {op : Unary} {x : Expression} (ho : g.opening? op.token = some (.operator op))
      (h : WellFormed g x) (hx : op.level ≤ x.level g) : WellFormed g (unary op x)
  | binary {op : Binary} {l r : Expression} (ho : op = .xor → g.exclusiveOr = true)
      (hc : g.level op < 10 → g.conditions = true)
      (hl : WellFormed g l) (hr : WellFormed g r) (left : g.level op ≤ l.level g)
      (right : g.level op < r.level g) : WellFormed g (binary op l r)
  | nullTest {x : Expression} {negated : Bool} (hc : g.conditions = true) (h : WellFormed g x)
      (hx : 5 ≤ x.level g) : WellFormed g (nullTest x negated)
  | range {x low high : Expression} {negated : Bool} (hc : g.conditions = true) (h : WellFormed g x)
      (hl : WellFormed g low) (hh : WellFormed g high) (hx : 5 ≤ x.level g) (hlow : 5 < low.level g)
      (hhigh : 5 < high.level g) : WellFormed g (range x low high negated)
  | existence {ts : List Token} (hc : g.conditions = true) (h : Token.balanced 0 ts = true) :
      WellFormed g (existence ts)

/-- Without conditions, only the operators between operands bind less tightly than a sign. -/
theorem Expression.exists_operator {g : Grammar} {e : Expression} (hc : g.conditions = false) (h : e.WellFormed g)
    (loose : e.level g < 100) : ∃ op x y, e = binary (.arithmetic op) x y := by
  cases h with
  | atom h | group hn h | call hf h => exact absurd loose (show ¬ 300 < 100 by decide)
  | @unary op x ho h hx =>
    cases op with
    | minus | complement => exact absurd loose (Nat.lt_irrefl 100)
    | not => simp [Grammar.opening?, Unary.token, hc, Token.isKeyword] at ho
  | @binary op x y ho hcond hl hr left right =>
    cases op with
    | arithmetic op => exact ⟨op, x, y, rfl⟩
    | typed | qualified => exact absurd loose (show ¬ 200 < 100 by decide)
    | or | and | xor | compare | member => simp [Grammar.level, hc] at hcond
  | nullTest hcond h hx | range hcond h hl hh hx hlow hhigh | existence hcond h => simp [hc] at hcond

/-! ## Reading -/

/-- What is open around an expression that is being read. -/
inductive Frame where
  | unary (op : Unary)
  | binary (op : Binary) (left : Expression)
  /-- Behind `BETWEEN`. -/
  | low (operand : Expression) (negated : Bool)
  /-- Behind the `AND` of a `BETWEEN`. -/
  | high (operand low : Expression) (negated : Bool)
  /-- In parentheses, behind so many items. -/
  | items (function : Option String) (done : List Expression)

namespace Frame

/-- The tightest operator before which the frame is complete; none if only a parenthesis or a keyword can
complete it. -/
def level? (g : Grammar) : Frame → Option Nat
  | unary op => some (op.level - 1)
  | binary op _ => some (g.level op)
  | high _ _ _ => some 5
  | low _ _ | items _ _ => none

/-- The expression that a frame becomes with its last operand. -/
def fill (x : Expression) : Frame → Expression
  | unary op => .unary op x
  | binary op l => .binary op l x
  | high y z negated => .range y z x negated
  | low _ _ | items _ _ => x

end Frame

inductive Reader where
  | operand (frames : List Frame)
  | operator (read : Expression) (frames : List Frame)
  /-- Behind the `NOT` of a negated predicate. -/
  | negated (read : Expression) (frames : List Frame)
  /-- Behind `IS` or `IS NOT`. -/
  | nullTest (read : Expression) (negated : Bool) (frames : List Frame)
  | existence (frames : List Frame)
  /-- In a subquery, at some depth of parentheses. -/
  | subquery (depth : Nat) (read : List Token) (frames : List Frame)

namespace Reader

/-- Completes the frames that bind at least as tightly as a level. -/
def reduce (g : Grammar) (k : Nat) (x : Expression) : List Frame → Expression × List Frame
  | [] => (x, [])
  | f :: fs =>
    match f.level? g with
    | some m => if k ≤ m then reduce g k (f.fill x) fs else (x, f :: fs)
    | none => (x, f :: fs)

/-- Reads what stands where an operand is expected. -/
def openStep (t : Token) (fs : List Frame) : Grammar.Opening → Option Reader
  | .group => some (operand (.items none [] :: fs))
  | .noArgument =>
    match fs with
    | .items (some f) [] :: fs => some (operator (.call f []) fs)
    | _ => none
  | .operator op => some (operand (.unary op :: fs))
  | .existence => some (existence fs)
  | .atom => some (operator (.atom t) fs)

/-- Reads what stands behind an operand that is complete. -/
def joinStep (x : Expression) (fs : List Frame) : Grammar.Joint → Option Reader
  | .close =>
    match fs with
    | .items f done :: fs => some (operator (.enclosed f (done ++ [x])) fs)
    | _ => none
  | .comma =>
    match fs with
    | .items f done :: fs => some (operand (.items f (done ++ [x]) :: fs))
    | _ => none
  | .negation => some (negated x fs)
  | .nullTest => some (nullTest x false fs)
  | .range => some (operand (.low x false :: fs))
  | .operator op =>
    match op, fs with
    | .and, .low y n :: fs => some (operand (.high y x n :: fs))
    | op, fs => some (operand (.binary op x :: fs))

/-- The function that a parenthesis behind an expression calls. -/
def function? : Expression → Option String
  | .atom (.word f) => some f
  | _ => none

def step (g : Grammar) (r : Reader) (t : Token) : Option Reader :=
  match r with
  | operand fs => (g.opening? t).bind (openStep t fs)
  | operator x fs =>
    if t = .symbol "(" then (function? x).map fun f => operand (.items (some f) [] :: fs)
    else
      (g.joint? t).bind fun j =>
        let (y, gs) := reduce g (g.jointLevel j) x fs
        joinStep y gs j
  | negated x fs =>
    if t.isKeyword "BETWEEN" then some (operand (.low x true :: fs))
    else if t.isKeyword "IN" then some (operand (.binary (.member true) x :: fs))
    else if t.isKeyword "LIKE" then some (operand (.binary (.compare .notLike) x :: fs))
    else none
  | nullTest x n fs =>
    if t.isKeyword "NOT" && !n then some (nullTest x true fs)
    else if t.isKeyword "NULL" then some (operator (.nullTest x n) fs)
    else none
  | existence fs => if t = .symbol "(" then some (subquery 0 [] fs) else none
  | subquery depth ts fs =>
    if t = .symbol "(" then some (subquery (depth + 1) (ts ++ [t]) fs)
    else if t = .symbol ")" then
      match depth with
      | 0 => some (operator (.existence ts) fs)
      | depth + 1 => some (subquery depth (ts ++ [t]) fs)
    else some (subquery depth (ts ++ [t]) fs)

/-- The expression that has been read, if nothing is left open. -/
def finish (g : Grammar) : Reader → Option Expression
  | operator x fs =>
    match reduce g 0 x fs with
    | (y, []) => some y
    | _ => none
  | _ => none

/-- Reads tokens to their end. -/
def run (g : Grammar) : Reader → List Token → Option Expression
  | r, [] => r.finish g
  | r, t :: ts => (r.step g t).bind fun r => run g r ts

end Reader

/-- The expression that tokens are read as. -/
def Expression.read (g : Grammar) (ts : List Token) : Option Expression :=
  Reader.run g (.operand []) ts

/-- The expression that a rendered text is read as. -/
def Rendered.expression? (r : Rendered) (d : Dialect) (g : Grammar) : Option Expression :=
  (r.tokens? d).bind (Expression.read g)

end SqlDialects
