import SqlDialects.Proofs.Grammar.Writing

/-!
# What conditions and their texts mean

A condition has a truth value once its operands have values, and so has an expression that a text is read as.
Both are given here over one interpretation, in the logic of three values: whatever the values are and however
they are compared, the connectives mean the same.

An operand stands for the expression that it is written as (`Field.expression`), and a subquery for its text. What
an interpretation may not choose is that one equals itself and not zero, with which the empty conjunction and
disjunction are written, and what a number means as a truth value where truth values are numbers.
-/

set_option autoImplicit false

namespace SqlDialects

/-- The truth values of the database. -/
inductive Truth where
  | true
  | false
  | unknown
  deriving DecidableEq

namespace Truth

def ofBool (b : Bool) : Truth := if b then true else false

def not : Truth → Truth
  | true => false
  | false => true
  | unknown => unknown

def and : Truth → Truth → Truth
  | false, _ | _, false => false
  | true, t | t, true => t
  | unknown, unknown => unknown

def or : Truth → Truth → Truth
  | true, _ | _, true => true
  | false, t | t, false => t
  | unknown, unknown => unknown

def xor : Truth → Truth → Truth
  | unknown, _ | _, unknown => unknown
  | true, t => t.not
  | false, t => t

/-- The negation of a negated test. -/
def negatedIf (negated : Bool) (t : Truth) : Truth := if negated then t.not else t

theorem and_assoc (a b c : Truth) : (a.and b).and c = a.and (b.and c) := by
  cases a <;> cases b <;> cases c <;> rfl

theorem or_assoc (a b c : Truth) : (a.or b).or c = a.or (b.or c) := by
  cases a <;> cases b <;> cases c <;> rfl

@[simp] theorem and_true (a : Truth) : a.and true = a := by
  cases a <;> rfl

@[simp] theorem or_false (a : Truth) : a.or false = a := by
  cases a <;> rfl

end Truth

namespace Expression

def one : Expression := .atom (.number "1")

def zero : Expression := .atom (.number "0")

end Expression

/-- What operands mean, and how their values are tested. -/
structure Interpretation (d : Dialect) (V : Type) where
  value : Expression → V
  compare : ComparisonOp → V → V → Truth
  isNull : V → Bool
  /-- The truth of a value that is used as a condition. -/
  holds : V → Truth
  /-- Whether a subquery, given by its tokens, has rows. -/
  rows : List Token → Bool
  one_eq_one : compare .eq (value .one) (value .one) = .true
  one_ne_zero : compare .eq (value .one) (value .zero) = .false
  numeric : Capability.booleanLiteral d = .numeric → ∀ v, compare .eq v (value .one) = holds v

namespace Interpretation

variable {d : Dialect} {V : Type} (I : Interpretation d V)

def nullTest (v : V) (negated : Bool) : Truth := (Truth.ofBool (I.isNull v)).negatedIf negated

def between (v low high : V) (negated : Bool) : Truth :=
  ((I.compare .gtEq v low).and (I.compare .ltEq v high)).negatedIf negated

/-- Whether a value is one of a list. -/
def member (v : V) (vs : List V) (negated : Bool) : Truth :=
  (vs.foldr (fun w t => (I.compare .eq v w).or t) .false).negatedIf negated

end Interpretation

/-- The truth of an expression. Groups that are compared for inequality are conditions of which one holds. -/
def Expression.truth {d : Dialect} {V : Type} (I : Interpretation d V) : Expression → Truth
  | group [x] => x.truth I
  | unary .not x => (x.truth I).not
  | binary .and l r => (l.truth I).and (r.truth I)
  | binary .or l r => (l.truth I).or (r.truth I)
  | binary .xor l r => (l.truth I).xor (r.truth I)
  | binary (.compare .notEq) (group [l]) (group [r]) => (l.truth I).xor (r.truth I)
  | binary (.compare op) l r => I.compare op (I.value l) (I.value r)
  | binary (.member negated) x (group xs) => I.member (I.value x) (xs.map I.value) negated
  | nullTest x negated => I.nullTest (I.value x) negated
  | range x low high negated => I.between (I.value x) (I.value low) (I.value high) negated
  | existence ts => .ofBool (I.rows (.symbol "(" :: ts ++ [.symbol ")"]))
  | x => I.holds (I.value x)

/-- The expression that a column or a value is written as. Other fields are no operands. -/
def Field.expression (d : Dialect) (s : Settings) : Field → Expression
  | column c => c.expression s
  | value v => v.placed d s
  | inline l => l.value.expression d
  | _ => .group []

/-- The tokens of a subquery. -/
def Select.tokens (d : Dialect) (s : Settings) (q : Select) : List Token :=
  match (Node.field (.subquery q)).render d s with
  | .ok r => (r.tokens? d).getD []
  | .error _ => []

def Connective.join : Connective → Truth → Truth → Truth
  | and => .and
  | or => .or

/-- The truth of the connective over no conditions. -/
def Connective.unit : Connective → Truth
  | and => .true
  | or => .false

mutual

/-- The truth of a condition over columns and values. The absent condition is true. -/
def Condition.truth {d : Dialect} {V : Type} (I : Interpretation d V) (s : Settings) : Condition → Truth
  | none => .true
  | compare op l r => I.compare op (I.value (l.expression d s)) (I.value (r.expression d s))
  | isNull x negated => I.nullTest (I.value (x.expression d s)) negated
  | between x low high negated =>
    I.between (I.value (x.expression d s)) (I.value (low.expression d s)) (I.value (high.expression d s)) negated
  | inList x xs negated => I.member (I.value (x.expression d s)) (xs.map fun y => I.value (y.expression d s)) negated
  | existence q negated => (Truth.ofBool (I.rows (q.tokens d s))).negatedIf negated
  | combined op cs => Condition.truths I s op cs
  | xor l r => (l.truth I s).xor (r.truth I s)
  | not c => (c.truth I s).not
  | field x => I.holds (I.value (x.expression d s))
  | selectIsNull _ _ | xmlExists _ _ _ | raw _ => .unknown

/-- The truth of conditions under a connective. -/
def Condition.truths {d : Dialect} {V : Type} (I : Interpretation d V) (s : Settings) (op : Connective) :
    List Condition → Truth
  | [] => op.unit
  | c :: cs => op.join (c.truth I s) (Condition.truths I s op cs)

end

end SqlDialects
