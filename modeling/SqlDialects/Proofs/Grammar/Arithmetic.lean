import SqlDialects.Proofs.Grammar.Dashes
import SqlDialects.Proofs.Grammar.Reading
import SqlDialects.Proofs.Grammar.Writing
import SqlDialects.Query.Transform

/-!
# Arithmetic is read back as it was

The fields that are put together from columns, calls and arithmetic are written with as few parentheses as the
precedence of the operators allows. Their text, read under that same precedence, is the field again: where a
dialect has a function in place of an operator, the call of that function is read as the operator. The types of
columns are in no text, so they are left out of the comparison (`Field.untyped`).
-/

set_option autoImplicit false

namespace SqlDialects

/-! ## Fields of arithmetic -/

/-- Whether an operation is written between or before its operands. -/
def Capability.Operation.isOperator : Capability.Operation → Bool
  | operator _ => true
  | function _ | unsupported => false

/-- Whether a function is what a dialect has in place of an operator. -/
def Dialect.Substitutes (d : Dialect) (f : String) : Prop :=
  (∃ op : ArithmeticOp, op.operation d = .function f) ∨ Capability.bitNot d = .function f

/-- The fields that are put together from columns and calls with plain names by the arithmetic operators. -/
inductive Field.Arithmetic (d : Dialect) : Field → Prop where
  | column {c : ColumnRef} (hn : isPlainName c.name = true) (ht : ∀ t ∈ c.table, isPlainName t = true) :
      Arithmetic d (column c)
  | call {f : String} {xs : List Field} (hf : isPlainName f = true) (hs : ¬ d.Substitutes f)
      (h : ∀ x ∈ xs, Arithmetic d x) : Arithmetic d (call f xs)
  | neg {x : Field} (h : Arithmetic d x) : Arithmetic d (neg x)
  | bitNot {x : Field} (h : Arithmetic d x) : Arithmetic d (bitNot x)
  | arithmetic {op : ArithmeticOp} {l r : Field} (hl : Arithmetic d l) (hr : Arithmetic d r) :
      Arithmetic d (arithmetic op l r)

/-- A field without the types of its columns. -/
def Field.untyped (x : Field) : Field :=
  Id.run (x.transform fun
    | .column c => pure (.column { c with type := .other })
    | f => pure f)

section

variable (f : String) (op : ArithmeticOp) (x y : Field) (xs : List Field)

@[simp] theorem Field.untyped_column (c : ColumnRef) :
    (Field.column c).untyped = .column { c with type := .other } := by
  simp [untyped, transform]

@[simp] theorem Field.untyped_neg : (Field.neg x).untyped = .neg x.untyped := by
  simp [untyped, transform]

@[simp] theorem Field.untyped_bitNot : (Field.bitNot x).untyped = .bitNot x.untyped := by
  simp [untyped, transform]

@[simp] theorem Field.untyped_arithmetic : (Field.arithmetic op x y).untyped = .arithmetic op x.untyped y.untyped := by
  simp [untyped, transform]

@[simp] theorem Field.untyped_call : (Field.call f xs).untyped = .call f (xs.map Field.untyped) := by
  have args : ∀ (step : Field → Id Field) (xs : List Field),
      Id.run (Field.transformAll step xs) = xs.map fun x => Id.run (x.transform step) := by
    intro step xs
    induction xs with
    | nil => rfl
    | cons x xs ih => simp [Field.transformAll, ih]
  simp [untyped, transform, args]

end

/-! ## Reading a field -/

namespace ArithmeticOp

def all : List ArithmeticOp := [add, sub, mul, div, mod, concat, bitAnd, bitOr]

theorem mem_all (op : ArithmeticOp) : op ∈ all := by
  cases op <;> decide

theorem precedence_le (op : ArithmeticOp) : op.precedence ≤ 9 := by
  cases op <;> decide

end ArithmeticOp

/-- The field that a call stands for. The functions that a dialect has in place of operators are these. -/
def Dialect.applied (d : Dialect) (f : String) (args : List Field) : Field :=
  match args with
  | [x] => if Capability.bitNot d = .function f then .bitNot x else .call f [x]
  | [x, y] =>
    match ArithmeticOp.all.find? fun op => op.operation d = .function f with
    | some op => .arithmetic op x y
    | none => .call f [x, y]
  | args => .call f args

/-- The name that a token is. -/
def Token.name? : Token → Option String
  | word w => some w
  | name n => some n
  | _ => none

namespace Expression

mutual

/-- The field that an expression is written for. Parentheses only group. -/
def field? (d : Dialect) : Expression → Option Field
  | atom t => t.name?.map fun n => .column ⟨none, n, .other⟩
  | group [x] => x.field? d
  | call f args => (fields? d args).map (d.applied f)
  | unary .minus x => (x.field? d).map .neg
  | unary .complement x => (x.field? d).map .bitNot
  | binary (.arithmetic op) l r => do return .arithmetic op (← l.field? d) (← r.field? d)
  | binary .qualified (atom t) (atom n) => do return .column ⟨some (← t.name?), ← n.name?, .other⟩
  | _ => none

def fields? (d : Dialect) : List Expression → Option (List Field)
  | [] => some []
  | x :: xs => do return (← x.field? d) :: (← fields? d xs)

end

end Expression

/-! ## What operators are written as -/

/-- An operator is written as itself, or as a call of a plain function that stands for no other operator. -/
theorem ArithmeticOp.operation_sound (op : ArithmeticOp) (d : Dialect) :
    match op.operation d with
    | .operator symbol => symbol = op.symbol
    | .function f => isPlainName f = true ∧ (all.find? fun op => op.operation d = .function f) = some op
    | .unsupported => True := by
  cases op <;> cases d <;> first | exact rfl | exact trivial | exact ⟨by decide, by decide⟩

theorem Capability.bitNot_sound (d : Dialect) :
    match bitNot d with
    | .operator symbol => symbol = "~"
    | .function f => isPlainName f = true
    | .unsupported => True := by
  cases d <;> first | exact rfl | exact trivial

theorem Dialect.Substitutes.plain {d : Dialect} {f : String} (h : d.Substitutes f) : isPlainName f = true := by
  rcases h with ⟨op, h⟩ | h
  · have sound := op.operation_sound d
    rw [h] at sound
    exact sound.1
  · have sound := Capability.bitNot_sound d
    rw [h] at sound
    exact sound

theorem ArithmeticOp.reads_symbol (op : ArithmeticOp) (d : Dialect) :
    Lexer.Reads d .gap .joint op.symbol.toList [.symbol op.symbol] := by
  cases op with
  | add | mul | div | mod | bitAnd => exact (Lexer.reads_single (by decide)).ofSign.toJoint
  | sub | bitOr => exact Lexer.reads_opening (by decide)
  | concat => exact (Lexer.reads_pair (by decide) (by decide)).toJoint

open Render in
/-- An operator between blanks, and what stands behind it. -/
theorem ArithmeticOp.writes_behind {d : Dialect} {s : Settings} {π : Place d s} {m : Render Unit} {ts : List Token}
    (op : ArithmeticOp) (h : Writes π .gap .joint m ts) :
    Writes π .joint .joint (do sql " "; sql op.symbol; sql " "; m) (.symbol op.symbol :: ts) := by
  have symbol : Writes π .gap .joint (sql op.symbol) [.symbol op.symbol] := .sql (op.reads_symbol d)
  exact Writes.blank.bind (symbol.bind (Writes.blank.bind h))

namespace Dialect

variable {d : Dialect} {f : String}

theorem applied_operator {op : ArithmeticOp} (h : op.operation d = .function f) (x y : Field) :
    d.applied f [x, y] = .arithmetic op x y := by
  have sound := op.operation_sound d
  rw [h] at sound
  rw [applied, sound.2]

theorem applied_bitNot (h : Capability.bitNot d = .function f) (x : Field) : d.applied f [x] = .bitNot x :=
  if_pos h

theorem applied_call (h : ¬ d.Substitutes f) (xs : List Field) : d.applied f xs = .call f xs := by
  have hb : Capability.bitNot d ≠ .function f := fun hb => h (.inr hb)
  have ho : (ArithmeticOp.all.find? fun op => op.operation d = .function f) = none := by
    rw [List.find?_eq_none]
    intro op _ ho
    exact h (.inl ⟨op, of_decide_eq_true ho⟩)
  unfold applied
  split
  · exact if_neg hb
  · rw [ho]
  · rfl

end Dialect

/-! ## Trees that denote a field -/

/-- An expression that is written without ambiguity, stands for the field and has no dashes but minus signs. -/
structure Expression.Denotes (d : Dialect) (e : Expression) (x : Field) : Prop where
  wellFormed : e.WellFormed .arithmetic
  field : e.field? d = some x.untyped
  dashless : ∀ t ∈ e.tokens, ¬ t.Dashed

namespace Expression.Denotes

variable {d : Dialect} {e l r : Expression} {x y : Field}

theorem group (h : e.Denotes d x) : (Expression.group [e]).Denotes d x where
  wellFormed := .group (by simp) (by simpa using h.wellFormed)
  field := h.field
  dashless := by
    intro t ht
    simp only [tokens, itemTokens, List.mem_cons, List.mem_append, List.not_mem_nil, or_false] at ht
    rcases ht with rfl | ht | rfl
    · exact id
    · exact h.dashless t ht
    · exact id

theorem neg (h : e.Denotes d x) (hl : 100 ≤ e.level .arithmetic) : (Expression.unary .minus e).Denotes d (.neg x) where
  wellFormed := .unary rfl h.wellFormed hl
  field := by simp [field?, h.field]
  dashless := by
    intro t ht
    rcases List.mem_cons.1 ht with rfl | ht
    · exact id
    · exact h.dashless t ht

theorem bitNot (h : e.Denotes d x) (hl : 100 ≤ e.level .arithmetic) :
    (Expression.unary .complement e).Denotes d (.bitNot x) where
  wellFormed := .unary rfl h.wellFormed hl
  field := by simp [field?, h.field]
  dashless := by
    intro t ht
    rcases List.mem_cons.1 ht with rfl | ht
    · exact id
    · exact h.dashless t ht

theorem arithmetic {op : ArithmeticOp} (hl : l.Denotes d x) (hr : r.Denotes d y)
    (left : 10 + op.precedence ≤ l.level .arithmetic) (right : 10 + op.precedence < r.level .arithmetic) :
    (Expression.binary (.arithmetic op) l r).Denotes d (.arithmetic op x y) where
  wellFormed := .binary (by rintro ⟨⟩) (fun h => absurd h (by simp [Grammar.level])) hl.wellFormed hr.wellFormed left right
  field := by simp [field?, hl.field, hr.field]
  dashless := by
    intro t ht
    simp only [tokens, Binary.tokens, List.mem_append, List.mem_singleton] at ht
    rcases ht with (ht | rfl) | ht
    · exact hl.dashless t ht
    · exact id
    · exact hr.dashless t ht

end Expression.Denotes

theorem Expression.fields?_of_denotes {d : Dialect} {xs : List Field} {es : List Expression}
    (h : List.Forall₂ (fun x e => e.Denotes d x) xs es) : fields? d es = some (xs.map Field.untyped) := by
  induction h with
  | nil => rfl
  | cons he _ ih => simp [fields?, he.field, ih]

/-- The tokens of a list are free of dashes if those of its items are. -/
theorem Expression.not_dashed_of_mem_items {es : List Expression} (h : ∀ e ∈ es, ∀ t ∈ e.tokens, ¬ t.Dashed) {t : Token}
    (ht : t ∈ itemTokens es) : ¬ t.Dashed := by
  induction es with
  | nil =>
    rw [List.mem_singleton.1 ht]
    exact id
  | cons e es ih =>
    have he := h e (by simp)
    have hes := ih fun e' he' => h e' (by simp [he'])
    cases es with
    | nil =>
      simp only [itemTokens, List.mem_append, List.mem_singleton] at ht
      rcases ht with ht | rfl
      · exact he t ht
      · exact id
    | cons e' es =>
      simp only [itemTokens, List.mem_append, List.mem_cons] at ht hes
      rcases ht with ht | rfl | ht
      · exact he t ht
      · exact id
      · exact hes ht

theorem not_dash_of_plain {f : String} (hf : isPlainName f = true) : '-' ∉ f.toList := by
  intro h
  unfold isPlainName at hf
  split at hf
  · cases hf
  · next c cs hcs =>
    rw [hcs] at h
    rw [Bool.and_eq_true, List.all_eq_true] at hf
    rcases List.mem_cons.1 h with rfl | h
    · exact absurd hf.1 (by decide)
    · exact absurd (hf.2 _ h) (by decide)

theorem Expression.denotes_of_mem {d : Dialect} {xs : List Field} {es : List Expression}
    (h : List.Forall₂ (fun x e => e.Denotes d x) xs es) {e : Expression} (he : e ∈ es) : ∃ x, e.Denotes d x := by
  induction h with
  | nil => cases he
  | cons hx _ ih =>
    rcases List.mem_cons.1 he with rfl | he
    · exact ⟨_, hx⟩
    · exact ih he

/-- A call stands for the call of its arguments, or for the operator that the function stands for. -/
theorem Expression.denotes_call {d : Dialect} {f : String} (hf : isPlainName f = true) {x : Field} {xs : List Field}
    {es : List Expression} (h : List.Forall₂ (fun x e => e.Denotes d x) xs es)
    (hx : d.applied f (xs.map Field.untyped) = x.untyped) : (Expression.call f es).Denotes d x where
  wellFormed := by
    refine .call rfl fun e he => ?_
    obtain ⟨x, hx⟩ := denotes_of_mem h he
    exact hx.wellFormed
  field := by simp [field?, fields?_of_denotes h, hx]
  dashless := by
    intro t ht
    have items : ∀ e ∈ es, ∀ t ∈ e.tokens, ¬ t.Dashed := by
      intro e he
      obtain ⟨x, hx⟩ := denotes_of_mem h he
      exact hx.dashless
    rcases List.mem_cons.1 ht with rfl | ht
    · exact not_dash_of_plain hf
    · rcases List.mem_cons.1 ht with rfl | ht
      · exact id
      · exact not_dashed_of_mem_items items ht

/-! ## Names -/

theorem ColumnRef.denotes {d : Dialect} {s : Settings} {c : ColumnRef} (hn : isPlainName c.name = true)
    (ht : ∀ t ∈ c.table, isPlainName t = true) : (c.expression s).Denotes d (.column c) := by
  have atom : ∀ n, Expression.WellFormed .arithmetic (.atom (s.nameToken n)) := by
    intro n
    rcases s.nameToken_cases n with h | h <;> rw [h] <;> exact .atom rfl
  have name : ∀ n, (s.nameToken n).name? = some n := by
    intro n
    rcases s.nameToken_cases n with h | h <;> rw [h] <;> rfl
  have dash : ∀ n, isPlainName n = true → ¬ (s.nameToken n).Dashed := by
    intro n hn
    rcases s.nameToken_cases n with h | h <;> rw [h] <;> exact not_dash_of_plain hn
  obtain ⟨table, n, type⟩ := c
  cases table with
  | none =>
    refine ⟨atom n, ?_, ?_⟩
    · simp [expression, Expression.field?, name]
    · intro t hm
      rw [List.mem_singleton.1 hm]
      exact dash n hn
  | some table =>
    refine ⟨.binary (by rintro ⟨⟩) (fun h => absurd h (by decide)) (atom table) (atom n)
      (show 200 ≤ 300 by decide) (show 200 < 300 by decide), ?_, ?_⟩
    · simp [expression, Expression.field?, name]
    · intro t hm
      simp only [expression, Expression.tokens, Binary.tokens, List.cons_append, List.nil_append, List.mem_cons,
        List.not_mem_nil, or_false] at hm
      rcases hm with rfl | rfl | rfl
      · exact dash table (ht table rfl)
      · exact id
      · exact dash n hn

/-! ## What a field is written as -/

namespace Field

/-- How tightly a field holds together as a dialect writes it, without parentheses around it. -/
def tightness (d : Dialect) : Field → Nat
  | arithmetic op _ _ => if (op.operation d).isOperator then 10 + op.precedence else 300
  | neg _ => 100
  | bitNot _ => if (Capability.bitNot d).isOperator then 100 else 300
  | _ => 200

theorem le_tightness (d : Dialect) {x : Field} (h : ∀ op l r, x ≠ arithmetic op l r) : 100 ≤ x.tightness d := by
  unfold tightness
  split
  · next op l r => exact absurd rfl (h op l r)
  · exact Nat.le_refl _
  · split <;> decide
  · decide

/-- What gets no parentheses as an operand holds together tightly enough. -/
theorem le_tightness_of_operand (d : Dialect) {x : Field} {op : ArithmeticOp} {onRight : Bool}
    (h : x.needsParentheses op onRight = false) :
    (if onRight then 11 + op.precedence else 10 + op.precedence) ≤ x.tightness d := by
  have low := op.precedence_le
  by_cases hx : ∃ op' l r, x = arithmetic op' l r
  · obtain ⟨op', l, r, rfl⟩ := hx
    have tight : 10 + op'.precedence ≤ (arithmetic op' l r).tightness d := by
      have low' := op'.precedence_le
      rw [tightness]
      split <;> omega
    cases onRight <;> simp [needsParentheses] at h <;> simp <;> omega
  · have ht : 100 ≤ x.tightness d := le_tightness d fun op' l r hx' => hx ⟨op', l, r, hx'⟩
    split <;> omega

/-- The edge that a field is written from: behind a minus sign, unless it begins with one. -/
def opening (d : Dialect) : Field → Lexer.Edge
  | neg _ => .gap
  | arithmetic op l _ =>
    if (op.operation d).isOperator && !l.needsParentheses op false then l.opening d else .sign
  | _ => .sign

theorem opening_cases (d : Dialect) (x : Field) : x.opening d = .gap ∨ x.opening d = .sign := by
  fun_induction opening d x with
  | case1 x => exact .inl rfl
  | case2 op l r h ih => exact ih
  | case3 op l r h => exact .inr rfl
  | case4 x h h' => exact .inr rfl

theorem writes_of_opening {d : Dialect} {s : Settings} {π : Render.Place d s} {b : Lexer.Edge} {m : Render Unit}
    {ts : List Token} (x : Field) (h : m.Writes π (x.opening d) b ts) : m.Writes π .gap b ts := by
  rcases x.opening_cases d with ho | ho <;> rw [ho] at h
  · exact h
  · exact h.ofSign

theorem opening_of_atomic (d : Dialect) {x : Field} (h : x.isAtomic = true) : x.opening d = .sign := by
  cases x <;> first | rfl | cases h

section

open Render

variable {d : Dialect} {s : Settings}

/-- The step writes the field, from an edge of some kind on and no less tightly than so. -/
def WrittenBy (π : Place d s) (x : Field) (a : Lexer.Edge) (k : Nat) (m : Render Unit) : Prop :=
  ∃ e : Expression, e.Denotes d x ∧ k ≤ e.level .arithmetic ∧ Writes π a .joint m e.tokens

/-- The step writes two fields with an operator between them. -/
def WrittenBetween (π : Place d s) (op : ArithmeticOp) (x y : Field) (a : Lexer.Edge) (m : Render Unit) : Prop :=
  ∃ l r : Expression, (Expression.binary (.arithmetic op) l r).Denotes d (arithmetic op x y) ∧
    Writes π a .joint m (Expression.binary (.arithmetic op) l r).tokens

variable {π : Place d s} {x y : Field} {a : Lexer.Edge} {k : Nat} {m m' : Render Unit}

namespace WrittenBy

theorem map {b : Lexer.Edge} (hw : ∀ ts, Writes π a .joint m ts → Writes π b .joint m' ts)
    (h : x.WrittenBy π a k m) : x.WrittenBy π b k m' := by
  obtain ⟨e, he, hk, h⟩ := h
  exact ⟨e, he, hk, hw _ h⟩

theorem loosen (h : x.WrittenBy π a k m) {k' : Nat} (hk : k' ≤ k) : x.WrittenBy π a k' m := by
  obtain ⟨e, he, hl, h⟩ := h
  exact ⟨e, he, Nat.le_trans hk hl, h⟩

theorem dialect {f : Dialect → Render Unit} (h : x.WrittenBy π a k (f d)) : x.WrittenBy π a k (Render.dialect >>= f) :=
  h.map fun _ => Writes.dialect

theorem ofJoint (h : x.WrittenBy π .joint k m) : x.WrittenBy π a k m := h.map fun _ => Writes.ofJoint

theorem ofSign (h : x.WrittenBy π .sign k m) : x.WrittenBy π .gap k m := h.map fun _ => Writes.ofSign

theorem ofOpening (h : x.WrittenBy π (x.opening d) k m) : x.WrittenBy π .gap k m :=
  h.map fun _ => x.writes_of_opening

/-- A field in parentheses may stand anywhere. -/
theorem parenthesized (h : x.WrittenBy π .gap k m) : x.WrittenBy π .joint 300 (Render.parenthesized m) := by
  obtain ⟨e, he, -, h⟩ := h
  exact ⟨.group [e], he.group, Nat.le_refl _, h.parenthesized.toJoint⟩

theorem minus (h : x.WrittenBy π .sign 100 m) : (neg x).WrittenBy π .gap 100 (do sql "-"; m) := by
  obtain ⟨e, he, hk, h⟩ := h
  have sign : Writes π .gap .sign (sql "-") [.symbol "-"] := .sql Lexer.reads_minus
  exact ⟨.unary .minus e, he.neg hk, Nat.le_refl _, sign.bind h⟩

theorem complement (h : x.WrittenBy π .gap 100 m) : (bitNot x).WrittenBy π .sign 100 (do sql "~"; m) := by
  obtain ⟨e, he, hk, h⟩ := h
  have sign : Writes π .sign .gap (sql "~") [.symbol "~"] := .sql (Lexer.reads_single (by decide))
  exact ⟨.unary .complement e, he.bitNot hk, Nat.le_refl _, sign.bind h⟩

theorem operator {op : ArithmeticOp} (hl : x.WrittenBy π a (10 + op.precedence) m)
    (hr : y.WrittenBy π .gap (11 + op.precedence) m') :
    WrittenBetween π op x y a (do m; sql " "; sql op.symbol; sql " "; m') := by
  obtain ⟨l, hl, left, hm⟩ := hl
  obtain ⟨r, hr, right, hm'⟩ := hr
  refine ⟨l, r, hl.arithmetic hr left (by omega), (hm.bind (op.writes_behind hm')).cast ?_⟩
  simp [Expression.tokens, Binary.tokens]

theorem ofBetween {op : ArithmeticOp} (h : WrittenBetween π op x y a m) :
    (arithmetic op x y).WrittenBy π a (10 + op.precedence) m := by
  obtain ⟨l, r, he, h⟩ := h
  exact ⟨_, he, Nat.le_refl _, h⟩

/-- What is refused is written as anything. -/
theorem unsupported {e : Expression} (hπ : π.mayFail) (he : e.Denotes d x) (construct : String) :
    x.WrittenBy π a 300 (Render.unsupported construct) :=
  ⟨.group [e], he.group, Nat.le_refl _, .unsupported hπ construct⟩

theorem call {f : String} {xs : List Field} (hf : isPlainName f = true)
    (h : ∀ y ∈ xs, y.WrittenBy π .gap 0 (Node.field y).write)
    (hx : d.applied f (xs.map untyped) = x.untyped) :
    x.WrittenBy π .sign 300 (Visitor.call Node.write f xs) := by
  have name : Writes π .sign .name (sql f) [.word f] := .sql (Lexer.reads_word hf)
  obtain ⟨es, ts, hes, ht, items⟩ := Writes.items (P := fun y e => e.Denotes d y) (f := fun y => (Node.field y).write)
    fun y hy => (h y hy).imp fun e he => ⟨he.1, he.2.2⟩
  refine ⟨.call f es, Expression.denotes_call hf hes hx, Nat.le_refl _, ?_⟩
  refine (name.bind (Writes.parenthesized items).ofJoint).toJoint.cast ?_
  show .word f :: .symbol "(" :: (ts ++ [.symbol ")"]) = _
  rw [ht]
  rfl

end WrittenBy

/-- The operand of an operator is written so that it binds tightly enough there. -/
theorem writtenBy_operand (op : ArithmeticOp) (onRight : Bool)
    (h : x.WrittenBy π (x.opening d) (x.tightness d) (Node.field x).write) :
    x.WrittenBy π (if x.needsParentheses op onRight then .sign else x.opening d)
      (if onRight then 11 + op.precedence else 10 + op.precedence) (Visitor.operand Node.write op onRight x) := by
  have low := op.precedence_le
  unfold Visitor.operand
  cases hn : x.needsParentheses op onRight with
  | true =>
    refine (WrittenBy.parenthesized h.ofOpening).ofJoint.loosen ?_
    split <;> omega
  | false => exact h.loosen (le_tightness_of_operand d hn)

theorem writtenBy_operand_of_gap (op : ArithmeticOp) (onRight : Bool)
    (h : x.WrittenBy π (x.opening d) (x.tightness d) (Node.field x).write) :
    x.WrittenBy π .gap (if onRight then 11 + op.precedence else 10 + op.precedence)
      (Visitor.operand Node.write op onRight x) := by
  have written := writtenBy_operand op onRight h
  cases hn : x.needsParentheses op onRight <;> rw [hn] at written
  · exact written.ofOpening
  · exact written.ofSign

/-- The operand of a sign stands in parentheses unless it is atomic. -/
theorem writtenBy_prefixed (h : x.WrittenBy π (x.opening d) (x.tightness d) (Node.field x).write) :
    x.WrittenBy π .sign 100
      (if x.isAtomic then (Node.field x).write else Render.parenthesized (Node.field x).write) := by
  cases ha : x.isAtomic with
  | true =>
    rw [opening_of_atomic d ha] at h
    refine h.loosen (le_tightness d ?_)
    rintro op l r rfl
    cases ha
  | false => exact (WrittenBy.parenthesized h.ofOpening).ofJoint.loosen (by decide)

theorem writtenBy_column {c : ColumnRef} (hn : isPlainName c.name = true) (ht : ∀ t ∈ c.table, isPlainName t = true) :
    (column c).WrittenBy π .sign 200 (Visitor.column c) := by
  refine ⟨c.expression s, ColumnRef.denotes hn ht, ?_, .column (fun _ => hn) fun t h _ => ht t h⟩
  unfold ColumnRef.expression
  split
  · exact (by decide : 200 ≤ 300)
  · exact Nat.le_refl _

/-- Where a dialect has the operator, it is written between its operands. -/
theorem writtenBetween_arithmetic {op : ArithmeticOp} {symbol : String} (ho : op.operation d = .operator symbol)
    (hx : x.WrittenBy π (x.opening d) (x.tightness d) (Node.field x).write)
    (hy : y.WrittenBy π (y.opening d) (y.tightness d) (Node.field y).write) :
    WrittenBetween π op x y ((arithmetic op x y).opening d) (Node.field (arithmetic op x y)).write := by
  have sound := op.operation_sound d
  rw [ho] at sound
  have edge : (arithmetic op x y).opening d = if x.needsParentheses op false then .sign else x.opening d := by
    rw [opening, ho]
    cases x.needsParentheses op false <;> rfl
  obtain ⟨l, r, he, h⟩ := (writtenBy_operand op false hx).operator (writtenBy_operand_of_gap op true hy)
  refine ⟨l, r, he, ?_⟩
  rw [Node.write_eq_parts]
  refine Writes.dialect ?_
  rw [ho, edge, show symbol = op.symbol from sound]
  exact h

theorem Arithmetic.writtenBy (hx : x.Arithmetic d) (hπ : π.mayFail) :
    x.WrittenBy π (x.opening d) (x.tightness d) (Node.field x).write := by
  induction hx with
  | column hn ht =>
    rw [Node.write_eq_parts]
    exact writtenBy_column hn ht
  | @call f xs hf hs _ ih =>
    rw [Node.write_eq_parts]
    have items : ∀ y ∈ xs, y.WrittenBy π .gap 0 (Node.field y).write := fun y hy =>
      (ih y hy).ofOpening.loosen (Nat.zero_le _)
    refine (WrittenBy.call hf items ?_).loosen (show 200 ≤ 300 by decide)
    rw [Dialect.applied_call hs, untyped_call]
  | neg _ ih =>
    rw [Node.write_eq_parts]
    exact (writtenBy_prefixed ih).minus
  | @bitNot x _ ih =>
    have sound := Capability.bitNot_sound d
    rw [Node.write_eq_parts, tightness]
    refine WrittenBy.dialect ?_
    cases hb : Capability.bitNot d with
    | operator symbol =>
      rw [hb] at sound
      rw [show symbol = "~" from sound]
      exact (writtenBy_prefixed ih).ofSign.complement
    | function f =>
      have args : ∀ y ∈ [x], y.WrittenBy π .gap 0 (Node.field y).write := by
        intro y hy
        rw [List.mem_singleton.1 hy]
        exact ih.ofOpening.loosen (Nat.zero_le _)
      refine WrittenBy.call (Dialect.Substitutes.plain (.inr hb)) args ?_
      rw [List.map_singleton, Dialect.applied_bitNot hb, untyped_bitNot]
    | unsupported =>
      obtain ⟨e, he, hk, -⟩ := writtenBy_prefixed ih
      exact WrittenBy.unsupported hπ (he.bitNot hk) _
  | @arithmetic op l r _ _ ihl ihr =>
    cases ho : op.operation d with
    | operator symbol =>
      rw [tightness, ho]
      exact WrittenBy.ofBetween (writtenBetween_arithmetic ho ihl ihr)
    | function f =>
      have args : ∀ y ∈ [l, r], y.WrittenBy π .gap 0 (Node.field y).write := by
        intro y hy
        rcases (by simpa using hy : y = l ∨ y = r) with rfl | rfl
        · exact ihl.ofOpening.loosen (Nat.zero_le _)
        · exact ihr.ofOpening.loosen (Nat.zero_le _)
      rw [tightness, opening, ho, Node.write_eq_parts]
      refine WrittenBy.dialect ?_
      rw [ho]
      refine WrittenBy.call (Dialect.Substitutes.plain (.inl ⟨op, ho⟩)) args ?_
      rw [List.map_cons, List.map_singleton, Dialect.applied_operator ho, untyped_arithmetic]
    | unsupported =>
      obtain ⟨e, he, left, -⟩ := writtenBy_operand op false ihl
      obtain ⟨e', he', right, -⟩ := writtenBy_operand op true ihr
      have tight : 11 + op.precedence ≤ e'.level .arithmetic := right
      rw [tightness, opening, ho, Node.write_eq_parts]
      refine WrittenBy.dialect ?_
      rw [ho]
      exact WrittenBy.unsupported hπ (he.arithmetic he' left (by omega)) _

end

/-- A field of arithmetic is read back from its rendered text as it was, and the text has no two dashes in a
row. -/
theorem Arithmetic.read_back {d : Dialect} {s : Settings} {x : Field} {r : Rendered} (hx : x.Arithmetic d)
    (h : (Node.field x).render d s = .ok r) :
    (∃ e, r.expression? d .arithmetic = some e ∧ e.field? d = some x.untyped) ∧ ¬ ['-', '-'] <:+: r.sql.toList := by
  obtain ⟨e, he, -, hw⟩ := (hx.writtenBy (π := .outside d s True) trivial).ofOpening
  have hts := hw.tokens? h
  refine ⟨⟨e, ?_, he.field⟩, r.not_two_dashes hts he.dashless⟩
  rw [Rendered.expression?, hts]
  exact Expression.read_tokens he.wellFormed

end Field

namespace Remainder

/-- `a - b % (c + d)` with a negative `b`. -/
def field : Field :=
  .arithmetic .sub (.col "a") (.arithmetic .mod (.neg (.col "b")) (.arithmetic .add (.col "c") (.col "d")))

theorem arithmetic : field.Arithmetic .firebird4 := by
  have column : ∀ n, isPlainName n = true → (Field.col n).Arithmetic .firebird4 :=
    fun n hn => .column hn (by rintro t ⟨⟩)
  exact .arithmetic (column "a" (by decide))
    (.arithmetic (.neg (column "b" (by decide))) (.arithmetic (column "c" (by decide)) (column "d" (by decide))))

theorem render : (Node.field field).render .firebird4 .default = .ok ⟨"a - MOD(-b, c + d)", []⟩ := by
  have reach : (Node.field field).reach = 4 := by
    simp [Node.reach_eq, Node.weight, Node.children, Node.fieldChildren, field, Field.col]
  unfold Node.render Node.write
  rw [reach]
  decide +kernel

/-- The function is read as the operator, with the sum inside it. -/
theorem remainder_read_back :
    (∃ e, (⟨"a - MOD(-b, c + d)", []⟩ : Rendered).expression? .firebird4 .arithmetic = some e ∧
        e.field? .firebird4 = some field.untyped) ∧
      ¬ ['-', '-'] <:+: "a - MOD(-b, c + d)".toList :=
  Field.Arithmetic.read_back arithmetic render

end Remainder

end SqlDialects
