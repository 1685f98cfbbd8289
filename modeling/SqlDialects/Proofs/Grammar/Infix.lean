import SqlDialects.Proofs.Grammar.Arithmetic

/-!
# Operators under the precedence of SQLite

The writer leaves out parentheses by one precedence for all dialects. SQLite has another one: `||` binds tightest, and
`&` and `|` bind alike. So some operands that the writer leaves without parentheses are taken apart when SQLite reads
them (`ArithmeticOp.takesApart`).

Two expressions with an operator between them are always read as one: the loosest operator of all comes out on top, the
last one of several (`Expression.join`). What is read has as many operands as what was written, and it is the same field
exactly if no operand was taken apart (`Field.Infix.read_iff`).
-/

set_option autoImplicit false

namespace SqlDialects

namespace Grammar

/-- The language of arithmetic with the precedence that SQLite documents. -/
def sqlite : Grammar where
  precedence := fun
    | .bitAnd | .bitOr => 5
    | .add | .sub => 6
    | .mul | .div | .mod => 7
    | .concat => 8
  precedence_lt := by
    intro op
    cases op <;> decide
  conditions := false
  exclusiveOr := false

end Grammar

/-! ## Joining -/

/-- How many operands the operators of a field join. -/
def Field.operandCount : Field → Nat
  | arithmetic _ l r => l.operandCount + r.operandCount
  | _ => 1

theorem Field.operandCount_pos (x : Field) : 0 < x.operandCount := by
  fun_induction operandCount x with
  | case1 op l r ihl ihr => omega
  | case2 x h => decide

namespace Expression

/-- Two expressions with an operator between them, as they are read. -/
def join (g : Grammar) (op : ArithmeticOp) (l r : Expression) : Expression :=
  if r.level g ≤ g.level (.arithmetic op) ∧ r.level g ≤ l.level g then
    match r with
    | binary op' x y => binary op' (join g op l x) y
    | r => binary (.arithmetic op) l r
  else if l.level g < g.level (.arithmetic op) then
    match l with
    | binary op' x y => binary op' x (join g op y r)
    | l => binary (.arithmetic op) l r
  else binary (.arithmetic op) l r
termination_by sizeOf l + sizeOf r

variable {g : Grammar} {d : Dialect} {op op' : ArithmeticOp} {l r e : Expression} {x y z : Field} {m : Nat}

theorem tokens_join (g : Grammar) (op : ArithmeticOp) (l r : Expression) :
    (join g op l r).tokens = l.tokens ++ .symbol op.symbol :: r.tokens := by
  fun_induction join g op l r <;> simp_all [tokens, Binary.tokens]

theorem join_of_le (left : g.level (.arithmetic op) ≤ l.level g) (right : g.level (.arithmetic op) < r.level g) :
    join g op l r = binary (.arithmetic op) l r := by
  have tight : ¬ (r.level g ≤ g.level (.arithmetic op) ∧ r.level g ≤ l.level g) := by omega
  unfold join
  rw [if_neg tight, if_neg (Nat.not_lt.2 left)]

theorem le_level_join (hm : m ≤ g.level (.arithmetic op)) (hl : m ≤ l.level g) (hr : m ≤ r.level g) :
    m ≤ (join g op l r).level g := by
  fun_induction join g op l r with
  | case1 l op' x y h ih => exact hr
  | case2 l r h hn => exact hm
  | case3 r op' x y h h' ih => exact hl
  | case4 l r h hn => exact hm
  | case5 l r h hn => exact hm

/-- What is joined needs no further parentheses. -/
theorem wellFormed_join (hc : g.conditions = false) (hl : l.WellFormed g) (hr : r.WellFormed g) :
    (join g op l r).WellFormed g := by
  have low := g.level_arithmetic_lt op
  have top : ∀ {l r : Expression}, l.WellFormed g → r.WellFormed g → g.level (.arithmetic op) ≤ l.level g →
      g.level (.arithmetic op) < r.level g → (binary (.arithmetic op) l r).WellFormed g := fun hl hr left right =>
    .binary (by rintro ⟨⟩) (fun h => absurd h (by simp [Grammar.level])) hl hr left right
  fun_induction join g op l r with
  | case1 l op' x y h ih =>
    cases hr with
    | binary ho hcond hx hy left right => exact .binary ho hcond (ih hl hx) hy (le_level_join h.1 h.2 left) right
  | case2 l r hn h =>
    obtain ⟨op', x, y, rfl⟩ := exists_operator hc hr (by omega)
    exact absurd rfl (hn _ x y)
  | case3 r op' x y h h' ih =>
    cases hl with
    | binary ho hcond hx hy left right =>
      exact .binary ho hcond hx (ih hy hr) left (le_level_join h' right (by simp only [level] at h h' ⊢; omega))
  | case4 l r hn h h' =>
    obtain ⟨op', x, y, rfl⟩ := exists_operator hc hl (by omega)
    exact absurd rfl (hn _ x y)
  | case5 l r h h' => exact top hl hr (by omega) (by omega)

/-! ### What is joined as a field -/

theorem field?_loose {b : Binary} (loose : g.level b < 100) (h : (binary b l r).field? d = some z) :
    ∃ op x y, b = .arithmetic op ∧ l.field? d = some x ∧ r.field? d = some y ∧ z = .arithmetic op x y := by
  cases b with
  | arithmetic op =>
    simp only [field?, Option.pure_def, Option.bind_eq_bind, Option.bind_eq_some_iff, Option.some.injEq] at h
    obtain ⟨x, hx, y, hy, rfl⟩ := h
    exact ⟨op, x, y, rfl, hx, hy, rfl⟩
  | qualified => exact absurd loose (show ¬ 200 < 100 by decide)
  | or | and | xor | compare | member | typed => simp [field?] at h

/-- What is joined is a field with the operands of both sides. -/
theorem field?_join (hx : l.field? d = some x) (hy : r.field? d = some y) :
    ∃ z, (join g op l r).field? d = some z ∧ z.operandCount = x.operandCount + y.operandCount := by
  have low := g.level_arithmetic_lt op
  fun_induction join g op l r generalizing x y with
  | case1 l b u v h ih =>
    obtain ⟨op', u', v', rfl, hu, hv, rfl⟩ := field?_loose (Nat.lt_of_le_of_lt h.1 low) hy
    obtain ⟨z, hz, count⟩ := ih hx hu
    refine ⟨.arithmetic op' z v', by simp [field?, hz, hv], ?_⟩
    simp only [Field.operandCount]
    omega
  | case3 r b u v h h' ih =>
    obtain ⟨op', u', v', rfl, hu, hv, rfl⟩ := field?_loose (Nat.lt_trans h' low) hx
    obtain ⟨z, hz, count⟩ := ih hv hy
    refine ⟨.arithmetic op' u' z, by simp [field?, hu, hz], ?_⟩
    simp only [Field.operandCount]
    omega
  | case2 | case4 | case5 => exact ⟨.arithmetic op x y, by simp [field?, hx, hy], rfl⟩

/-- The operator itself comes out on top only where both sides bind tightly enough: otherwise the other side of the
top has fewer operands than it had. -/
theorem le_of_field?_join (hc : g.conditions = false) (hl : l.WellFormed g) (hr : r.WellFormed g)
    (hx : l.field? d = some x) (hy : r.field? d = some y) {x' y' : Field}
    (h : (join g op l r).field? d = some (.arithmetic op' x' y')) (left : x'.operandCount = x.operandCount)
    (right : y'.operandCount = y.operandCount) :
    g.level (.arithmetic op) ≤ l.level g ∧ g.level (.arithmetic op) < r.level g := by
  have low := g.level_arithmetic_lt op
  by_cases taken : r.level g ≤ g.level (.arithmetic op) ∧ r.level g ≤ l.level g
  · obtain ⟨b, u, v, rfl⟩ := exists_operator hc hr (by omega)
    obtain ⟨_, u', v', _, hu, hv, rfl⟩ := field?_loose (Nat.lt_of_le_of_lt taken.1 low) hy
    unfold join at h
    rw [if_pos taken] at h
    obtain ⟨_, _, w, _, _, hw, same⟩ := field?_loose (Nat.lt_of_le_of_lt taken.1 low) h
    obtain ⟨-, -, rfl⟩ := (Field.arithmetic.injEq ..).mp same
    rw [hv] at hw
    cases hw
    have pos := u'.operandCount_pos
    simp only [Field.operandCount] at right
    omega
  · by_cases loose : l.level g < g.level (.arithmetic op)
    · obtain ⟨b, u, v, rfl⟩ := exists_operator hc hl (by omega)
      obtain ⟨_, u', v', _, hu, hv, rfl⟩ := field?_loose (Nat.lt_trans loose low) hx
      unfold join at h
      rw [if_neg taken, if_pos loose] at h
      obtain ⟨_, w, _, _, hw, _, same⟩ := field?_loose (Nat.lt_trans loose low) h
      obtain ⟨-, rfl, -⟩ := (Field.arithmetic.injEq ..).mp same
      rw [hu] at hw
      cases hw
      have pos := v'.operandCount_pos
      simp only [Field.operandCount] at left
      omega
    · omega

end Expression

/-! ## Fields of columns and operators -/

/-- Whether an operator takes an operand apart that the writer leaves without parentheses on its left or right, by the
operator of the operand. -/
def ArithmeticOp.takesApart : ArithmeticOp → Bool → ArithmeticOp → Bool
  | concat, false, add | concat, false, sub => true
  | concat, _, mul | concat, _, div | concat, _, mod => true
  | bitOr, true, bitAnd => true
  | _, _, _ => false

namespace Field

/-- The fields that are put together from columns with plain names by the operators between operands. -/
inductive Infix : Field → Prop where
  | column {c : ColumnRef} (hn : isPlainName c.name = true) (ht : ∀ t ∈ c.table, isPlainName t = true) :
      Infix (column c)
  | arithmetic {op : ArithmeticOp} {l r : Field} (hl : Infix l) (hr : Infix r) : Infix (arithmetic op l r)

/-- Whether an operand stays in one piece on one side of an operator. -/
def staysWhole (op : ArithmeticOp) (onRight : Bool) : Field → Bool
  | arithmetic op' _ _ => !op.takesApart onRight op'
  | _ => true

/-- Whether no operand in a field is taken apart. -/
def keepsOperands : Field → Bool
  | arithmetic op l r =>
    l.staysWhole op false && r.staysWhole op true && l.keepsOperands && r.keepsOperands
  | _ => true

/-- The expression that an operand is read as, with its parentheses if it gets them. -/
def enclose (x : Field) (op : ArithmeticOp) (onRight : Bool) (e : Expression) : Expression :=
  if x.needsParentheses op onRight then .group [e] else e

/-- The expression that SQLite reads a field of columns and operators as. -/
def reading (s : Settings) : Field → Expression
  | column c => c.expression s
  | arithmetic op l r =>
    .join .sqlite op (l.enclose op false (l.reading s)) (r.enclose op true (r.reading s))
  | _ => .group []

/-! ### What is read -/

variable {d : Dialect} {s : Settings} {op op' : ArithmeticOp} {x l r : Field} {e : Expression} {onRight : Bool}

theorem field?_enclose (x : Field) (op : ArithmeticOp) (onRight : Bool) (e : Expression) :
    (x.enclose op onRight e).field? d = e.field? d := by
  unfold enclose
  split <;> rfl

theorem wellFormed_enclose {g : Grammar} (h : e.WellFormed g) : (x.enclose op onRight e).WellFormed g := by
  unfold enclose
  split
  · exact .group (by simp) (by simpa using h)
  · exact h

theorem wellFormed_column {g : Grammar} (hc : g.conditions = false) (c : ColumnRef) :
    (c.expression s).WellFormed g := by
  have atom : ∀ n, Expression.WellFormed g (.atom (s.nameToken n)) := by
    intro n
    rcases s.nameToken_cases n with h | h <;> rw [h] <;> exact .atom (by simp [Grammar.opening?, hc])
  unfold ColumnRef.expression
  split
  · exact atom c.name
  · exact .binary (by rintro ⟨⟩) (fun h => absurd h (show ¬ 200 < 10 by decide)) (atom _) (atom _)
      (show 200 ≤ 300 by decide) (show 200 < 300 by decide)

theorem wellFormed_reading (hx : x.Infix) : (x.reading s).WellFormed .sqlite := by
  induction hx with
  | column hn ht => exact wellFormed_column rfl _
  | arithmetic hl hr ihl ihr =>
    exact Expression.wellFormed_join rfl (wellFormed_enclose ihl) (wellFormed_enclose ihr)

theorem operandCount_untyped (hx : x.Infix) : x.untyped.operandCount = x.operandCount := by
  induction hx with
  | column hn ht =>
    rw [untyped_column]
    rfl
  | arithmetic hl hr ihl ihr => rw [untyped_arithmetic, operandCount, operandCount, ihl, ihr]

/-- What is read is a field with as many operands. -/
theorem field?_reading (hx : x.Infix) :
    ∃ y, (x.reading s).field? d = some y ∧ y.operandCount = x.operandCount := by
  induction hx with
  | @column c hn ht => exact ⟨_, (ColumnRef.denotes hn ht).field, operandCount_untyped (.column hn ht)⟩
  | @arithmetic op l r hl hr ihl ihr =>
    obtain ⟨y, hy, left⟩ := ihl
    obtain ⟨z, hz, right⟩ := ihr
    rw [← field?_enclose l op false] at hy
    rw [← field?_enclose r op true] at hz
    have joined : ∃ w, ((arithmetic op l r).reading s).field? d = some w ∧
        w.operandCount = y.operandCount + z.operandCount := Expression.field?_join hy hz
    obtain ⟨w, hw, count⟩ := joined
    exact ⟨w, hw, by rw [count, left, right, operandCount]⟩

/-- Where the same field is read, its operator stands between its operands. -/
theorem reading_eq_binary (hl : l.Infix) (hr : r.Infix)
    (same : ((arithmetic op l r).reading s).field? d = some (arithmetic op l r).untyped) :
    (arithmetic op l r).reading s
        = .binary (.arithmetic op) (l.enclose op false (l.reading s)) (r.enclose op true (r.reading s)) ∧
      Grammar.sqlite.level (.arithmetic op) ≤ (l.enclose op false (l.reading s)).level .sqlite ∧
      Grammar.sqlite.level (.arithmetic op) < (r.enclose op true (r.reading s)).level .sqlite := by
  obtain ⟨y, hy, left⟩ := field?_reading (s := s) (d := d) hl
  obtain ⟨z, hz, right⟩ := field?_reading (s := s) (d := d) hr
  rw [← field?_enclose l op false] at hy
  rw [← field?_enclose r op true] at hz
  rw [untyped_arithmetic] at same
  have tight := Expression.le_of_field?_join rfl (wellFormed_enclose (wellFormed_reading hl))
    (wellFormed_enclose (wellFormed_reading hr)) hy hz same (by rw [operandCount_untyped hl, left])
    (by rw [operandCount_untyped hr, right])
  exact ⟨Expression.join_of_le tight.1 tight.2, tight⟩

/-! ### Operands -/

theorem takesApart_eq (op op' : ArithmeticOp) (onRight : Bool) (l r : Field) :
    op.takesApart onRight op' = (!(arithmetic op' l r).needsParentheses op onRight &&
      decide (Grammar.sqlite.level (.arithmetic op') < Grammar.sqlite.level (.arithmetic op) + onRight.toNat)) := by
  cases op <;> cases op' <;> cases onRight <;> rfl

/-- An operand that is read as itself stays in one piece exactly if it holds together tightly enough for its side. -/
theorem staysWhole_iff (hx : x.Infix) (same : (x.reading s).field? d = some x.untyped) :
    x.staysWhole op onRight = true ↔
      Grammar.sqlite.level (.arithmetic op) + onRight.toNat ≤ (x.enclose op onRight (x.reading s)).level .sqlite := by
  have low := Grammar.sqlite.level_arithmetic_lt op
  have one := onRight.toNat_le
  cases hx with
  | @column c hn ht =>
    have tight : 200 ≤ (c.expression s).level .sqlite := by
      unfold ColumnRef.expression
      split
      · exact (by decide : 200 ≤ 300)
      · exact Nat.le_refl _
    have plain : (column c).enclose op onRight ((column c).reading s) = c.expression s := rfl
    rw [plain]
    exact iff_of_true rfl (by omega)
  | @arithmetic op' l r hl hr =>
    rw [staysWhole, takesApart_eq op op' onRight l r, enclose]
    cases hn : (arithmetic op' l r).needsParentheses op onRight with
    | true =>
      have group : (Expression.group [(arithmetic op' l r).reading s]).level .sqlite = 300 := rfl
      rw [if_pos rfl, group]
      exact iff_of_true rfl (by omega)
    | false =>
      have level : ((arithmetic op' l r).reading s).level .sqlite = Grammar.sqlite.level (.arithmetic op') := by
        rw [(reading_eq_binary hl hr same).1]
        rfl
      rw [if_neg (by decide), level]
      simp

/-- The same field is read exactly if no operand is taken apart. -/
theorem field?_reading_iff (hx : x.Infix) :
    (x.reading s).field? d = some x.untyped ↔ x.keepsOperands = true := by
  induction hx with
  | @column c hn ht => exact iff_of_true (ColumnRef.denotes hn ht).field rfl
  | @arithmetic op l r hl hr ihl ihr =>
    simp only [keepsOperands, Bool.and_eq_true, and_assoc]
    constructor
    · intro same
      obtain ⟨top, left, right⟩ := reading_eq_binary hl hr same
      have operands : (l.reading s).field? d = some l.untyped ∧ (r.reading s).field? d = some r.untyped := by
        rw [top, untyped_arithmetic] at same
        obtain ⟨_, y, z, _, hy, hz, whole⟩ := Expression.field?_loose (Grammar.sqlite.level_arithmetic_lt op) same
        obtain ⟨-, rfl, rfl⟩ := (arithmetic.injEq ..).mp whole
        rw [field?_enclose] at hy hz
        exact ⟨hy, hz⟩
      exact ⟨(staysWhole_iff hl operands.1).2 left, (staysWhole_iff hr operands.2).2 right, ihl.1 operands.1,
        ihr.1 operands.2⟩
    · rintro ⟨left, right, hkl, hkr⟩
      have hl' := ihl.2 hkl
      have hr' := ihr.2 hkr
      have top := Expression.join_of_le ((staysWhole_iff hl hl').1 left) ((staysWhole_iff hr hr').1 right)
      rw [reading, top, untyped_arithmetic]
      simp [Expression.field?, field?_enclose, hl', hr']

/-! ### What is written -/

section

open Render

variable {π : Place .sqlite s}

theorem writes_enclose (op : ArithmeticOp) (onRight : Bool)
    (h : Writes π .sign .joint (Node.field x).write e.tokens) :
    Writes π .sign .joint (Visitor.operand Node.write op onRight x) (x.enclose op onRight e).tokens := by
  unfold Visitor.operand enclose
  split
  · exact (h.ofSign.parenthesized.toJoint.ofJoint).cast (by simp [Expression.tokens, Expression.itemTokens])
  · exact h

/-- The writer writes what is read. -/
theorem writes_reading (hx : x.Infix) : Writes π .sign .joint (Node.field x).write (x.reading s).tokens := by
  induction hx with
  | column hn ht =>
    rw [Node.write_eq_parts]
    exact .column (fun _ => hn) fun t h _ => ht t h
  | @arithmetic op l r hl hr ihl ihr =>
    have symbol : op.operation .sqlite = .operator op.symbol := by
      cases op <;> rfl
    rw [Node.write_eq_parts]
    refine Writes.dialect ?_
    rw [symbol, reading, Expression.tokens_join]
    exact (writes_enclose op false ihl).bind (op.writes_behind (writes_enclose op true ihr).ofSign)

end

/-- What is rendered for SQLite is read back, and as the same field exactly if no operand is taken apart. -/
theorem Infix.read_iff (hx : x.Infix) (s : Settings) :
    ∃ r e, (Node.field x).render .sqlite s = .ok r ∧ r.expression? .sqlite .sqlite = some e ∧
      (e.field? .sqlite = some x.untyped ↔ x.keepsOperands = true) := by
  have written := (writes_reading (π := .outside .sqlite s False) hx).ofSign
  obtain ⟨r, hr⟩ := written.exists_render id
  refine ⟨r, x.reading s, hr, ?_, field?_reading_iff hx⟩
  rw [Rendered.expression?, written.tokens? hr]
  exact Expression.read_tokens (wellFormed_reading hx)

end Field

/-! ## Concatenation and bits -/

namespace TakenApart

theorem infix_col {n : String} (hn : isPlainName n = true) : (Field.col n).Infix := .column hn (by rintro t ⟨⟩)

/-- `((a || b) * c - d) & e` -/
def kept : Field :=
  .arithmetic .bitAnd
    (.arithmetic .sub (.arithmetic .mul (.arithmetic .concat (.col "a") (.col "b")) (.col "c")) (.col "d")) (.col "e")

theorem infix_kept : kept.Infix :=
  .arithmetic (.arithmetic (.arithmetic (.arithmetic (infix_col (by decide)) (infix_col (by decide)))
    (infix_col (by decide))) (infix_col (by decide))) (infix_col (by decide))

/-- A product with a concatenation in it is read as it was. -/
theorem kept_read :
    ∃ r e, (Node.field kept).render .sqlite .default = .ok r ∧ r.expression? .sqlite .sqlite = some e ∧
      e.field? .sqlite = some kept.untyped := by
  obtain ⟨r, e, rendered, read, same⟩ := infix_kept.read_iff .default
  exact ⟨r, e, rendered, read, same.2 rfl⟩

/-- `(a + b) || c` -/
def sum : Field := .arithmetic .concat (.arithmetic .add (.col "a") (.col "b")) (.col "c")

/-- `a | (b & c)` -/
def bits : Field := .arithmetic .bitOr (.col "a") (.arithmetic .bitAnd (.col "b") (.col "c"))

theorem render_sum : (Node.field sum).render .sqlite .default = .ok ⟨"a + b || c", []⟩ := by
  have reach : (Node.field sum).reach = 3 := by
    simp [Node.reach_eq, Node.weight, Node.children, Node.fieldChildren, sum, Field.col]
  unfold Node.render Node.write
  rw [reach]
  decide +kernel

theorem render_bits : (Node.field bits).render .sqlite .default = .ok ⟨"a | b & c", []⟩ := by
  have reach : (Node.field bits).reach = 3 := by
    simp [Node.reach_eq, Node.weight, Node.children, Node.fieldChildren, bits, Field.col]
  unfold Node.render Node.write
  rw [reach]
  decide +kernel

/-- `a + (b || c)` -/
def sumRead : Expression :=
  .binary (.arithmetic .add) (.atom (.word "a")) (.binary (.arithmetic .concat) (.atom (.word "b")) (.atom (.word "c")))

/-- `(a | b) & c` -/
def bitsRead : Expression :=
  .binary (.arithmetic .bitAnd) (.binary (.arithmetic .bitOr) (.atom (.word "a")) (.atom (.word "b")))
    (.atom (.word "c"))

theorem tokens_sumRead : (⟨"a + b || c", []⟩ : Rendered).tokens? .sqlite = some sumRead.tokens := by
  decide +kernel

theorem tokens_bitsRead : (⟨"a | b & c", []⟩ : Rendered).tokens? .sqlite = some bitsRead.tokens := by
  decide +kernel

/-- The concatenation of a sum is read as a sum, and an `&` on the right of `|` as an `&` of both. -/
theorem operands_misread :
    (∃ r e, (Node.field sum).render .sqlite .default = .ok r ∧ r.expression? .sqlite .sqlite = some e ∧
      e.field? .sqlite = some (Field.arithmetic .add (.col "a") (.arithmetic .concat (.col "b") (.col "c"))) ∧
      e.field? .sqlite ≠ some sum.untyped) ∧
    ∃ r e, (Node.field bits).render .sqlite .default = .ok r ∧ r.expression? .sqlite .sqlite = some e ∧
      e.field? .sqlite = some (Field.arithmetic .bitAnd (.arithmetic .bitOr (.col "a") (.col "b")) (.col "c")) ∧
      e.field? .sqlite ≠ some bits.untyped := by
  have sumParsed : Expression.read .sqlite sumRead.tokens = some sumRead := rfl
  have bitsParsed : Expression.read .sqlite bitsRead.tokens = some bitsRead := rfl
  refine ⟨⟨_, sumRead, render_sum, ?_, rfl, ?_⟩, _, bitsRead, render_bits, ?_, rfl, ?_⟩
  · rw [Rendered.expression?, tokens_sumRead, Option.bind_some, sumParsed]
  · simp [sumRead, Expression.field?, Token.name?, sum, Field.col]
  · rw [Rendered.expression?, tokens_bitsRead, Option.bind_some, bitsParsed]
  · simp [bitsRead, Expression.field?, Token.name?, bits, Field.col]

end TakenApart

end SqlDialects
