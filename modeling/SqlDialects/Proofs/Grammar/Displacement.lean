import SqlDialects.Proofs.Grammar.Arithmetic

/-!
# Operands without their parentheses

An operator that stands behind an expression takes only as much of its end as binds tightly enough
(`Expression.joinRight`), and one that stands before it only as much of its beginning (`Expression.joinLeft`). So an
operand that needs parentheses and stands without them is taken apart. The text is still read, but as another field.
-/

set_option autoImplicit false

namespace SqlDialects

namespace Expression

/-- An expression with an operator and its right operand behind it, as they are read. -/
def joinRight (g : Grammar) (op : Binary) (r : Expression) : Expression → Expression
  | binary op' x y =>
    if g.level op ≤ g.level op' then binary op (binary op' x y) r else binary op' x (joinRight g op r y)
  | l => binary op l r

/-- An expression before which something stands that takes an operand of some level, as they are read. -/
def joinLeft (g : Grammar) (k : Nat) (wrap : Expression → Expression) : Expression → Expression
  | binary op x y => if k ≤ g.level op then wrap (binary op x y) else binary op (joinLeft g k wrap x) y
  | r => wrap r

theorem tokens_joinRight (g : Grammar) (op : Binary) (r l : Expression) :
    (joinRight g op r l).tokens = l.tokens ++ op.tokens ++ r.tokens := by
  fun_induction joinRight g op r l with
  | case1 op' x y h => rfl
  | case2 op' x y h ih => simp [tokens, ih]
  | case3 l h => rfl

theorem tokens_joinLeft (g : Grammar) {k : Nat} {wrap : Expression → Expression} (before : List Token)
    (hw : ∀ e, (wrap e).tokens = before ++ e.tokens) (e : Expression) :
    (joinLeft g k wrap e).tokens = before ++ e.tokens := by
  fun_induction joinLeft g k wrap e with
  | case1 op x y h => exact hw _
  | case2 op x y h ih => simp [tokens, ih]
  | case3 e h => exact hw e

theorem le_level_joinRight {g : Grammar} {op : Binary} {r l : Expression} {m : Nat} (hm : m ≤ g.level op)
    (hl : m ≤ l.level g) : m ≤ (joinRight g op r l).level g := by
  fun_induction joinRight g op r l with
  | case1 op' x y h => exact hm
  | case2 op' x y h ih => exact hl
  | case3 l h => exact hm

theorem le_level_joinLeft {g : Grammar} {k : Nat} {wrap : Expression → Expression} {m : Nat}
    (hw : ∀ e, k ≤ (wrap e).level g + 1) (hm : m < k) {e : Expression} (he : m ≤ e.level g) :
    m ≤ (joinLeft g k wrap e).level g := by
  fun_induction joinLeft g k wrap e with
  | case1 op x y h => have := hw (binary op x y); omega
  | case2 op x y h ih => exact he
  | case3 e h => have := hw e; omega

/-- In arithmetic, only the operators between operands bind less tightly than a sign. -/
theorem le_level_of_wellFormed {e : Expression} (h : e.WellFormed .arithmetic) (hb : ∀ op x y, e ≠ binary op x y) :
    100 ≤ e.level .arithmetic := by
  by_contra loose
  obtain ⟨op, x, y, same⟩ := exists_operator rfl h (Nat.lt_of_not_le loose)
  exact hb _ x y same

theorem wellFormed_joinRight {op : ArithmeticOp} {r l : Expression} (hl : l.WellFormed .arithmetic)
    (hr : r.WellFormed .arithmetic) (right : 10 + op.precedence < r.level .arithmetic) :
    (joinRight .arithmetic (.arithmetic op) r l).WellFormed .arithmetic := by
  have low := op.precedence_le
  have joined : ∀ {l : Expression}, l.WellFormed .arithmetic → 10 + op.precedence ≤ l.level .arithmetic →
      (binary (.arithmetic op) l r).WellFormed .arithmetic := fun hl left =>
    .binary (by rintro ⟨⟩) (fun h => absurd h (by simp [Grammar.level])) hl hr left right
  fun_induction joinRight .arithmetic (.arithmetic op) r l with
  | case1 op' x y h => exact joined hl h
  | case2 op' x y h ih =>
    cases hl with
    | binary ho hc hx hy hleft hright =>
      exact .binary ho hc hx (ih hy) hleft (le_level_joinRight (Nat.lt_of_not_le h) hright)
  | case3 l h =>
    have tight := le_level_of_wellFormed hl h
    exact joined hl (by omega)

theorem wellFormed_joinLeft {k : Nat} {wrap : Expression → Expression} (hk : k ≤ 100)
    (hw : ∀ e, k ≤ (wrap e).level .arithmetic + 1)
    (hf : ∀ e, e.WellFormed .arithmetic → k ≤ e.level .arithmetic → (wrap e).WellFormed .arithmetic) {e : Expression}
    (he : e.WellFormed .arithmetic) : (joinLeft .arithmetic k wrap e).WellFormed .arithmetic := by
  fun_induction joinLeft .arithmetic k wrap e with
  | case1 op x y h => exact hf _ he h
  | case2 op x y h ih =>
    cases he with
    | binary ho hc hx hy hleft hright =>
      exact .binary ho hc (ih hx) hy (le_level_joinLeft hw (Nat.lt_of_not_le h) hleft) hright
  | case3 e h => exact hf e he (Nat.le_trans hk (le_level_of_wellFormed he h))

theorem field?_binary {d : Dialect} {op : ArithmeticOp} {l r : Expression} {f : Field}
    (h : (binary (.arithmetic op) l r).field? d = some f) :
    ∃ x y, l.field? d = some x ∧ r.field? d = some y ∧ f = .arithmetic op x y := by
  simp only [field?, Option.pure_def, Option.bind_eq_bind, Option.bind_eq_some_iff, Option.some.injEq] at h
  obtain ⟨x, hx, y, hy, rfl⟩ := h
  exact ⟨x, y, hx, hy, rfl⟩

end Expression

/-- Tokens that are read as an expression, but not of the field. -/
def Field.MisreadFrom (d : Dialect) (x : Field) (ts : List Token) : Prop :=
  ∃ e : Expression, ts = e.tokens ∧ e.WellFormed .arithmetic ∧ e.field? d ≠ some x.untyped

namespace Expression.Denotes

variable {d : Dialect} {op op' : ArithmeticOp} {a b e : Expression} {x y z : Field}

/-- A looser operand on the left loses its end to the operator. -/
theorem misread_left (h : (binary (.arithmetic op') a b).Denotes d (.arithmetic op' x y)) (he : e.WellFormed .arithmetic)
    (loose : op'.precedence < op.precedence) (right : 10 + op.precedence < e.level .arithmetic) :
    (Field.arithmetic op (.arithmetic op' x y) z).MisreadFrom d
      ((binary (.arithmetic op') a b).tokens ++ .symbol op.symbol :: e.tokens) := by
  refine ⟨joinRight .arithmetic (.arithmetic op) e (binary (.arithmetic op') a b), ?_,
    wellFormed_joinRight h.wellFormed he right, ?_⟩
  · rw [tokens_joinRight]
    simp [Binary.tokens]
  · have split : ¬ Grammar.arithmetic.level (.arithmetic op) ≤ Grammar.arithmetic.level (.arithmetic op') := by
      simp only [Grammar.level, Grammar.arithmetic]
      omega
    rw [joinRight, if_neg split]
    intro hf
    obtain ⟨u, v, -, -, hf⟩ := field?_binary hf
    rw [Field.untyped_arithmetic] at hf
    cases hf
    exact Nat.lt_irrefl _ loose

/-- An operand on the right that is no tighter than the operator loses its beginning to it. -/
theorem misread_right (h : (binary (.arithmetic op') a b).Denotes d (.arithmetic op' x y)) (he : e.WellFormed .arithmetic)
    (loose : op'.precedence ≤ op.precedence) (left : 10 + op.precedence ≤ e.level .arithmetic) :
    (Field.arithmetic op z (.arithmetic op' x y)).MisreadFrom d
      (e.tokens ++ .symbol op.symbol :: (binary (.arithmetic op') a b).tokens) := by
  have low := op.precedence_le
  have taken : ∀ r : Expression, r.WellFormed .arithmetic → 11 + op.precedence ≤ r.level .arithmetic →
      (binary (.arithmetic op) e r).WellFormed .arithmetic := fun r hr right =>
    .binary (by rintro ⟨⟩) (fun h => absurd h (by simp [Grammar.level])) he hr left
      (show 10 + op.precedence < _ by omega)
  have level : ∀ r, 11 + op.precedence ≤ (binary (.arithmetic op) e r).level .arithmetic + 1 := by
    intro r
    show 11 + op.precedence ≤ 10 + op.precedence + 1
    omega
  refine ⟨joinLeft .arithmetic (11 + op.precedence) (binary (.arithmetic op) e) (binary (.arithmetic op') a b), ?_,
    wellFormed_joinLeft (by omega) level taken h.wellFormed, ?_⟩
  · rw [tokens_joinLeft _ (e.tokens ++ [.symbol op.symbol]) fun r => rfl]
    simp
  · have split : ¬ 11 + op.precedence ≤ Grammar.arithmetic.level (.arithmetic op') := by
      simp only [Grammar.level, Grammar.arithmetic]
      omega
    rw [joinLeft, if_neg split]
    intro hf
    -- What stands last is an operand of the operand, and no operand is the whole.
    obtain ⟨u, v, -, hv, hf⟩ := field?_binary hf
    obtain ⟨u', v', -, hv', hf'⟩ := field?_binary h.field
    rw [Field.untyped_arithmetic] at hf
    cases hf
    rw [hv'] at hv
    cases hv
    rw [Field.untyped_arithmetic] at hf'
    have size := congrArg sizeOf hf'
    simp at size

/-- A sign before an operator takes its first operand only, so what is read is the operator. -/
theorem sign_joinLeft (h : (binary (.arithmetic op') a b).Denotes d (.arithmetic op' x y)) {u : Unary}
    (hu : u = .minus ∨ u = .complement) :
    ∃ e : Expression, u.token :: (binary (.arithmetic op') a b).tokens = e.tokens ∧ e.WellFormed .arithmetic ∧
      ∀ f, e.field? d = some f → ∃ v w, f = .arithmetic op' v w := by
  have low := op'.precedence_le
  have sign : u.level = 100 ∧ Grammar.arithmetic.opening? u.token = some (.operator u) := by
    rcases hu with rfl | rfl <;> exact ⟨rfl, rfl⟩
  have taken : ∀ r : Expression, r.WellFormed .arithmetic → 100 ≤ r.level .arithmetic →
      (unary u r).WellFormed .arithmetic := fun r hr tight => .unary sign.2 hr (by omega)
  have level : ∀ r, 100 ≤ (unary u r).level .arithmetic + 1 := by
    intro r
    show 100 ≤ u.level + 1
    omega
  refine ⟨joinLeft .arithmetic 100 (unary u) (binary (.arithmetic op') a b), ?_,
    wellFormed_joinLeft (Nat.le_refl _) level taken h.wellFormed, ?_⟩
  · rw [tokens_joinLeft _ [u.token] fun r => rfl]
    rfl
  · have split : ¬ 100 ≤ Grammar.arithmetic.level (.arithmetic op') := by
      simp only [Grammar.level, Grammar.arithmetic]
      omega
    rw [joinLeft, if_neg split]
    intro f hf
    obtain ⟨v, w, -, -, hf⟩ := field?_binary hf
    exact ⟨v, w, hf⟩

end Expression.Denotes

/-! ## What an operand without its parentheses is written as -/

namespace Field

open Render

variable {d : Dialect} {s : Settings} {π : Place d s} {x y : Field} {a : Lexer.Edge} {m : Render Unit}

/-- The step writes what is read, but not as the field. -/
def Misread (π : Place d s) (x : Field) (a : Lexer.Edge) (m : Render Unit) : Prop :=
  ∃ ts, x.MisreadFrom d ts ∧ Writes π a .joint m ts

/-- A field that holds together less tightly than a sign is one of an operator between its operands. -/
theorem exists_operator (h : x.tightness d < 100) :
    ∃ op l r symbol, x = .arithmetic op l r ∧ op.operation d = .operator symbol ∧ x.tightness d = 10 + op.precedence := by
  by_cases hx : ∃ op l r, x = arithmetic op l r
  · obtain ⟨op, l, r, rfl⟩ := hx
    rw [tightness] at h
    cases ho : op.operation d with
    | operator symbol => exact ⟨op, l, r, symbol, rfl, ho, by rw [tightness, ho]; rfl⟩
    | function f | unsupported =>
      rw [ho] at h
      exact absurd h (show ¬ 300 < 100 by decide)
  · have tight := le_tightness d fun op l r hx' => hx ⟨op, l, r, hx'⟩
    omega

namespace Arithmetic

/-- What holds together less tightly than a sign is written as an operator between its operands. -/
theorem writtenBetween (hx : x.Arithmetic d) (hπ : π.mayFail) (h : x.tightness d < 100) :
    ∃ op l r, x = .arithmetic op l r ∧ x.tightness d = 10 + op.precedence ∧
      WrittenBetween π op l r (x.opening d) (Node.field x).write := by
  obtain ⟨op, l, r, symbol, rfl, ho, ht⟩ := exists_operator h
  cases hx with
  | arithmetic hl hr => exact ⟨op, l, r, rfl, ht, writtenBetween_arithmetic ho (hl.writtenBy hπ) (hr.writtenBy hπ)⟩

/-- The operand on the left of an operator without parentheses, where it needs them. -/
theorem misread_left {op : ArithmeticOp} (hx : x.Arithmetic d) (hπ : π.mayFail)
    (loose : x.tightness d < 10 + op.precedence) (hy : y.WrittenBy π .gap (11 + op.precedence) m) :
    (Field.arithmetic op x y).Misread π (x.opening d) (do (Node.field x).write; sql " "; sql op.symbol; sql " "; m) := by
  have low := op.precedence_le
  obtain ⟨op', l, r, rfl, ht, a, b, he, hw⟩ := hx.writtenBetween hπ (by omega)
  obtain ⟨e, hy, right, hm⟩ := hy
  exact ⟨_, he.misread_left hy.wellFormed (by omega) (by omega), hw.bind (op.writes_behind hm)⟩

/-- The operand on the right of an operator without parentheses, where it needs them. -/
theorem misread_right {op : ArithmeticOp} (hx : x.Arithmetic d) (hπ : π.mayFail)
    (loose : x.tightness d ≤ 10 + op.precedence) (hy : y.WrittenBy π a (10 + op.precedence) m) :
    (Field.arithmetic op y x).Misread π a (do m; sql " "; sql op.symbol; sql " "; (Node.field x).write) := by
  have low := op.precedence_le
  obtain ⟨op', l, r, rfl, ht, a, b, he, hw⟩ := hx.writtenBetween hπ (by omega)
  obtain ⟨e, hy, left, hm⟩ := hy
  exact ⟨_, he.misread_right hy.wellFormed (by omega) left, hm.bind (op.writes_behind (Field.writes_of_opening _ hw))⟩

theorem misread_neg (hx : x.Arithmetic d) (hπ : π.mayFail) (loose : x.tightness d < 100) (ho : x.opening d = .sign) :
    (Field.neg x).Misread π .gap (do sql "-"; (Node.field x).write) := by
  have sign : Writes π .gap .sign (sql "-") [.symbol "-"] := .sql Lexer.reads_minus
  obtain ⟨op, l, r, rfl, ht, a, b, he, hw⟩ := hx.writtenBetween hπ loose
  rw [ho] at hw
  obtain ⟨e, hts, wellFormed, hf⟩ := he.sign_joinLeft (.inl rfl)
  refine ⟨_, ⟨e, hts, wellFormed, fun h => ?_⟩, sign.bind hw⟩
  obtain ⟨v, w, h⟩ := hf _ h
  rw [Field.untyped_neg] at h
  cases h

theorem misread_bitNot (hx : x.Arithmetic d) (hπ : π.mayFail) (loose : x.tightness d < 100) :
    (Field.bitNot x).Misread π .sign (do sql "~"; (Node.field x).write) := by
  have sign : Writes π .sign .gap (sql "~") [.symbol "~"] := .sql (Lexer.reads_single (by decide))
  obtain ⟨op, l, r, rfl, ht, a, b, he, hw⟩ := hx.writtenBetween hπ loose
  obtain ⟨e, hts, wellFormed, hf⟩ := he.sign_joinLeft (.inr rfl)
  refine ⟨_, ⟨e, hts, wellFormed, fun h => ?_⟩, sign.bind (Field.writes_of_opening _ hw)⟩
  obtain ⟨v, w, h⟩ := hf _ h
  rw [Field.untyped_bitNot] at h
  cases h

end Arithmetic

/-! ## Fields that begin with a sign -/

/-- Wherever the step succeeds, what it writes first is a minus sign. -/
def Begins (π : Place d s) (m : Render Unit) : Prop :=
  ∀ c c', π.here c → m c = .ok () c' →
    π.here c' ∧ ∃ ps, c'.output = c.output.writeAll d s (.text "-" :: ps)

namespace Begins

variable {b : Lexer.Edge} {ts : List Token}

theorem bind {f : Unit → Render Unit} (hm : Begins π m) (hf : Writes π a b (f ()) ts) : Begins π (m >>= f) := by
  intro c k hc hr
  cases hm' : m c with
  | ok _ k' =>
    rw [bind_ok hm'] at hr
    obtain ⟨hk', ps, ho⟩ := hm c k' hc hm'
    rcases hf k' hk' with ⟨k'', qs, hr', hk'', ho', -⟩ | ⟨-, e, k'', hr'⟩
    · rw [hr'] at hr
      cases hr
      refine ⟨hk'', ps ++ qs, ?_⟩
      rw [ho', ho, ← List.cons_append, Output.writeAll_append]
    · rw [hr'] at hr
      cases hr
  | error e k' =>
    rw [bind_error hm'] at hr
    cases hr

theorem sign (h : Writes π a b m ts) : Begins π (do sql "-"; m) := by
  refine bind (fun c k hc hr => ?_) h
  cases hr
  refine ⟨π.write _ hc, [], ?_⟩
  rw [← π.dialect hc, ← π.settings hc]
  rfl

theorem dialect {f : Dialect → Render Unit} (h : Begins π (f d)) : Begins π (Render.dialect >>= f) := by
  intro c k hc hr
  refine h c k hc ?_
  rw [← hr, ← π.dialect hc]
  rfl

end Begins

/-- A field that is not written from behind a sign begins with a sign itself. -/
theorem Arithmetic.begins (hx : x.Arithmetic d) (hπ : π.mayFail) (h : x.opening d = .gap) :
    Begins π (Node.field x).write := by
  induction hx with
  | column hn ht | call hf hs hxs ih | bitNot hx ih => cases h
  | neg hx ih =>
    rw [Node.write_eq_parts]
    obtain ⟨e, -, -, hw⟩ := writtenBy_prefixed (hx.writtenBy hπ)
    exact .sign hw
  | @arithmetic op l r hl hr ihl ihr =>
    rw [opening] at h
    split at h
    · next hop =>
      rw [Bool.and_eq_true, Bool.not_eq_true'] at hop
      rw [Node.write_eq_parts]
      refine Begins.dialect ?_
      cases ho : op.operation d with
      | operator symbol =>
        have sound := op.operation_sound d
        rw [ho] at sound
        have left : Visitor.operand Node.write op false l = (Node.field l).write := if_neg (by simp [hop.2])
        obtain ⟨e, -, -, right⟩ := writtenBy_operand_of_gap op true (hr.writtenBy hπ)
        rw [show symbol = op.symbol from sound]
        dsimp only
        rw [left]
        exact (ihl h).bind (op.writes_behind right)
      | function f | unsupported =>
        rw [ho] at hop
        cases hop.1
    · cases h

end Field

end SqlDialects
