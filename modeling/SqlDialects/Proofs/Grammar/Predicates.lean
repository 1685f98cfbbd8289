import SqlDialects.Proofs.Grammar.Building
import SqlDialects.Proofs.Grammar.Meaning
import SqlDialects.Proofs.Grammar.Reading

/-!
# What single tests are written as

A comparison, a null test, a membership test or the like is written as an expression that means it and that binds
more tightly than the connectives. Each is put together from its operands and a few words between them, so each is
read word by word. The `AND` of a `BETWEEN` belongs to the test.
-/

set_option autoImplicit false

namespace SqlDialects

/-- An expression that is written without ambiguity and is true whenever the condition is. -/
structure Expression.Means (d : Dialect) (s : Settings) (e : Expression) (c : Condition) : Prop where
  wellFormed : e.WellFormed (.logic d)
  truth : ∀ {V : Type} (I : Interpretation d V), e.truth I = c.truth I s

namespace Condition

open Render

variable {d : Dialect} {s : Settings} {π : Place d s} {c : Condition} {x low high : Field} {xs : List Field} {k : Nat}
  {m : Render Unit}

/-- The step writes the condition, from a gap on and no less tightly than so. -/
def WrittenBy (π : Place d s) (c : Condition) (k : Nat) (m : Render Unit) : Prop :=
  ∃ e : Expression, e.Means d s c ∧ k ≤ e.level (.logic d) ∧ Writes π .gap .joint m e.tokens

theorem WrittenBy.loosen (h : c.WrittenBy π k m) {k' : Nat} (hk : k' ≤ k) : c.WrittenBy π k' m := by
  obtain ⟨e, he, hl, h⟩ := h
  exact ⟨e, he, Nat.le_trans hk hl, h⟩

variable (d s) in
/-- What a condition over columns and values means. -/
def meaning (c : Condition) : Meaning d := fun _ I => c.truth I s

theorem writtenBy_iff : c.WrittenBy π k m ↔ (c.meaning d s).WrittenBy π k m := by
  constructor
  · rintro ⟨e, he, hl, h⟩
    exact ⟨e, ⟨he.wellFormed, he.truth⟩, hl, h⟩
  · rintro ⟨e, he, hl, h⟩
    exact ⟨e, ⟨he.wellFormed, he.truth⟩, hl, h⟩

end Condition

theorem ComparisonOp.reads_symbol (op : ComparisonOp) (d : Dialect) :
    Lexer.Reads d .gap .joint op.symbol.toList op.tokens := by
  cases op with
  | eq => exact (Lexer.reads_single (by decide)).ofSign.toJoint
  | lt | gt => exact Lexer.reads_opening (by decide)
  | notEq | ltEq | gtEq => exact (Lexer.reads_pair (by decide) (by decide)).toJoint
  | like => exact Lexer.reads_plain (by decide : isPlainName "LIKE" = true)
  | notLike =>
    have first := @Lexer.reads_words d ["NOT"] (by decide)
    exact first.append (Lexer.reads_plain (by decide : isPlainName "LIKE" = true))

namespace Condition

open Render

variable {d : Dialect} {s : Settings} {π : Place d s} {x low high : Field}

theorem writtenBy_compare {l r : Field} (op : ComparisonOp) (hl : l.Operand s) (hr : r.Operand s) :
    (compare op l r).WrittenBy π 5 (Visitor.compare Node.write op l r) := by
  have symbol : Writes π .gap .joint (sql op.symbol) op.tokens := .sql (op.reads_symbol d)
  have left := hl.primary (.logic d) d
  have right := hr.primary (.logic d) d
  have means : (Expression.binary (.compare op) (l.expression d s) (r.expression d s)).Means d s (compare op l r) := by
    refine ⟨?_, fun I => left.truth_compare I op⟩
    refine .binary (by rintro ⟨⟩) (fun _ => rfl) left.wellFormed right.wellFormed ?_ ?_
    · exact Nat.le_trans (show 5 ≤ 100 by decide) left.le_level
    · exact Nat.lt_of_lt_of_le (show 5 < 100 by decide) right.le_level
  unfold Visitor.compare
  rw [hl.comparand_eq, hr.comparand_eq]
  refine ⟨_, means, Nat.le_refl _, (hl.writes.bind (Writes.blank.bind (symbol.bind (Writes.blank.bind hr.writes)))).cast ?_⟩
  simp [Expression.tokens, Binary.tokens]

theorem writtenBy_isNull (hx : x.Operand s) (negated : Bool) :
    (isNull x negated).WrittenBy π 5
      (do Visitor.comparand Node.write x; sql (Visitor.nullPredicate negated)) := by
  have predicate : Writes π .joint .joint (sql (Visitor.nullPredicate negated))
      (if negated then [.word "IS", .word "NOT", .word "NULL"] else [.word "IS", .word "NULL"]) := by
    cases negated
    · exact .sql (@Lexer.reads_spaced d ["IS", "NULL"] (by decide))
    · exact .sql (@Lexer.reads_spaced d ["IS", "NOT", "NULL"] (by decide))
  have primary := hx.primary (.logic d) d
  have means : (Expression.nullTest (x.expression d s) negated).Means d s (isNull x negated) := by
    refine ⟨.nullTest rfl primary.wellFormed ?_, fun I => ?_⟩
    · exact Nat.le_trans (by decide) primary.le_level
    · simp [Expression.truth, Condition.truth]
  rw [hx.comparand_eq]
  exact ⟨_, means, Nat.le_refl _, hx.writes.bind predicate⟩

theorem writtenBy_between (hx : x.Operand s) (hl : low.Operand s) (hh : high.Operand s) (negated : Bool) :
    (between x low high negated).WrittenBy π 5 (do
      Visitor.comparand Node.write x
      sql (if negated then " NOT BETWEEN " else " BETWEEN ")
      Visitor.comparand Node.write low
      sql " AND "
      Visitor.comparand Node.write high) := by
  have opening : Writes π .joint .gap (sql (if negated then " NOT BETWEEN " else " BETWEEN "))
      (if negated then [.word "NOT", .word "BETWEEN"] else [.word "BETWEEN"]) := by
    cases negated
    · exact .sql (@Lexer.reads_padded d ["BETWEEN"] (by decide))
    · exact .sql (@Lexer.reads_padded d ["NOT", "BETWEEN"] (by decide))
  have middle : Writes π .joint .gap (sql " AND ") [.word "AND"] := .sql (@Lexer.reads_padded d ["AND"] (by decide))
  have px := hx.primary (.logic d) d
  have pl := hl.primary (.logic d) d
  have ph := hh.primary (.logic d) d
  have means : (Expression.range (x.expression d s) (low.expression d s) (high.expression d s) negated).Means d s
      (between x low high negated) := by
    refine ⟨.range rfl px.wellFormed pl.wellFormed ph.wellFormed ?_ ?_ ?_, fun I => ?_⟩
    · exact Nat.le_trans (by decide) px.le_level
    · exact Nat.lt_of_lt_of_le (by decide) pl.le_level
    · exact Nat.lt_of_lt_of_le (by decide) ph.le_level
    · simp [Expression.truth, Condition.truth]
  rw [hx.comparand_eq, hl.comparand_eq, hh.comparand_eq]
  refine ⟨_, means, Nat.le_refl _, (hx.writes.bind (opening.bind (hl.writes.bind (middle.bind hh.writes)))).cast ?_⟩
  simp [Expression.tokens]

end Condition

namespace Connective

/-- The comparison that the connective over no conditions is written as. -/
def comparison : Connective → Expression
  | and => .binary (.compare .eq) .one .one
  | or => .binary (.compare .eq) .one .zero

theorem primary_one (g : Grammar) : Expression.one.Primary g := .atom (g.opening?_number _)

theorem primary_zero (g : Grammar) : Expression.zero.Primary g := .atom (g.opening?_number _)

theorem wellFormed_comparison (op : Connective) (d : Dialect) : op.comparison.WellFormed (.logic d) := by
  cases op
  · exact .binary (by rintro ⟨⟩) (fun _ => rfl) (primary_one _).wellFormed (primary_one _).wellFormed
      (show 5 ≤ 300 by decide) (show 5 < 300 by decide)
  · exact .binary (by rintro ⟨⟩) (fun _ => rfl) (primary_one _).wellFormed (primary_zero _).wellFormed
      (show 5 ≤ 300 by decide) (show 5 < 300 by decide)

theorem truth_comparison (op : Connective) {d : Dialect} {V : Type} (I : Interpretation d V) :
    op.comparison.truth I = op.unit := by
  cases op
  · exact ((primary_one (.logic d)).truth_compare I .eq).trans I.one_eq_one
  · exact ((primary_one (.logic d)).truth_compare I .eq).trans I.one_ne_zero

theorem level_comparison (op : Connective) (g : Grammar) : op.comparison.level g = 5 := by
  cases op <;> rfl

theorem writes_identity (op : Connective) {d : Dialect} {s : Settings} {π : Render.Place d s} :
    Render.Writes π .gap .joint (Render.sql op.identity) op.comparison.tokens := by
  have digit : ∀ {c : Char}, Text.isAsciiDigit c = true → Lexer.Reads d .gap .joint [c] [.number (.ofList [c])] :=
    fun hc => (Lexer.reads_number hc (by decide)).ofSign
  have equals : Lexer.Reads d .joint .gap " = ".toList [.symbol "="] :=
    Lexer.reads_blank.append ((Lexer.reads_single (by decide)).ofSign.append Lexer.reads_blank.ofJoint)
  cases op
  · exact .sql (((digit (by decide : Text.isAsciiDigit '1' = true)).append equals).append
      (digit (by decide : Text.isAsciiDigit '1' = true)))
  · exact .sql (((digit (by decide : Text.isAsciiDigit '1' = true)).append equals).append
      (digit (by decide : Text.isAsciiDigit '0' = true)))

end Connective

namespace Condition

open Render

variable {d : Dialect} {s : Settings} {π : Place d s} {x : Field} {xs : List Field}

theorem writtenBy_identity {c : Condition} (op : Connective)
    (h : ∀ {V : Type} (I : Interpretation d V), c.truth I s = op.unit) : c.WrittenBy π 5 (sql op.identity) := by
  refine ⟨_, ⟨op.wellFormed_comparison d, fun I => ?_⟩, (op.level_comparison _).ge, op.writes_identity⟩
  rw [op.truth_comparison, h I]

theorem writtenBy_none : (none : Condition).WrittenBy π 5 (sql Connective.and.identity) :=
  writtenBy_identity .and fun _ => rfl

theorem writtenBy_inList (hx : x.Operand s) (hxs : ∀ y ∈ xs, y.Operand s) (negated : Bool) :
    (inList x xs negated).WrittenBy π 5 (Visitor.inList Node.write x xs negated) := by
  unfold Visitor.inList
  split
  · next he =>
    -- Nothing is in the empty list.
    rw [List.isEmpty_iff.1 he]
    refine writtenBy_identity _ fun I => ?_
    cases negated <;> rfl
  · next he =>
    have opening : Writes π .joint .gap (sql (if negated then " NOT IN (" else " IN ("))
        ((Binary.member negated).tokens ++ [.symbol "("]) := by
      cases negated
      · exact .sql ((@Lexer.reads_padded d ["IN"] (by decide)).append (Lexer.reads_mark (by decide)).ofJoint)
      · exact .sql ((@Lexer.reads_padded d ["NOT", "IN"] (by decide)).append (Lexer.reads_mark (by decide)).ofJoint)
    have closing : Writes π .joint .gap (sql ")") [.symbol ")"] := .sql (Lexer.reads_mark (by decide))
    obtain ⟨ts, ht, items⟩ := Writes.list (f := Visitor.field Node.write) fun y hy => (hxs y hy).writes (π := π)
    have px := hx.primary (.logic d) d
    have means : (Expression.binary (.member negated) (x.expression d s)
        (.group (xs.map fun y => y.expression d s))).Means d s (inList x xs negated) := by
      refine ⟨?_, fun I => ?_⟩
      · refine .binary (by rintro ⟨⟩) (fun _ => rfl) px.wellFormed (.group ?_ ?_) ?_ (show 5 < 300 by decide)
        · simpa using he
        · intro e hm
          obtain ⟨y, hy, rfl⟩ := List.mem_map.1 hm
          exact ((hxs y hy).primary (.logic d) d).wellFormed
        · exact Nat.le_trans (show 5 ≤ 100 by decide) px.le_level
      · simp [Expression.truth, Condition.truth, Function.comp_def]
    rw [hx.comparand_eq]
    refine ⟨_, means, Nat.le_refl _, (hx.writes.bind (opening.bind (items.bind closing.toJoint))).cast ?_⟩
    simp [Expression.tokens, ← ht]

/-- A boolean operand is a condition, or it is compared with one. -/
theorem writtenBy_field (hx : x.Operand s) : (field x).WrittenBy π 5 (Visitor.truthTest Node.write x) := by
  have px := hx.primary (.logic d) d
  have equalsOne : Writes π .joint .joint (sql " = 1") [.symbol "=", .number "1"] :=
    .sql (Lexer.reads_blank.append ((Lexer.reads_single (by decide)).ofSign.append (Lexer.reads_blank.ofJoint.append
      (Lexer.reads_number (by decide : Text.isAsciiDigit '1' = true) (by decide)).ofSign)))
  have test : ∀ ts, Writes π .joint .joint (when (decide (Capability.booleanLiteral d = .numeric)) (sql " = 1")) ts →
      Writes π .gap .joint (Visitor.truthTest Node.write x) ((x.expression d s).tokens ++ ts) := by
    intro ts h
    unfold Visitor.truthTest
    rw [hx.comparand_eq]
    exact hx.writes.bind (.dialect h)
  cases hn : decide (Capability.booleanLiteral d = .numeric) with
  | true =>
    have means : (Expression.binary (.compare .eq) (x.expression d s) .one).Means d s (field x) := by
      refine ⟨?_, fun I => ?_⟩
      · refine .binary (by rintro ⟨⟩) (fun _ => rfl) px.wellFormed (Connective.primary_one _).wellFormed ?_
          (show 5 < 300 by decide)
        exact Nat.le_trans (show 5 ≤ 100 by decide) px.le_level
      · rw [px.truth_compare, I.numeric (of_decide_eq_true hn)]
        simp [Condition.truth]
    refine ⟨_, means, Nat.le_refl _, (test _ (by rw [hn]; exact equalsOne)).cast ?_⟩
    simp [Expression.tokens, Binary.tokens, ComparisonOp.tokens, Expression.one, ComparisonOp.symbol]
  | false =>
    refine ⟨x.expression d s, ⟨px.wellFormed, fun I => ?_⟩, Nat.le_trans (by decide) px.le_level, ?_⟩
    · rw [px.truth_eq]
      simp [Condition.truth]
    · exact (test [] (by rw [hn]; exact .pure)).cast (List.append_nil _)

/-- The test of a subquery that is not refused and is written as one group. -/
theorem writtenBy_existence {q : Select} (hq : q.Legible π) (hπ : ¬ π.mayFail) (negated : Bool) :
    (existence q negated).WrittenBy π 4 (do
      sql (if negated then "NOT EXISTS " else "EXISTS ")
      subquery (Node.write (.select q))) := by
  obtain ⟨ts, balanced, group⟩ := hq
  have tokens : q.tokens d s = .symbol "(" :: ts ++ [.symbol ")"] := by
    obtain ⟨r, hr⟩ := group.exists_render hπ
    rw [Select.tokens, hr]
    dsimp only
    rw [group.tokens? hr]
    rfl
  have opening : Writes π .gap .gap (sql (if negated then "NOT EXISTS " else "EXISTS "))
      (if negated then [.word "NOT", .word "EXISTS"] else [.word "EXISTS"]) := by
    cases negated
    · exact .sql (@Lexer.reads_words d ["EXISTS"] (by decide))
    · exact .sql (@Lexer.reads_words d ["NOT", "EXISTS"] (by decide))
  have wellFormed : (Expression.existence ts).WellFormed (.logic d) := .existence rfl balanced
  rw [Node.write_eq_parts (.field (.subquery q))] at group
  have written := opening.bind (f := fun _ => subquery (Node.write (.select q))) group.toJoint
  cases negated
  · refine ⟨.existence ts, ⟨wellFormed, fun I => ?_⟩, (by decide : 4 ≤ 300), written⟩
    rw [Condition.truth, tokens]
    rfl
  · refine ⟨.unary .not (.existence ts), ⟨.unary rfl wellFormed (show 4 ≤ 300 by decide), fun I => ?_⟩, Nat.le_refl _,
      written⟩
    rw [Condition.truth, tokens]
    rfl

end Condition

end SqlDialects
