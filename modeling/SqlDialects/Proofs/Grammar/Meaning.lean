import SqlDialects.Proofs.Grammar.Runs

/-!
# Meanings and their texts

What a text means is the truth of the expression that it is read as, under each interpretation. Parentheses, negation,
exclusive or and runs of a connective are shown here for texts with any meaning: what is written around them decides
how they are read, whatever they are made of.
-/

set_option autoImplicit false

namespace SqlDialects

/-- What may be meant by a condition: its truth under each interpretation. -/
def Meaning (d : Dialect) : Type 1 := (V : Type) → Interpretation d V → Truth

namespace Meaning

open Render

variable {d : Dialect} {s : Settings} {π : Place d s} {M N : Meaning d} {k : Nat} {m : Render Unit}

def not (M : Meaning d) : Meaning d := fun V I => (M V I).not

def xor (M N : Meaning d) : Meaning d := fun V I => (M V I).xor (N V I)

/-- What a run of a connective means. -/
def run (op : Connective) (Ms : List (Meaning d)) : Meaning d :=
  fun V I => (Ms.map fun M => M V I).foldr op.join op.unit

/-- The expression is written without ambiguity and has the meaning. -/
structure Of (M : Meaning d) (e : Expression) : Prop where
  wellFormed : e.WellFormed (.logic d)
  truth : ∀ {V : Type} (I : Interpretation d V), e.truth I = M V I

/-- The step writes something with the meaning, from a gap on and no less tightly than so. -/
def WrittenBy (π : Place d s) (M : Meaning d) (k : Nat) (m : Render Unit) : Prop :=
  ∃ e : Expression, M.Of e ∧ k ≤ e.level (.logic d) ∧ Writes π .gap .joint m e.tokens

namespace WrittenBy

theorem loosen (h : M.WrittenBy π k m) {k' : Nat} (hk : k' ≤ k) : M.WrittenBy π k' m := by
  obtain ⟨e, he, hl, h⟩ := h
  exact ⟨e, he, Nat.le_trans hk hl, h⟩

/-- What is in parentheses is one group. -/
theorem group (h : M.WrittenBy π k m) :
    ∃ e : Expression, M.Of (.group [e]) ∧
      Writes π .joint .gap (Render.parenthesized m) (Expression.group [e]).tokens := by
  obtain ⟨e, he, -, h⟩ := h
  exact ⟨e, ⟨.group (by simp) (by simpa using he.wellFormed), fun I => he.truth I⟩, h.parenthesized⟩

theorem parenthesized (h : M.WrittenBy π k m) : M.WrittenBy π 300 (Render.parenthesized m) := by
  obtain ⟨e, he, h⟩ := h.group
  exact ⟨_, he, Nat.le_refl _, h.ofJoint.toJoint⟩

theorem not (h : M.WrittenBy π k m) : M.not.WrittenBy π 4 (do sql "NOT "; Render.parenthesized m) := by
  have word : Writes π .gap .gap (sql "NOT ") [.word "NOT"] := .sql (@Lexer.reads_words d ["NOT"] (by decide))
  obtain ⟨e, he, h⟩ := h.group
  have means : M.not.Of (.unary .not (.group [e])) := by
    refine ⟨.unary rfl he.wellFormed (show 4 ≤ 300 by decide), fun I => ?_⟩
    rw [Expression.truth, he.truth I, Meaning.not]
  exact ⟨_, means, Nat.le_refl _, word.bind h.ofJoint.toJoint⟩

end WrittenBy

/-- How tightly an exclusive or holds together. -/
def xorLevel (d : Dialect) : Nat := if Capability.xor d = .native then 2 else 4

theorem writtenBy_xor {l r : Condition} {k' : Nat} (hl : M.WrittenBy π k (Node.condition l).write)
    (hr : N.WrittenBy π k' (Node.condition r).write) :
    (M.xor N).WrittenBy π (xorLevel d) (Visitor.xor Node.write l r) := by
  obtain ⟨e, he, left⟩ := hl.group
  obtain ⟨e', he', right⟩ := hr.group
  have truth : ∀ {V : Type} (I : Interpretation d V), e.truth I = M V I ∧ e'.truth I = N V I :=
    fun I => ⟨he.truth I, he'.truth I⟩
  -- Both forms are two groups with an operator between them.
  have between : ∀ {text : String} {ts : List Token}, Lexer.Reads d .gap .gap text.toList ts →
      Writes π .gap .joint (do
          Render.parenthesized (Node.condition l).write
          sql text
          Render.parenthesized (Node.condition r).write)
        ((Expression.group [e]).tokens ++ ts ++ (Expression.group [e']).tokens) := by
    intro text ts h
    refine (left.ofJoint.bind (Writes.bind (.sql h) right.ofJoint.toJoint)).cast ?_
    rw [List.append_assoc]
  cases hd : Capability.xor d with
  | native =>
    have symbol : Lexer.Reads d .gap .gap " XOR ".toList [.word "XOR"] :=
      (@Lexer.reads_padded d ["XOR"] (by decide)).ofJoint
    have means : (M.xor N).Of (.binary .xor (.group [e]) (.group [e'])) := by
      refine ⟨?_, fun I => ?_⟩
      · exact .binary (fun _ => by simp [Grammar.logic, hd]) (fun _ => rfl) he.wellFormed he'.wellFormed
          (show 2 ≤ 300 by decide) (show 2 < 300 by decide)
      · simp [Expression.truth, Meaning.xor, truth I]
    refine ⟨_, means, ?_, .dialect ?_⟩
    · simp [xorLevel, hd, Expression.level, Grammar.level]
    · rw [hd]
      exact between symbol
  | notEqual =>
    have symbol : Lexer.Reads d .gap .gap " <> ".toList [.symbol "<>"] :=
      Lexer.reads_blank.ofJoint.append ((Lexer.reads_pair (by decide) (by decide)).append Lexer.reads_blank.ofJoint)
    have means : (M.xor N).Of (.binary (.compare .notEq) (.group [e]) (.group [e'])) := by
      refine ⟨?_, fun I => ?_⟩
      · exact .binary (by rintro ⟨⟩) (fun _ => rfl) he.wellFormed he'.wellFormed (show 5 ≤ 300 by decide)
          (show 5 < 300 by decide)
      · simp [Expression.truth, Meaning.xor, truth I]
    refine ⟨_, means, ?_, .dialect ?_⟩
    · simp [xorLevel, hd, Expression.level, Grammar.level]
    · rw [hd]
      exact between symbol

/-- Members that hold together at least as tightly as a connective, one after the other. -/
theorem writes_run {op : Connective} {ms : List (Render Unit)} {Ms : List (Meaning d)} (hne : Ms ≠ [])
    (h : List.Forall₂ (fun M m => M.WrittenBy π ((Grammar.logic d).level op.binary) m) Ms ms) :
    (run op Ms).WrittenBy π ((Grammar.logic d).level op.binary) (separated op.keyword ms) := by
  have keyword : Writes π .joint .gap (sql op.keyword) op.binary.tokens := by
    cases op
    · exact .sql (@Lexer.reads_padded d ["AND"] (by decide))
    · exact .sql (@Lexer.reads_padded d ["OR"] (by decide))
  induction h with
  | nil => exact absurd rfl hne
  | @cons M m Ms ms hm hms ih =>
    obtain ⟨e, he, hl, hc⟩ := hm
    cases hms with
    | nil =>
      refine ⟨e, ⟨he.wellFormed, fun I => ?_⟩, hl, hc⟩
      rw [he.truth I]
      cases op <;> simp [run, Connective.join, Connective.unit]
    | @cons M' m' Ms ms hm' hms =>
      obtain ⟨e', he', hl', hcs⟩ := ih (List.cons_ne_nil _ _)
      refine ⟨.graft op.binary e e', ⟨Expression.wellFormed_graft rfl he.wellFormed he'.wellFormed hl hl',
        fun I => ?_⟩, (Expression.level_graft _ _ _ _).ge, (hc.bind (keyword.bind hcs)).cast ?_⟩
      · rw [Expression.truth_graft, he.truth I, he'.truth I]
        rfl
      · rw [Expression.tokens_graft, List.append_assoc]

end Meaning

end SqlDialects
