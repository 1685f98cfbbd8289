import SqlDialects.Proofs.Grammar.Truth

/-!
# Operands

The columns and values that conditions are about. What one is written as is a **primary** expression, which holds
together more tightly than any test of it, stands for a value and is no group, so no parentheses are read into a
comparison.
-/

set_option autoImplicit false

namespace SqlDialects

/-- A name that is written with quotes if it needs them. -/
def Settings.Spells (s : Settings) (n : String) : Prop := s.quotedNames = .never → needsQuoting n = false

/-- The columns and values. -/
inductive Field.Operand (s : Settings) : Field → Prop where
  | column {c : ColumnRef} (hn : s.Spells c.name) (ht : ∀ t ∈ c.table, s.Spells t) : Operand s (column c)
  | value (v : Value) : Operand s (value v)
  | inline (l : Literal) : Operand s (inline l)

namespace Expression

/-- What columns and values are written as. -/
inductive Primary (g : Grammar) : Expression → Prop where
  | atom {t : Token} (h : g.opening? t = some .atom) : Primary g (atom t)
  | minus {t : Token} (h : g.opening? t = some .atom) : Primary g (unary .minus (atom t))
  | typed {t u : Token} (ht : g.opening? t = some .atom) (hu : g.opening? u = some .atom) :
      Primary g (binary .typed (atom t) (atom u))
  | qualified {t u : Token} (ht : g.opening? t = some .atom) (hu : g.opening? u = some .atom) :
      Primary g (binary .qualified (atom t) (atom u))

namespace Primary

variable {g : Grammar} {e : Expression}

theorem wellFormed (h : e.Primary g) : e.WellFormed g := by
  cases h with
  | atom h => exact .atom h
  | minus h => exact .unary rfl (.atom h) (show 100 ≤ 300 by decide)
  | typed ht hu | qualified ht hu =>
    exact .binary (by rintro ⟨⟩) (fun hc => absurd hc (show ¬ 200 < 10 by decide)) (.atom ht) (.atom hu)
      (show 200 ≤ 300 by decide) (show 200 < 300 by decide)

theorem le_level (h : e.Primary g) : 100 ≤ e.level g := by
  cases h with
  | atom h => exact (by decide : 100 ≤ 300)
  | minus h => exact Nat.le_refl _
  | typed ht hu | qualified ht hu => exact (by decide : 100 ≤ 200)

theorem truth_eq (h : e.Primary g) {d : Dialect} {V : Type} (I : Interpretation d V) :
    e.truth I = I.holds (I.value e) := by
  cases h <;> simp [truth]

/-- Two operands are compared as values. -/
theorem truth_compare {l r : Expression} (hl : l.Primary g) {d : Dialect} {V : Type} (I : Interpretation d V)
    (op : ComparisonOp) : (binary (.compare op) l r).truth I = I.compare op (I.value l) (I.value r) := by
  cases hl <;> cases op <;> simp [truth]

end Primary

end Expression

namespace Grammar

variable (g : Grammar)

@[simp] theorem opening?_name (n : String) : g.opening? (.name n) = some .atom := by
  simp [opening?, Token.isKeyword]

@[simp] theorem opening?_text (tag text : String) : g.opening? (.text tag text) = some .atom := by
  simp [opening?, Token.isKeyword]

@[simp] theorem opening?_number (text : String) : g.opening? (.number text) = some .atom := by
  simp [opening?, Token.isKeyword]

@[simp] theorem opening?_bind (v : Value) : g.opening? (.bind v) = some .atom := by
  simp [opening?, Token.isKeyword]

/-- A word is an operand unless it begins a condition. -/
theorem opening?_word {w : String} (hn : Text.sameIgnoringCase "NOT" w = false)
    (he : Text.sameIgnoringCase "EXISTS" w = false) : g.opening? (.word w) = some .atom := by
  simp [opening?, Token.isKeyword, hn, he]

end Grammar

theorem Settings.Spells.plain {s : Settings} {n : String} (h : s.Spells n) (hq : s.quotedNames = .never) :
    isPlainName n = true := by
  have needs := h hq
  rw [needsQuoting, Bool.or_eq_false_iff, Bool.not_eq_false'] at needs
  exact needs.1

theorem Settings.Spells.opening? {s : Settings} {n : String} (h : s.Spells n) (g : Grammar) :
    g.opening? (s.nameToken n) = some .atom := by
  -- What stands without quotes is not reserved.
  have word : needsQuoting n = false → g.opening? (.word n) = some .atom := by
    intro hn
    rw [needsQuoting, Bool.or_eq_false_iff, Text.isAnyOf, List.any_eq_false] at hn
    exact g.opening?_word (Bool.eq_false_iff.2 (hn.2 "NOT" (by decide)))
      (Bool.eq_false_iff.2 (hn.2 "EXISTS" (by decide)))
  unfold nameToken
  cases hq : s.quotedNames with
  | always => exact g.opening?_name n
  | never => exact word (h hq)
  | asNeeded =>
    cases hn : needsQuoting n with
    | true => exact g.opening?_name n
    | false => exact word hn

namespace Expression

theorem primary_signed {g : Grammar} {t : Token} (negative : Bool) (h : g.opening? t = some .atom) :
    (signed negative t).Primary g := by
  cases negative
  · exact .atom h
  · exact .minus h

end Expression

theorem Value.primary_expression (g : Grammar) (d : Dialect) (v : Value) : (v.expression d).Primary g := by
  have word : ∀ w, Text.sameIgnoringCase "NOT" w = false → Text.sameIgnoringCase "EXISTS" w = false →
      (Expression.atom (.word w)).Primary g := fun w hn he => .atom (g.opening?_word hn he)
  cases v with
  | null => exact word _ (by decide) (by decide)
  | bool b =>
    unfold expression
    cases Capability.booleanLiteral d with
    | numeric => exact .atom (g.opening?_number _)
    | keyword => cases b <;> exact word _ (by decide) (by decide)
  | int n => exact Expression.primary_signed _ (g.opening?_number _)
  | float x =>
    unfold expression
    dsimp only
    split
    · exact word _ (by decide) (by decide)
    · refine Expression.primary_signed _ ?_
      split
      · exact g.opening?_number _
      · exact g.opening?_word (by decide) (by decide)
  | text s => exact .atom (g.opening?_text _ _)
  | blob bytes =>
    have typed : ∀ s, (Expression.binary .typed (.atom (.text "" s)) (.atom (.word "bytea"))).Primary g :=
      fun s => .typed (g.opening?_text _ _) (g.opening?_word (by decide) (by decide))
    unfold expression
    cases d.family <;> first | exact typed _ | exact .atom (g.opening?_text _ _)

theorem Field.Operand.primary {s : Settings} {x : Field} (h : x.Operand s) (g : Grammar) (d : Dialect) :
    (x.expression d s).Primary g := by
  cases h with
  | @column c hn ht =>
    obtain ⟨table, n, type⟩ := c
    cases table with
    | none => exact .atom (hn.opening? g)
    | some t => exact .qualified ((ht t rfl).opening? g) (hn.opening? g)
  | value v =>
    unfold expression Value.placed
    cases s.paramType with
    | indexed => exact .atom (g.opening?_bind v)
    | inlined => exact v.primary_expression g d
  | inline l => exact l.value.primary_expression g d

/-- An operand is written as its expression. -/
theorem Field.Operand.writes {d : Dialect} {s : Settings} {π : Render.Place d s} {x : Field} (h : x.Operand s) :
    Render.Writes π .gap .joint (Node.field x).write (x.expression d s).tokens := by
  rw [Node.write_eq_parts]
  cases h with
  | column hn ht => exact (Render.Writes.column hn.plain fun t h => (ht t h).plain).ofSign
  | value v => exact .value v
  | inline l => exact .literal l.value

/-- An operand of a test is no condition, so it gets no parentheses. -/
theorem Field.Operand.comparand_eq {s : Settings} {x : Field} (h : x.Operand s) :
    Visitor.comparand Node.write x = (Node.field x).write := by
  cases h <;> rfl

end SqlDialects
