import SqlDialects.Proofs.Grammar.Displacement
import SqlDialects.Proofs.Render.Nested

/-!
# Fields that are written as one of their parts

`GREATEST`, `LEAST` and `COALESCE` of one argument are written as the argument, and a `CASE` without branches as its
`ELSE`. Such a field **collapses**: its text is that of the part, and that it gets no parentheses as an operand is
decided by what it was before. So it may take the place of the part wherever the part gets no parentheses itself
(`Slot.render_collapse`). Elsewhere the parentheses are lost: in arithmetic the text is then read as another field, or
begins a comment, unless the part holds together by itself (`Slot.collapse_read_back_iff`).
-/

set_option autoImplicit false

namespace SqlDialects

/-- The fields that are written as a part of theirs. -/
inductive Collapse where
  | extremum (which : Extremum)
  | coalesce
  | searchedCase
  | simpleCase (subject : Field)

namespace Collapse

/-- The field that is written as its part. -/
def around : Collapse → Field → Field
  | extremum which, x => .extremum which [x]
  | coalesce, x => .coalesce [x]
  | searchedCase, x => .searchedCase [] (some x)
  | simpleCase subject, x => .simpleCase subject [] (some x)

theorem write_around (k : Collapse) (x : Field) : (Node.field (k.around x)).write = (Node.field x).write := by
  rw [Node.write_eq_parts (.field (k.around x))]
  cases k <;> rfl

theorem isAtomic_around (k : Collapse) (x : Field) : (k.around x).isAtomic = true := by
  cases k <;> rfl

theorem isCondition_around (k : Collapse) (x : Field) : (k.around x).isCondition = false := by
  cases k <;> rfl

theorem needsParentheses_around (k : Collapse) (x : Field) (op : ArithmeticOp) (onRight : Bool) :
    (k.around x).needsParentheses op onRight = false := by
  cases k <;> rfl

/-! ### As an operand

Whatever the part is, it stands there without parentheses. -/

theorem operand_around (k : Collapse) (x : Field) (op : ArithmeticOp) (onRight : Bool) :
    Visitor.operand Node.write op onRight (k.around x) = (Node.field x).write := by
  unfold Visitor.operand
  rw [k.needsParentheses_around]
  exact k.write_around x

theorem comparand_around (k : Collapse) (x : Field) :
    Visitor.comparand Node.write (k.around x) = (Node.field x).write := by
  unfold Visitor.comparand
  rw [k.isCondition_around]
  exact k.write_around x

theorem prefixed_around (k : Collapse) (x : Field) (symbol : String) :
    Visitor.prefixed Node.write symbol (k.around x) = (do Render.sql symbol; (Node.field x).write) := by
  have same : Visitor.field Node.write (k.around x) = (Node.field x).write := k.write_around x
  unfold Visitor.prefixed
  rw [k.isAtomic_around, same]
  rfl

theorem call_around (k : Collapse) (x : Field) (f : String) (before behind : List Field) :
    Visitor.call Node.write f (before ++ k.around x :: behind) = Visitor.call Node.write f (before ++ x :: behind) := by
  have same : Visitor.field Node.write (k.around x) = Visitor.field Node.write x := k.write_around x
  unfold Visitor.call Visitor.fields
  rw [List.map_append, List.map_append, List.map_cons, List.map_cons, same]

end Collapse

/-- The places of an operand. -/
inductive Slot where
  | left (op : ArithmeticOp) (right : Field)
  | right (op : ArithmeticOp) (left : Field)
  | neg
  | bitNot
  | compared (op : ComparisonOp) (right : Field)
  | comparedWith (op : ComparisonOp) (left : Field)
  | between (low high : Field) (negated : Bool)
  | low (operand high : Field) (negated : Bool)
  | high (operand low : Field) (negated : Bool)
  | nullTest (negated : Bool)

namespace Slot

/-- What there is with an operand in its place. -/
def fill : Slot → Field → Node
  | left op r, x => .field (.arithmetic op x r)
  | right op l, x => .field (.arithmetic op l x)
  | neg, x => .field (.neg x)
  | bitNot, x => .field (.bitNot x)
  | compared op r, x => .condition (.compare op x r)
  | comparedWith op l, x => .condition (.compare op l x)
  | between l h negated, x => .condition (.between x l h negated)
  | low y h negated, x => .condition (.between y x h negated)
  | high y l negated, x => .condition (.between y l x negated)
  | nullTest negated, x => .condition (.isNull x negated)

/-- Whether an operand is put in parentheses there. The arguments of a function that stands for an operator are
not. -/
def parenthesizes (d : Dialect) : Slot → Field → Bool
  | left op _, x => (op.operation d).isOperator && x.needsParentheses op false
  | right op _, x => (op.operation d).isOperator && x.needsParentheses op true
  | neg, x => !x.isAtomic
  | bitNot, x => (Capability.bitNot d).isOperator && !x.isAtomic
  | _, x => x.isCondition

/-- Where the part gets no parentheses, a field that collapses to it is written as the part is. -/
theorem write_collapse (slot : Slot) (k : Collapse) {x : Field} {c : Context}
    (h : slot.parenthesizes c.dialect x = false) : (slot.fill (k.around x)).write c = (slot.fill x).write c := by
  have comparand : x.isCondition = false → Visitor.comparand Node.write (k.around x) = Visitor.comparand Node.write x := by
    intro hc
    rw [k.comparand_around, Visitor.comparand, hc]
    rfl
  have prefixed : ∀ symbol, x.isAtomic = true →
      Visitor.prefixed Node.write symbol (k.around x) = Visitor.prefixed Node.write symbol x := by
    intro symbol ha
    rw [k.prefixed_around, Visitor.prefixed, ha]
    rfl
  have operand : ∀ op onRight, x.needsParentheses op onRight = false →
      Visitor.operand Node.write op onRight (k.around x) = Visitor.operand Node.write op onRight x := by
    intro op onRight hn
    rw [k.operand_around, Visitor.operand, hn]
    rfl
  rw [Node.write_eq_parts, Node.write_eq_parts (slot.fill x)]
  cases slot with
  | left op r =>
    show Visitor.arithmetic Node.write op (k.around x) r c = Visitor.arithmetic Node.write op x r c
    unfold Visitor.arithmetic
    rw [Render.dialect_bind, Render.dialect_bind]
    rw [parenthesizes] at h
    cases ho : op.operation c.dialect with
    | operator symbol =>
      rw [ho] at h
      dsimp only
      rw [operand op false h]
    | function f => exact congrFun (k.call_around x f [] [r]) c
    | unsupported => rfl
  | right op l =>
    show Visitor.arithmetic Node.write op l (k.around x) c = Visitor.arithmetic Node.write op l x c
    unfold Visitor.arithmetic
    rw [Render.dialect_bind, Render.dialect_bind]
    rw [parenthesizes] at h
    cases ho : op.operation c.dialect with
    | operator symbol =>
      rw [ho] at h
      dsimp only
      rw [operand op true h]
    | function f => exact congrFun (k.call_around x f [l] []) c
    | unsupported => rfl
  | neg => exact congrFun (prefixed "-" (by simpa [parenthesizes] using h)) c
  | bitNot =>
    show Visitor.bitNot Node.write (k.around x) c = Visitor.bitNot Node.write x c
    unfold Visitor.bitNot
    rw [Render.dialect_bind, Render.dialect_bind]
    rw [parenthesizes] at h
    cases ho : Capability.bitNot c.dialect with
    | operator symbol =>
      rw [ho] at h
      exact congrFun (prefixed symbol (by simpa [Capability.Operation.isOperator] using h)) c
    | function f => exact congrFun (k.call_around x f [] []) c
    | unsupported => rfl
  | compared op r =>
    show Visitor.compare Node.write op (k.around x) r c = Visitor.compare Node.write op x r c
    rw [Visitor.compare, Visitor.compare, comparand h]
  | comparedWith op l =>
    show Visitor.compare Node.write op l (k.around x) c = Visitor.compare Node.write op l x c
    rw [Visitor.compare, Visitor.compare, comparand h]
  | between l u negated | low y u negated | high y l negated | nullTest negated =>
    simp only [fill, Visitor.parts, Visitor.conditionParts]
    rw [comparand h]

/-- Where the part gets no parentheses, a field that collapses to it may stand in its place: the text, or the error, is
the same. -/
theorem render_collapse (d : Dialect) (s : Settings) (slot : Slot) (k : Collapse) {x : Field}
    (h : slot.parenthesizes d x = false) : (slot.fill (k.around x)).render d s = (slot.fill x).render d s := by
  unfold Node.render
  rw [write_collapse slot k h]

/-! ### Errors -/

/-- Two passes whose outputs need not have anything to do with each other. -/
def blind (d : Dialect) (s : Settings) : Simulation Unit :=
  .ofOutputs d s s (fun _ _ => True) trivial (fun _ _ => trivial) fun _ _ => trivial

section

variable {d : Dialect} {s : Settings} {m m' : Render Unit}

theorem step_write (n : Node) : (blind d s).Step () n.write n.write := .node n.reach n

theorem step_parenthesized (h : (blind d s).Step () m m') : (blind d s).Step () m (Render.parenthesized m') := by
  intro c c' hc
  have opened : (blind d s).rel () c (c'.write (.text "(")) :=
    ⟨⟨hc.1.dialect, hc.1.indent, hc.1.flags, hc.1.scopes⟩, hc.2.1, hc.2.2.1, hc.2.2.2.1, trivial⟩
  show (blind d s).Outcome () (m c) (EStateM.bind m' (fun _ => Render.sql ")") (c'.write (.text "(")))
  unfold EStateM.bind
  rcases (h opened).cases with ⟨_, k, k', hr, hr', hk⟩ | ⟨e, k, k', hr, hr', hk⟩
  · rw [hr, hr']
    exact ⟨rfl, ⟨hk.1.dialect, hk.1.indent, hk.1.flags, hk.1.scopes⟩, hk.2.1, hk.2.2.1, hk.2.2.2.1, trivial⟩
  · rw [hr, hr']
    exact ⟨rfl, hk⟩

variable (k : Collapse) (x : Field)

theorem step_operand (op : ArithmeticOp) (onRight : Bool) :
    (blind d s).Step () (Visitor.operand Node.write op onRight (k.around x)) (Visitor.operand Node.write op onRight x) := by
  rw [k.operand_around]
  unfold Visitor.operand
  split
  · exact step_parenthesized (step_write _)
  · exact step_write _

theorem step_comparand :
    (blind d s).Step () (Visitor.comparand Node.write (k.around x)) (Visitor.comparand Node.write x) := by
  rw [k.comparand_around]
  unfold Visitor.comparand
  split
  · exact step_parenthesized (step_write _)
  · exact step_write _

theorem step_prefixed (symbol : String) :
    (blind d s).Step () (Visitor.prefixed Node.write symbol (k.around x)) (Visitor.prefixed Node.write symbol x) := by
  rw [k.prefixed_around]
  refine .bind (.sql _) fun _ => ?_
  split
  · exact step_write _
  · exact step_parenthesized (step_write _)

theorem step_call (f : String) (before behind : List Field) :
    (blind d s).Step () (Visitor.call Node.write f (before ++ k.around x :: behind))
      (Visitor.call Node.write f (before ++ x :: behind)) := by
  rw [k.call_around]
  exact .call f fun y _ _ => step_write (.field y)

theorem step_fill (slot : Slot) : (blind d s).Step () (slot.fill (k.around x)).write (slot.fill x).write := by
  have other : ∀ y, (blind d s).Step () (Visitor.comparand Node.write y) (Visitor.comparand Node.write y) :=
    fun y => .comparand fun _ => step_write (.field y)
  rw [Node.write_eq_parts, Node.write_eq_parts (slot.fill x)]
  cases slot with
  | left op r =>
    refine .bind .dialect fun d => ?_
    cases op.operation d with
    | operator symbol =>
      exact .bind (step_operand k x op false) fun _ => .bind (.sql _) fun _ => .bind (.sql _) fun _ =>
        .bind (.sql _) fun _ => .operand op true fun _ => step_write (.field r)
    | function f => exact step_call k x f [] [r]
    | unsupported => exact .unsupported _
  | right op l =>
    refine .bind .dialect fun d => ?_
    cases op.operation d with
    | operator symbol =>
      exact .bind (.operand op false fun _ => step_write (.field l)) fun _ => .bind (.sql _) fun _ => .bind (.sql _) fun _ =>
        .bind (.sql _) fun _ => step_operand k x op true
    | function f => exact step_call k x f [l] []
    | unsupported => exact .unsupported _
  | neg => exact step_prefixed k x "-"
  | bitNot =>
    refine .bind .dialect fun d => ?_
    cases Capability.bitNot d with
    | operator symbol => exact step_prefixed k x symbol
    | function f => exact step_call k x f [] []
    | unsupported => exact .unsupported _
  | compared op r =>
    exact .bind (step_comparand k x) fun _ => .bind (.sql _) fun _ => .bind (.sql _) fun _ => .bind (.sql _) fun _ => other r
  | comparedWith op l =>
    exact .bind (other l) fun _ => .bind (.sql _) fun _ => .bind (.sql _) fun _ => .bind (.sql _) fun _ => step_comparand k x
  | between l h negated =>
    exact .bind (step_comparand k x) fun _ => .bind (.sql _) fun _ => .bind (other l) fun _ => .bind (.sql _) fun _ => other h
  | low y h negated =>
    exact .bind (other y) fun _ => .bind (.sql _) fun _ => .bind (step_comparand k x) fun _ => .bind (.sql _) fun _ => other h
  | high y l negated =>
    exact .bind (other y) fun _ => .bind (.sql _) fun _ => .bind (other l) fun _ => .bind (.sql _) fun _ => step_comparand k x
  | nullTest negated => exact .bind (step_comparand k x) fun _ => .sql _

/-- A field that collapses is refused where its part is, with the same error. -/
theorem render_collapse_error_iff (d : Dialect) (s : Settings) (slot : Slot) (e : RenderError) :
    (slot.fill (k.around x)).render d s = .error e ↔ (slot.fill x).render d s = .error e := by
  have start : (blind d s).rel () (.new d s) (.new d s) := ⟨⟨rfl, rfl, rfl, rfl⟩, rfl, rfl, rfl, trivial⟩
  unfold Node.render
  rcases (step_fill k x slot start).cases with ⟨_, c, c', hr, hr', -⟩ | ⟨e', c, c', hr, hr', -⟩
  · rw [hr, hr']
    simp
  · rw [hr, hr']

end

/-! ## What a collapsed operand is read as -/

/-- Whether a field holds together in a place where it stands without parentheses: it binds tightly enough, and
behind a minus sign it does not begin with another. -/
def Holds (d : Dialect) : Slot → Field → Prop
  | left op _, x => (op.operation d).isOperator = true → 10 + op.precedence ≤ x.tightness d
  | right op _, x => (op.operation d).isOperator = true → 10 + op.precedence < x.tightness d
  | neg, x => 100 ≤ x.tightness d ∧ x.opening d = .sign
  | bitNot, x => (Capability.bitNot d).isOperator = true → 100 ≤ x.tightness d
  | _, x => x.isCondition = false

section

open Render

variable {d : Dialect} {s : Settings} {π : Place d s} {a b : Lexer.Edge} {ts : List Token} {op : ArithmeticOp}
  {symbol : String} {x y : Field}

/-- A collapsed operand of an operator stands without parentheses. -/
theorem writes_left (k : Collapse) (ho : op.operation d = .operator symbol)
    (h : Writes π a b (do (Node.field x).write; sql " "; sql op.symbol; sql " "; Visitor.operand Node.write op true y) ts) :
    Writes π a b (Node.field (.arithmetic op (k.around x) y)).write ts := by
  have sound := op.operation_sound d
  rw [ho] at sound
  rw [Node.write_eq_parts]
  refine Writes.dialect ?_
  rw [ho, show symbol = op.symbol from sound]
  dsimp only
  rw [k.operand_around]
  exact h

theorem writes_right (k : Collapse) (ho : op.operation d = .operator symbol)
    (h : Writes π a b (do Visitor.operand Node.write op false y; sql " "; sql op.symbol; sql " "; (Node.field x).write) ts) :
    Writes π a b (Node.field (.arithmetic op y (k.around x))).write ts := by
  have sound := op.operation_sound d
  rw [ho] at sound
  rw [Node.write_eq_parts]
  refine Writes.dialect ?_
  rw [ho, show symbol = op.symbol from sound]
  dsimp only
  rw [k.operand_around]
  exact h

theorem writes_bitNot (k : Collapse) (ho : Capability.bitNot d = .operator symbol)
    (h : Writes π a b (do sql "~"; (Node.field x).write) ts) : Writes π a b (Node.field (.bitNot (k.around x))).write ts := by
  have sound := Capability.bitNot_sound d
  rw [ho] at sound
  rw [Node.write_eq_parts]
  refine Writes.dialect ?_
  rw [ho, show symbol = "~" from sound]
  dsimp only
  rw [k.prefixed_around]
  exact h

theorem write_neg (k : Collapse) (x : Field) :
    (Node.field (.neg (k.around x))).write = (do sql "-"; (Node.field x).write) := by
  rw [Node.write_eq_parts]
  exact k.prefixed_around x "-"

/-- What is the same step in a dialect writes the same. -/
theorem writes_congr {m m' : Render Unit} (hm : ∀ c : Context, c.dialect = d → m c = m' c) (h : Writes π a b m' ts) :
    Writes π a b m ts := by
  intro c hc
  rw [hm c (π.dialect hc)]
  exact h c hc

/-- Where the part holds together, the collapsed field is read as the part. -/
theorem Holds.writtenBy {slot : Slot} (h : slot.Holds d x) (k : Collapse) (hπ : π.mayFail) (hf : slot.fill x = .field y)
    (hy : y.Arithmetic d) : y.WrittenBy π .gap 0 (slot.fill (k.around x)).write := by
  have same : slot.parenthesizes d x = false → y.WrittenBy π .gap 0 (slot.fill (k.around x)).write := by
    intro hp
    refine (((hy.writtenBy hπ).ofOpening).loosen (Nat.zero_le _)).map fun ts => writes_congr fun c hc => ?_
    rw [← hf]
    exact write_collapse slot k (hc ▸ hp)
  cases slot with
  | left op r =>
    cases hf
    cases hy with
    | arithmetic hx hr =>
      cases ho : op.operation d with
      | operator symbol =>
        have left := (hx.writtenBy hπ).ofOpening.loosen (h (by rw [ho]; rfl))
        have between := left.operator (Field.writtenBy_operand_of_gap op true (hr.writtenBy hπ))
        exact ((Field.WrittenBy.ofBetween between).loosen (Nat.zero_le _)).map fun ts => writes_left k ho
      | function f | unsupported => exact same (by rw [parenthesizes, ho]; rfl)
  | right op l =>
    cases hf
    cases hy with
    | arithmetic hl hx =>
      cases ho : op.operation d with
      | operator symbol =>
        have tight : 10 + op.precedence < x.tightness d := h (by rw [ho]; rfl)
        have right := (hx.writtenBy hπ).ofOpening.loosen (show 11 + op.precedence ≤ _ by omega)
        have between := (Field.writtenBy_operand_of_gap op false (hl.writtenBy hπ)).operator right
        exact ((Field.WrittenBy.ofBetween between).loosen (Nat.zero_le _)).map fun ts => writes_right k ho
      | function f | unsupported => exact same (by rw [parenthesizes, ho]; rfl)
  | neg =>
    cases hf
    cases hy with
    | neg hx =>
      have operand := (hx.writtenBy hπ).loosen h.1
      rw [h.2] at operand
      show Field.WrittenBy π _ .gap 0 (Node.field (.neg (k.around x))).write
      rw [write_neg]
      exact operand.minus.loosen (Nat.zero_le _)
  | bitNot =>
    cases hf
    cases hy with
    | bitNot hx =>
      cases ho : Capability.bitNot d with
      | operator symbol =>
        have operand := (hx.writtenBy hπ).ofOpening.loosen (h (by rw [ho]; rfl))
        exact (operand.complement.ofSign.loosen (Nat.zero_le _)).map fun ts => writes_bitNot k ho
      | function f | unsupported => exact same (by rw [parenthesizes, ho]; rfl)
  | compared op r | comparedWith op l | between l h negated | low x h negated | high x l negated | nullTest negated =>
    cases hf

/-- Where the part does not hold together, the collapsed field is read as another one, or it begins with two signs. -/
theorem misread_of_not_holds {slot : Slot} (h : ¬ slot.Holds d x) (k : Collapse) (hπ : π.mayFail)
    (hf : slot.fill x = .field y) (hy : y.Arithmetic d) :
    y.Misread π .gap (slot.fill (k.around x)).write ∨ (slot = .neg ∧ x.opening d = .gap) := by
  cases slot with
  | left op r =>
    cases hf
    cases hy with
    | arithmetic hx hr =>
      obtain ⟨hop, loose⟩ := Classical.not_imp.1 h
      cases ho : op.operation d with
      | operator symbol =>
        have right := Field.writtenBy_operand_of_gap op true (hr.writtenBy hπ)
        obtain ⟨ts, other, hw⟩ := hx.misread_left hπ (Nat.lt_of_not_le loose) right
        exact .inl ⟨ts, other, writes_left k ho (Field.writes_of_opening x hw)⟩
      | function f | unsupported =>
        rw [ho] at hop
        cases hop
  | right op l =>
    cases hf
    cases hy with
    | arithmetic hl hx =>
      obtain ⟨hop, loose⟩ := Classical.not_imp.1 h
      cases ho : op.operation d with
      | operator symbol =>
        have left := Field.writtenBy_operand_of_gap op false (hl.writtenBy hπ)
        obtain ⟨ts, other, hw⟩ := hx.misread_right hπ (Nat.le_of_not_lt loose) left
        exact .inl ⟨ts, other, writes_right k ho hw⟩
      | function f | unsupported =>
        rw [ho] at hop
        cases hop
  | neg =>
    cases hf
    cases hy with
    | neg hx =>
      rcases x.opening_cases d with ho | ho
      · exact .inr ⟨rfl, ho⟩
      · refine .inl ?_
        show Field.Misread π _ .gap (Node.field (.neg (k.around x))).write
        rw [write_neg]
        exact hx.misread_neg hπ (Nat.lt_of_not_le fun tight => h ⟨tight, ho⟩) ho
  | bitNot =>
    cases hf
    cases hy with
    | bitNot hx =>
      obtain ⟨hop, loose⟩ := Classical.not_imp.1 h
      cases ho : Capability.bitNot d with
      | operator symbol =>
        obtain ⟨ts, other, hw⟩ := hx.misread_bitNot hπ (Nat.lt_of_not_le loose)
        exact .inl ⟨ts, other, writes_bitNot k ho hw.ofSign⟩
      | function f | unsupported =>
        rw [ho] at hop
        cases hop
  | compared op r | comparedWith op l | between l h negated | low x h negated | high x l negated | nullTest negated =>
    cases hf

end

/-- The negative of what begins with a sign is written with two signs. -/
theorem two_dashes {d : Dialect} {s : Settings} {x : Field} {r : Rendered} (hx : x.Arithmetic d)
    (ho : x.opening d = .gap) (k : Collapse) (hr : (Node.field (.neg (k.around x))).render d s = .ok r) :
    ['-', '-'] <:+: r.sql.toList := by
  unfold Node.render at hr
  rw [write_neg] at hr
  split at hr
  · next c hc =>
    cases hr
    replace hc : (Node.field x).write (.after d s (Output.empty.write d s (.text "-"))) = .ok () c := hc
    obtain ⟨-, ps, pieces⟩ := hx.begins (π := .outside d s True) trivial ho _ c ⟨_, rfl⟩ hc
    replace pieces : c.output = Output.empty.writeAll d s (.text "-" :: .text "-" :: ps) := pieces
    rw [Context.finish, pieces, Output.finish_writeAll, String.toList_ofList]
    have chars : ∀ n, Piece.chars d s n (.text "-") = ['-'] := fun n => by
      rw [Piece.chars_text _ _ _ (by rintro v ⟨⟩)]
      simp [Piece.spell]
    rw [Piece.allChars, Piece.allChars, chars, chars]
    exact ⟨[], _, rfl⟩
  · cases hr

/-- The collapsed field is read as its part exactly where the part holds together. -/
theorem collapse_read_back_iff {slot : Slot} {d : Dialect} {s : Settings} {x y : Field} {r : Rendered} (k : Collapse)
    (hf : slot.fill x = .field y) (hy : y.Arithmetic d) (hr : (slot.fill (k.around x)).render d s = .ok r) :
    ((∃ e, r.expression? d .arithmetic = some e ∧ e.field? d = some y.untyped) ∧ ¬ ['-', '-'] <:+: r.sql.toList) ↔
      slot.Holds d x := by
  constructor
  · rintro ⟨⟨e, he, hy'⟩, dashes⟩
    by_contra h
    rcases misread_of_not_holds (π := .outside d s True) h k trivial hf hy with ⟨ts, ⟨e', rfl, hw, other⟩, hts⟩ | ⟨rfl, ho⟩
    · rw [Rendered.expression?, hts.tokens? hr, Option.bind_some, Expression.read_tokens hw] at he
      cases he
      exact other hy'
    · cases hf
      cases hy with
      | neg hx => exact dashes (two_dashes hx ho k hr)
  · intro h
    obtain ⟨e, he, -, hw⟩ := h.writtenBy (π := .outside d s True) k trivial hf hy
    have hts := hw.tokens? hr
    refine ⟨⟨e, ?_, he.field⟩, r.not_two_dashes hts he.dashless⟩
    rw [Rendered.expression?, hts]
    exact Expression.read_tokens he.wellFormed

/-- What becomes of an operand when a field that collapses to it takes its place: it is refused where the operand is;
where the operand gets no parentheses, the text is the same; and in arithmetic the text is read as the field with the
operand itself, and has no two dashes in a row, exactly where the operand holds together without parentheses. -/
theorem collapse_transparent (d : Dialect) (s : Settings) (slot : Slot) (k : Collapse) (x : Field) :
    (∀ e, (slot.fill (k.around x)).render d s = .error e ↔ (slot.fill x).render d s = .error e) ∧
    (slot.parenthesizes d x = false → (slot.fill (k.around x)).render d s = (slot.fill x).render d s) ∧
    ∀ y r, slot.fill x = .field y → y.Arithmetic d → (slot.fill (k.around x)).render d s = .ok r →
      (((∃ e, r.expression? d .arithmetic = some e ∧ e.field? d = some y.untyped) ∧ ¬ ['-', '-'] <:+: r.sql.toList) ↔
        slot.Holds d x) :=
  ⟨render_collapse_error_iff k x d s slot, render_collapse d s slot k,
    fun _ _ hf hy hr => collapse_read_back_iff k hf hy hr⟩

end Slot

/-! ## A sum and a negative -/

namespace LostParentheses

def product : Field := .arithmetic .mul (.col "a") (.col "b")

def sum : Field := .arithmetic .add (.col "a") (.col "b")

theorem render_product :
    (Node.field (.arithmetic .mul product (.col "c"))).render .default .default = .ok ⟨"a * b * c", []⟩ := by
  have reach : (Node.field (.arithmetic .mul product (.col "c"))).reach = 3 := by
    simp [Node.reach_eq, Node.weight, Node.children, Node.fieldChildren, product, Field.col]
  unfold Node.render Node.write
  rw [reach]
  decide +kernel

/-- The least of one product is a factor like the product. -/
theorem product_transparent :
    (Node.field (.arithmetic .mul (.extremum .least [product]) (.col "c"))).render .default .default
        = .ok ⟨"a * b * c", []⟩ ∧
      (∃ e, (⟨"a * b * c", []⟩ : Rendered).expression? .default .arithmetic = some e ∧
        e.field? .default = some (Field.arithmetic .mul product (.col "c")).untyped) ∧
      ¬ ['-', '-'] <:+: "a * b * c".toList := by
  have column : ∀ n, isPlainName n = true → (Field.col n).Arithmetic .default :=
    fun n hn => .column hn (by rintro t ⟨⟩)
  have arithmetic : (Field.arithmetic .mul product (.col "c")).Arithmetic .default :=
    .arithmetic (.arithmetic (column "a" (by decide)) (column "b" (by decide))) (column "c" (by decide))
  obtain ⟨-, same, read⟩ :=
    Slot.collapse_transparent .default .default (.left .mul (.col "c")) (.extremum .least) product
  have rendered := (same rfl).trans render_product
  exact ⟨rendered, (read _ _ rfl arithmetic rendered).2 fun _ => Nat.le_refl 19⟩

theorem render_sum : (Node.field (.arithmetic .mul sum (.col "c"))).render .default .default = .ok ⟨"(a + b) * c", []⟩ := by
  have reach : (Node.field (.arithmetic .mul sum (.col "c"))).reach = 3 := by
    simp [Node.reach_eq, Node.weight, Node.children, Node.fieldChildren, sum, Field.col]
  unfold Node.render Node.write
  rw [reach]
  decide +kernel

theorem render_greatest : (Node.field (.arithmetic .mul (.extremum .greatest [sum]) (.col "c"))).render .default .default =
    .ok ⟨"a + b * c", []⟩ := by
  have reach : (Node.field (.arithmetic .mul (.extremum .greatest [sum]) (.col "c"))).reach = 12 := by
    simp [Node.reach_eq, Node.weight, Node.children, Node.fieldChildren, sum, Field.col]
  unfold Node.render Node.write
  rw [reach]
  decide +kernel

theorem render_negative : (Node.field (.neg (.extremum .greatest [.neg (.col "a")]))).render .default .default =
    .ok ⟨"--a", []⟩ := by
  have reach : (Node.field (.neg (.extremum .greatest [.neg (.col "a")]))).reach = 12 := by
    simp [Node.reach_eq, Node.weight, Node.children, Node.fieldChildren, Field.col]
  unfold Node.render Node.write
  rw [reach]
  decide +kernel

/-- `a + (b * c)` -/
def read : Expression :=
  .binary (.arithmetic .add) (.atom (.word "a"))
    (.binary (.arithmetic .mul) (.atom (.word "b")) (.atom (.word "c")))

theorem tokens_read : (⟨"a + b * c", []⟩ : Rendered).tokens? .default = some read.tokens := by
  decide +kernel

/-- The greatest of one sum is no factor like the sum: what is read is the sum of `a` and a product. The negative of
the greatest of one negative begins a comment. -/
theorem collapse_misread :
    (∃ r, (Node.field (.arithmetic .mul (.extremum .greatest [sum]) (.col "c"))).render .default .default = .ok r ∧
      (r.expression? .default .arithmetic).bind (Expression.field? .default)
        = some (Field.arithmetic .add (.col "a") (.arithmetic .mul (.col "b") (.col "c"))).untyped) ∧
    (Node.field (.arithmetic .mul sum (.col "c"))).render .default .default = .ok ⟨"(a + b) * c", []⟩ ∧
    ∃ r, (Node.field (.neg (.extremum .greatest [.neg (.col "a")]))).render .default .default = .ok r ∧
      ['-', '-'] <:+: r.sql.toList := by
  refine ⟨⟨_, render_greatest, ?_⟩, render_sum, _, render_negative, [], ['a'], by decide⟩
  have parsed : Expression.read .arithmetic read.tokens = some read := rfl
  rw [Rendered.expression?, tokens_read, Option.bind_some, parsed]
  simp [read, Expression.field?, Token.name?, Field.col]

end LostParentheses

end SqlDialects
