import SqlDialects.Proofs.Grammar.Predicates
import SqlDialects.Proofs.Grammar.Runs

/-!
# Conditions mean what their texts mean

Parentheses are written around a run of the other connective only. That is enough because no run has fewer than
two members: what a condition is written as holds together at least as tightly as its outermost connective. So by
induction over the condition its text is read as an expression that is true whenever the condition is.

An exclusive or that is an operator of its own binds less tightly than `AND`, and it gets no parentheses in a run
of it. There the text is read otherwise, so such runs are excluded (`Condition.bareXor`).
-/

set_option autoImplicit false

namespace SqlDialects

namespace Condition

def isXor : Condition → Bool
  | xor _ _ => true
  | _ => false

mutual

/-- Whether an exclusive or stands in a run of `AND` as one of its members. -/
def bareXor : Condition → Bool
  | combined op cs => bareXors op cs
  | xor l r => l.bareXor || r.bareXor
  | not c => c.bareXor
  | _ => false

def bareXors (op : Connective) : List Condition → Bool
  | [] => false
  | c :: cs => (decide (op = .and) && c.isXor) || c.bareXor || bareXors op cs

end

/-- How tightly a condition holds together where it is written without parentheses. -/
def binding (d : Dialect) : Condition → Nat
  | combined op _ => (Grammar.logic d).level op.binary
  | xor _ _ => if Capability.xor d = .native then 2 else 4
  | _ => 4

open Render

variable {d : Dialect} {s : Settings} {π : Place d s}

/-- A member of a run holds together at least as tightly as the connective, in parentheses if need be. -/
theorem writtenBy_conjunct {M : Meaning d} {c : Condition} {op : Connective}
    (hx : Capability.xor d = .native → op = .and → c.isXor = false)
    (h : M.WrittenBy π (c.binding d) (Node.condition c).write) :
    M.WrittenBy π ((Grammar.logic d).level op.binary) (Visitor.conjunct Node.write op c) := by
  have low : (Grammar.logic d).level op.binary ≤ 3 := Connective.level_le _ op
  unfold Visitor.conjunct
  split
  · next op' cs =>
    split
    · next ho =>
      subst ho
      exact h
    · exact h.parenthesized.loosen (by omega)
  · next hc =>
    refine h.loosen ?_
    unfold binding
    split
    · next op' cs => exact absurd rfl (hc op' cs)
    · split
      · next hd =>
        cases op with
        | and => exact absurd (hx hd rfl) (by simp [isXor])
        | or => exact (by decide : 1 ≤ 2)
      · omega
    · omega

/-- A run means what the connective makes of its members. -/
theorem meaning_combined (op : Connective) (cs : List Condition) :
    (combined op cs).meaning d s = Meaning.run op (cs.map (meaning d s)) := by
  have members : ∀ {V : Type} (I : Interpretation d V),
      truths I s op cs = ((cs.map (meaning d s)).map fun M => M V I).foldr op.join op.unit := by
    intro V I
    induction cs with
    | nil => rfl
    | cons c cs ih =>
      rw [truths, ih]
      rfl
  funext V I
  rw [meaning, truth, members, Meaning.run]

theorem meaning_xor (l r : Condition) : (xor l r).meaning d s = (l.meaning d s).xor (r.meaning d s) := by
  funext V I
  rw [meaning, truth]
  rfl

theorem meaning_not (c : Condition) : (not c).meaning d s = (c.meaning d s).not := by
  funext V I
  rw [meaning, truth]
  rfl

/-- A run of two or more is written as such. -/
theorem combined_eq_separated (op : Connective) {cs : List Condition} (two : 2 ≤ cs.length) :
    Visitor.combined Node.write op cs = separated op.keyword (cs.map (Visitor.conjunct Node.write op)) := by
  match cs, two with
  | _ :: _ :: _, _ => rfl

theorem of_bareXors {op : Connective} {cs : List Condition} (h : bareXors op cs = false) {c : Condition} (hc : c ∈ cs) :
    (op = .and → c.isXor = false) ∧ c.bareXor = false := by
  induction cs with
  | nil => cases hc
  | cons c' cs ih =>
    simp only [bareXors, Bool.or_eq_false_iff, Bool.and_eq_false_iff] at h
    rcases List.mem_cons.1 hc with rfl | hc
    · refine ⟨fun ho => ?_, h.1.2⟩
      exact h.1.1.resolve_left (by simp [ho])
    · exact ih h.2 hc

/-- A condition is written as an expression that means it. -/
theorem Grouped.writtenBy {c : Condition} (h : c.Grouped π) (hπ : ¬ π.mayFail)
    (hb : Capability.xor d = .native → c.bareXor = false) : c.WrittenBy π (c.binding d) (Node.condition c).write := by
  induction h with
  | none =>
    rw [Node.write_eq_parts]
    exact writtenBy_none.loosen (show 4 ≤ 5 by decide)
  | compare op hl hr =>
    rw [Node.write_eq_parts]
    exact (writtenBy_compare op hl hr).loosen (show 4 ≤ 5 by decide)
  | isNull hx negated =>
    rw [Node.write_eq_parts]
    exact (writtenBy_isNull hx negated).loosen (show 4 ≤ 5 by decide)
  | between hx hl hh negated =>
    rw [Node.write_eq_parts]
    exact (writtenBy_between hx hl hh negated).loosen (show 4 ≤ 5 by decide)
  | inList hx hxs negated =>
    rw [Node.write_eq_parts]
    exact (writtenBy_inList hx hxs negated).loosen (show 4 ≤ 5 by decide)
  | existence hq negated =>
    rw [Node.write_eq_parts]
    exact writtenBy_existence hq hπ negated
  | field hx =>
    rw [Node.write_eq_parts]
    exact (writtenBy_field hx).loosen (show 4 ≤ 5 by decide)
  | @combined op cs two _ ih =>
    have members : List.Forall₂ (fun M m => M.WrittenBy π ((Grammar.logic d).level op.binary) m)
        (cs.map (meaning d s)) (cs.map (Visitor.conjunct Node.write op)) := by
      rw [List.forall₂_map_left_iff, List.forall₂_map_right_iff, List.forall₂_same]
      intro c hc
      have hx := fun hd => of_bareXors (hb hd) hc
      exact writtenBy_conjunct (fun hd => (hx hd).1) (writtenBy_iff.1 (ih c hc fun hd => (hx hd).2))
    have nonempty : cs.map (meaning d s) ≠ [] := by
      rw [ne_eq, List.map_eq_nil_iff]
      rintro rfl
      cases two
    rw [Node.write_eq_parts, writtenBy_iff, meaning_combined]
    show (Meaning.run op _).WrittenBy π _ (Visitor.combined Node.write op cs)
    rw [combined_eq_separated op two]
    exact Meaning.writes_run nonempty members
  | @xor l r _ _ ihl ihr =>
    have sides : ∀ hd, l.bareXor = false ∧ r.bareXor = false := fun hd => by
      simpa [bareXor] using hb hd
    rw [Node.write_eq_parts, writtenBy_iff, meaning_xor]
    exact Meaning.writtenBy_xor (writtenBy_iff.1 (ihl fun hd => (sides hd).1))
      (writtenBy_iff.1 (ihr fun hd => (sides hd).2))
  | not _ ih =>
    rw [Node.write_eq_parts, writtenBy_iff, meaning_not]
    exact (writtenBy_iff.1 (ih hb)).not

/-- What has a meaning is rendered, and its text is read as an expression with the meaning. -/
theorem exists_read_back {M : Meaning d} {c : Condition} {k : Nat} (h : M.WrittenBy π k (Node.condition c).write)
    (hπ : ¬ π.mayFail) : ∃ r e, (Node.condition c).render d s = .ok r ∧ r.expression? d (.logic d) = some e ∧
      ∀ {V : Type} (I : Interpretation d V), e.truth I = M V I := by
  obtain ⟨e, he, -, hw⟩ := h
  obtain ⟨r, hr⟩ := hw.exists_render hπ
  refine ⟨r, e, hr, ?_, he.truth⟩
  rw [Rendered.expression?, hw.tokens? hr]
  exact Expression.read_tokens he.wellFormed

/-- A condition is rendered, and what it is read as is true whenever it is. -/
theorem Grouped.exists_equivalent {c : Condition} (h : c.Grouped π) (hπ : ¬ π.mayFail)
    (hb : Capability.xor d = .native → c.bareXor = false) :
    ∃ r e, (Node.condition c).render d s = .ok r ∧ r.expression? d (.logic d) = some e ∧
      ∀ {V : Type} (I : Interpretation d V), e.truth I = c.truth I s :=
  exists_read_back (writtenBy_iff.1 (h.writtenBy hπ hb)) hπ

/-- Where the exclusive or is a comparison of groups, a condition that is built is rendered, and its text is read as an
expression that is true whenever the condition is. -/
theorem Built.equivalent_read_back {c : Condition} (hd : Capability.xor d = .notEqual)
    (h : c.Built (.outside d s False)) :
    ∃ r e, (Node.condition c).render d s = .ok r ∧ r.expression? d (.logic d) = some e ∧
      ∀ {V : Type} (I : Interpretation d V), e.truth I = c.truth I s :=
  h.grouped.exists_equivalent id fun hn => by rw [hd] at hn; cases hn

/-- Where the exclusive or is an operator of its own, the same holds of the conditions in which it is no member of a
run of `AND`. -/
theorem Built.equivalent_read_back_native {c : Condition} (h : c.Built (.outside d s False)) (hb : c.bareXor = false) :
    ∃ r e, (Node.condition c).render d s = .ok r ∧ r.expression? d (.logic d) = some e ∧
      ∀ {V : Type} (I : Interpretation d V), e.truth I = c.truth I s :=
  h.grouped.exists_equivalent id fun _ => hb

end Condition

/-! ## Conditions that are rendered -/

variable {d : Dialect} {s : Settings} {fails : Prop}

/-- A step that stays outside of queries, and that succeeds only if something holds. -/
def Render.Needs (d : Dialect) (s : Settings) (P : Prop) (m : Render Unit) : Prop :=
  ∀ o k, m (.after d s o) = .ok () k → (∃ o', k = .after d s o') ∧ P

namespace Render.Needs

variable {P Q : Prop} {m : Render Unit}

theorem imp (h : Needs d s P m) (hq : P → Q) : Needs d s Q m :=
  fun o k hk => (h o k hk).imp_right hq

theorem node (n : Node) : Needs d s (∃ k, n.write (Context.new d s) = .ok () k) n.write := by
  intro o k hk
  obtain ⟨k', hn, hk'⟩ := Node.write_behind hk
  exact ⟨⟨_, hk'⟩, k', hn⟩

theorem sql (text : String) : Needs d s True (Render.sql text) := by
  rintro o _ ⟨⟩
  exact ⟨⟨o.write d s (.text text), rfl⟩, trivial⟩

theorem bind {f : Unit → Render Unit} (hm : Needs d s P m) (hf : Needs d s Q (f ())) : Needs d s (P ∧ Q) (m >>= f) := by
  intro o k hk
  cases hr : m (.after d s o) with
  | error e k' =>
    rw [bind_error hr] at hk
    cases hk
  | ok u k' =>
    obtain ⟨⟨o', rfl⟩, hp⟩ := hm o k' hr
    rw [bind_ok hr] at hk
    exact (hf o' k hk).imp_right fun hq => ⟨hp, hq⟩

theorem dialect {f : Dialect → Render Unit} (h : Needs d s P (f d)) : Needs d s P (Render.dialect >>= f) := h

theorem parenthesized (h : Needs d s P m) : Needs d s P (Render.parenthesized m) :=
  ((sql "(").bind (h.bind (sql ")"))).imp fun hp => hp.2.1

theorem separated {α : Type} {p : α → Prop} {f : α → Render Unit} {xs : List α} (between : String)
    (h : ∀ x ∈ xs, Needs d s (p x) (f x)) : Needs d s (∀ x ∈ xs, p x) (Render.separated between (xs.map f)) := by
  induction xs with
  | nil =>
    rintro o _ ⟨⟩
    exact ⟨⟨o, rfl⟩, List.forall_mem_nil _⟩
  | cons x xs ih =>
    have hx := h x (List.mem_cons_self ..)
    have hxs := ih fun y hy => h y (List.mem_cons_of_mem _ hy)
    cases xs with
    | nil => exact hx.imp List.forall_mem_singleton.2
    | cons y ys => exact (hx.bind ((sql between).bind hxs)).imp fun hp => List.forall_mem_cons.2 ⟨hp.1, hp.2.2⟩

end Render.Needs

/-- A subquery that is written at all is written wherever it stands outside of queries. -/
theorem Select.Legible.of_write {q : Select} (h : q.Legible (.outside d s fails)) {k : Context}
    (hk : (Node.field (.subquery q)).write (Context.new d s) = .ok () k) : q.Legible (.outside d s False) := by
  obtain ⟨ts, balanced, written⟩ := h
  refine ⟨ts, balanced, ?_⟩
  rintro _ ⟨o, rfl⟩
  rcases written _ ⟨o, rfl⟩ with ok | ⟨-, e, k', he⟩
  · exact .inl ok
  · have hr : (Node.field (.subquery q)).write (.after d s o) = _ := Node.write_after hk o
    rw [hr] at he
    cases he

namespace Condition

/-- A condition is refused where one of its subqueries is. -/
theorem Grouped.needs {c : Condition} (h : c.Grouped (.outside d s fails)) :
    Render.Needs d s (c.Grouped (.outside d s False)) (Node.condition c).write := by
  have node := Render.Needs.node (d := d) (s := s)
  induction h with
  | none => exact (node _).imp fun _ => .none
  | compare op hl hr => exact (node _).imp fun _ => .compare op hl hr
  | isNull hx negated => exact (node _).imp fun _ => .isNull hx negated
  | between hx hl hh negated => exact (node _).imp fun _ => .between hx hl hh negated
  | inList hx hxs negated => exact (node _).imp fun _ => .inList hx hxs negated
  | field hx => exact (node _).imp fun _ => .field hx
  | @existence q hq negated =>
    have group := node (.field (.subquery q))
    rw [Node.write_eq_parts] at group
    rw [Node.write_eq_parts]
    refine ((Render.Needs.sql _).bind group).imp ?_
    rintro ⟨-, k, hk⟩
    rw [← Node.write_eq_parts] at hk
    exact .existence (hq.of_write hk) negated
  | @combined op cs two _ ih =>
    have conjunct : ∀ c ∈ cs, Render.Needs d s (c.Grouped (.outside d s False)) (Visitor.conjunct Node.write op c) := by
      intro c hc
      unfold Visitor.conjunct
      split
      · split
        · exact ih _ hc
        · exact (ih _ hc).parenthesized
      · exact ih c hc
    rw [Node.write_eq_parts]
    show Render.Needs d s _ (Visitor.combined Node.write op cs)
    rw [combined_eq_separated op two]
    exact (Render.Needs.separated _ conjunct).imp (.combined two)
  | xor _ _ ihl ihr =>
    rw [Node.write_eq_parts]
    exact (Render.Needs.dialect (ihl.parenthesized.bind ((Render.Needs.sql _).bind ihr.parenthesized))).imp fun h =>
      .xor h.1 h.2.2
  | not _ ih =>
    rw [Node.write_eq_parts]
    exact ((Render.Needs.sql _).bind ih.parenthesized).imp fun h => .not h.2

/-- A subquery may be one of which it is only known that it is written as one group if it is written at all. Then the
text of a condition that is rendered is read as an expression that is true whenever the condition is. -/
theorem Grouped.rendered_read_back {c : Condition} (h : c.Grouped (.outside d s fails))
    (hb : Capability.xor d = .native → c.bareXor = false) {r : Rendered} (hr : (Node.condition c).render d s = .ok r) :
    ∃ e, r.expression? d (.logic d) = some e ∧ ∀ {V : Type} (I : Interpretation d V), e.truth I = c.truth I s := by
  have grouped : c.Grouped (.outside d s False) := by
    unfold Node.render at hr
    split at hr
    · next k hk => exact (h.needs .empty k hk).2
    · cases hr
  obtain ⟨r', e, hr', read⟩ := grouped.exists_equivalent id hb
  cases hr.symm.trans hr'
  exact ⟨e, read⟩

end Condition

/-! ## Every connective in one condition -/

namespace MixedConnectives

/-- `(a = 1 OR b BETWEEN 2 AND 3)`, and exactly one of `c IS NULL` and the absent condition. -/
def condition : Condition :=
  ((Condition.compare .eq (.col "a") (.value (.int 1))).or
    (.between (.col "b") (.value (.int 2)) (.value (.int 3)) false)).and
      (.xor ((Field.col "c").nullTest false) .none)

theorem built : condition.Built (.outside .postgres14 .default False) := by
  have column : ∀ n, (Field.col n).Operand .default := fun n => .column (by rintro ⟨⟩) (by rintro t ⟨⟩)
  refine .and (.or (.compare .eq (column "a") (.value _)) ?_) (.xor (.nullTest (column "c") false) .none)
  exact .between (column "b") (.value _) (.value _) false

theorem render : (Node.condition condition).render .postgres14 .default = .ok
    ⟨"(a = $1 OR b BETWEEN $2 AND $3) AND (c IS NULL) <> (1 = 1)", [.int 1, .int 2, .int 3]⟩ := by
  have reach : (Node.condition condition).reach = 4 := by
    simp [Node.reach_eq, Node.weight, Node.children, Node.conditionChildren, Node.fieldChildren, condition, Field.col,
      Condition.or, Condition.and, Condition.join, Field.nullTest]
  unfold Node.render Node.write
  rw [reach]
  decide +kernel

theorem condition_equivalent_read_back :
    ∃ e, (⟨"(a = $1 OR b BETWEEN $2 AND $3) AND (c IS NULL) <> (1 = 1)", [.int 1, .int 2, .int 3]⟩ :
        Rendered).expression? .postgres14 (.logic .postgres14) = some e ∧
      ∀ {V : Type} (I : Interpretation .postgres14 V), e.truth I = condition.truth I .default := by
  obtain ⟨r, e, hr, he, truth⟩ := Condition.Built.equivalent_read_back rfl built
  cases hr.symm.trans render
  exact ⟨e, he, truth⟩

end MixedConnectives

/-! ## An exclusive or in a run -/

namespace BareXor

/-- What is `a`, and what is one and the same, is equal. -/
def interpretation : Interpretation .mySql8 (List Token) where
  value := Expression.tokens
  compare _ v w := .ofBool (decide (v = [.word "a"]) || decide (v = w))
  isNull _ := false
  holds _ := .true
  rows _ := true
  one_eq_one := by decide
  one_ne_zero := by decide
  numeric h := by cases h

def equals (n : String) (i : Int) : Condition := .compare .eq (.col n) (.literal (.int i))

theorem built_equals (n : String) (i : Int) : (equals n i).Built (.outside .mySql8 .default False) :=
  .compare .eq (.column (by rintro ⟨⟩) (by rintro t ⟨⟩)) (.inline _)

/-- Exactly one of `a = 1` and `b = 2`, or `c = 3`. -/
def alternative : Condition := (Condition.xor (equals "a" 1) (equals "b" 2)).or (equals "c" 3)

/-- Exactly one of `a = 1` and `b = 2`, and `c = 3`. -/
def conjunction : Condition := (Condition.xor (equals "a" 1) (equals "b" 2)).and (equals "c" 3)

theorem render_alternative :
    (Node.condition alternative).render .mySql8 .default = .ok ⟨"(a = 1) XOR (b = 2) OR c = 3", []⟩ := by
  have reach : (Node.condition alternative).reach = 4 := by
    simp [Node.reach_eq, Node.weight, Node.children, Node.conditionChildren, Node.fieldChildren, alternative, equals,
      Field.col, Field.literal, Condition.or, Condition.join]
  unfold Node.render Node.write
  rw [reach]
  decide +kernel

theorem render_conjunction :
    (Node.condition conjunction).render .mySql8 .default = .ok ⟨"(a = 1) XOR (b = 2) AND c = 3", []⟩ := by
  have reach : (Node.condition conjunction).reach = 4 := by
    simp [Node.reach_eq, Node.weight, Node.children, Node.conditionChildren, Node.fieldChildren, conjunction, equals,
      Field.col, Field.literal, Condition.and, Condition.join]
  unfold Node.render Node.write
  rw [reach]
  decide +kernel

theorem alternative_equivalent_read_back :
    ∃ e, (⟨"(a = 1) XOR (b = 2) OR c = 3", []⟩ : Rendered).expression? .mySql8 (.logic .mySql8) = some e ∧
      ∀ {V : Type} (I : Interpretation .mySql8 V), e.truth I = alternative.truth I .default := by
  have built : alternative.Built (.outside .mySql8 .default False) :=
    .or (.xor (built_equals "a" 1) (built_equals "b" 2)) (built_equals "c" 3)
  obtain ⟨r, e, hr, he, truth⟩ := Condition.Built.equivalent_read_back_native built (by decide)
  cases hr.symm.trans render_alternative
  exact ⟨e, he, truth⟩

/-- In a run of `AND` the exclusive or loses its right side to the run: the condition is false where `c` is not
three, and its text is true there. -/
theorem conjunction_misread : conjunction.Built (.outside .mySql8 .default False) ∧
    (Node.condition conjunction).render .mySql8 .default = .ok ⟨"(a = 1) XOR (b = 2) AND c = 3", []⟩ ∧
    ((⟨"(a = 1) XOR (b = 2) AND c = 3", []⟩ : Rendered).expression? .mySql8 (.logic .mySql8)).map
      (Expression.truth interpretation) = some .true ∧
    conjunction.truth interpretation .default = .false :=
  ⟨.and (.xor (built_equals "a" 1) (built_equals "b" 2)) (built_equals "c" 3), render_conjunction, by decide +kernel,
    by decide +kernel⟩

end BareXor

end SqlDialects
