import SqlDialects.Proofs.Grammar.Conditions
import SqlDialects.Proofs.Query.Assembly

/-!
# A run of one condition

A transformation may wrap a condition in a run that holds nothing else. Such a run is written as its member is, while
what stands around it decides on parentheses by the connective of the run. Nearly everywhere that does no harm: a
member of a run gets parentheses that it does not need, or loses some that it does not need either.

One place is left, a run of `OR` that is a member of a run of `AND` and is wrapped in a run of `AND`: it loses the
parentheses that it needs (`Condition.Hole.Exposes`). Everywhere else the text is read as an equivalent expression
(`Condition.wrapped_equivalent_read_back`), in all dialects without an operator for the exclusive or, for conditions
over any tests whose texts hold together by themselves.
-/

set_option autoImplicit false

namespace SqlDialects

namespace Condition

open Render

/-! ## Places in a condition -/

/-- A place in a condition, with what stands around it. -/
inductive Hole where
  | here
  | member (op : Connective) (before : List Condition) (inside : Hole) (after : List Condition)
  | xorLeft (inside : Hole) (right : Condition)
  | xorRight (left : Condition) (inside : Hole)
  | not (inside : Hole)

namespace Hole

/-- The condition at its place. -/
def fill (c : Condition) : Hole → Condition
  | here => c
  | member op before inside after => combined op (before ++ inside.fill c :: after)
  | xorLeft inside right => xor (inside.fill c) right
  | xorRight left inside => xor left (inside.fill c)
  | not inside => Condition.not (inside.fill c)

/-- The connective of the run that the place is a member of. -/
def connective? : Hole → Option Connective
  | here => .none
  | member op _ here _ => some op
  | member _ _ inside _ | xorLeft inside _ | xorRight _ inside | not inside => inside.connective?

/-- Whether a condition loses parentheses that it needs at the place if it is wrapped in a run of the connective. -/
def Exposes (h : Hole) (wrapper : Connective) (c : Condition) : Prop :=
  h.connective? = some .and ∧ wrapper = .and ∧ ∃ cs, c = combined .or cs

end Hole

variable {d : Dialect} {s : Settings} {π : Place d s} {c : Condition}

/-! ## What conditions over tests are read as -/

/-- The text of the condition is read as an expression that holds together more tightly than the connectives. -/
def StandsAlone (π : Place d s) (c : Condition) : Prop :=
  ∃ e : Expression, e.WellFormed (.logic d) ∧ 4 ≤ e.level (.logic d) ∧
    Writes π .gap .joint (Node.condition c).write e.tokens

/-- The tests over columns and values stand alone. -/
theorem Grouped.standsAlone (h : c.Grouped π) (hπ : ¬ π.mayFail) (test : c.isTest = true) : c.StandsAlone π := by
  have noXor : c.bareXor = false := by cases c <;> first | rfl | cases test
  have binding : c.binding d = 4 := by cases c <;> first | rfl | cases test
  obtain ⟨e, he, hl, hw⟩ := h.writtenBy hπ fun _ => noXor
  exact ⟨e, he.wellFormed, binding ▸ hl, hw⟩

/-- Members that mean something are a run that does. -/
theorem exists_run {op : Connective} {cs : List Condition} (hne : cs ≠ []) (h : ∀ c ∈ cs, ∃ M : Meaning d,
      M.WrittenBy π ((Grammar.logic d).level op.binary) (Visitor.conjunct Node.write op c)) :
    ∃ M : Meaning d, M.WrittenBy π ((Grammar.logic d).level op.binary)
      (separated op.keyword (cs.map (Visitor.conjunct Node.write op))) := by
  have : Nonempty (Meaning d) := ⟨fun _ _ => .unknown⟩
  choose! M written using h
  refine ⟨.run op (cs.map M), Meaning.writes_run (by simpa using hne) ?_⟩
  rw [List.forall₂_map_left_iff, List.forall₂_map_right_iff, List.forall₂_same]
  exact written

/-- A run keeps its meaning if one of its members is replaced by another one with the same meaning. -/
theorem exists_run_replaced {op : Connective} {before after : List Condition} {c c' : Condition}
    (h : ∀ k ∈ before ++ after, ∃ M : Meaning d,
      M.WrittenBy π ((Grammar.logic d).level op.binary) (Visitor.conjunct Node.write op k))
    {N : Meaning d} (plain : N.WrittenBy π ((Grammar.logic d).level op.binary) (Visitor.conjunct Node.write op c))
    (replaced : N.WrittenBy π ((Grammar.logic d).level op.binary) (Visitor.conjunct Node.write op c')) :
    ∃ M : Meaning d,
      M.WrittenBy π ((Grammar.logic d).level op.binary)
        (separated op.keyword ((before ++ c :: after).map (Visitor.conjunct Node.write op))) ∧
      M.WrittenBy π ((Grammar.logic d).level op.binary)
        (separated op.keyword ((before ++ c' :: after).map (Visitor.conjunct Node.write op))) := by
  have : Nonempty (Meaning d) := ⟨fun _ _ => .unknown⟩
  choose! M written using h
  rw [List.forall_mem_append] at written
  have around : ∀ {k : Condition},
      N.WrittenBy π ((Grammar.logic d).level op.binary) (Visitor.conjunct Node.write op k) →
      List.Forall₂ (fun M m => M.WrittenBy π ((Grammar.logic d).level op.binary) m)
        (before.map M ++ N :: after.map M) ((before ++ k :: after).map (Visitor.conjunct Node.write op)) := by
    intro k hk
    rw [List.map_append, List.map_cons]
    refine List.rel_append ?_ (.cons hk ?_) <;>
      rw [List.forall₂_map_left_iff, List.forall₂_map_right_iff, List.forall₂_same]
    · exact written.1
    · exact written.2
  exact ⟨.run op (before.map M ++ N :: after.map M), Meaning.writes_run (by simp) (around plain),
    Meaning.writes_run (by simp) (around replaced)⟩

/-- A run of two or more is written by its members. -/
theorem writtenBy_combined {M : Meaning d} {op : Connective} {cs : List Condition} (two : 2 ≤ cs.length)
    (h : M.WrittenBy π ((Grammar.logic d).level op.binary)
      (separated op.keyword (cs.map (Visitor.conjunct Node.write op)))) :
    M.WrittenBy π ((combined op cs).binding d) (Node.condition (combined op cs)).write := by
  rw [Node.write_eq_parts]
  show M.WrittenBy π _ (Visitor.combined Node.write op cs)
  rw [combined_eq_separated op two]
  exact h

/-- Where the exclusive or is a comparison of groups, a member of a run holds together as tightly as the run asks for. -/
theorem writtenBy_member (hd : Capability.xor d = .notEqual) {M : Meaning d} (op : Connective)
    (h : M.WrittenBy π (c.binding d) (Node.condition c).write) :
    M.WrittenBy π ((Grammar.logic d).level op.binary) (Visitor.conjunct Node.write op c) :=
  writtenBy_conjunct (fun native => by rw [hd] at native; cases native) h

/-- There a proper condition over tests that stand alone means something. -/
theorem Proper.exists_meaning (hd : Capability.xor d = .notEqual) (h : c.Proper (StandsAlone π)) :
    ∃ M : Meaning d, M.WrittenBy π (c.binding d) (Node.condition c).write := by
  induction h with
  | none =>
    rw [Node.write_eq_parts]
    exact ⟨_, (writtenBy_iff.1 writtenBy_none).loosen (show 4 ≤ 5 by decide)⟩
  | @test c test alone =>
    have binding : c.binding d = 4 := by cases c <;> first | rfl | cases test
    obtain ⟨e, he, hl, hw⟩ := alone
    exact ⟨fun _ I => e.truth I, e, ⟨he, fun _ => rfl⟩, binding ▸ hl, hw⟩
  | @combined op cs two _ _ ih =>
    have nonempty : cs ≠ [] := by
      rintro rfl
      cases two
    have members : ∀ c ∈ cs, ∃ M : Meaning d,
        M.WrittenBy π ((Grammar.logic d).level op.binary) (Visitor.conjunct Node.write op c) := by
      intro c hc
      obtain ⟨M, written⟩ := ih c hc
      exact ⟨M, writtenBy_member hd op written⟩
    obtain ⟨M, run⟩ := exists_run nonempty members
    exact ⟨M, writtenBy_combined two run⟩
  | xor _ _ ihl ihr =>
    obtain ⟨M, hl⟩ := ihl
    obtain ⟨N, hr⟩ := ihr
    rw [Node.write_eq_parts]
    exact ⟨_, Meaning.writtenBy_xor hl hr⟩
  | not _ ih =>
    obtain ⟨M, h⟩ := ih
    rw [Node.write_eq_parts]
    exact ⟨_, h.not⟩

/-! ## Wrapping -/

/-- A run of one condition is written as the condition is. -/
theorem write_wrapped (op : Connective) (c : Condition) :
    (Node.condition (combined op [c])).write = (Node.condition c).write := by
  rw [Node.write_eq_parts]
  rfl

/-- Without parentheses, only a run of `OR` is too loose for a connective, for `AND`. -/
theorem level_le_binding (hd : Capability.xor d = .notEqual) {op : Connective}
    (h : ¬ (op = .and ∧ ∃ cs, c = combined .or cs)) : (Grammar.logic d).level op.binary ≤ c.binding d := by
  have low : (Grammar.logic d).level op.binary ≤ 3 := Connective.level_le _ op
  unfold binding
  split
  · next op' cs =>
    cases op' with
    | and => exact low
    | or =>
      cases op with
      | and => exact absurd ⟨rfl, cs, rfl⟩ h
      | or => exact Nat.le_refl _
  · rw [hd]
    exact Nat.le_succ_of_le low
  · exact Nat.le_succ_of_le low

/-- As a member of a run, a condition and the run of it alone mean the same, unless the condition is exposed. -/
theorem writtenBy_conjunct_wrapped (hd : Capability.xor d = .notEqual) {M : Meaning d} {op wrapper : Connective}
    (h : M.WrittenBy π (c.binding d) (Node.condition c).write)
    (covered : ¬ (op = .and ∧ wrapper = .and ∧ ∃ cs, c = combined .or cs)) :
    M.WrittenBy π ((Grammar.logic d).level op.binary) (Visitor.conjunct Node.write op (combined wrapper [c])) := by
  have low : (Grammar.logic d).level op.binary ≤ 3 := Connective.level_le _ op
  have bare : Visitor.condition Node.write (combined wrapper [c]) = (Node.condition c).write := write_wrapped wrapper c
  rw [Visitor.conjunct, bare]
  split
  · next same =>
    subst same
    exact h.loosen (level_le_binding hd fun ⟨and, or⟩ => covered ⟨and, and, or⟩)
  · exact h.parenthesized.loosen (by omega)

namespace Hole

/-- What stands around a place decides how tightly the whole holds together. -/
theorem binding_fill {h : Hole} (inner : h ≠ here) (c c' : Condition) (d : Dialect) :
    (h.fill c).binding d = (h.fill c').binding d := by
  cases h with
  | here => exact absurd rfl inner
  | _ => rfl

theorem connective?_member {inside : Hole} (inner : inside ≠ here) (op : Connective) (before after : List Condition) :
    (member op before inside after).connective? = inside.connective? := by
  cases inside with
  | here => exact absurd rfl inner
  | _ => rfl

/-- A condition and the same condition with a part of it wrapped mean the same and hold together as tightly, unless the
part is exposed. -/
theorem exists_meaning (hd : Capability.xor d = .notEqual) {wrapper : Connective} (h : Hole)
    (proper : (h.fill c).Proper (StandsAlone π)) (covered : ¬ h.Exposes wrapper c) :
    ∃ M : Meaning d, M.WrittenBy π ((h.fill c).binding d) (Node.condition (h.fill c)).write ∧
      M.WrittenBy π ((h.fill c).binding d) (Node.condition (h.fill (combined wrapper [c]))).write := by
  induction h with
  | here =>
    obtain ⟨M, written⟩ := proper.exists_meaning hd
    exact ⟨M, written, (write_wrapped wrapper c).symm ▸ written⟩
  | member op before inside after ih =>
    obtain ⟨two, -, members⟩ := proper.of_combined
    have others : ∀ k ∈ before ++ after, ∃ M : Meaning d,
        M.WrittenBy π ((Grammar.logic d).level op.binary) (Visitor.conjunct Node.write op k) := by
      intro k hk
      obtain ⟨M, written⟩ := (members k (by simp at hk ⊢; tauto)).exists_meaning hd
      exact ⟨M, writtenBy_member hd op written⟩
    have changed : ∃ M : Meaning d,
        M.WrittenBy π ((Grammar.logic d).level op.binary) (Visitor.conjunct Node.write op (inside.fill c)) ∧
        M.WrittenBy π ((Grammar.logic d).level op.binary)
          (Visitor.conjunct Node.write op (inside.fill (combined wrapper [c]))) := by
      have part : (inside.fill c).Proper (StandsAlone π) := members _ (by simp)
      by_cases inner : inside = here
      · subst inner
        obtain ⟨M, written⟩ := part.exists_meaning hd
        exact ⟨M, writtenBy_member hd op written,
          writtenBy_conjunct_wrapped hd written fun ⟨and, rest⟩ => covered ⟨congrArg some and, rest⟩⟩
      · have coveredInside : ¬ inside.Exposes wrapper c := by
          rwa [Exposes, connective?_member inner] at covered
        obtain ⟨M, plain, wrapped⟩ := ih part coveredInside
        rw [binding_fill inner c (combined wrapper [c])] at wrapped
        exact ⟨M, writtenBy_member hd op plain, writtenBy_member hd op wrapped⟩
    obtain ⟨N, plain, wrapped⟩ := changed
    obtain ⟨M, plain, wrapped⟩ := exists_run_replaced others plain wrapped
    exact ⟨M, writtenBy_combined two plain, writtenBy_combined (by simpa using two) wrapped⟩
  | xorLeft inside right ih =>
    obtain ⟨left, other⟩ := proper.of_xor
    obtain ⟨M, plain, wrapped⟩ := ih left covered
    obtain ⟨N, written⟩ := other.exists_meaning hd
    rw [Node.write_eq_parts, Node.write_eq_parts (.condition (fill _ _))]
    exact ⟨_, Meaning.writtenBy_xor plain written, Meaning.writtenBy_xor wrapped written⟩
  | xorRight left inside ih =>
    obtain ⟨other, right⟩ := proper.of_xor
    obtain ⟨M, plain, wrapped⟩ := ih right covered
    obtain ⟨N, written⟩ := other.exists_meaning hd
    rw [Node.write_eq_parts, Node.write_eq_parts (.condition (fill _ _))]
    exact ⟨_, Meaning.writtenBy_xor written plain, Meaning.writtenBy_xor written wrapped⟩
  | not inside ih =>
    obtain ⟨M, plain, wrapped⟩ := ih proper.of_not covered
    rw [Node.write_eq_parts, Node.write_eq_parts (.condition (fill _ _))]
    exact ⟨_, plain.not, wrapped.not⟩

end Hole

/-- Where the exclusive or is a comparison of groups, a part of a condition that was built can be wrapped in a run of
its own without a change of what the text is read as, unless it is a run of `OR` that is a member of a run of `AND` and
is wrapped in a run of `AND`. The tests may be any whose texts hold together by themselves. -/
theorem wrapped_equivalent_read_back (hd : Capability.xor d = .notEqual) {h : Hole} {wrapper : Connective}
    (assembled : (h.fill c).Assembled) (alone : ∀ t ∈ (h.fill c).tests, t.StandsAlone (.outside d s False))
    (covered : ¬ h.Exposes wrapper c) :
    ∃ r r' e e', (Node.condition (h.fill c)).render d s = .ok r ∧
      (Node.condition (h.fill (combined wrapper [c]))).render d s = .ok r' ∧
      r.expression? d (.logic d) = some e ∧ r'.expression? d (.logic d) = some e' ∧
      ∀ {V : Type} (I : Interpretation d V), e.truth I = e'.truth I := by
  obtain ⟨M, plain, wrapped⟩ := h.exists_meaning hd (assembled.proper.of_tests alone) covered
  obtain ⟨r, e, hr, he, truth⟩ := exists_read_back plain id
  obtain ⟨r', e', hr', he', truth'⟩ := exists_read_back wrapped id
  exact ⟨r, r', e, e', hr, hr', he, he', fun I => (truth I).trans (truth' I).symm⟩

end Condition

/-! ## An alternative in a conjunction -/

namespace WrappedAlternative

open Condition

/-- What is `c`, and what is one and the same, is equal. -/
def interpretation : Interpretation .default (List Token) where
  value := Expression.tokens
  compare _ v w := .ofBool (decide (v = [.word "c"]) || decide (v = w))
  isNull _ := false
  holds _ := .true
  rows _ := true
  one_eq_one := by decide
  one_ne_zero := by decide
  numeric h := by cases h

def a : Condition := BareXor.equals "a" 1

/-- `b = 2 OR c = 3` -/
def alternative : Condition := .combined .or [BareXor.equals "b" 2, BareXor.equals "c" 3]

/-- `a = 1 AND (b = 2 OR c = 3)` -/
def conjunction : Condition := a.and ((BareXor.equals "b" 2).or (BareXor.equals "c" 3))

theorem assembled : conjunction.Assembled := .and (.test rfl) (.or (.test rfl) (.test rfl))

theorem standsAlone : ∀ t ∈ conjunction.tests, t.StandsAlone (.outside .default .default False) := by
  have equals : ∀ n i, (BareXor.equals n i).StandsAlone (.outside .default .default False) := fun n i =>
    Grouped.standsAlone (.compare .eq (.column (by rintro ⟨⟩) (by rintro t ⟨⟩)) (.inline _)) id rfl
  intro t ht
  rcases (by simpa [conjunction, a, Condition.and, Condition.or, join, BareXor.equals, tests, testsAll] using ht :
    t = BareXor.equals "a" 1 ∨ t = BareXor.equals "b" 2 ∨ t = BareXor.equals "c" 3) with rfl | rfl | rfl <;>
    exact equals _ _

/-- The first member in a run of `OR` of its own. -/
theorem wrapped_equivalent_read_back_member :
    ∃ r r' e e', (Node.condition conjunction).render .default .default = .ok r ∧
      (Node.condition (.combined .and [.combined .or [a], alternative])).render .default .default = .ok r' ∧
      r.expression? .default (.logic .default) = some e ∧ r'.expression? .default (.logic .default) = some e' ∧
      ∀ {V : Type} (I : Interpretation .default V), e.truth I = e'.truth I :=
  wrapped_equivalent_read_back rfl (h := .member .and [] .here [alternative]) (c := a) assembled
    standsAlone (by rintro ⟨-, ⟨⟩, -⟩)

theorem render_conjunction :
    (Node.condition conjunction).render .default .default = .ok ⟨"a = 1 AND (b = 2 OR c = 3)", []⟩ := by
  have reach : (Node.condition conjunction).reach = 4 := by
    simp [Node.reach_eq, Node.weight, Node.children, Node.conditionChildren, Node.fieldChildren, conjunction, a,
      BareXor.equals, Field.col, Field.literal, Condition.and, Condition.or, Condition.join]
  unfold Node.render Node.write
  rw [reach]
  decide +kernel

/-- The place of the alternative in the conjunction. -/
def place : Hole := .member .and [a] .here []

theorem render_exposed :
    (Node.condition (place.fill (.combined .and [alternative]))).render .default .default =
      .ok ⟨"a = 1 AND b = 2 OR c = 3", []⟩ := by
  have reach : (Node.condition (place.fill (.combined .and [alternative]))).reach = 5 := by
    simp [Node.reach_eq, Node.weight, Node.children, Node.conditionChildren, Node.fieldChildren, place, Hole.fill,
      alternative, a, BareXor.equals, Field.col, Field.literal]
  unfold Node.render Node.write
  rw [reach]
  decide +kernel

/-- Where `c` is three and `a` is not one the conjunction is false. With the alternative wrapped in a run of `AND` its
text is true there. -/
theorem exposed_misread : place.fill alternative = conjunction ∧ conjunction.Assembled ∧
    (∀ t ∈ conjunction.tests, t.StandsAlone (.outside .default .default False)) ∧
    place.Exposes .and alternative ∧
    (Node.condition conjunction).render .default .default = .ok ⟨"a = 1 AND (b = 2 OR c = 3)", []⟩ ∧
    (Node.condition (place.fill (.combined .and [alternative]))).render .default .default =
      .ok ⟨"a = 1 AND b = 2 OR c = 3", []⟩ ∧
    ((⟨"a = 1 AND (b = 2 OR c = 3)", []⟩ : Rendered).expression? .default (.logic .default)).map
      (Expression.truth interpretation) = some .false ∧
    ((⟨"a = 1 AND b = 2 OR c = 3", []⟩ : Rendered).expression? .default (.logic .default)).map
      (Expression.truth interpretation) = some .true :=
  ⟨rfl, assembled, standsAlone, ⟨rfl, rfl, _, rfl⟩, render_conjunction, render_exposed, by decide +kernel,
    by decide +kernel⟩

end WrappedAlternative

end SqlDialects
