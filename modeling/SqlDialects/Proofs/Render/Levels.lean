import SqlDialects.Proofs.Render.Parts
import SqlDialects.Proofs.Render.Hoisting
import Mathlib.Data.List.MinMax
import Mathlib.Order.Nat

/-!
# Enough levels

`Node.write` gives the writers a fixed number of levels of nesting. That number is enough: whatever the writer
of a node visits, a part or an expansion, reaches less far than the node (`Node.Visits.reach_lt`), so more
levels change nothing (`Render.node_eq_write`) and the error for too deep a nesting is never met. From here on
a node is written by its writer with `Node.write` itself as the visitor (`Node.write_eq_parts`), and levels
need not be mentioned again.
-/

set_option autoImplicit false

namespace SqlDialects

namespace Node

/-! ## Reach -/

theorem weight_pos (n : Node) : 0 < n.weight := by
  unfold weight
  repeat' split
  all_goals omega

theorem weight_add_reach_le {n c : Node} (h : c ∈ n.children) : n.weight + c.reach ≤ n.reach := by
  rw [reach_eq n]
  exact Nat.add_le_add_left (List.le_max_of_le (List.mem_map_of_mem h) (Nat.le_refl _)) _

theorem reach_le {n : Node} {b : Nat} (h : ∀ c ∈ n.children, c.reach ≤ b) : n.reach ≤ n.weight + b := by
  rw [reach_eq n]
  refine Nat.add_le_add_left (List.max_le_of_forall_le _ _ fun x hx => ?_) _
  obtain ⟨c, hc, rfl⟩ := List.mem_map.1 hx
  exact h c hc

theorem reach_lt_of_mem_children {n c : Node} (h : c ∈ n.children) : c.reach < n.reach := by
  have hw := weight_pos n
  have hc := weight_add_reach_le h
  omega

theorem reach_leaf {n : Node} (h : n.children = []) : n.reach = n.weight := by
  rw [reach_eq, h]
  rfl

/-! ## What rewriting adds -/

theorem reach_unaliased (f : Field) : (field f.unaliased).reach ≤ (field f).reach := by
  induction f using Field.unaliased.induct with
  | case1 x a ih =>
    have hx : (field x).reach < (field (.aliased x a)).reach :=
      reach_lt_of_mem_children (.head _)
    rw [Field.unaliased]
    omega
  | case2 f h =>
    rw [Field.unaliased]
    exact h

theorem reach_aliased_unaliased (f : Field) (a : String) :
    (field (.aliased f.unaliased a)).reach ≤ 1 + (field f).reach := by
  refine reach_le fun c hc => ?_
  rcases (by simpa [children, fieldChildren] using hc : c = field f.unaliased) with rfl
  exact reach_unaliased f

theorem reach_named (f : Field) (name : String) : (field (f.named name)).reach ≤ 1 + (field f).reach := by
  unfold Field.named
  split
  · omega
  · exact reach_aliased_unaliased f name

/-- A row's members reach less far than the row. -/
theorem reach_flatten {f g : Field} (h : g ∈ f.flatten) : (field g).reach ≤ (field f).reach := by
  induction f using Field.flatten.induct (motive_2 := fun fs =>
    g ∈ Field.flattenAll fs → ∃ f ∈ fs, (field g).reach ≤ (field f).reach) with
  | case1 members ih =>
    rw [Field.flatten] at h
    obtain ⟨f, hf, hg⟩ := ih h
    have hr : (field f).reach < (field (.row members)).reach :=
      reach_lt_of_mem_children (List.mem_map_of_mem hf)
    omega
  | case2 members a ih =>
    rw [Field.flatten] at h
    obtain ⟨f, hf, hg⟩ := ih h
    have hr : (field f).reach < (field (.row members)).reach :=
      reach_lt_of_mem_children (List.mem_map_of_mem hf)
    have ha : (field (.row members)).reach < (field (.aliased (.row members) a)).reach :=
      reach_lt_of_mem_children (.head _)
    omega
  | case3 f h1 h2 =>
    have hf : f.flatten = [f] := by
      unfold Field.flatten
      split
      · next members => exact absurd rfl (h1 members)
      · next members a => exact absurd rfl (h2 members a)
      · rfl
    rw [hf] at h
    rw [List.mem_singleton.1 h]
  | case4 => simp [Field.flattenAll] at *
  | case5 f fs ih1 ih2 h =>
    rw [Field.flattenAll] at h
    rcases List.mem_append.1 h with h | h
    · exact ⟨f, by simp, ih1 h⟩
    · obtain ⟨f', hf', hg⟩ := ih2 h
      exact ⟨f', by simp [hf'], hg⟩

theorem reach_flattened {s : Select} {f : Field} (h : f ∈ s.flattened) : (field f).reach < (select s).reach := by
  rw [Select.flattened, Field.flattenAll_eq_flatMap] at h
  obtain ⟨g, hg, hf⟩ := List.mem_flatMap.1 h
  have hs : (field g).reach < (select s).reach :=
    reach_lt_of_mem_children (List.mem_append_right _ (by simp [clauseChildren, hg]))
  exact Nat.lt_of_le_of_lt (reach_flatten hf) hs

/-- A select with other fields reaches as far as its fields take it. -/
theorem reach_withFields {s : Select} {fs : List Field} {b : Nat} (hb : (select s).reach ≤ b + 1)
    (h : ∀ f ∈ fs, (field f).reach ≤ b) : (select { s with fields := fs }).reach ≤ b + 1 := by
  have old : ∀ c ∈ (select s).children, c.reach ≤ b := by
    intro c hc
    have hlt := reach_lt_of_mem_children hc
    omega
  have bound : ∀ c ∈ (select { s with fields := fs }).children, c.reach ≤ b := by
    intro c hc
    simp only [children, clauseChildren, Select.commonTables, List.mem_append, List.mem_map,
      List.mem_singleton] at hc old
    rcases hc with hc | ((((⟨f, hf, rfl⟩ | hc) | hc) | hc) | hc) | hc
    · exact old c (.inl hc)
    · exact h f hf
    all_goals
      apply old
      simp [hc]
  have hs : (select { s with fields := fs }).reach ≤ 1 + b := reach_le bound
  omega

theorem reach_pos (n : Node) : 0 < n.reach := by
  have hw := weight_pos n
  rw [reach_eq]
  omega

/-- Fields that are paired with names and changed by one level at most. -/
theorem reach_zipWith {g : Field → String → Field} (hg : ∀ f a, (field (g f a)).reach ≤ 1 + (field f).reach)
    {fs : List Field} {b : Nat} (h : ∀ f ∈ fs, (field f).reach < b) (names : List String) :
    ∀ f ∈ List.zipWith g fs names, (field f).reach ≤ b := by
  induction fs generalizing names with
  | nil => simp
  | cons f fs ih =>
    cases names with
    | nil => simp
    | cons a names =>
      intro x hx
      rw [List.zipWith_cons_cons] at hx
      rcases List.mem_cons.1 hx with rfl | hx
      · have hf := h f (by simp)
        have ha := hg f a
        omega
      · exact ih (fun y hy => h y (by simp [hy])) names x hx

theorem reach_renamedFields {s : Select} {g : Field → String → Field}
    (hg : ∀ f a, (field (g f a)).reach ≤ 1 + (field f).reach) (names : List String) :
    (select { s with fields := List.zipWith g s.flattened names }).reach ≤ (select s).reach + 1 := by
  refine reach_withFields (Nat.le_succ _) ?_
  exact reach_zipWith hg (fun f hf => reach_flattened hf) names

/-- A derived table without a column list reaches one level further than its select. -/
theorem reach_derived (s : Select) (asName : String) :
    (table (.derived s asName [])).reach ≤ 1 + (select s).reach := by
  refine reach_le fun c hc => ?_
  rcases (by simpa [children, tableChildren] using hc : c = select s) with rfl
  exact Nat.le_refl _

/-- A select of fields from one derived table. -/
theorem reach_fromDerived {fs : List Field} {inner : Select} {asName : String} {c : Condition} {b : Nat}
    (hf : ∀ f ∈ fs, (field f).reach ≤ b) (hi : (select inner).reach < b) (hc : (condition c).reach ≤ b) :
    (select { Select.ofFields fs with tables := [.derived inner asName []], condition := c }).reach ≤ 1 + b := by
  have ht := reach_derived inner asName
  have hn : (condition .none).reach = 1 := reach_leaf rfl
  refine reach_le (n := select _) fun m hm => ?_
  simp only [children, clauseChildren, Select.commonTables, Select.ofFields, List.mem_append, List.mem_map,
    List.mem_singleton, List.not_mem_nil, false_and, exists_false, or_false, false_or] at hm
  rcases hm with (((⟨f, h, rfl⟩ | ⟨t, rfl, rfl⟩) | rfl) | rfl)
  · exact hf f h
  · omega
  · exact hc
  · omega

theorem reach_qualified (t n : String) : (field (.qualified t n)).reach = 1 := reach_leaf rfl

theorem reach_plan {s : Select} {names : List String} {plan : Select.Renaming} (asName : String)
    (h : s.rename? names = some plan) : (select (plan.toSelect asName)).reach ≤ 3 + (select s).reach := by
  have pos := reach_pos (select s)
  simp only [Select.rename?] at h
  split at h
  · cases h
  split at h
  · -- In place: every field goes by one alias more.
    cases h
    refine Nat.le_trans (reach_renamedFields reach_aliased_unaliased names) ?_
    omega
  · -- By a projection: the select under names of its own is a derived table of a select of columns.
    cases h
    have hs := reach_renamedFields (s := s) reach_named (s.outputNames s.flattened)
    have hn : (condition .none).reach = 1 := reach_leaf rfl
    refine Nat.le_trans (reach_fromDerived (b := 2 + (select s).reach) ?_ ?_ ?_) ?_
    · intro f hf
      obtain ⟨p, hp, rfl⟩ := List.mem_map.1 hf
      refine Nat.le_trans (reach_aliased_unaliased (.qualified asName p.1) p.2) ?_
      rw [reach_qualified]
      omega
    · omega
    · exact Nat.le_trans (Nat.le_of_eq hn) (by omega)
    · omega

/-! ## Null tests -/

/-- The null test of a field reaches less than eight levels further than the field. A subquery, which is
tested row by row, brings one of them itself. -/
theorem reach_nullTest (f : Field) (negated : Bool) :
    (condition (f.nullTest negated)).reach ≤ 7 + (field f).reach := by
  unfold Field.nullTest
  split
  · next s =>
    have hs : (select s).reach < (field (.subquery s)).reach := reach_lt_of_mem_children (.head _)
    have hn : (condition (.selectIsNull s negated)).reach ≤ 8 + (select s).reach :=
      reach_le fun c hc => by
        rcases (by simpa [children, conditionChildren] using hc : c = select s) with rfl
        exact Nat.le_refl _
    omega
  · have hn : (condition (.isNull f negated)).reach ≤ 1 + (field f).reach :=
      reach_le fun c hc => by
        rcases (by simpa [children, conditionChildren] using hc : c = field f) with rfl
        exact Nat.le_refl _
    omega

/-- Joining two conditions adds a level at most. -/
theorem reach_join (op : Connective) (c c' : Condition) {b : Nat} (h : (condition c).reach ≤ b)
    (h' : (condition c').reach ≤ b) : (condition (c.join op c')).reach ≤ 1 + b := by
  have pair : ∀ op, (condition (.combined op [c, c'])).reach ≤ 1 + b := by
    intro op
    refine reach_le fun m hm => ?_
    rcases (by simpa [children, conditionChildren] using hm : m = condition c ∨ m = condition c') with rfl | rfl
    · exact h
    · exact h'
  unfold Condition.join
  split
  · omega
  · omega
  · next op' cs _ =>
    split
    · refine reach_le fun m hm => ?_
      rcases (by simpa [children, conditionChildren] using hm : (∃ k ∈ cs, condition k = m) ∨ m = condition c')
        with ⟨k, hk, rfl⟩ | rfl
      · have hlt : (condition k).reach < (condition (.combined op' cs)).reach :=
          reach_lt_of_mem_children (List.mem_map_of_mem hk)
        omega
      · exact h'
    · exact pair op
  · exact pair op

/-- A conjunction of null tests of columns is one run of them, however many there are. -/
theorem reach_all_nullTest (asName : String) (negated : Bool) (columns : List String) :
    (condition (Condition.all (columns.map fun c => (Field.qualified asName c).nullTest negated))).reach ≤ 3 := by
  have test : ∀ c, (condition ((Field.qualified asName c).nullTest negated)).reach ≤ 2 := by
    intro c
    refine reach_le (n := condition (.isNull _ _)) (b := 1) fun m hm => ?_
    rw [List.mem_singleton.1 hm]
    exact Nat.le_of_eq (reach_qualified asName c)
  -- What has been joined so far is nothing, one test, or a run of tests.
  have run : ∀ (columns : List String) (cs : List Condition), (∀ c ∈ cs, (condition c).reach ≤ 2) →
      (condition ((columns.map fun c => (Field.qualified asName c).nullTest negated).foldl Condition.and
        (.combined .and cs))).reach ≤ 3 := by
    intro columns
    induction columns with
    | nil =>
      intro cs h
      refine reach_le (n := condition (.combined .and cs)) (b := 2) fun m hm => ?_
      obtain ⟨c, hc, rfl⟩ := List.mem_map.1 hm
      exact h c hc
    | cons c columns ih =>
      intro cs h
      refine ih (cs ++ [_]) fun k hk => ?_
      rcases List.mem_append.1 hk with hk | hk
      · exact h k hk
      · rw [List.mem_singleton.1 hk]
        exact test c
  cases columns with
  | nil =>
    have hn : (condition .none).reach = 1 := reach_leaf rfl
    exact Nat.le_trans (Nat.le_of_eq hn) (by decide)
  | cons c columns =>
    cases columns with
    | nil => exact Nat.le_trans (test c) (by decide)
    | cons c' columns =>
      refine run columns [_, _] fun k hk => ?_
      rcases (by simpa using hk) with rfl | rfl
      · exact test c
      · exact test c'

/-! ## Visits -/

theorem reach_literal (v : Value) : (field (.literal v)).reach = 1 := reach_leaf rfl

theorem reach_expand {which : Extremum} {first second : Field} {rest : List Field} {m : Node}
    (h : m ∈ fieldChildren (which.expand which.comparison first second rest)) :
    m.reach < (field (.extremum which (first :: second :: rest))).reach := by
  have arg : ∀ x ∈ first :: second :: rest,
      10 + rest.length + (field x).reach ≤ (field (.extremum which (first :: second :: rest))).reach := by
    intro x hx
    have hw := weight_add_reach_le (n := field (.extremum which (first :: second :: rest)))
      (List.mem_map_of_mem hx)
    simp only [weight, List.length_cons] at hw
    omega
  -- The remaining arguments are one fewer, and that is what their extremum weighs less.
  have fewer : ∀ {x : Field} {xs : List Field}, x :: xs ⊆ first :: second :: rest → xs.length = rest.length →
      (field (.extremum which (x :: xs))).reach < (field (.extremum which (first :: second :: rest))).reach := by
    intro x xs hsub hlen
    have hx := arg x (hsub (by simp))
    have hb : (field (.extremum which (x :: xs))).reach ≤ 8 + (xs.length + 1) +
        ((field (.extremum which (first :: second :: rest))).reach - (10 + rest.length)) := by
      refine reach_le (n := field (.extremum which (x :: xs))) fun c hc => ?_
      obtain ⟨y, hy, rfl⟩ := List.mem_map.1 hc
      have hy' := arg y (hsub hy)
      omega
    have hp := reach_pos (field x)
    omega
  have hf := arg first (by simp)
  have hs := arg second (by simp)
  simp only [Extremum.expand, fieldChildren, List.flatMap_cons, List.flatMap_nil, Option.toList_some,
    List.map_cons, List.map_nil, List.cons_append, List.nil_append, List.mem_cons, List.not_mem_nil,
    or_false] at h
  rcases h with rfl | rfl | rfl | rfl | rfl
  · have hn := reach_nullTest first false
    have hn' := reach_nullTest second false
    have hj := reach_join .or (first.nullTest false) (second.nullTest false)
      (b := (field (.extremum which (first :: second :: rest))).reach - 3) (by omega) (by omega)
    show (condition (Condition.join .or _ _)).reach < _
    omega
  · have hl : (field (.null (Field.firstKnown [first.type, second.type]))).reach = 1 := reach_leaf rfl
    omega
  · have hb : (condition (.compare which.comparison first second)).reach ≤ 1 +
        ((field (.extremum which (first :: second :: rest))).reach - 10) := by
      refine reach_le fun c hc => ?_
      rcases (by simpa [children, conditionChildren] using hc : c = field first ∨ c = field second)
        with rfl | rfl <;> omega
    omega
  · refine fewer ?_ rfl
    intro x hx
    rcases List.mem_cons.1 hx with rfl | hx <;> simp [*]
  · exact fewer (List.subset_cons_self _ _) rfl

theorem reach_asCase {c : Condition} {m : Node} (h : m ∈ fieldChildren c.asCase) :
    m.reach < (field (.condition c)).reach := by
  have hc : 2 + (condition c).reach ≤ (field (.condition c)).reach :=
    weight_add_reach_le (n := field (.condition c)) (.head _)
  have hn : (condition c.negate).reach ≤ 1 + (condition c).reach := by
    cases c with
    | none => exact Nat.le_add_left _ _
    | _ =>
      refine reach_le fun m hm => ?_
      rw [List.mem_singleton.1 hm]
  simp only [Condition.asCase, fieldChildren, List.flatMap_cons, List.flatMap_nil, Option.toList_none,
    List.map_nil, List.cons_append, List.nil_append, List.append_nil, List.mem_cons, List.not_mem_nil,
    or_false] at h
  rcases h with rfl | rfl | rfl | rfl
  · omega
  · rw [reach_literal]
    omega
  · omega
  · rw [reach_literal]
    omega

theorem reach_nullKey {e : SortField} {nulls : NullOrdering} {m : Node}
    (h : m ∈ fieldChildren (SortField.nullKey e.field nulls)) : m.reach < (sortField e).reach := by
  have he : 8 + (field e.field).reach ≤ (sortField e).reach :=
    weight_add_reach_le (n := sortField e) (.head _)
  have hn := reach_nullTest e.field false
  have hm : m = condition (e.field.nullTest false) ∨ ∃ v, m = field (.literal v) := by
    cases nulls <;> simp only [SortField.nullKey, fieldChildren, List.flatMap_cons, List.flatMap_nil,
      Option.toList_some, List.map_cons, List.map_nil, List.cons_append, List.nil_append, List.mem_cons,
      List.not_mem_nil, or_false] at h <;> rcases h with rfl | rfl | rfl <;> simp
  rcases hm with rfl | ⟨v, rfl⟩
  · omega
  · rw [reach_literal]
    omega

theorem reach_complement {a : Aggregate} {plain : AggregateKind} (h : a.kind.complemented? = some plain) :
    (field (.aggregate { a with kind := plain })).reach < (field (.aggregate a)).reach := by
  have hp : plain.complemented? = none := by
    revert h
    cases a.kind <;> simp [AggregateKind.complemented?] <;> rintro rfl <;> rfl
  rw [reach_eq (field (.aggregate a)), reach_eq]
  simp only [weight, h, hp, children, fieldChildren]
  simp

theorem reach_countPassing {s : Select} {columns names : List String} {plan : Select.Renaming}
    (inner outer : String) (negated : Bool) (h : s.rename? columns = some plan) :
    (field (.subquery (Select.countPassing (plan.toSelect inner) names outer negated))).reach
      < (condition (.selectIsNull s negated)).reach := by
  have hs : 8 + (select s).reach ≤ (condition (.selectIsNull s negated)).reach :=
    weight_add_reach_le (n := condition (.selectIsNull s negated)) (.head _)
  have hp := reach_plan inner h
  have hq := reach_pos (select s)
  have hc : (select (Select.countPassing (plan.toSelect inner) names outer negated)).reach
      ≤ 1 + (4 + (select s).reach) := by
    refine reach_fromDerived (fun f hf => ?_) (by omega) ?_
    · rw [List.mem_singleton.1 hf]
      have hl : (field .countStar).reach = 1 := reach_leaf rfl
      omega
    · exact Nat.le_trans (reach_all_nullTest outer negated names) (by omega)
  have hf : (field (.subquery (Select.countPassing (plan.toSelect inner) names outer negated))).reach
      ≤ 1 + (5 + (select s).reach) := by
    refine reach_le fun m hm => ?_
    rw [List.mem_singleton.1 hm]
    omega
  omega

theorem reach_emitted {n : Node} {t : CommonTable} (h : t ∈ n.emitted) :
    (commonTable t).reach ≤ n.reach := by
  induction n using Node.induction with
  | step n ih =>
    rw [emitted_eq] at h
    rcases List.mem_append.1 h with h | h
    · obtain ⟨c, hc, ht⟩ := List.mem_flatMap.1 h
      exact Nat.le_trans (ih c hc ht) (Nat.le_of_lt (reach_lt_of_mem_children hc))
    · cases n with
      | commonTable u =>
        rw [List.mem_singleton.1 h]
      | _ => cases h

/-- What the writer of a node visits reaches less far than the node. -/
theorem Visits.reach_lt {n m : Node} (h : n.Visits m) : m.reach < n.reach := by
  cases h with
  | child h => exact reach_lt_of_mem_children h
  | extremum h => exact reach_expand h
  | truthCase h => exact reach_asCase h
  | nullKey _ h => exact reach_nullKey h
  | complement h => exact reach_complement h
  | @one s negated =>
    have hs : 8 + (select s).reach ≤ (condition (.selectIsNull s negated)).reach :=
      weight_add_reach_le (n := condition (.selectIsNull s negated)) (.head _)
    rw [reach_literal]
    omega
  | count inner outer h => exact reach_countPassing inner outer _ h
  | @renamed s asName columns plan inner h =>
    have hp := reach_plan inner h
    have hw := weight_add_reach_le (n := table (.derived s asName columns)) (.head _)
    have hn : columns.isEmpty = false := by
      cases columns with
      | nil => simp [Select.rename?] at h
      | cons c cs => rfl
    simp only [weight, hn] at hw
    simp at hw
    omega
  | @hoisted s d w t hw h =>
    rw [Select.tables_of_hoisted hw] at h
    have ht := Hoisting.mem_of_mem_firsts h
    have ho : (select s).ownTable = [] := rfl
    rw [emitted_eq, ho, List.append_nil] at ht
    obtain ⟨c, hc, ht⟩ := List.mem_flatMap.1 ht
    exact Nat.lt_of_le_of_lt (reach_emitted ht) (reach_lt_of_mem_children hc)
  | entry h => exact reach_flattened h

end Node

/-! ## Levels beyond the reach -/

/-- The comparison of a pass with itself. -/
def Simulation.self : Simulation Unit := Lockstep.simulation {
  rel _ c c' := c = c'
  failed _ c c' := c = c'
  fail h := h
  alike := by
    rintro _ c _ rfl
    exact ⟨rfl, rfl, rfl, rfl⟩
  write := by
    rintro _ c _ p rfl
    rfl
  declare := by
    rintro _ c _ n d rfl
    rfl
  deeper := by
    rintro _ c _ rfl
    exact ⟨(), rfl, fun k _ h => by rw [h], fun _ _ h => h⟩
  underFlags := by
    rintro _ c _ flags rfl
    exact ⟨(), rfl, fun k _ h => by rw [h], fun k _ h => by rw [h]⟩
  level := by
    rintro _ c _ rfl
    exact ⟨(), rfl, fun k _ h => by rw [h], fun k _ h => by rw [h]⟩
  detach := by
    rintro _ c _ rfl
    exact ⟨(), rfl, fun k _ h => by rw [h]⟩ }

theorem Simulation.self_eq {i : Unit} {α : Type} {m m' : Render α} (h : Simulation.self.Step i m m') : m = m' := by
  funext c
  have ho := h (show Simulation.self.rel i c c from rfl)
  rcases ho.cases with ⟨a, k, k', hr, hr', hk⟩ | ⟨e, k, k', hr, hr', hk⟩
  · rw [hr, hr', show k = k' from hk]
  · rw [hr, hr', show k = k' from hk]

/-- More levels than a node reaches change nothing. -/
theorem Render.node_eq_node {n : Node} {levels levels' : Nat} (h : n.reach ≤ levels) (h' : n.reach ≤ levels') :
    Render.node levels n = Render.node levels' n := by
  refine Simulation.self_eq (i := ()) ?_
  induction levels generalizing n levels' with
  | zero =>
    have hp := n.reach_pos
    omega
  | succ levels ih =>
    cases levels' with
    | zero =>
      have hp := n.reach_pos
      omega
    | succ levels' =>
      refine .parts fun m hm _ => ?_
      have hlt := hm.reach_lt
      exact ih (by omega) (by omega)

theorem Render.node_eq_write {n : Node} {levels : Nat} (h : n.reach ≤ levels) : Render.node levels n = n.write :=
  Render.node_eq_node h (Nat.le_refl _)

/-- A node is written by its writer, which writes what it visits in the same way. -/
theorem Node.write_eq_parts (n : Node) : n.write = Visitor.parts Node.write n := by
  obtain ⟨levels, hl⟩ : ∃ levels, n.reach = levels + 1 := ⟨n.reach - 1, by have := n.reach_pos; omega⟩
  rw [Node.write, hl]
  refine Simulation.self_eq (i := ()) (.parts fun m hm _ => ?_)
  have hlt := hm.reach_lt
  rw [Render.node_eq_write (n := m) (by omega)]
  exact Simulation.Step.node _ _

end SqlDialects
