import SqlDialects.Proofs.Query.Evaluation
import SqlDialects.Proofs.Render.Levels
import SqlDialects.Proofs.Render.Nested
import Mathlib.Data.List.Nodup

/-!
# Row null tests by counting

Where a row cannot be tested for null, the rows of the subquery that pass the test in each of their columns are
counted, and the test holds if there is one. The columns are renamed to be counted, which changes no row
(`Select.eval_rename`), and so what is counted are the rows of the subquery (`Select.eval_countCondition`).

Over one row the count says what the row test says. Over none it does not: nothing is counted, while the row of a
subquery without rows is a row of nulls (`NoRows`).
-/

set_option autoImplicit false

namespace SqlDialects

/-! ## Lookups in a derived table -/

/-- Under names that differ, and not only in their case, the columns of a row are read one by one. -/
theorem Columns.map_under {V : Type} (env : Columns V) (asName : String) (type : SqlType) {names : List String}
    (distinct : (names.map Text.asciiLower).Nodup) {row : List (Option V)} (hl : row.length = names.length) :
    names.map (fun n => env.under asName (names.map some) row ⟨some asName, n, type⟩) = row := by
  have read : ∀ n, env.under asName (names.map some) row ⟨some asName, n, type⟩
      = (((names.map some).zip row).find? fun p => p.1.map Text.asciiLower == some (Text.asciiLower n)).elim
        (env ⟨some asName, n, type⟩) Prod.snd := fun n => if_pos rfl
  simp only [read]
  clear read
  induction names generalizing row with
  | nil => exact (List.length_eq_zero_iff.1 hl).symm
  | cons n names ih =>
    obtain ⟨v, row, rfl⟩ := List.exists_cons_of_length_eq_add_one hl
    rw [List.map_cons, List.nodup_cons] at distinct
    rw [List.map_cons, List.map_cons, List.zip_cons_cons, List.find?_cons]
    congr 1
    · simp
    · refine Eq.trans (List.map_congr_left fun m hm => ?_) (ih distinct.2 (Nat.succ.inj hl))
      have other : (Text.asciiLower n == Text.asciiLower m) = false :=
        beq_false_of_ne fun he => distinct.1 (he ▸ List.mem_map_of_mem hm)
      rw [List.find?_cons]
      simp [other]

/-! ## Selects that differ in the names of their columns -/

/-- A select with other names for its columns. Where its clauses may read names, the names that are new are none that
occur in it. -/
structure Select.Relabelled (s q : Select) : Prop where
  clauses : q = { s with fields := q.fields }
  expressions : q.expressions = s.expressions
  unread : s.ReadsNames → ∀ p ∈ s.flattened.zip q.flattened,
    p.2 = p.1 ∨ ∃ name, p.2 = .aliased p.1.unaliased name ∧ Text.asciiLower name ∉ s.takenNames s.flattened

/-- What a database is taken to do with names and numbers: names that nothing reads change no row, and integers are
equal if they are the same. -/
structure Database.Sound {V : Type} (D : Database V) : Prop where
  relabelled : ∀ env s q, s.Relabelled q → D.rows env q = D.rows env s
  integers : ∀ m n, D.compare .eq (D.constant (.int m)) (D.constant (.int n)) = decide (m = n)

namespace Select

variable {V : Type} {D : Database V} {env : Columns V} {s q : Select}

theorem Relabelled.eval_eq (hD : D.Sound) (h : s.Relabelled q) : q.eval D env = s.eval D env := by
  have rows := hD.relabelled env s q h
  have expressions := h.expressions
  obtain ⟨w, distinct, fields, tables, condition, groupBy, having, orderBy, limit, offset⟩ := s
  rw [h.clauses] at rows expressions ⊢
  unfold eval
  dsimp only
  rw [rows, expressions]
  rfl

/-! ### Renamed selects -/

theorem expressions_eq_of_fields {g : Field → String → Field} (hg : ∀ f n, (g f n).unaliased = f.unaliased)
    {names : List String} (hl : s.flattened.length = names.length) (hf : q.fields = List.zipWith g s.flattened names)
    (flat : q.flattened = q.fields) : q.expressions = s.expressions := by
  rw [expressions, flat, hf]
  exact map_zipWith_left hg hl

/-- A select in whose flattened list no field hides a row has the same rows under names given in place. -/
theorem relabelled_inPlace {names : List String} (hl : names.length = s.flattened.length) (reads : ¬ s.ReadsNames)
    (visible : ∀ f ∈ s.flattened, f.unaliased.isRow = false) :
    s.Relabelled { s with fields := List.zipWith (fun f n => .aliased f.unaliased n) s.flattened names } where
  clauses := rfl
  expressions := expressions_eq_of_fields (g := fun f n => .aliased f.unaliased n) (fun f _ => f.unaliased_unaliased)
    hl.symm rfl ((renamedInPlace hl).flattened.2 visible)
  unread h := absurd h reads

theorem zip_zipWith_self {α β γ : Type} (g : α → β → γ) (xs : List α) (ys : List β) :
    xs.zip (List.zipWith g xs ys) = (xs.zip ys).map fun p => (p.1, g p.1 p.2) := by
  induction xs generalizing ys with
  | nil => rfl
  | cons x xs ih =>
    cases ys with
    | nil => rfl
    | cons y ys => simp [ih]

/-- So it has under the names by which its columns can be told apart. -/
theorem relabelled_readable (visible : ∀ f ∈ s.flattened, f.unaliased.isRow = false) :
    s.Relabelled { s with fields := List.zipWith Field.named s.flattened (s.outputNames s.flattened) } := by
  have flat := s.readableAs.flattened.2 fun p hp => .inr (visible _ (List.of_mem_zip hp).1)
  refine ⟨rfl, ?_, ?_⟩
  · exact expressions_eq_of_fields Field.unaliased_named (s.length_outputNames _).symm rfl flat
  · intro _ p hp
    rw [flat, zip_zipWith_self] at hp
    obtain ⟨⟨f, n⟩, hn, rfl⟩ := List.mem_map.1 hp
    by_cases kept : f.naturalName? = some n
    · exact .inl (if_pos kept)
    · exact .inr ⟨n, if_neg kept, (s.readableAs.unread _ hn).resolve_left kept⟩

theorem columnNames_of_aliases {names : List String} (h : s.flattened.map Field.alias? = names.map some) :
    s.columnNames = names.map some := by
  have natural : ∀ fs : List Field, ∀ ns : List String, fs.map Field.alias? = ns.map some →
      fs.map Field.naturalName? = ns.map some := by
    intro fs
    induction fs with
    | nil => exact fun ns h => h
    | cons f fs ih =>
      intro ns h
      cases ns with
      | nil => cases h
      | cons n ns =>
        obtain ⟨hf, hfs⟩ := List.cons.inj h
        have hn : f.naturalName? = some n := by
          cases f with
          | aliased x a => exact hf
          | _ => cases hf
        rw [List.map_cons, List.map_cons, hn, ih ns hfs]
  exact natural _ _ h

section

variable {inner : Select} {asName : String} (tables : s.tables = [.derived inner asName []]) (plain : s.isPlain = true)
include tables plain

theorem eval_columns {cs : List ColumnRef} (list : SelectList.ofFields? s.expressions = some (.columns cs)) :
    s.eval D env = ((inner.eval D env).filter fun row =>
        s.condition.eval D (env.under asName inner.columnNames row) = .true).map
      fun row => cs.map (env.under asName inner.columnNames row) := by
  obtain ⟨w, distinct, fields, _, condition, groupBy, having, orderBy, limit, offset⟩ := s
  subst tables
  conv => lhs; unfold eval
  dsimp only
  rw [plain, list]

theorem eval_count (list : SelectList.ofFields? s.expressions = some .count) :
    s.eval D env = [[some (D.constant (.int ((inner.eval D env).filter fun row =>
      s.condition.eval D (env.under asName inner.columnNames row) = .true).length))]] := by
  obtain ⟨w, distinct, fields, _, condition, groupBy, having, orderBy, limit, offset⟩ := s
  subst tables
  conv => lhs; unfold eval
  dsimp only
  rw [plain, list]

end

/-- A projection reads the rows of its table in the order of the columns. -/
theorem eval_project {inner : Select} {columns names : List String} (asName : String)
    (hl : columns.length = names.length) :
    (inner.project asName columns names).eval D env = (inner.eval D env).map fun row =>
      columns.map fun n => env.under asName inner.columnNames row ⟨some asName, n, .other⟩ := by
  have list : SelectList.ofFields? (inner.project asName columns names).expressions
      = some (.columns (columns.map fun n => ⟨some asName, n, .other⟩)) := by
    rw [expressions, flattened_project,
      map_zipWith_left (h := Field.unaliased) (k := Field.qualified asName) (fun _ _ => rfl) hl,
      ← SelectList.ofFields?_columns, List.map_map]
    rfl
  have all : (inner.eval D env).filter (fun row => (inner.project asName columns names).condition.eval D
      (env.under asName inner.columnNames row) = .true) = inner.eval D env :=
    List.filter_eq_self.2 fun _ _ => decide_eq_true rfl
  rw [eval_columns rfl rfl list, all]
  simp only [List.map_map]
  rfl

/-- Renaming the columns changes no row, where no field hides a row and each row has a value for each column. -/
theorem eval_rename (hD : D.Sound) {names : List String} {plan : Renaming} (hp : s.rename? names = some plan)
    (visible : ∀ f ∈ s.flattened, f.unaliased.isRow = false)
    (width : ∀ row ∈ s.eval D env, row.length = s.flattened.length) (asName : String) :
    (plan.toSelect asName).eval D env = s.eval D env ∧ (plan.toSelect asName).columnNames = names.map some := by
  have given : ¬ (names = [] ∨ names.length ≠ s.flattened.length) := by
    intro h
    rw [rename?_eq_none h] at hp
    cases hp
  obtain ⟨hn, hl⟩ := not_or.1 given
  replace hl := Classical.not_not.1 hl
  rw [rename?_eq_some hn hl] at hp
  split at hp
  · next plain =>
    cases hp
    have reads : ¬ s.ReadsNames := fun h => readsNames_iff.1 h plain
    have renamed := renamedInPlace hl
    refine ⟨(relabelled_inPlace hl reads visible).eval_eq hD, columnNames_of_aliases ?_⟩
    rw [← renamed.aliases]
    exact congrArg _ (renamed.flattened.2 visible)
  · cases hp
    have hc := (s.length_outputNames s.flattened).trans hl.symm
    rw [toSelect_projected]
    refine ⟨?_, columnNames_of_aliases (aliases_project asName hc)⟩
    have readable := s.readableAs
    have flat := readable.flattened.2 fun p hp => .inr (visible _ (List.of_mem_zip hp).1)
    have names :
        Select.columnNames { s with fields := List.zipWith Field.named s.flattened (s.outputNames s.flattened) }
          = (s.outputNames s.flattened).map some := by
      rw [← readable.names]
      exact congrArg _ flat
    rw [eval_project asName hc, (relabelled_readable visible).eval_eq hD, names]
    have read : ∀ row ∈ s.eval D env, (s.outputNames s.flattened).map (fun n =>
        env.under asName ((s.outputNames s.flattened).map some) row ⟨some asName, n, .other⟩) = id row :=
      fun row hr => Columns.map_under env asName .other readable.distinct
        ((width row hr).trans (s.length_outputNames _).symm)
    exact (List.map_congr_left read).trans (List.map_id _)

/-! ### Counting -/

theorem distinct_testColumns (count : Nat) : ((testColumns count).map Text.asciiLower).Nodup := by
  have lower : (Text.asciiLower ∘ fun i => "v" ++ Decimal.digits (i + 1)) = fun i => "v" ++ Decimal.digits (i + 1) := by
    funext i
    rw [Function.comp_apply, Text.asciiLower_append, Text.asciiLower_digits]
    rfl
  have injective : Function.Injective fun i => "v" ++ Decimal.digits (i + 1) := by
    intro i j h
    have digits : Decimal.digits (i + 1) = Decimal.digits (j + 1) := by simpa using h
    exact Nat.succ.inj (Decimal.digits_injective digits)
  rw [testColumns, List.map_map, lower]
  exact List.nodup_range.map injective

/-- The rows of which every column passes the null test. -/
def passing (negated : Bool) (rows : List (List (Option V))) : List (List (Option V)) :=
  rows.filter fun row => row.all fun v => v.isNone != negated

theorem eval_countPassing {inner : Select} {columns : List String} (names : inner.columnNames = columns.map some)
    (distinct : (columns.map Text.asciiLower).Nodup) (width : ∀ row ∈ inner.eval D env, row.length = columns.length)
    (asName : String) (negated : Bool) :
    (inner.countPassing columns asName negated).eval D env
      = [[some (D.constant (.int (passing negated (inner.eval D env)).length))]] := by
  rw [eval_count (s := inner.countPassing columns asName negated) rfl rfl rfl, passing, names]
  have same : ∀ row ∈ inner.eval D env,
      decide ((inner.countPassing columns asName negated).condition.eval D
        (env.under asName (columns.map some) row) = .true) = row.all fun v => v.isNone != negated := by
    intro row hr
    have tested : ∀ c, ((Field.qualified asName c).nullTest negated).eval D (env.under asName (columns.map some) row)
        = .true ↔ ((env.under asName (columns.map some) row ⟨some asName, c, .other⟩).isNone != negated) = true :=
      fun c => Truth.nullTest_eq_true_iff _ _
    rw [Bool.eq_iff_iff, decide_eq_true_iff]
    conv => rhs; rw [← Columns.map_under env asName .other distinct (width row hr)]
    rw [List.all_map, List.all_eq_true]
    refine (Condition.eval_all_eq_true_iff _).trans ?_
    rw [List.forall_mem_map]
    exact forall₂_congr fun c _ => tested c
  rw [List.filter_congr same]

/-- The condition that is written for a row null test, over the renamed subquery. -/
def countCondition (inner : Select) (columns : List String) (asName : String) (negated : Bool) : Condition :=
  .compare .eq (.literal (.int 1)) (.subquery (inner.countPassing columns asName negated))

theorem eval_countCondition (hD : D.Sound) {inner : Select} {columns : List String}
    (names : inner.columnNames = columns.map some) (distinct : (columns.map Text.asciiLower).Nodup)
    (width : ∀ row ∈ inner.eval D env, row.length = columns.length) (asName : String) (negated : Bool) :
    (inner.countCondition columns asName negated).eval D env = .true
      ↔ (passing negated (inner.eval D env)).length = 1 := by
  have value : (Field.subquery (inner.countPassing columns asName negated)).eval D env
      = some (D.constant (.int (passing negated (inner.eval D env)).length)) := by
    rw [Field.eval, eval_countPassing names distinct width]
    rfl
  have compared : (inner.countCondition columns asName negated).eval D env
      = .ofBool
        (D.compare .eq (D.constant (.int 1)) (D.constant (.int (passing negated (inner.eval D env)).length))) := by
    rw [countCondition, Condition.eval, value]
    rfl
  rw [compared, Truth.ofBool_eq_true_iff, hD.integers, decide_eq_true_iff]
  omega

theorem length_testColumns (count : Nat) : (testColumns count).length = count := by
  simp [testColumns]

/-- Writes the count of a renamed subquery, under aliases that are made up. -/
def Renaming.writeCount (plan : Renaming) (columns : List String) (negated : Bool) : Render Unit := do
  let wrapper ← if plan.needsAlias then Render.freshAlias "q" else pure ""
  let asName ← Render.freshAlias "t"
  (Node.condition ((plan.toSelect wrapper).countCondition columns asName negated)).write

theorem write_selectIsNull {plan : Renaming} (hp : s.rename? (testColumns s.flattened.length) = some plan)
    (negated : Bool) {c : Context} (hd : Capability.selectIsNull c.dialect s.flattened.length = .countTest) :
    (Node.condition (.selectIsNull s negated)).write c
      = plan.writeCount (testColumns s.flattened.length) negated c := by
  have written : ∀ inner asName,
      (Node.condition (countCondition inner (testColumns s.flattened.length) asName negated)).write
        = Visitor.compare Node.write .eq (.literal (.int 1))
          (.subquery (inner.countPassing (testColumns s.flattened.length) asName negated)) := fun _ _ =>
    Node.write_eq_parts _
  rw [Node.write_eq_parts]
  show Visitor.selectIsNull Node.write s negated c = _
  rw [Visitor.selectIsNull, Render.dialect_bind, hd]
  show Visitor.countTest Node.write s negated c = _
  rw [Visitor.countTest, Visitor.renamed, hp]
  simp only [Renaming.writeCount, written]
  cases plan.needsAlias <;> simp

/-- What is counted over no more than one row. -/
theorem length_passing_eq_one_iff {rows : List (List (Option V))} (few : rows.length ≤ 1) (negated : Bool)
    {columns : Nat} (positive : 0 < columns) :
    (passing negated rows).length = 1 ↔ Truth.rowTest negated columns rows = .true ∧ (negated = false → rows ≠ []) := by
  match rows, few with
  | [], _ =>
    cases negated with
    | false => simp [passing]
    | true =>
      obtain ⟨n, rfl⟩ : ∃ n, columns = n + 1 := ⟨columns - 1, by omega⟩
      simp [passing, Truth.rowTest, Truth.ofBool, List.replicate_succ]
  | [row], _ =>
    rw [Truth.rowTest, Truth.ofBool_eq_true_iff]
    cases h : row.all fun v => v.isNone != negated <;> simp [passing, h]

/-- The row null test of a subquery is written as a count of its rows, renamed so that each column has a name. Over no
more than one row the count says what the row test says, but for a subquery without rows: its row of nulls passes the
null test and is not counted. -/
theorem countTest_truth (hD : D.Sound) (s : Select) (negated : Bool) (several : 2 ≤ s.flattened.length)
    (visible : ∀ f ∈ s.flattened, f.unaliased.isRow = false) :
    ∃ plan, s.rename? (testColumns s.flattened.length) = some plan ∧
      (∀ c : Context, Capability.selectIsNull c.dialect s.flattened.length = .countTest →
        (Node.condition (.selectIsNull s negated)).write c
          = plan.writeCount (testColumns s.flattened.length) negated c) ∧
      ∀ env wrapper asName, (∀ row ∈ s.eval D env, row.length = s.flattened.length) → (s.eval D env).length ≤ 1 →
        (((plan.toSelect wrapper).countCondition (testColumns s.flattened.length) asName negated).eval D env = .true
          ↔ (Condition.selectIsNull s negated).eval D env = .true ∧ (negated = false → s.eval D env ≠ [])) := by
  have hl := length_testColumns s.flattened.length
  have hn : testColumns s.flattened.length ≠ [] := List.ne_nil_of_length_pos (by omega)
  obtain ⟨plan, hp⟩ : ∃ plan, s.rename? (testColumns s.flattened.length) = some plan := by
    rw [rename?_eq_some hn hl]
    split <;> exact ⟨_, rfl⟩
  refine ⟨plan, hp, fun c hd => write_selectIsNull hp negated hd, ?_⟩
  intro env wrapper asName width few
  obtain ⟨rows, names⟩ := eval_rename hD hp visible width wrapper
  rw [← hl, ← rows] at width
  rw [eval_countCondition hD names (distinct_testColumns _) width, rows, Condition.eval]
  exact length_passing_eq_one_iff few negated (by omega)

end Select

/-! ## A table of two columns -/

namespace NoRows

/-- `SELECT a, b FROM x` -/
def select : Select := { Select.ofFields [.col "a", .col "b"] with tables := [.named none "x" none] }

/-- A database of one table, from which columns of numbers are read. -/
def database (table : List (String → Option Int)) : Database Int where
  constant
    | .int n => n
    | _ => 0
  compare
    | .eq, v, w => decide (v = w)
    | .notEq, v, w => decide (v ≠ w)
    | .lt, v, w => decide (v < w)
    | .ltEq, v, w => decide (v ≤ w)
    | .gt, v, w => decide (w < v)
    | .gtEq, v, w => decide (w ≤ v)
    | .like, _, _ | .notLike, _, _ => false
  field _ _ := none
  condition _ _ := .unknown
  rows _ s := table.map fun row => s.expressions.map fun
    | .column c => row c.name
    | _ => none

theorem sound (table : List (String → Option Int)) : (database table).Sound where
  relabelled _ s q h := by
    show table.map _ = table.map _
    rw [h.expressions]
  integers _ _ := rfl

/-- A row of nulls is counted as it is tested. -/
theorem countTest_nulls :
    ∃ plan, select.rename? (Select.testColumns 2) = some plan ∧
      ((plan.toSelect "q").countCondition (Select.testColumns 2) "t" false).eval (database [fun _ => none])
        (fun _ => none) = .true := by
  have visible : ∀ f ∈ select.flattened, f.unaliased.isRow = false := by decide
  obtain ⟨plan, hp, -, truth⟩ :=
    Select.countTest_truth (sound [fun _ => none]) select false (Nat.le_refl 2) visible
  refine ⟨plan, hp, (truth (fun _ => none) "q" "t" ?_ (Nat.le_refl 1)).2 ⟨rfl, fun _ => List.cons_ne_nil _ _⟩⟩
  exact fun row hr => congrArg List.length (List.mem_singleton.1 hr)

/-- Without rows the subquery is null, and no row of it is counted. -/
theorem countTest_false :
    (Condition.selectIsNull select false).eval (database []) (fun _ => none) = .true ∧
    ∃ plan, select.rename? (Select.testColumns select.flattened.length) = some plan ∧
      ((plan.toSelect "q").countCondition (Select.testColumns select.flattened.length) "t" false).eval (database [])
        (fun _ => none) = .false :=
  ⟨rfl, _, rfl, rfl⟩

end NoRows

end SqlDialects
