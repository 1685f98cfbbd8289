import SqlDialects.Proofs.Grammar.Truth
import SqlDialects.Proofs.Query.ColumnNames

/-!
# The values of query trees

What a tree means in a database, for the trees that writers put in the place of others: searched cases over null
tests and comparisons, projections of a derived table and counts of its rows. All else has the value, the truth or
the rows that the database gives it (`Database`), so what is shown here holds whatever that is.

A comparison with null is neither true nor false, and a case takes its first branch whose condition is true.
-/

set_option autoImplicit false

namespace SqlDialects

/-- What the columns that can be read at a place hold. A null is `none`. -/
abbrev Columns (V : Type) := ColumnRef → Option V

/-- A database: its values, and what the trees mean there that are not interpreted. -/
structure Database (V : Type) where
  /-- The value of a constant that is not null. -/
  constant : Value → V
  /-- Whether a comparison of two values holds, neither of which is null. -/
  compare : ComparisonOp → V → V → Bool
  field : Columns V → Field → Option V
  condition : Columns V → Condition → Truth
  rows : Columns V → Select → List (List (Option V))

namespace Database

variable {V : Type} (D : Database V)

def constant? : Value → Option V
  | .null => none
  | v => some (D.constant v)

def comparison (op : ComparisonOp) : Option V → Option V → Truth
  | some v, some w => .ofBool (D.compare op v w)
  | _, _ => .unknown

end Database

/-- A null test, or with `negated` the test for a value. -/
def Truth.nullTest {V : Type} (negated : Bool) (v : Option V) : Truth := .ofBool (v.isNone != negated)

/-- The null test of a subquery: of every column of its only row, or of a row of nulls if there is none. -/
def Truth.rowTest {V : Type} (negated : Bool) (columns : Nat) (rows : List (List (Option V))) : Truth :=
  .ofBool ((rows.head?.getD (List.replicate columns none)).all fun v => v.isNone != negated)

/-- The columns under which a row of a derived table is read. Letters of either case make one name. -/
def Columns.under {V : Type} (env : Columns V) (asName : String) (names : List (Option String))
    (row : List (Option V)) : Columns V := fun c =>
  if c.table.getD asName = asName then
    ((names.zip row).find? fun p => p.1.map Text.asciiLower == some (Text.asciiLower c.name)).elim (env c) Prod.snd
  else env c

/-- The select lists whose rows are made here. -/
inductive SelectList where
  | count
  | columns (columns : List ColumnRef)

namespace SelectList

def column? : Field → Option ColumnRef
  | .column c => some c
  | _ => none

/-- The select list of the given expressions. -/
def ofFields? : List Field → Option SelectList
  | [.aggregate ⟨.countStar, none, false, none⟩] => some count
  | fs => (fs.mapM column?).map columns

theorem ofFields?_columns (cs : List ColumnRef) : ofFields? (cs.map .column) = some (.columns cs) := by
  have read : (cs.map Field.column).mapM column? = some cs := by
    rw [List.mapM_map]
    exact (List.mapM_pure (m := Option) (f := id)).trans (congrArg some cs.map_id)
  unfold ofFields?
  split
  · next h => cases cs <;> cases h
  · rw [read]
    rfl

end SelectList

/-- Whether a select has no clauses besides its list, its tables and `WHERE`. -/
def Select.isPlain (s : Select) : Bool :=
  s.withClause.isNone && !s.distinct && s.groupBy.isEmpty && s.having.isEmpty && s.orderBy.isEmpty && s.limit.isNone
    && s.offset.isNone

/-- The names of the columns of a derived table. -/
def Select.columnNames (s : Select) : List (Option String) := s.flattened.map Field.naturalName?

/-- The expressions of a select's columns. -/
def Select.expressions (s : Select) : List Field := s.flattened.map Field.unaliased

mutual

def Field.eval {V : Type} (D : Database V) (env : Columns V) : Field → Option V
  | .column c => env c
  | .value v => D.constant? v
  | .inline l => D.constant? l.value
  | .aliased x _ => x.eval D env
  | .searchedCase bs otherwise => (Field.taken? D env bs).getD (Field.evalElse D env otherwise)
  | .subquery q => ((q.eval D env).head?.bind List.head?).join
  | f => D.field env f

/-- The value of the first branch whose condition is true. -/
def Field.taken? {V : Type} (D : Database V) (env : Columns V) : List (Condition × Field) → Option (Option V)
  | [] => none
  | (c, x) :: bs => if c.eval D env = .true then some (x.eval D env) else Field.taken? D env bs

def Field.evalElse {V : Type} (D : Database V) (env : Columns V) : Option Field → Option V
  | none => none
  | some x => x.eval D env

def Condition.eval {V : Type} (D : Database V) (env : Columns V) : Condition → Truth
  | .none => .true
  | .compare op l r => D.comparison op (l.eval D env) (r.eval D env)
  | .isNull x negated => .nullTest negated (x.eval D env)
  | .selectIsNull q negated => .rowTest negated q.flattened.length (q.eval D env)
  | .combined op cs => Condition.evalAll D env op cs
  | c => D.condition env c

def Condition.evalAll {V : Type} (D : Database V) (env : Columns V) (op : Connective) : List Condition → Truth
  | [] => op.unit
  | c :: cs => op.join (c.eval D env) (Condition.evalAll D env op cs)

/-- The rows of a select. A plain one over a derived table is made from the table's rows. -/
def Select.eval {V : Type} (D : Database V) (env : Columns V) : Select → List (List (Option V))
  | ⟨w, distinct, fields, tables, condition, groupBy, having, orderBy, limit, offset⟩ =>
    let s : Select := ⟨w, distinct, fields, tables, condition, groupBy, having, orderBy, limit, offset⟩
    match tables with
    | [.derived q asName []] =>
      let passing := (q.eval D env).filter fun row =>
        condition.eval D (env.under asName q.columnNames row) = .true
      match s.isPlain, SelectList.ofFields? s.expressions with
      | true, some .count => [[some (D.constant (.int passing.length))]]
      | true, some (.columns cs) => passing.map fun row => cs.map (env.under asName q.columnNames row)
      | _, _ => D.rows env s
    | _ => D.rows env s

end

/-! ## Conditions under a connective -/

namespace Truth

theorem ofBool_eq_true_iff (b : Bool) : ofBool b = true ↔ b = Bool.true := by
  cases b <;> decide

theorem and_eq_true_iff (a b : Truth) : a.and b = true ↔ a = true ∧ b = true := by
  cases a <;> cases b <;> decide

theorem true_and (a : Truth) : true.and a = a := by
  cases a <;> rfl

theorem or_eq_true_iff (a b : Truth) : a.or b = true ↔ a = true ∨ b = true := by
  cases a <;> cases b <;> decide

theorem nullTest_eq_true_iff {V : Type} (negated : Bool) (v : Option V) :
    nullTest negated v = true ↔ (v.isNone != negated) = Bool.true :=
  ofBool_eq_true_iff _

end Truth

theorem Connective.join_assoc (op : Connective) (a b c : Truth) :
    op.join (op.join a b) c = op.join a (op.join b c) := by
  cases op with
  | and => exact Truth.and_assoc a b c
  | or => exact Truth.or_assoc a b c

theorem Connective.join_unit (op : Connective) (a : Truth) : op.join a op.unit = a := by
  cases op with
  | and => exact Truth.and_true a
  | or => exact Truth.or_false a

/-- Truths under a connective, as those of the first ones and those of the rest. -/
theorem Connective.foldr_join (op : Connective) (ts : List Truth) (t : Truth) :
    ts.foldr op.join t = op.join (ts.foldr op.join op.unit) t := by
  induction ts with
  | nil => cases op <;> cases t <;> rfl
  | cons t' ts ih => rw [List.foldr_cons, ih, List.foldr_cons, op.join_assoc]

namespace Condition

/-- A reading of conditions under which a run means what its connective does, and the absent condition is true. -/
structure JoinsTruths (value : Condition → Truth) : Prop where
  none_eq : value none = .true
  combined_eq : ∀ op cs, value (combined op cs) = (cs.map value).foldr op.join op.unit

namespace JoinsTruths

variable {value : Condition → Truth} {op : Connective} {c c' : Condition} {cs : List Condition}

/-- The truth of two conditions under a connective, both of which are there. -/
theorem join (h : JoinsTruths value) (hc : c ≠ none) (hc' : c' ≠ none) :
    value (join op c c') = op.join (value c) (value c') := by
  unfold Condition.join
  split
  · exact absurd rfl hc
  · exact absurd rfl hc'
  · next op' cs _ =>
    split
    · next same =>
      rw [same, h.combined_eq, h.combined_eq, List.map_append, List.foldr_append, op.foldr_join]
      exact congrArg _ (op.join_unit _)
    · simp only [h.combined_eq op, List.map_cons, List.map_nil, List.foldr_cons, List.foldr_nil, op.join_unit]
  · simp only [h.combined_eq op, List.map_cons, List.map_nil, List.foldr_cons, List.foldr_nil, op.join_unit]

/-- The absent condition is neutral. -/
theorem and (h : JoinsTruths value) (c c' : Condition) : value (c.and c') = (value c).and (value c') := by
  by_cases hc : c = none
  · rw [hc, h.none_eq]
    exact (Truth.true_and _).symm
  by_cases hc' : c' = none
  · have absent : c.and none = c := by cases c <;> rfl
    rw [hc', absent, h.none_eq]
    exact (Truth.and_true _).symm
  exact h.join hc hc'

/-- All conditions of a list mean what a run of them does. -/
theorem all (h : JoinsTruths value) (cs : List Condition) : value (all cs) = value (combined .and cs) := by
  have absorbed : ∀ c, value (cs.foldl Condition.and c) = (value c).and (value (combined .and cs)) := by
    induction cs with
    | nil =>
      intro c
      rw [h.combined_eq]
      exact (Truth.and_true _).symm
    | cons c' cs ih =>
      intro c
      rw [List.foldl_cons, ih, h.and, h.combined_eq, h.combined_eq, Truth.and_assoc]
      rfl
  rw [Condition.all, absorbed, h.none_eq, Truth.true_and]

end JoinsTruths

variable {V : Type} {D : Database V} {env : Columns V}

theorem joinsTruths_eval : JoinsTruths (Condition.eval D env) where
  none_eq := by rw [eval]
  combined_eq op cs := by
    rw [eval]
    induction cs with
    | nil => rw [evalAll, List.map_nil, List.foldr_nil]
    | cons c cs ih => rw [evalAll, ih, List.map_cons, List.foldr_cons]

theorem eval_all_eq_true_iff (cs : List Condition) :
    (all cs).eval D env = .true ↔ ∀ c ∈ cs, c.eval D env = .true := by
  rw [joinsTruths_eval.all, joinsTruths_eval.combined_eq]
  induction cs with
  | nil => simp [Connective.unit]
  | cons c cs ih =>
    rw [List.map_cons, List.foldr_cons, List.forall_mem_cons, ← ih]
    exact Truth.and_eq_true_iff _ _

end Condition

end SqlDialects
