import SqlDialects.Proofs.Query.CommonTables
import SqlDialects.Query.Expansion
import SqlDialects.Query.Renaming

/-!
# Rewriting declares nothing new

Trees are rewritten before or while they are written: rows in a select list are expanded, columns renamed,
and constructs that a dialect lacks are replaced by plainer ones. Every `WITH` clause of such a tree is one of the
tree that it is made from, because the rewriting only copies, drops and wraps.
-/

set_option autoImplicit false

namespace SqlDialects

/-! ## Conditions -/

namespace Condition

theorem withClauses_join (op : Connective) (l r : Condition) :
    (join op l r).withClauses = l.withClauses ++ r.withClauses := by
  unfold join
  split
  · simp [Condition.withClauses]
  · simp [Condition.withClauses]
  · split
    · simp [Condition.withClauses, allWithClauses_eq]
    · simp [Condition.withClauses, allWithClauses]
  · simp [Condition.withClauses, allWithClauses]

theorem withClauses_all (cs : List Condition) : (all cs).withClauses = cs.flatMap Condition.withClauses := by
  have fold : ∀ c : Condition, (cs.foldl and c).withClauses = c.withClauses ++ cs.flatMap Condition.withClauses := by
    induction cs with
    | nil => simp
    | cons x xs ih =>
      intro c
      rw [List.foldl_cons, ih, and, withClauses_join, List.flatMap_cons, List.append_assoc]
  rw [all, fold]
  simp [Condition.withClauses]

theorem withClauses_negate (c : Condition) : c.negate.withClauses = c.withClauses := by
  cases c <;> simp [negate, Condition.withClauses]

end Condition

/-! ## Fields -/

namespace Field

theorem withClauses_nullTest (f : Field) (negated : Bool) : (f.nullTest negated).withClauses = f.withClauses := by
  cases f <;> simp [nullTest, Condition.withClauses, Field.withClauses]

theorem withClauses_unaliased (f : Field) : f.unaliased.withClauses = f.withClauses := by
  fun_induction unaliased f with
  | case1 x a ih => rw [ih, Field.withClauses]
  | case2 => rfl

theorem withClauses_named (f : Field) (name : String) : (f.named name).withClauses = f.withClauses := by
  unfold named
  split
  · rfl
  · rw [Field.withClauses, withClauses_unaliased]

/-- A row has the `WITH` clauses of its members. -/
theorem flatMap_flattenAll (fs : List Field) :
    (flattenAll fs).flatMap Field.withClauses = fs.flatMap Field.withClauses := by
  refine flattenAll.induct (fun f => f.flatten.flatMap Field.withClauses = f.withClauses)
    (fun fs => (flattenAll fs).flatMap Field.withClauses = fs.flatMap Field.withClauses) ?_ ?_ ?_ ?_ ?_ fs
  · intro members ih
    rw [flatten, ih, Field.withClauses, allWithClauses_eq]
  · intro members a ih
    rw [flatten, ih, Field.withClauses, Field.withClauses, allWithClauses_eq]
  · intro f hr ha
    rw [flatten]
    · simp
    · exact hr
    · exact ha
  · rfl
  · intro f fs hf hfs
    rw [flattenAll, List.flatMap_append, hf, hfs, List.flatMap_cons]

theorem withClauses_zipWith_subset {g : Field → String → Field}
    (hg : ∀ f name, (g f name).withClauses = f.withClauses) (fs : List Field) (names : List String) :
    (List.zipWith g fs names).flatMap Field.withClauses ⊆ fs.flatMap Field.withClauses := by
  induction fs generalizing names with
  | nil => simp
  | cons f fs ih =>
    cases names with
    | nil => simp
    | cons name names =>
      rw [List.zipWith_cons_cons, List.flatMap_cons, List.flatMap_cons, hg]
      exact List.append_subset.2 ⟨List.subset_append_left _ _,
        List.subset_append_of_subset_right _ (ih names)⟩

end Field

/-! ## Expansions -/

theorem Extremum.withClauses_expand_subset (which : Extremum) (comparison : ComparisonOp)
    (first second : Field) (rest : List Field) :
    (which.expand comparison first second rest).withClauses
      ⊆ (Field.extremum which (first :: second :: rest)).withClauses := by
  intro w hw
  simp only [expand, Field.withClauses, Field.testsWithClauses, Field.optionWithClauses, Condition.or,
    Condition.withClauses_join, Field.withClauses_nullTest, Condition.withClauses, Field.null,
    Field.allWithClauses, List.mem_append, List.append_nil] at hw ⊢
  grind

theorem Condition.withClauses_asCase_subset (c : Condition) : c.asCase.withClauses ⊆ c.withClauses := by
  intro w hw
  simpa [asCase, Field.withClauses, Field.testsWithClauses, Field.optionWithClauses, Field.literal,
    withClauses_negate] using hw

theorem SortField.withClauses_nullKey (f : Field) (nulls : NullOrdering) :
    (nullKey f nulls).withClauses = f.withClauses := by
  simp [nullKey, Field.withClauses, Field.testsWithClauses, Field.optionWithClauses, Field.literal,
    Field.withClauses_nullTest]

/-! ## Selects -/

namespace Select

theorem withClauses_eq (s : Select) :
    s.withClauses = With.withClauses s.withClause ++ s.fields.flatMap Field.withClauses
      ++ s.tables.flatMap Table.withClauses ++ s.condition.withClauses ++ s.groupBy.flatMap Field.withClauses
      ++ s.having.withClauses ++ s.orderBy.flatMap fun o => o.field.withClauses := by
  cases s
  simp [Select.withClauses, Field.allWithClauses_eq, Table.allWithClauses_eq, SortField.allWithClauses_eq]

theorem withClauses_flattened (s : Select) :
    s.flattened.flatMap Field.withClauses = s.fields.flatMap Field.withClauses :=
  Field.flatMap_flattenAll s.fields

/-- A select has no more `WITH` clauses if its select list has no more. -/
theorem withClauses_subset_of_fields {s : Select} {fields : List Field}
    (h : fields.flatMap Field.withClauses ⊆ s.fields.flatMap Field.withClauses) :
    { s with fields := fields }.withClauses ⊆ s.withClauses := by
  intro w hw
  rw [withClauses_eq] at hw ⊢
  simp only [List.mem_append] at hw ⊢
  rcases hw with (((((hw | hw) | hw) | hw) | hw) | hw) | hw
  · simp [hw]
  · simp [h hw]
  all_goals simp [hw]

theorem withClauses_projected (inner : Select) (columns : List (String × String)) (asName : String) :
    ((Renaming.projected inner columns).toSelect asName).withClauses = inner.withClauses := by
  rw [withClauses_eq]
  simp [Renaming.toSelect, ofFields, With.withClauses, Field.withClauses, Field.qualified, Table.withClauses,
    Condition.withClauses, List.flatMap_map]

theorem withClauses_countPassing (inner : Select) (columns : List String) (asName : String) (negated : Bool) :
    (countPassing inner columns asName negated).withClauses = inner.withClauses := by
  rw [withClauses_eq]
  simp [countPassing, ofFields, Field.countStar, With.withClauses, Window.withClauses, Field.withClauses,
    Field.optionWithClauses, Field.withClauses_nullTest, Field.qualified, Table.withClauses,
    Condition.withClauses_all, Condition.withClauses, List.flatMap_map]

theorem withClauses_rename_subset {s : Select} {names : List String} {plan : Renaming}
    (h : s.rename? names = some plan) (asName : String) : (plan.toSelect asName).withClauses ⊆ s.withClauses := by
  unfold rename? at h
  dsimp only at h
  split at h
  · cases h
  · split at h
    · cases h
      apply withClauses_subset_of_fields
      rw [← withClauses_flattened]
      refine Field.withClauses_zipWith_subset ?_ _ _
      intro f name
      rw [Field.withClauses, Field.withClauses_unaliased]
    · cases h
      rw [withClauses_projected]
      apply withClauses_subset_of_fields
      rw [← withClauses_flattened]
      exact Field.withClauses_zipWith_subset Field.withClauses_named _ _

end Select

end SqlDialects
