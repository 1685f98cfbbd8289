import SqlDialects.Query.Node
import Mathlib.Data.List.Perm.Basic

/-!
# Common tables anywhere in a query

`Select.withClauses` finds every `WITH` clause of a query by recursion on the syntax, constructor by
constructor, and `Select.declared` the common tables that they declare. Neither relies on the view of a tree as
nodes with children. That view reaches the same `WITH` clauses (`Node.withClauses_eq`), so a walk over it
misses none: the common tables in the order in which such a walk leaves them (`Node.emitted`) are a
permutation of the declared ones.
-/

set_option autoImplicit false

namespace SqlDialects

mutual

/-- The `WITH` clauses in a field, in reading order. -/
def Field.withClauses : Field → List With
  | .column _ | .value _ | .inline _ => []
  | .arithmetic _ l r => l.withClauses ++ r.withClauses
  | .neg x | .bitNot x | .cast x _ | .aliased x _ => x.withClauses
  | .extremum _ xs | .coalesce xs | .call _ xs | .jsonArray xs _ | .row xs => Field.allWithClauses xs
  | .aggregate ⟨_, value, _, window⟩ => Field.optionWithClauses value ++ Window.withClauses window
  | .searchedCase bs e => Field.testsWithClauses bs ++ Field.optionWithClauses e
  | .simpleCase x bs e =>
    x.withClauses ++ Field.candidatesWithClauses bs ++ Field.optionWithClauses e
  | .subquery s => s.withClauses
  | .condition c => c.withClauses
  | .jsonObject es _ => Field.entriesWithClauses es
  | .jsonValue x _ _ (some (.default y)) => x.withClauses ++ y.withClauses
  | .jsonValue x _ _ _ => x.withClauses
  | .raw ⟨_, xs, _⟩ => Field.allWithClauses xs

def Field.allWithClauses : List Field → List With
  | [] => []
  | x :: xs => x.withClauses ++ Field.allWithClauses xs

def Field.optionWithClauses : Option Field → List With
  | none => []
  | some x => x.withClauses

def Field.testsWithClauses : List (Condition × Field) → List With
  | [] => []
  | (c, x) :: bs => c.withClauses ++ x.withClauses ++ Field.testsWithClauses bs

def Field.candidatesWithClauses : List (Field × Field) → List With
  | [] => []
  | (y, x) :: bs => y.withClauses ++ x.withClauses ++ Field.candidatesWithClauses bs

def Field.entriesWithClauses : List (String × Field) → List With
  | [] => []
  | (_, x) :: es => x.withClauses ++ Field.entriesWithClauses es

def Window.withClauses : Option Window → List With
  | none => []
  | some ⟨ps, os⟩ => Field.allWithClauses ps ++ SortField.allWithClauses os

def SortField.allWithClauses : List SortField → List With
  | [] => []
  | ⟨x, _, _⟩ :: os => x.withClauses ++ SortField.allWithClauses os

def Condition.withClauses : Condition → List With
  | .none => []
  | .compare _ l r => l.withClauses ++ r.withClauses
  | .isNull x _ | .xmlExists _ x _ | .field x => x.withClauses
  | .between x l h _ => x.withClauses ++ l.withClauses ++ h.withClauses
  | .inList x xs _ => x.withClauses ++ Field.allWithClauses xs
  | .existence s _ | .selectIsNull s _ => s.withClauses
  | .combined _ cs => Condition.allWithClauses cs
  | .xor l r => l.withClauses ++ r.withClauses
  | .not c => c.withClauses
  | .raw ⟨_, xs, _⟩ => Field.allWithClauses xs

def Condition.allWithClauses : List Condition → List With
  | [] => []
  | c :: cs => c.withClauses ++ Condition.allWithClauses cs

def Table.withClauses : Table → List With
  | .named _ _ _ => []
  | .derived s _ _ => s.withClauses
  | .lateral t | .hinted t _ => t.withClauses
  | .join _ l r (.on c) => l.withClauses ++ r.withClauses ++ c.withClauses
  | .join _ l r _ => l.withClauses ++ r.withClauses

def Table.allWithClauses : List Table → List With
  | [] => []
  | t :: ts => t.withClauses ++ Table.allWithClauses ts

/-- A `WITH` clause that may be missing, and those in the bodies of its common tables. -/
def With.withClauses : Option With → List With
  | none => []
  | some ⟨recursive, ts⟩ => ⟨recursive, ts⟩ :: CommonTable.allWithClauses ts

def CommonTable.allWithClauses : List CommonTable → List With
  | [] => []
  | ⟨_, _, s⟩ :: ts => s.withClauses ++ CommonTable.allWithClauses ts

/-- Those in a select, its own first. -/
def Select.withClauses : Select → List With
  | ⟨w, _, fields, tables, condition, groupBy, having, orderBy, _, _⟩ =>
    With.withClauses w ++ Field.allWithClauses fields ++ Table.allWithClauses tables
      ++ condition.withClauses ++ Field.allWithClauses groupBy ++ having.withClauses
      ++ SortField.allWithClauses orderBy
end

/-- The common tables declared anywhere in a select. -/
def Select.declared (s : Select) : List CommonTable := s.withClauses.flatMap With.tables

/-! ## Lists of parts -/

theorem Field.allWithClauses_eq (xs : List Field) :
    Field.allWithClauses xs = xs.flatMap Field.withClauses := by
  induction xs with
  | nil => rfl
  | cons x xs ih => rw [Field.allWithClauses, ih, List.flatMap_cons]

theorem Field.testsWithClauses_eq (bs : List (Condition × Field)) :
    Field.testsWithClauses bs = bs.flatMap fun b => b.1.withClauses ++ b.2.withClauses := by
  induction bs with
  | nil => rfl
  | cons b bs ih => rw [Field.testsWithClauses, ih, List.flatMap_cons]

theorem Field.candidatesWithClauses_eq (bs : List (Field × Field)) :
    Field.candidatesWithClauses bs = bs.flatMap fun b => b.1.withClauses ++ b.2.withClauses := by
  induction bs with
  | nil => rfl
  | cons b bs ih => rw [Field.candidatesWithClauses, ih, List.flatMap_cons]

theorem Field.entriesWithClauses_eq (es : List (String × Field)) :
    Field.entriesWithClauses es = es.flatMap fun e => e.2.withClauses := by
  induction es with
  | nil => rfl
  | cons e es ih => rw [Field.entriesWithClauses, ih, List.flatMap_cons]

theorem SortField.allWithClauses_eq (os : List SortField) :
    SortField.allWithClauses os = os.flatMap fun o => o.field.withClauses := by
  induction os with
  | nil => rfl
  | cons o os ih =>
    obtain ⟨x, order, nulls⟩ := o
    rw [SortField.allWithClauses, ih, List.flatMap_cons]

theorem Condition.allWithClauses_eq (cs : List Condition) :
    Condition.allWithClauses cs = cs.flatMap Condition.withClauses := by
  induction cs with
  | nil => rfl
  | cons c cs ih => rw [Condition.allWithClauses, ih, List.flatMap_cons]

theorem Table.allWithClauses_eq (ts : List Table) :
    Table.allWithClauses ts = ts.flatMap Table.withClauses := by
  induction ts with
  | nil => rfl
  | cons t ts ih => rw [Table.allWithClauses, ih, List.flatMap_cons]

theorem CommonTable.allWithClauses_eq (ts : List CommonTable) :
    CommonTable.allWithClauses ts = ts.flatMap fun t => t.select.withClauses := by
  induction ts with
  | nil => rfl
  | cons t ts ih =>
    obtain ⟨name, columns, s⟩ := t
    rw [CommonTable.allWithClauses, ih, List.flatMap_cons]

/-! ## Nodes -/

namespace Node

/-- The `WITH` clauses in a node. -/
def withClauses : Node → List With
  | field f => f.withClauses
  | condition c => c.withClauses
  | table t => t.withClauses
  | select s => s.withClauses
  | sortField e => e.field.withClauses
  | commonTable t => t.select.withClauses
  | window w => Window.withClauses (some w)
  | hint _ => []

/-- The `WITH` clause that a node has itself. -/
def ownWith : Node → List With
  | select s => s.withClause.toList
  | _ => []

theorem optionWithClauses_eq (x : Option Field) :
    Field.optionWithClauses x = (x.toList.map field).flatMap withClauses := by
  cases x with
  | none => rfl
  | some x => simp [Field.optionWithClauses, withClauses]

theorem windowWithClauses_eq (w : Option Window) :
    Window.withClauses w = (w.toList.map window).flatMap withClauses := by
  cases w with
  | none => rfl
  | some w => simp [withClauses]

theorem fieldWithClauses_eq (f : Field) :
    f.withClauses = (fieldChildren f).flatMap withClauses := by
  cases f with
  | column | value | inline | arithmetic | neg | bitNot | cast | aliased | subquery | condition =>
    simp [Field.withClauses, fieldChildren, withClauses]
  | extremum | coalesce | call | jsonArray | row =>
    simp [Field.withClauses, fieldChildren, withClauses, Field.allWithClauses_eq, List.flatMap_map]
  | aggregate a =>
    obtain ⟨kind, value, distinct, window⟩ := a
    rw [Field.withClauses, optionWithClauses_eq, windowWithClauses_eq, ← List.flatMap_append]
    rfl
  | searchedCase bs e =>
    simp [Field.withClauses, fieldChildren, withClauses, optionWithClauses_eq, Field.testsWithClauses_eq,
      List.flatMap_assoc]
  | simpleCase x bs e =>
    simp [Field.withClauses, fieldChildren, withClauses, optionWithClauses_eq,
      Field.candidatesWithClauses_eq, List.flatMap_assoc]
  | jsonObject es n =>
    simp [Field.withClauses, fieldChildren, withClauses, Field.entriesWithClauses_eq, List.flatMap_map]
  | jsonValue x p r e =>
    rcases e with _ | (_ | _ | _) <;> simp [Field.withClauses, fieldChildren, withClauses]
  | raw t =>
    obtain ⟨text, xs, verbatim⟩ := t
    simp [Field.withClauses, fieldChildren, withClauses, Field.allWithClauses_eq, List.flatMap_map]

theorem conditionWithClauses_eq (c : Condition) :
    c.withClauses = (conditionChildren c).flatMap withClauses := by
  cases c with
  | none | compare | isNull | between | existence | selectIsNull | xor | not | xmlExists | field =>
    simp [Condition.withClauses, conditionChildren, withClauses]
  | inList x xs n =>
    simp [Condition.withClauses, conditionChildren, withClauses, Field.allWithClauses_eq, List.flatMap_map]
  | combined op cs =>
    simp [Condition.withClauses, conditionChildren, withClauses, Condition.allWithClauses_eq,
      List.flatMap_map]
  | raw t =>
    obtain ⟨text, xs, verbatim⟩ := t
    simp [Condition.withClauses, conditionChildren, withClauses, Field.allWithClauses_eq, List.flatMap_map]

theorem tableWithClauses_eq (t : Table) :
    t.withClauses = (tableChildren t).flatMap withClauses := by
  cases t with
  | named | derived | lateral | hinted => simp [Table.withClauses, tableChildren, withClauses]
  | join ty l r on => cases on <;> simp [Table.withClauses, tableChildren, withClauses]

/-- The children of a node reach every `WITH` clause in it but its own. -/
theorem withClauses_eq (n : Node) :
    n.withClauses = n.ownWith ++ n.children.flatMap withClauses := by
  cases n with
  | field f => exact fieldWithClauses_eq f
  | condition c => exact conditionWithClauses_eq c
  | table t => exact tableWithClauses_eq t
  | select s =>
    obtain ⟨w, distinct, fields, tables, condition, groupBy, having, orderBy, limit, offset⟩ := s
    rcases w with _ | ⟨recursive, ts⟩ <;>
      simp [withClauses, ownWith, children, clauseChildren, Select.commonTables, Select.withClauses,
        With.withClauses, Field.allWithClauses_eq, Table.allWithClauses_eq, SortField.allWithClauses_eq,
        CommonTable.allWithClauses_eq, List.flatMap_map]
  | sortField e => simp [withClauses, ownWith, children]
  | commonTable t => simp [withClauses, ownWith, children]
  | window w =>
    obtain ⟨ps, os⟩ := w
    simp [withClauses, ownWith, children, Window.withClauses, Field.allWithClauses_eq,
      SortField.allWithClauses_eq, List.flatMap_map]
  | hint h => rfl

theorem withClauses_subset_of_mem_children {n c : Node} (h : c ∈ n.children) :
    c.withClauses ⊆ n.withClauses := by
  intro w hw
  rw [withClauses_eq n]
  exact List.mem_append_right _ (List.mem_flatMap.2 ⟨c, h, hw⟩)

/-! ## The order of a walk -/

/-- The common table that a node is. -/
def ownTable : Node → List CommonTable
  | commonTable t => [t]
  | _ => []

/-- The common tables of a node in the order in which a walk over it leaves them: each behind those in its
body. -/
def emitted (n : Node) : List CommonTable :=
  n.children.attach.flatMap (fun c => c.1.emitted) ++ n.ownTable
termination_by sizeOf n
decreasing_by exact sizeOf_lt_of_mem_children c.2

theorem emitted_eq (n : Node) : n.emitted = n.children.flatMap emitted ++ n.ownTable := by
  have ha : n.children.attach.flatMap (fun c => c.1.emitted) = n.children.flatMap emitted := by
    rw [List.flatMap_subtype fun _ _ => rfl, List.unattach_attach]
  rw [emitted, ha]

theorem emitted_subset_of_mem_children {n c : Node} (h : c ∈ n.children) : c.emitted ⊆ n.emitted := by
  intro t ht
  rw [emitted_eq n]
  exact List.mem_append_left _ (List.mem_flatMap.2 ⟨c, h, ht⟩)

/-- Only a select has common tables as children. -/
theorem commonTable_mem_children {n : Node} {t : CommonTable} (h : commonTable t ∈ n.children) :
    ∃ s, n = select s ∧ t ∈ s.commonTables := by
  cases n with
  | select s =>
    -- Its clauses have no common table among their parts.
    refine ⟨s, rfl, ?_⟩
    simpa [children, clauseChildren] using h
  | field f =>
    exfalso
    cases f with
    | jsonValue x p r e => rcases e with _ | (_ | _ | _) <;> simp [children, fieldChildren] at h
    | _ => simp [children, fieldChildren] at h
  | condition c =>
    exfalso
    cases c <;> simp [children, conditionChildren] at h
  | table t =>
    exfalso
    cases t with
    | join ty l r on => cases on <;> simp [children, tableChildren] at h
    | _ => simp [children, tableChildren] at h
  | _ => simp [children] at h

theorem flatMap_ownTable_children (n : Node) :
    n.children.flatMap ownTable = n.ownWith.flatMap With.tables := by
  by_cases hs : ∃ s, n = select s
  · obtain ⟨s, rfl⟩ := hs
    have hc : (clauseChildren s).flatMap ownTable = [] := by
      simp [clauseChildren, ownTable]
    have ht : (s.commonTables.map commonTable).flatMap ownTable = s.commonTables := by
      simp [List.flatMap_map, ownTable]
    show (s.commonTables.map commonTable ++ clauseChildren s).flatMap ownTable = s.withClause.toList.flatMap _
    rw [List.flatMap_append, ht, hc, List.append_nil, Select.commonTables]
    cases s.withClause <;> simp
  · have ho : n.ownWith = [] := by
      cases n with
      | select s => exact absurd ⟨s, rfl⟩ hs
      | _ => rfl
    rw [ho, List.flatMap_nil, List.flatMap_eq_nil_iff]
    intro c hc
    cases c with
    | commonTable t =>
      obtain ⟨s, hn, _⟩ := commonTable_mem_children hc
      exact absurd ⟨s, hn⟩ hs
    | _ => rfl

/-- A walk leaves exactly the declared common tables, and the one that the node is itself. -/
theorem emitted_perm (n : Node) : n.emitted.Perm (n.withClauses.flatMap With.tables ++ n.ownTable) := by
  induction n using Node.induction with
  | step n ih =>
    rw [emitted_eq, withClauses_eq]
    apply List.Perm.append_right
    -- Each child leaves its own table behind those of its clauses. All own tables together are the clause
    -- of the node, which stands before the clauses of the children.
    calc n.children.flatMap emitted
        |>.Perm (n.children.flatMap fun c => c.withClauses.flatMap With.tables ++ c.ownTable) :=
          List.Perm.flatMap_left _ ih
      _ |>.Perm (n.children.flatMap (fun c => c.withClauses.flatMap With.tables)
            ++ n.children.flatMap ownTable) := (List.flatMap_append_perm _ _ _).symm
      _ |>.Perm ((n.ownWith ++ n.children.flatMap withClauses).flatMap With.tables) := by
          rw [flatMap_ownTable_children, List.flatMap_append, List.flatMap_assoc]
          exact List.perm_append_comm

theorem emitted_select_perm (s : Select) : (select s).emitted.Perm s.declared := by
  have h := emitted_perm (select s)
  have hn : (select s).ownTable = [] := rfl
  rw [hn, List.append_nil] at h
  exact h

theorem emitted_commonTable (t : CommonTable) :
    (commonTable t).emitted = (select t.select).emitted ++ [t] := by
  rw [emitted_eq]
  simp [children, ownTable]

theorem withClauses_subset_of_mem_emitted {n : Node} {t : CommonTable} (h : t ∈ n.emitted) :
    t.select.withClauses ⊆ n.withClauses := by
  induction n using Node.induction with
  | step n ih =>
    rw [emitted_eq] at h
    rcases List.mem_append.1 h with h | h
    · obtain ⟨c, hc, ht⟩ := List.mem_flatMap.1 h
      intro w hw
      exact withClauses_subset_of_mem_children hc (ih c hc ht hw)
    · cases n with
      | commonTable u =>
        rw [List.mem_singleton.1 h]
        exact List.Subset.refl _
      | _ => cases h

/-- Every common table stands behind those in its body. -/
def BodiesFirst (ts : List CommonTable) : Prop :=
  ∀ before t after, ts = before ++ t :: after → ∀ u ∈ (select t.select).emitted, u ∈ before

/-- In two lists one behind the other, bodies may also stand in the first list. -/
theorem BodiesFirst.append {ts us : List CommonTable} (h : BodiesFirst ts)
    (h' : ∀ before t after, us = before ++ t :: after → ∀ u ∈ (select t.select).emitted, u ∈ ts ++ before) :
    BodiesFirst (ts ++ us) := by
  intro before t after hs u hu
  rcases List.append_eq_append_iff.1 hs with ⟨ms, rfl, hm⟩ | ⟨ms, rfl, hm⟩
  · exact h' ms t after hm u hu
  · -- The table stands in the first list, or it is the first of the second.
    cases ms with
    | nil =>
      have hb := h' [] t after hm.symm u hu
      simpa using hb
    | cons x ms =>
      injection hm with hx hm
      subst hx
      exact h before t ms rfl u hu

theorem bodiesFirst_flatMap {cs : List Node} (h : ∀ c ∈ cs, BodiesFirst c.emitted) :
    BodiesFirst (cs.flatMap emitted) := by
  induction cs with
  | nil =>
    intro before t after hs
    simp at hs
  | cons c cs ih =>
    rw [List.flatMap_cons]
    apply (h c (by simp)).append
    intro before t after hs u hu
    have hr := ih (fun c' hc' => h c' (by simp [hc'])) before t after hs u hu
    exact List.mem_append_right _ hr

/-- In the order of a walk a common table stands behind those in its body. -/
theorem bodiesFirst_emitted (n : Node) : BodiesFirst n.emitted := by
  induction n using Node.induction with
  | step n ih =>
    rw [emitted_eq]
    apply (bodiesFirst_flatMap ih).append
    -- A common table has its body as its only child, and the walk leaves it behind that.
    intro before t after hs u hu
    cases n with
    | commonTable t' =>
      obtain ⟨rfl, ht⟩ : before = [] ∧ t' = t := by
        cases before with
        | nil =>
          injection hs with ht _
          exact ⟨rfl, ht⟩
        | cons b bs => simp [ownTable] at hs
      subst ht
      simpa [children] using hu
    | _ => simp [ownTable] at hs

/-- What a common table's body declares is declared where the table is. -/
theorem mem_emitted_of_body {n : Node} {t u : CommonTable} (ht : t ∈ n.emitted)
    (hu : u ∈ (select t.select).emitted) : u ∈ n.emitted := by
  obtain ⟨before, after, hs⟩ := List.append_of_mem ht
  have hb := bodiesFirst_emitted n before t after hs u hu
  rw [hs]
  exact List.mem_append_left _ hb

end Node

end SqlDialects
