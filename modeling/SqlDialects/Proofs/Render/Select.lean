import SqlDialects.Proofs.Render.Field

/-!
# Tables and selects under a simulation

The writers of `FROM` entries, sort keys, common tables and the clauses of a select. A select runs on a
query level of its own, so its clauses are compared in the world of that level.

The rules for selects are about any way to write the select list (`Visitor.selectBy`). The one that there is
declares fields by the flag, so passes that write it are compared by a relation that allows this anywhere.
-/

set_option autoImplicit false

namespace SqlDialects

namespace Visitor

open Render

section

variable (visit : Visitor) (list : Render Unit)

/-! The writers of a select, for any way to write its list. -/

def clausesBy (s : Select) : Render Unit := do
  sql "SELECT "
  when s.distinct (sql "DISTINCT ")
  (s.tables.flatMap Table.declaredNames).forM (fun n => declare n .table)
  list
  visit.listClause "FROM " (s.tables.map .table)
  visit.conditionClause "WHERE " s.condition
  visit.listClause "GROUP BY " (s.groupBy.map .field)
  visit.conditionClause "HAVING " s.having
  visit.listClause "ORDER BY " (s.orderBy.map .sortField)
  limitClause s.limit s.offset

def selectUnderBy (w : With) (s : Select) : Render Unit := do
  when (!w.tables.isEmpty) (visit.withClause w)
  let flags ← flags
  withFlags { flags with commonTablesHoisted := true } (visit.clausesBy list s)

def hoistedSelectBy (s : Select) : Render Unit := do
  match s.hoisted (← dialect) with
  | .error e => throw e
  | .ok w => visit.selectUnderBy list w s

def selectOnLevelBy (s : Select) (outermost : Bool) : Render Unit := do
  match Capability.withClause (← dialect) with
  | .native =>
    onSome s.withClause visit.withClause
    visit.clausesBy list s
  | .unsupported =>
    demand s.withClause.isNone "WITH"
    visit.clausesBy list s
  | .hoistToTopLevel =>
    let flags ← flags
    if outermost && !flags.commonTablesHoisted then visit.hoistedSelectBy list s else visit.clausesBy list s

def selectBy (s : Select) : Render Unit := do
  let outermost := !(← scopes).isOpen
  onQueryLevel (visit.selectOnLevelBy list s outermost)

end

/-- With the list that there is, they are the writers that there are. -/
theorem selectBy_selectList (visit : Visitor) (s : Select) :
    visit.selectBy (visit.selectList s.flattened) s = visit.select s := rfl

end Visitor

namespace Simulation.Step

variable {ι : Type} {declaring : ι → Prop} {S : Simulation ι declaring} {i : ι} {visit visit' : Visitor}

/-! ## Tables -/

theorem hint (h : IndexHint) : S.Step i (Visitor.hint h) (Visitor.hint h) :=
  .bind (.sql _) fun _ => .nameList _

theorem derived {s : Select} (asName : String) {columns : List String}
    (hs : S.Same visit visit' (.select s))
    (h : ∀ plan a, s.rename? columns = some plan → S.Same visit visit' (.select (plan.toSelect a))) :
    S.Step i (visit.derived s asName columns) (visit'.derived s asName columns) := by
  refine .bind .dialect fun d => ?_
  split
  · exact .bind (.subquery hs) fun _ => .bind (.sql _) fun _ => .bind (.name _) fun _ =>
      .when fun _ => .nameList _
  · refine .bindReturned (.renamed _ _ _) fun inner hi => ?_
    obtain ⟨c, k, hr⟩ := hi
    obtain ⟨plan, a, hp, rfl⟩ := Visitor.renamed_returns hr
    exact .bind (.subquery (h plan a hp)) fun _ => .bind (.sql _) fun _ => .name _

theorem joinCondition {matching : JoinCondition}
    (h : ∀ c, matching = .on c → S.Same visit visit' (.condition c)) :
    S.Step i (visit.joinCondition matching) (visit'.joinCondition matching) := by
  cases matching with
  | none => exact .pure ()
  | on c => exact .bind (.sql _) fun _ => h c rfl i
  | «using» columns => exact .bind (.sql _) fun _ => .nameList _

theorem join (type : JoinType) {left right : Table} {matching : JoinCondition}
    (hl : S.Same visit visit' (.table left)) (hr : S.Same visit visit' (.table right))
    (hm : ∀ c, matching = .on c → S.Same visit visit' (.condition c)) :
    S.Step i (visit.tableParts (.join type left right matching))
      (visit'.tableParts (.join type left right matching)) := by
  refine .bind (hl i) fun _ => .bind (.sql _) fun _ => .bind (.sql _) fun _ => .bind (.sql _) fun _ => ?_
  have rest : S.Step i (Render.when type.takesCondition (visit.joinCondition matching))
      (Render.when type.takesCondition (visit'.joinCondition matching)) :=
    .when fun _ => .joinCondition hm
  split
  · exact .bind (.parenthesized (hr i)) fun _ => rest
  · exact .bind (hr i) fun _ => rest

theorem hinted {t : Table} {h : IndexHint} (ht : S.Same visit visit' (.table t))
    (hh : S.Same visit visit' (.hint h)) :
    S.Step i (visit.tableParts (.hinted t h)) (visit'.tableParts (.hinted t h)) :=
  .bind (ht i) fun _ => .bind .dialect fun _ => .when fun _ => .bind (.sql _) fun _ => hh i

/-! ## Clauses -/

theorem sortField {e : SortField} (hf : S.Same visit visit' (.field e.field))
    (hn : ∀ nulls, e.nulls = some nulls → ∀ m ∈ Node.fieldChildren (SortField.nullKey e.field nulls),
      S.Same visit visit' m) :
    S.Step i (visit.sortField e) (visit'.sortField e) :=
  .bind .dialect fun _ =>
    .bind (.when fun _ => .onSome fun nulls h => .bind (.expansion (hn nulls h)) fun _ => .sql _) fun _ =>
    .bind (hf i) fun _ => .bind (.onSome fun _ _ => .sql _) fun _ =>
    .when fun _ => .onSome fun _ _ => .sql _

theorem commonTable {t : CommonTable} (h : S.Same visit visit' (.select t.select)) :
    S.Step i (visit.commonTable t) (visit'.commonTable t) :=
  .bind (.name _) fun _ => .bind (.when fun _ => .nameList _) fun _ => .bind (.sql _) fun _ =>
    .subquery h

theorem commonTables (isFirst : Bool) {ts : List CommonTable} (hl : S.onLevel i)
    (h : ∀ t ∈ ts, S.Same visit visit' (.commonTable t)) :
    S.Step i (visit.commonTables isFirst ts) (visit'.commonTables isFirst ts) := by
  induction ts generalizing isFirst with
  | nil => exact .pure ()
  | cons t ts ih =>
    -- On a level of the pass both have declared the same names, so both refuse a name or neither does.
    refine .bindScopes fun s s' _ hs => ?_
    rw [hs hl]
    exact .bind (.when fun _ => .throw _) fun _ => .bind (.declare _ _ hl) fun _ =>
      .bind (.when fun _ => .sql _) fun _ => .bind (h t (by simp) i) fun _ =>
      ih false fun u hu => h u (by simp [hu])

theorem withClause {w : With} (hl : S.onLevel i) (h : ∀ t ∈ w.tables, S.Same visit visit' (.commonTable t)) :
    S.Step i (visit.withClause w) (visit'.withClause w) :=
  .bind (.sql _) fun _ => .bind (.commonTables true hl h) fun _ => .gap

theorem listClause (keyword : String) {nodes : List Node} (h : ∀ m ∈ nodes, S.Same visit visit' m) :
    S.Step i (visit.listClause keyword nodes) (visit'.listClause keyword nodes) :=
  .when fun _ => .bind .gap fun _ => .bind (.sql _) fun _ => .separated _ fun m hm => h m hm i

theorem conditionClause (keyword : String) {c : Condition} (h : S.Same visit visit' (.condition c)) :
    S.Step i (visit.conditionClause keyword c) (visit'.conditionClause keyword c) :=
  .when fun _ => .bind .gap fun _ => .bind (.sql _) fun _ => h i

theorem limitClause (limit offset : Option Nat) :
    S.Step i (Visitor.limitClause limit offset) (Visitor.limitClause limit offset) := by
  refine .bind .dialect fun d => ?_
  cases Capability.limit d with
  | limitOffset =>
    match limit, offset with
    | some n, _ => exact .bind .gap fun _ => .bind (.sql _) fun _ => .onSome fun _ _ => .sql _
    | none, some m => exact .bind .gap fun _ => .bind (.onSome fun _ _ => .sql _) fun _ => .sql _
    | none, none => exact .pure ()
  | offsetFetch =>
    exact .bind (.onSome fun _ _ => .bind .gap fun _ => .sql _) fun _ =>
      .onSome fun _ _ => .bind .gap fun _ => .sql _

section

variable {list list' : Render Unit} {s : Select}

theorem clausesBy (hs : S.Step i list list') (hc : ∀ m ∈ Node.clauseChildren s, S.Same visit visit' m)
    (hl : S.onLevel i) : S.Step i (visit.clausesBy list s) (visit'.clausesBy list' s) := by
  have tables : ∀ m ∈ s.tables.map Node.table, S.Same visit visit' m :=
    fun m hm => hc m (by simp [Node.clauseChildren, List.mem_map.1 hm])
  have groups : ∀ m ∈ s.groupBy.map Node.field, S.Same visit visit' m :=
    fun m hm => hc m (by simp [Node.clauseChildren, List.mem_map.1 hm])
  have keys : ∀ m ∈ s.orderBy.map Node.sortField, S.Same visit visit' m :=
    fun m hm => hc m (by simp [Node.clauseChildren, List.mem_map.1 hm])
  have condition : S.Same visit visit' (.condition s.condition) := hc _ (by simp [Node.clauseChildren])
  have having : S.Same visit visit' (.condition s.having) := hc _ (by simp [Node.clauseChildren])
  exact .bind (.sql _) fun _ => .bind (.when fun _ => .sql _) fun _ =>
    .bind (.forM fun _ _ => .declare _ _ hl) fun _ => .bind hs fun _ =>
    .bind (.listClause _ tables) fun _ => .bind (.conditionClause _ condition) fun _ =>
    .bind (.listClause _ groups) fun _ => .bind (.conditionClause _ having) fun _ =>
    .bind (.listClause _ keys) fun _ => .limitClause _ _

/-! ## Selects -/

theorem selectUnderBy {w : With} (hw : ∀ t ∈ w.tables, S.Same visit visit' (.commonTable t))
    (hs : ∀ j, S.Step j list list') (hc : ∀ m ∈ Node.clauseChildren s, S.Same visit visit' m)
    (hl : S.onLevel i) : S.Step i (visit.selectUnderBy list w s) (visit'.selectUnderBy list' w s) :=
  .bind (.when fun _ => .withClause hl hw) fun _ => .bindFlags fun _ hd =>
    .withFlags _ hd fun j hj => .clausesBy (hs j) hc (hj hl)

theorem hoistedSelectBy (hw : ∀ d w, s.hoisted d = .ok w → ∀ t ∈ w.tables, S.Same visit visit' (.commonTable t))
    (hs : ∀ j, S.Step j list list') (hc : ∀ m ∈ Node.clauseChildren s, S.Same visit visit' m)
    (hl : S.onLevel i) : S.Step i (visit.hoistedSelectBy list s) (visit'.hoistedSelectBy list' s) := by
  refine .bind .dialect fun d => ?_
  cases h : s.hoisted d with
  | error e => exact .throw e
  | ok w => exact .selectUnderBy (hw d w h) hs hc hl

theorem selectOnLevelBy (outermost : Bool) (hl : S.onLevel i)
    (ht : ∀ t ∈ s.commonTables, S.Same visit visit' (.commonTable t))
    (hw : ∀ d w, s.hoisted d = .ok w → ∀ t ∈ w.tables, S.Same visit visit' (.commonTable t))
    (hs : ∀ j, S.Step j list list') (hc : ∀ m ∈ Node.clauseChildren s, S.Same visit visit' m) :
    S.Step i (visit.selectOnLevelBy list s outermost) (visit'.selectOnLevelBy list' s outermost) := by
  refine .bind .dialect fun d => ?_
  have plain : S.Step i (visit.clausesBy list s) (visit'.clausesBy list' s) := .clausesBy (hs i) hc hl
  cases Capability.withClause d with
  | native =>
    refine .bind (.onSome fun w h => .withClause hl fun t hm => ht t ?_) fun _ => plain
    rw [Select.commonTables, h]
    exact hm
  | unsupported => exact .bind (.demand _ _) fun _ => plain
  | hoistToTopLevel =>
    refine .bind .flags fun flags => ?_
    split
    · exact .hoistedSelectBy hw hs hc hl
    · exact plain

theorem selectBy (ht : ∀ t ∈ s.commonTables, S.Same visit visit' (.commonTable t))
    (hw : ∀ d w, s.hoisted d = .ok w → ∀ t ∈ w.tables, S.Same visit visit' (.commonTable t))
    (hs : ∀ j, S.Step j list list') (hc : ∀ m ∈ Node.clauseChildren s, S.Same visit visit' m) :
    S.Step i (visit.selectBy list s) (visit'.selectBy list' s) := by
  refine .bindScopes fun scopes scopes' ho _ => ?_
  dsimp only
  rw [ho]
  exact .onQueryLevel fun _ hl => .selectOnLevelBy _ hl ht hw hs hc

end

/-! ### With the list that there is -/

section

variable {S : Simulation ι} {i : ι} {s : Select}

theorem selectList {fs : List Field} (h : ∀ f ∈ fs, S.Same visit visit' (.field f)) :
    S.Step i (visit.selectList fs) (visit'.selectList fs) := by
  unfold Visitor.selectList
  split
  · exact .sql _
  · exact .bind .flags fun _ => .separated _ fun f hf => .withFlags _ (fun _ => trivial) fun j _ => h f hf j

/-- The clauses of a select visit its parts, with the rows of the select list expanded. -/
theorem clauses (hc : ∀ m ∈ Node.clauseChildren s, S.Same visit visit' m)
    (hf : ∀ f ∈ s.flattened, S.Same visit visit' (.field f)) (hl : S.onLevel i := by trivial) :
    S.Step i (visit.clauses s) (visit'.clauses s) :=
  .clausesBy (.selectList hf) hc hl

theorem selectUnder {w : With} (hw : ∀ t ∈ w.tables, S.Same visit visit' (.commonTable t))
    (hc : ∀ m ∈ Node.clauseChildren s, S.Same visit visit' m)
    (hf : ∀ f ∈ s.flattened, S.Same visit visit' (.field f)) (hl : S.onLevel i := by trivial) :
    S.Step i (visit.selectUnder w s) (visit'.selectUnder w s) :=
  .selectUnderBy hw (fun _ => .selectList hf) hc hl

theorem selectOnLevel (outermost : Bool) (hl : S.onLevel i)
    (ht : ∀ t ∈ s.commonTables, S.Same visit visit' (.commonTable t))
    (hw : ∀ d w, s.hoisted d = .ok w → ∀ t ∈ w.tables, S.Same visit visit' (.commonTable t))
    (hc : ∀ m ∈ Node.clauseChildren s, S.Same visit visit' m)
    (hf : ∀ f ∈ s.flattened, S.Same visit visit' (.field f)) :
    S.Step i (visit.selectOnLevel s outermost) (visit'.selectOnLevel s outermost) :=
  .selectOnLevelBy outermost hl ht hw (fun _ => .selectList hf) hc

theorem select (ht : ∀ t ∈ s.commonTables, S.Same visit visit' (.commonTable t))
    (hw : ∀ d w, s.hoisted d = .ok w → ∀ t ∈ w.tables, S.Same visit visit' (.commonTable t))
    (hc : ∀ m ∈ Node.clauseChildren s, S.Same visit visit' m)
    (hf : ∀ f ∈ s.flattened, S.Same visit visit' (.field f)) :
    S.Step i (visit.select s) (visit'.select s) := by
  rw [← Visitor.selectBy_selectList, ← Visitor.selectBy_selectList]
  exact .selectBy ht hw (fun _ => .selectList hf) hc

end

end Simulation.Step

end SqlDialects
