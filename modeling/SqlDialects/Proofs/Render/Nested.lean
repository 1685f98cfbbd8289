import SqlDialects.Proofs.Query.Rewriting
import SqlDialects.Proofs.Render.Hoisting
import SqlDialects.Proofs.Render.Parts
import SqlDialects.Proofs.Scope

/-!
# Selects under a hoisted clause

Where `WITH` may stand on the outermost select only, nested selects are written without theirs. That is right
if the outermost clause has the like of every common table they declare, and the two are found by different
walks: the clause by one over the query as it is, the nested selects by the writers, which also visit what they
make themselves.

`Render.under` is the pass as it should be: a select is written by its clauses alone, and it is refused if the
clause at the top does not cover it. Nothing is ever refused, because all that a writer visits has its `WITH`
clauses from the query (`Node.Visits.withClauses_subset`), and so that pass is the one that is made.
-/

set_option autoImplicit false

namespace SqlDialects

/-! ## What a writer visits -/

theorem Node.withClauses_subset_of_mem_fieldChildren {f : Field} {m : Node} (h : m ∈ fieldChildren f) :
    m.withClauses ⊆ f.withClauses := by
  intro w hw
  rw [fieldWithClauses_eq]
  exact List.mem_flatMap.2 ⟨m, h, hw⟩

theorem Node.Visits.withClauses_subset {n m : Node} (h : n.Visits m) : m.withClauses ⊆ n.withClauses := by
  cases h with
  | child h => exact withClauses_subset_of_mem_children h
  | extremum h =>
    apply List.Subset.trans (withClauses_subset_of_mem_fieldChildren h)
    exact Extremum.withClauses_expand_subset _ _ _ _ _
  | truthCase h =>
    apply List.Subset.trans (withClauses_subset_of_mem_fieldChildren h)
    exact Condition.withClauses_asCase_subset _
  | nullKey _ h =>
    have hm := withClauses_subset_of_mem_fieldChildren h
    rw [SortField.withClauses_nullKey] at hm
    exact hm
  | @complement a plain _ =>
    obtain ⟨kind, value, distinct, window⟩ := a
    exact List.Subset.refl _
  | one => exact List.nil_subset _
  | count inner outer h =>
    intro w hw
    rw [withClauses, Field.withClauses, Select.withClauses_countPassing] at hw
    exact Select.withClauses_rename_subset h inner hw
  | renamed inner h => exact Select.withClauses_rename_subset h inner
  | hoisted hw h =>
    rw [Select.tables_of_hoisted hw] at h
    exact withClauses_subset_of_mem_emitted (Hoisting.mem_of_mem_firsts h)
  | @entry s f h =>
    intro w hw
    have hs : w ∈ s.fields.flatMap Field.withClauses := by
      rw [← Select.withClauses_flattened]
      exact List.mem_flatMap.2 ⟨f, h, hw⟩
    rw [withClauses, Select.withClauses_eq]
    simp [hs]

/-! ## Writing under a flat clause -/

/-- A flat clause that has the like of every common table of a select. -/
def With.Covers (w : With) (s : Select) : Prop := ∀ t ∈ s.commonTables, ∃ e ∈ w.tables, e.Matches t

open Classical in
/-- Writes a node below a flat clause. A select is written by its clauses alone, and refused if the flat
clause does not cover it. -/
noncomputable def Render.under (w : With) : Nat → Visitor
  | 0, _ => throw .nestingExceeded
  | levels + 1, .select s =>
    if w.Covers s then Render.onQueryLevel (Visitor.clauses (Render.under w levels) s)
    else Render.unsupported "WITH"
  | levels + 1, n => Visitor.parts (Render.under w levels) n

/-- The flat clause of a query covers the selects whose `WITH` clauses are all in the query. -/
theorem Select.covers_of_hoisted {s q : Select} {d : Dialect} {w : With} (hw : s.hoisted d = .ok w)
    (hq : q.withClauses ⊆ s.withClauses) : w.Covers q := by
  intro t ht
  have hd : t ∈ s.declared := by
    rw [Select.commonTables] at ht
    cases hc : q.withClause with
    | none =>
      rw [hc] at ht
      cases ht
    | some w' =>
      rw [hc] at ht
      have hw' : w' ∈ (Node.select q).withClauses := by
        rw [Node.withClauses_eq]
        exact List.mem_append_left _ (Option.mem_toList.2 hc)
      exact List.mem_flatMap.2 ⟨w', hq hw', ht⟩
  obtain ⟨e, he, _, hm⟩ := Select.exists_hoisted_matches hw ((Node.emitted_select_perm s).mem_iff.2 hd)
  exact ⟨e, he, hm⟩

/-! ## Selects as they are written -/

theorem Render.onQueryLevel_congr {α : Type} {m m' : Render α} {c : Context}
    (h : m { c with scopes := c.scopes.start } = m' { c with scopes := c.scopes.start }) :
    Render.onQueryLevel m c = Render.onQueryLevel m' c := by
  unfold Render.onQueryLevel
  rw [h]

theorem Render.dialect_bind {α : Type} (f : Dialect → Render α) (c : Context) :
    (Render.dialect >>= f) c = f c.dialect c := rfl

theorem Render.flags_bind {α : Type} (f : RenderFlags → Render α) (c : Context) :
    (Render.flags >>= f) c = f c.flags c := rfl

namespace Visitor

variable {visit : Visitor} {s : Select} {c : Context}

theorem selectOnLevel_apply (hd : Capability.withClause c.dialect = .hoistToTopLevel) (outermost : Bool) :
    visit.selectOnLevel s outermost c
      = (if outermost && !c.flags.commonTablesHoisted then visit.hoistedSelect s else visit.clauses s) c := by
  unfold selectOnLevel
  rw [Render.dialect_bind, hd]
  exact Render.flags_bind _ c

theorem select_nested (hd : Capability.withClause c.dialect = .hoistToTopLevel)
    (ho : c.scopes.isOpen = true) : visit.select s c = Render.onQueryLevel (visit.clauses s) c := by
  have hs : visit.select s c = Render.onQueryLevel (visit.selectOnLevel s (!c.scopes.isOpen)) c := rfl
  rw [hs, ho]
  apply Render.onQueryLevel_congr
  exact selectOnLevel_apply (c := { c with scopes := c.scopes.start }) hd false

theorem select_outermost (hd : Capability.withClause c.dialect = .hoistToTopLevel)
    (ho : c.scopes.isOpen = false) (hf : c.flags.commonTablesHoisted = false) :
    visit.select s c = Render.onQueryLevel (visit.hoistedSelect s) c := by
  have hs : visit.select s c = Render.onQueryLevel (visit.selectOnLevel s (!c.scopes.isOpen)) c := rfl
  rw [hs, ho]
  apply Render.onQueryLevel_congr
  rw [selectOnLevel_apply (c := { c with scopes := c.scopes.start }) hd, hf]
  rfl

theorem select_eq_under {w : With} (hd : Capability.withClause c.dialect = .hoistToTopLevel)
    (ho : c.scopes.isOpen = false) (hf : c.flags.commonTablesHoisted = false)
    (hw : s.hoisted c.dialect = .ok w) : visit.select s c = Render.onQueryLevel (visit.selectUnder w s) c := by
  rw [select_outermost hd ho hf]
  apply Render.onQueryLevel_congr
  unfold hoistedSelect
  rw [Render.dialect_bind, hw]

theorem select_hoisted_error {e : RenderError} (hd : Capability.withClause c.dialect = .hoistToTopLevel)
    (ho : c.scopes.isOpen = false) (hf : c.flags.commonTablesHoisted = false)
    (he : s.hoisted c.dialect = .error e) : ∃ c', visit.select s c = .error e c' := by
  rw [select_outermost hd ho hf]
  unfold Render.onQueryLevel hoistedSelect
  rw [Render.dialect_bind, he]
  exact ⟨_, rfl⟩

end Visitor

/-! ## Two passes on open query levels -/

/-- A pass in a dialect beside itself, a number of query levels below the outermost one. A detached context
sees all of them as one level, so it stands on the outermost one again. -/
def Simulation.below (d : Dialect) : Simulation Nat := Lockstep.simulation {
  rel k c c' := c = c' ∧ c.dialect = d ∧ c.scopes.depth = k + 1
  failed _ c c' := c = c'
  fail h := h.1
  alike := by
    rintro _ c _ ⟨rfl, _⟩
    exact ⟨rfl, rfl, rfl, rfl⟩
  write := by
    rintro _ c _ p ⟨rfl, h⟩
    exact ⟨rfl, h⟩
  declare := by
    rintro _ c _ n e ⟨rfl, hd, hk⟩
    exact ⟨rfl, hd, (ScopeStack.depth_set c.scopes n e).trans hk⟩
  deeper := by
    rintro k c _ ⟨rfl, h⟩
    refine ⟨k, ⟨rfl, h⟩, ?_, fun _ _ hk => hk⟩
    rintro c _ ⟨rfl, h⟩
    exact ⟨rfl, h⟩
  underFlags := by
    rintro k c _ flags ⟨rfl, h⟩
    refine ⟨k, ⟨rfl, h⟩, ?_, fun _ _ hk => by rw [hk]⟩
    rintro c _ ⟨rfl, h⟩
    exact ⟨rfl, h⟩
  level := by
    rintro k c _ ⟨rfl, hd, hk⟩
    refine ⟨k + 1, ⟨rfl, hd, congrArg (· + 1) hk⟩, ?_, fun _ _ hk => by rw [hk]⟩
    rintro c _ ⟨rfl, hd, hk⟩
    exact ⟨rfl, hd, congrArg (· - 1) hk⟩
  detach := by
    rintro k c _ ⟨rfl, hd, hk⟩
    -- With a level open, the detached context has a level too, so nothing in it is taken for the outermost.
    have ho : c.scopes.isOpen = true := by simp [ScopeStack.isOpen, hk]
    refine ⟨0, ⟨rfl, hd, ScopeStack.depth_flatten ho⟩, ?_⟩
    rintro child _ ⟨rfl, _⟩
    exact ⟨rfl, hd, hk⟩ }

theorem Simulation.below_eq {d : Dialect} {k : Nat} {α : Type} {m m' : Render α}
    (h : (Simulation.below d).Step k m m') {c : Context} (hd : c.dialect = d) (hk : c.scopes.depth = k + 1) :
    m c = m' c := by
  have ho := h (show (Simulation.below d).rel k c c from ⟨rfl, hd, hk⟩)
  rcases ho.cases with ⟨a, c₁, c₂, h₁, h₂, hc⟩ | ⟨e, c₁, c₂, h₁, h₂, hc⟩
  · rw [h₁, h₂, hc.1]
  · rw [h₁, h₂, show c₁ = c₂ from hc]

/-- Within a query that its flat clause covers, nothing is refused: the pass is the one under the clause. -/
theorem Simulation.below_under {d : Dialect} (hd : Capability.withClause d = .hoistToTopLevel) {s : Select}
    {w : With} (hw : s.hoisted d = .ok w) (levels : Nat) {n : Node} (hn : n.withClauses ⊆ s.withClauses) :
    (Simulation.below d).Same (Render.node levels) (Render.under w levels) n := by
  induction levels generalizing n with
  | zero => exact fun _ => .throw _
  | succ levels ih =>
    have visited : ∀ m, n.Visits m → (Simulation.below d).Same (Render.node levels) (Render.under w levels) m :=
      fun m hm => ih (List.Subset.trans hm.withClauses_subset hn)
    intro i
    cases n with
    | select q =>
      -- A level is open, so the select is not the outermost one and its own clause is skipped.
      rintro c _ ⟨rfl, hc, hk⟩
      have ho : c.scopes.isOpen = true := by simp [ScopeStack.isOpen, hk]
      have hnode : Render.node (levels + 1) (.select q) c
          = Render.onQueryLevel (Visitor.clauses (Render.node levels) q) c := by
        rw [← hc] at hd
        exact Visitor.select_nested hd ho
      have hunder : Render.under w (levels + 1) (.select q)
          = Render.onQueryLevel (Visitor.clauses (Render.under w levels) q) := by
        rw [Render.under, if_pos (Select.covers_of_hoisted hw hn)]
      have clauses : (Simulation.below d).Step i (Render.onQueryLevel (Visitor.clauses (Render.node levels) q))
          (Render.onQueryLevel (Visitor.clauses (Render.under w levels) q)) := by
        refine .onQueryLevel fun j _ => .clauses (fun m hm => visited m (.child ?_)) fun f hf => visited _ (.entry hf)
        exact List.mem_append_right _ hm
      rw [hnode, hunder]
      exact clauses ⟨rfl, hc, hk⟩
    | _ => exact .parts visited

/-- The outermost select takes one level of nesting and leaves the others to its parts. -/
theorem Select.write_eq_select (s : Select) :
    (Node.select s).write = Visitor.select (Render.node ((Node.select s).reach - 1)) s := by
  obtain ⟨levels, hl⟩ : ∃ levels, (Node.select s).reach = levels + 1 := by
    rw [Node.reach]
    exact ⟨_, Nat.add_comm 1 _⟩
  rw [Node.write, hl, Nat.add_sub_cancel]
  rfl

/-- Where `WITH` may stand on the outermost select only, a query is written with one clause at most: the flat
one before its outermost select. All selects in it are written without theirs, wherever the writers find or
make them, and each of them is covered by the flat clause. -/
theorem Select.write_under {s : Select} {d : Dialect} {st : Settings} {c : Context}
    (hd : Capability.withClause d = .hoistToTopLevel)
    (hr : (Node.select s).write (Context.new d st) = .ok () c) :
    ∃ w, s.hoisted d = .ok w ∧
      Render.onQueryLevel (Visitor.selectUnder (Render.under w ((Node.select s).reach - 1)) w s)
        (Context.new d st) = .ok () c := by
  rw [Select.write_eq_select] at hr
  generalize (Node.select s).reach - 1 = levels at hr ⊢
  cases hw : s.hoisted d with
  | error e =>
    have he : ∃ c', Visitor.select (Render.node levels) s (Context.new d st) = .error e c' :=
      Visitor.select_hoisted_error hd rfl rfl hw
    obtain ⟨c', he⟩ := he
    rw [he] at hr
    cases hr
  | ok w =>
    refine ⟨w, rfl, ?_⟩
    rw [Visitor.select_eq_under (c := Context.new d st) hd rfl rfl hw] at hr
    rw [← hr]
    have same : ∀ m, (Node.select s).Visits m →
        (Simulation.below d).Same (Render.node levels) (Render.under w levels) m :=
      fun m hm => Simulation.below_under hd hw levels hm.withClauses_subset
    -- The outermost select is on the first level when its clauses are written.
    apply Render.onQueryLevel_congr
    refine (Simulation.below_eq ?_ rfl rfl).symm
    refine .selectUnder (fun t ht => same _ (.hoisted hw ht)) (fun m hm => same m (.child ?_))
      fun f hf => same _ (.entry hf)
    exact List.mem_append_right _ hm

/-! ## A query with a nested clause -/

namespace NestedClause

/-- `b AS (SELECT x FROM a)`. -/
def table : CommonTable :=
  ⟨"b", [], { Select.ofFields [.col "x"] with tables := [.named none "a" none] }⟩

/-- `SELECT * FROM (WITH b AS (SELECT x FROM a) SELECT x FROM b) AS d`. -/
def query : Select :=
  { Select.ofFields [] with
    tables := [.derived { Select.ofFields [.col "x"] with
      withClause := some ⟨false, [table]⟩
      tables := [.named none "b" none] } "d" []] }

theorem emitted_eq_table : (Node.select query).emitted = [table] := by
  simp [Node.emitted_eq, Node.ownTable, Node.children, Node.clauseChildren, Node.fieldChildren,
    Node.conditionChildren, Node.tableChildren, Select.commonTables, query, table, Select.ofFields, Field.col]

theorem hoisted_eq_table : query.hoisted .firebird4 = .ok ⟨false, [table]⟩ := by
  have hws : query.withClauses = [⟨false, [table]⟩] := rfl
  have hex : ∃ w, query.hoisted .firebird4 = .ok w := by
    rw [Select.exists_hoisted_iff, ← Select.pairwise_agrees_iff, emitted_eq_table, hws]
    simp
  obtain ⟨⟨recursive, tables⟩, hw⟩ := hex
  have ht : tables = _ := Select.tables_of_hoisted hw
  have hr : recursive = _ := Select.recursive_of_hoisted hw
  rw [emitted_eq_table] at ht
  rw [hws] at hr
  rw [hw, ht, hr]
  rfl

theorem reach_query : (Node.select query).reach = 6 := by
  simp [Node.reach_eq, Node.weight, Node.children, Node.clauseChildren, Node.fieldChildren,
    Node.conditionChildren, Node.tableChildren, Select.commonTables, query, table, Select.ofFields, Field.col]

theorem exists_ok_of_isOk {r : EStateM.Result RenderError Context Unit}
    (h : (match r with | .ok _ _ => true | .error _ _ => false) = true) : ∃ c, r = .ok () c := by
  cases r with
  | ok u c => exact ⟨c, rfl⟩
  | error e c => cases h

theorem exists_write_eq_ok : ∃ c, (Node.select query).write (Context.new .firebird4 .default) = .ok () c := by
  rw [Select.write_eq_select, reach_query]
  rw [Visitor.select_eq_under (c := Context.new .firebird4 .default) rfl rfl rfl hoisted_eq_table]
  apply exists_ok_of_isOk
  decide +kernel

/-- The nested select is written without its clause, and the flat clause covers it. -/
theorem write_under_query :
    ∃ c w, (Node.select query).write (Context.new .firebird4 .default) = .ok () c ∧ query.hoisted .firebird4 = .ok w ∧
      Render.onQueryLevel (Visitor.selectUnder (Render.under w ((Node.select query).reach - 1)) w query)
        (Context.new .firebird4 .default) = .ok () c := by
  obtain ⟨c, hc⟩ := exists_write_eq_ok
  obtain ⟨w, hw⟩ := Select.write_under (d := .firebird4) rfl hc
  exact ⟨c, w, hc, hw⟩

end NestedClause

end SqlDialects
