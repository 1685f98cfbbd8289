import SqlDialects.Proofs.Grammar.Token
import SqlDialects.Proofs.Render.Effect
import SqlDialects.Proofs.Render.Nested

/-!
# Aliases that capture nothing

An alias is made up where a row null test is written as a count and where a derived table cannot take names for its
columns. It stands beside names of the query, in the clauses of selects that enclose it, so it must be none of theirs:
no name of their `FROM` entries, though an entry may come later, and no common table that they declared before.

Which names an entry has is said by its constructors (`Table.Exposes`). `Render.guarded` is the pass that knows, as it
goes, the selects around it (`Surroundings`), and that refuses an alias if it is one of their names or is visible where
it is made. Nothing is ever refused, because what a select declares are the names of its entries
(`Table.mem_declaredNames`), and all of them are visible in its clauses (`Bracket.Sees`), also in a detached context. So
that pass is the one that is made.
-/

set_option autoImplicit false

namespace SqlDialects

open Render

/-! ## The names around a node -/

/-- A name that columns of a `FROM` entry go by: the alias of a table or of a subquery, and the name of a table that has
no alias. An entry that joins others has the names of both sides. -/
inductive Table.Exposes : Table → String → Prop where
  | named {schema : Option String} {n : String} : Exposes (named schema n none) n
  | aliased {schema : Option String} {n a : String} : Exposes (named schema n (some a)) a
  | derived {s : Select} {a : String} {columns : List String} : Exposes (derived s a columns) a
  | lateral {t : Table} {n : String} (h : Exposes t n) : Exposes (lateral t) n
  | hinted {t : Table} {hint : IndexHint} {n : String} (h : Exposes t n) : Exposes (hinted t hint) n
  | left {type : JoinType} {l r : Table} {matching : JoinCondition} {n : String} (h : Exposes l n) :
      Exposes (join type l r matching) n
  | right {type : JoinType} {l r : Table} {matching : JoinCondition} {n : String} (h : Exposes r n) :
      Exposes (join type l r matching) n

/-- What an entry declares are its names, and nothing else. -/
theorem Table.mem_declaredNames {t : Table} {n : String} : n ∈ t.declaredNames ↔ t.Exposes n := by
  constructor
  · intro h
    fun_induction declaredNames t with
    | case1 schema m a =>
      rw [List.mem_singleton.1 h]
      cases a with
      | none => exact .named
      | some a => exact .aliased
    | case2 s a columns =>
      rw [List.mem_singleton.1 h]
      exact .derived
    | case3 t ih => exact .lateral (ih h)
    | case4 t hint ih => exact .hinted (ih h)
    | case5 type l r matching ihl ihr =>
      rcases List.mem_append.1 h with h | h
      · exact .left (ihl h)
      · exact .right (ihr h)
  · intro h
    induction h with
    | named | aliased | derived => exact List.mem_singleton.2 rfl
    | lateral _ ih | hinted _ ih => exact ih
    | left _ ih => exact List.mem_append_left _ ih
    | right _ ih => exact List.mem_append_right _ ih

instance (t : Table) (n : String) : Decidable (t.Exposes n) := decidable_of_iff _ Table.mem_declaredNames

/-- What the selects around a node say: the names of the common tables that they declared before it, and the `FROM`
entries of those in whose clauses it stands. -/
structure Surroundings where
  commonTables : List String
  entries : List Table

namespace Surroundings

/-- Where no select is around. -/
def nothing : Surroundings := ⟨[], []⟩

/-- Behind more common tables. -/
def behind (around : Surroundings) (names : List String) : Surroundings :=
  { around with commonTables := around.commonTables ++ names }

/-- In the clauses of a select with the given entries. -/
def among (around : Surroundings) (entries : List Table) : Surroundings :=
  { around with entries := around.entries ++ entries }

/-- A name that is given to a common table or to an entry. -/
def Names (around : Surroundings) (n : String) : Prop := n ∈ around.commonTables ∨ ∃ t ∈ around.entries, t.Exposes n

instance (around : Surroundings) (n : String) : Decidable (around.Names n) :=
  inferInstanceAs (Decidable (_ ∨ _))

/-- All names around are among the known ones. -/
def Within (around : Surroundings) (known : List String) : Prop := ∀ n, around.Names n → n ∈ known

variable {around : Surroundings} {known : List String}

theorem within_nothing : nothing.Within known := by
  rintro n (hn | ⟨t, ht, -⟩)
  · cases hn
  · cases ht

theorem Within.behind (h : around.Within known) (names : List String) :
    (around.behind names).Within (known ++ names) := by
  rintro n (hn | hn)
  · exact (List.mem_append.1 hn).elim (fun hn => List.mem_append_left _ (h n (.inl hn))) (List.mem_append_right _)
  · exact List.mem_append_left _ (h n (.inr hn))

theorem Within.among (h : around.Within known) (entries : List Table) :
    (around.among entries).Within (known ++ entries.flatMap Table.declaredNames) := by
  rintro n (hn | ⟨t, ht, hn⟩)
  · exact List.mem_append_left _ (h n (.inl hn))
  · rcases List.mem_append.1 ht with ht | ht
    · exact List.mem_append_left _ (h n (.inr ⟨t, ht, hn⟩))
    · exact List.mem_append_right _ (List.mem_flatMap.2 ⟨t, ht, Table.mem_declaredNames.2 hn⟩)

theorem Within.mono (h : around.Within known) {known' : List String} (hk : known ⊆ known') : around.Within known' :=
  fun n hn => hk (h n hn)

end Surroundings

/-! ## The pass that refuses -/

namespace Visitor

section

variable (make : String → Render String) (visit : Visitor)

/-! The writers that make aliases, for any way to make one. -/

def renamedBy (s : Select) (names : List String) (construct : String) : Render Select := do
  match s.rename? names with
  | none => unsupported construct
  | some plan =>
    let asName ← if plan.needsAlias then make "q" else pure ""
    return plan.toSelect asName

def countTestBy (s : Select) (negated : Bool) : Render Unit := do
  let columns := Select.testColumns s.flattened.length
  let inner ← renamedBy make s columns "IS NULL over SELECT *"
  let asName ← make "t"
  visit.compare .eq (.literal (.int 1)) (.subquery (Select.countPassing inner columns asName negated))

def selectIsNullBy (s : Select) (negated : Bool) : Render Unit := do
  match Capability.selectIsNull (← dialect) s.flattened.length with
  | .standard =>
    subquery (visit (.select s))
    sql (nullPredicate negated)
  | .countTest => visit.countTestBy make s negated

def derivedBy (s : Select) (asName : String) (columns : List String) : Render Unit := do
  if columns.isEmpty || Capability.derivedColumnList (← dialect) then
    subquery (visit (.select s))
    sql " AS "
    name asName
    when (!columns.isEmpty) (nameList columns)
  else
    let inner ← renamedBy make s columns "derived column list"
    subquery (visit (.select inner))
    sql " AS "
    name asName

def partsBy : Node → Render Unit
  | .condition (.selectIsNull s negated) => visit.selectIsNullBy make s negated
  | .table (.derived s asName columns) => visit.derivedBy make s asName columns
  | n => visit.parts n

/-- Made as fresh aliases, they are the writers that there are. -/
theorem partsBy_freshAlias (n : Node) : visit.partsBy freshAlias n = visit.parts n := by
  unfold partsBy
  split <;> rfl

end

end Visitor

/-- Makes an alias, and refuses it if it is a name around the place where it is made or is visible there. -/
def Render.guardedAlias (around : Surroundings) (stem : String) : Render String := do
  let before ← scopes
  let made ← freshAlias stem
  if around.Names made ∨ (before.get? made).isSome then unsupported "an alias that captures" else return made

/-- The common tables that are declared when a select is written. -/
def Select.writtenTables (s : Select) (d : Dialect) (outermost hoisted : Bool) : List CommonTable :=
  match Capability.withClause d with
  | .native => s.commonTables
  | .unsupported => []
  | .hoistToTopLevel =>
    if outermost && !hoisted then
      match s.hoisted d with
      | .ok w => w.tables
      | .error _ => []
    else []

/-- The names of common tables up to the one of a given name. -/
def CommonTable.namesUpTo (n : String) (tables : List CommonTable) : List String :=
  (tables.map CommonTable.name).takeWhile (· ≠ n) ++ [n]

/-- The visitor within a select. In a common table its name and those before it are around, and in the clauses all of
them and all `FROM` entries. -/
def Visitor.within (visit : Surroundings → Visitor) (around : Surroundings) (tables : List CommonTable) (s : Select) :
    Visitor
  | .commonTable t => visit (around.behind (CommonTable.namesUpTo t.name tables)) (.commonTable t)
  | n => visit ((around.behind (tables.map CommonTable.name)).among s.tables) n

/-- Writes a node within the given surroundings, to whose names no alias that is made may be equal. -/
def Render.guarded : Nat → Surroundings → Visitor
  | 0, _, _ => throw .nestingExceeded
  | levels + 1, around, .select s => do
    let c ← get
    let tables := s.writtenTables c.dialect (!c.scopes.isOpen) c.flags.commonTablesHoisted
    Visitor.select (Visitor.within (Render.guarded levels) around tables s) s
  | levels + 1, around, n => Visitor.partsBy (Render.guardedAlias around) (Render.guarded levels around) n

/-! ## Names that stay visible -/

/-- A context in a bracket in which names are visible. -/
structure Bracket.Sees (i : Bracket) (names : List String) (c : Context) : Prop extends i.Holds c where
  visible : ∀ n ∈ names, (c.scopes.get? n).isSome = true

namespace Bracket.Sees

variable {i : Bracket} {names names' : List String} {c : Context}

theorem mono (h : i.Sees names' c) (hn : names ⊆ names') : i.Sees names c :=
  ⟨h.toHolds, fun n hm => h.visible n (hn hm)⟩

theorem declare (hl : i.opened = true) (h : i.Sees names c) (n : String) (d : Declaration) :
    i.Sees names (c.declare n d) :=
  ⟨h.toHolds.declare hl n d, fun m hm => h.tidy.isSome_get?_set (h.visible m hm) n d⟩

theorem isOpen (hl : i.opened = true) (h : i.Holds c) : c.scopes.isOpen = true := by
  have hs : i.Scoped c.scopes := h.scopes
  rw [Scoped, hl] at hs
  simp [ScopeStack.isOpen, hs.2]

/-- What is declared on an open level is visible from there on. -/
theorem declared (hl : i.opened = true) (h : i.Sees names c) (n : String) (d : Declaration) :
    i.Sees (names ++ [n]) (c.declare n d) := by
  refine ⟨h.toHolds.declare hl n d, ?_⟩
  intro m hm
  rcases List.mem_append.1 hm with hm | hm
  · exact (h.declare hl n d).visible m hm
  · rw [List.mem_singleton.1 hm]
    exact h.tidy.isSome_get?_set_self (isOpen hl h.toHolds) n d

/-- Behind a query level the scopes are those from before it. -/
theorem finish {outer : ScopeStack String Declaration} (h : (i.opening outer).Sees names c) (hs : i.Scoped outer)
    (visible : ∀ n ∈ names, (outer.get? n).isSome = true) :
    i.Sees names { c with scopes := c.scopes.finish } := by
  refine ⟨h.toHolds.finish hs, ?_⟩
  rw [show c.scopes.finish = outer from Bracket.Scoped.finish h.scopes]
  exact visible

end Bracket.Sees

/-- A pass beside itself, followed from what it started from, where names are visible. -/
def Simulation.aware (names : List String) : Simulation Bracket where
  rel i c c' := c = c' ∧ i.Sees names c
  failed _ c c' := c = c'
  onLevel i := i.opened = true
  fail h := h.1
  agree := by
    rintro i c _ ⟨rfl, -⟩
    exact ⟨rfl, rfl, rfl, rfl, fun _ => rfl⟩
  current := by
    rintro i c _ - ⟨rfl, -⟩ n
    rfl
  write := by
    rintro i c _ p - ⟨rfl, h⟩
    exact ⟨rfl, h.write p, h.visible⟩
  gap := by
    rintro i c _ ⟨rfl, h⟩
    exact ⟨rfl, h.write _, h.visible⟩
  declare := by
    rintro i c _ n d hl ⟨rfl, h⟩
    exact ⟨rfl, h.declare hl n d⟩
  generate := by
    rintro i c _ stem ⟨rfl, h⟩
    exact ⟨rfl, h.generate stem, fun m hm => h.tidy.isSome_get?_set (h.visible m hm) _ _⟩
  subquery := by
    rintro i c _ ⟨rfl, h⟩
    refine ⟨i.atIndent (c.indent + 1), ⟨rfl, h.enterSubquery, h.visible⟩, ?_, fun _ _ hk => hk⟩
    rintro k _ ⟨rfl, hk⟩
    exact ⟨rfl, hk.leaveSubquery h.indent.symm, hk.visible⟩
  underFlags := by
    rintro i c _ flags - ⟨rfl, h⟩
    refine ⟨i.underFlags flags, id, ⟨rfl, h.underFlags flags, h.visible⟩, ?_, fun _ _ hk => by rw [hk]⟩
    rintro k _ ⟨rfl, hk⟩
    exact ⟨rfl, hk.restoreFlags h.flags, hk.visible⟩
  level := by
    rintro i c _ ⟨rfl, h⟩
    refine ⟨i.opening c.scopes, rfl, ⟨rfl, h.start, h.visible⟩, ?_, fun _ _ hk => by rw [hk]⟩
    rintro k _ ⟨rfl, hk⟩
    exact ⟨rfl, hk.finish h.scopes h.visible⟩
  detach := by
    rintro i c _ ⟨rfl, h⟩
    refine ⟨⟨c.detached true, false⟩, ⟨rfl, .refl (ScopeStack.tidy_flatten c.scopes), ?_⟩, ?_⟩
    · intro n hn
      show (c.scopes.flatten.get? n).isSome = true
      rw [h.tidy.get?_flatten]
      exact h.visible n hn
    · rintro k _ ⟨rfl, -⟩
      exact ⟨rfl, h.absorb k, h.visible⟩

/-! ## Steps that declare names -/

/-- Two steps that do the same where the first condition holds, and end where the second does. -/
def Render.Agree {α : Type} (P Q : Context → Prop) (m m' : Render α) : Prop :=
  ∀ c, P c → m c = m' c ∧ ∀ a k, m c = .ok a k → Q k

namespace Render.Agree

variable {α β : Type} {P P' Q Q' R : Context → Prop} {m m' : Render α}

theorem bind {f f' : α → Render β} (hm : Agree P Q m m') (hf : ∀ a, Agree Q R (f a) (f' a)) :
    Agree P R (m >>= f) (m' >>= f') := by
  intro c hc
  obtain ⟨same, ends⟩ := hm c hc
  cases hr : m c with
  | ok a k =>
    rw [Render.bind_ok hr, Render.bind_ok (same.symm.trans hr)]
    exact hf a k (ends a k hr)
  | error e k =>
    rw [Render.bind_error hr, Render.bind_error (same.symm.trans hr)]
    exact ⟨rfl, fun _ _ h => by cases h⟩

theorem imp (h : Agree P Q m m') (hp : ∀ c, P' c → P c) (hq : ∀ c, Q c → Q' c) : Agree P' Q' m m' :=
  fun c hc => ⟨(h c (hp c hc)).1, fun a k hr => hq k ((h c (hp c hc)).2 a k hr)⟩

theorem pure (a : α) (h : ∀ c, P c → Q c) : Agree P Q (Pure.pure a) (Pure.pure a) := by
  intro c hc
  refine ⟨rfl, ?_⟩
  rintro _ _ ⟨⟩
  exact h c hc

theorem throw (e : RenderError) : Agree P Q (α := α) (MonadExcept.throw e) (MonadExcept.throw e) :=
  fun _ _ => ⟨rfl, fun _ _ h => by cases h⟩

theorem dialect {d : Dialect} {f f' : Dialect → Render α} (hd : ∀ c, P c → c.dialect = d) (h : Agree P Q (f d) (f' d)) :
    Agree P Q (Render.dialect >>= f) (Render.dialect >>= f') := by
  intro c hc
  rw [Render.dialect_bind, Render.dialect_bind, hd c hc]
  exact h c hc

theorem flags {flags : RenderFlags} {f f' : RenderFlags → Render α} (hf : ∀ c, P c → c.flags = flags)
    (h : Agree P Q (f flags) (f' flags)) : Agree P Q (Render.flags >>= f) (Render.flags >>= f') := by
  intro c hc
  rw [Render.flags_bind, Render.flags_bind, hf c hc]
  exact h c hc

theorem scopes {f f' : ScopeStack String Declaration → Render α} (h : ∀ s, Agree P Q (f s) (f' s)) :
    Agree P Q (Render.scopes >>= f) (Render.scopes >>= f') :=
  fun c hc => h c.scopes c hc

variable {i : Bracket} {names names' : List String}

theorem ofStep (h : (Simulation.aware names).Step i m m') : Agree (i.Sees names) (i.Sees names) m m' := by
  intro c hc
  rcases (h (show (Simulation.aware names).rel i c c from ⟨rfl, hc⟩)).cases with
    ⟨a, k, k', hr, hr', hk, hs⟩ | ⟨e, k, k', hr, hr', hk⟩
  · rw [hr, hr', hk]
    refine ⟨rfl, ?_⟩
    rintro _ _ ⟨⟩
    exact hk ▸ hs
  · rw [hr, hr', show k = k' from hk]
    exact ⟨rfl, fun _ _ h => by cases h⟩

theorem step (h : Agree (i.Sees names) (i.Sees names) m m') : (Simulation.aware names).Step i m m' := by
  rintro c _ ⟨rfl, hc⟩
  obtain ⟨same, ends⟩ := h c hc
  rw [← same]
  cases hr : m c with
  | ok a k => exact ⟨rfl, rfl, ends a k hr⟩
  | error e k => exact ⟨rfl, rfl⟩

theorem withFlags {flags : RenderFlags}
    (h : Agree ((i.underFlags flags).Sees names) ((i.underFlags flags).Sees names') m m') :
    Agree (i.Sees names) (i.Sees names') (Render.withFlags flags m) (Render.withFlags flags m') := by
  intro c hc
  obtain ⟨same, ends⟩ := h { c with flags := flags } ⟨hc.underFlags flags, hc.visible⟩
  unfold Render.withFlags
  rw [← same]
  cases hr : m { c with flags := flags } with
  | ok a k =>
    refine ⟨rfl, ?_⟩
    rintro _ _ ⟨⟩
    have hk := ends a k hr
    exact ⟨hk.restoreFlags hc.flags, hk.visible⟩
  | error e k => exact ⟨rfl, fun _ _ h => by cases h⟩

/-- On a level of its own a step may declare what it likes. -/
theorem onQueryLevel {c : Context} (hc : i.Sees names c)
    (h : Agree ((i.opening c.scopes).Sees names) ((i.opening c.scopes).Sees names) m m') :
    Render.onQueryLevel m c = Render.onQueryLevel m' c ∧
      ∀ a k, Render.onQueryLevel m c = .ok a k → i.Sees names k := by
  obtain ⟨same, ends⟩ := h { c with scopes := c.scopes.start } ⟨hc.start, hc.visible⟩
  unfold Render.onQueryLevel
  rw [← same]
  cases hr : m { c with scopes := c.scopes.start } with
  | ok a k =>
    refine ⟨rfl, ?_⟩
    rintro _ _ ⟨⟩
    exact (ends a k hr).finish hc.scopes hc.visible
  | error e k => exact ⟨rfl, fun _ _ h => by cases h⟩

theorem declare (hl : i.opened = true) (n : String) (d : Declaration) :
    Agree (i.Sees names) (i.Sees (names ++ [n])) (Render.declare n d) (Render.declare n d) := by
  intro c hc
  refine ⟨rfl, ?_⟩
  rintro _ _ ⟨⟩
  exact hc.declared hl n d

theorem declareAll (hl : i.opened = true) (ns : List String) (d : Declaration) :
    Agree (i.Sees names) (i.Sees (names ++ ns)) (ns.forM fun n => Render.declare n d)
      (ns.forM fun n => Render.declare n d) := by
  induction ns generalizing names with
  | nil => exact .pure () fun c hc => hc.mono (by simp)
  | cons n ns ih =>
    rw [List.append_cons]
    exact .bind (.declare hl n d) fun _ => ih

end Render.Agree

/-! ## Selects -/

namespace CommonTable

/-- The common tables up to one of them are those before it, unless they have its name. -/
theorem namesUpTo_subset (before : List CommonTable) (t : CommonTable) (rest : List CommonTable) :
    namesUpTo t.name (before ++ t :: rest) ⊆ before.map name ++ [t.name] := by
  rw [namesUpTo, List.map_append, List.map_cons, List.takeWhile_append]
  split
  · rw [List.takeWhile_cons_of_neg (by simp), List.append_nil]
    exact List.Subset.refl _
  · exact List.append_subset.2 ⟨fun n hn => List.mem_append_left _ ((List.takeWhile_sublist _).subset hn),
      List.subset_append_right _ _⟩

end CommonTable

namespace Visitor

variable {visit : Visitor} {visit' : Surroundings → Visitor} {i : Bracket} {around : Surroundings}
  {known : List String} {s : Select} {tables : List CommonTable}

section

variable (same : ∀ around known, around.Within known → ∀ n, (Simulation.aware known).Same visit (visit' around) n)
  (hk : around.Within known) (hl : i.opened = true)
include same hk hl

/-- In the clauses of a select the names of all its `FROM` entries are visible. -/
theorem agree_clauses (tables : List CommonTable) :
    Agree (i.Sees (known ++ tables.map CommonTable.name)) (i.Sees known) (visit.clauses s)
      ((Visitor.within visit' around tables s).clauses s) := by
  have visited := same _ _ ((hk.behind (tables.map CommonTable.name)).among s.tables)
  have behind : (Simulation.aware (known ++ tables.map CommonTable.name ++ s.tables.flatMap Table.declaredNames)).Step i
      (do
        visit.selectList s.flattened
        visit.listClause "FROM " (s.tables.map .table)
        visit.conditionClause "WHERE " s.condition
        visit.listClause "GROUP BY " (s.groupBy.map .field)
        visit.conditionClause "HAVING " s.having
        visit.listClause "ORDER BY " (s.orderBy.map .sortField)
        limitClause s.limit s.offset)
      (do
        let visit := Visitor.within visit' around tables s
        visit.selectList s.flattened
        visit.listClause "FROM " (s.tables.map .table)
        visit.conditionClause "WHERE " s.condition
        visit.listClause "GROUP BY " (s.groupBy.map .field)
        visit.conditionClause "HAVING " s.having
        visit.listClause "ORDER BY " (s.orderBy.map .sortField)
        limitClause s.limit s.offset) := by
    refine .bind (.selectList fun f _ => visited _) fun _ => .bind (.listClause _ ?_) fun _ =>
      .bind (.conditionClause _ (visited _)) fun _ => .bind (.listClause _ ?_) fun _ =>
      .bind (.conditionClause _ (visited _)) fun _ => .bind (.listClause _ ?_) fun _ => .limitClause _ _
    · exact List.forall_mem_map.2 fun _ _ => visited _
    · exact List.forall_mem_map.2 fun _ _ => visited _
    · exact List.forall_mem_map.2 fun _ _ => visited _
  have declared : known ⊆ known ++ tables.map CommonTable.name ++ s.tables.flatMap Table.declaredNames :=
    fun n hn => List.mem_append_left _ (List.mem_append_left _ hn)
  exact .bind (.ofStep (.sql _)) fun _ => .bind (.ofStep (.when fun _ => .sql _)) fun _ =>
    .bind (.declareAll hl _ _) fun _ => (Agree.ofStep behind).imp (fun _ h => h) fun _ h => h.mono declared

/-- Behind a `WITH` clause the names of its common tables are visible, and in each of them those up to its own. -/
theorem agree_commonTables (before ts : List CommonTable) (ht : tables = before ++ ts) (isFirst : Bool) :
    Agree (i.Sees (known ++ before.map CommonTable.name)) (i.Sees (known ++ tables.map CommonTable.name))
      (visit.commonTables isFirst ts) ((Visitor.within visit' around tables s).commonTables isFirst ts) := by
  induction ts generalizing before isFirst with
  | nil =>
    rw [ht, List.append_nil]
    exact .pure () fun _ h => h
  | cons t ts ih =>
    have upTo : (around.behind (CommonTable.namesUpTo t.name tables)).Within
        (known ++ before.map CommonTable.name ++ [t.name]) := by
      refine (hk.behind _).mono ?_
      rw [ht, List.append_assoc]
      exact List.append_subset.2 ⟨List.subset_append_left _ _,
        List.subset_append_of_subset_right _ (CommonTable.namesUpTo_subset before t ts)⟩
    have rest := ih (before ++ [t]) (by simp [ht]) false
    rw [List.map_append, ← List.append_assoc] at rest
    refine .scopes fun scopes => .bind (.ofStep (.when fun _ => .throw _)) fun _ => .bind (.declare hl _ _) fun _ =>
      .bind (.ofStep (.when fun _ => .sql _)) fun _ => .bind (.ofStep (same _ _ upTo _ _)) fun _ => rest

theorem agree_withClause (w : With) :
    Agree (i.Sees known) (i.Sees (known ++ w.tables.map CommonTable.name)) (visit.withClause w)
      ((Visitor.within visit' around w.tables s).withClause w) := by
  have tables := agree_commonTables same hk hl (s := s) [] w.tables rfl true
  rw [List.map_nil, List.append_nil] at tables
  exact .bind (.ofStep (.sql _)) fun _ => .bind tables fun _ => .ofStep .gap

theorem agree_selectUnder (w : With) :
    Agree (i.Sees known) (i.Sees known) (visit.selectUnder w s)
      ((Visitor.within visit' around w.tables s).selectUnder w s) := by
  have clause : Agree (i.Sees known) (i.Sees (known ++ w.tables.map CommonTable.name))
      (Render.when (!w.tables.isEmpty) (visit.withClause w))
      (Render.when (!w.tables.isEmpty) ((Visitor.within visit' around w.tables s).withClause w)) := by
    unfold Render.when
    split
    · exact agree_withClause same hk hl w
    · next none =>
      have empty : w.tables = [] := by simpa using none
      rw [empty]
      exact .pure () fun _ h => h.mono (by simp)
  have opened : (i.underFlags { i.start.flags with commonTablesHoisted := true }).opened = true := hl
  exact .bind clause fun _ => .flags (fun _ h => h.flags) (.withFlags (agree_clauses same hk opened w.tables))

theorem agree_selectOnLevel (outermost : Bool) :
    Agree (i.Sees known) (i.Sees known) (visit.selectOnLevel s outermost)
      ((Visitor.within visit' around (s.writtenTables i.start.dialect outermost i.start.flags.commonTablesHoisted)
        s).selectOnLevel s outermost) := by
  refine .dialect (fun _ h => h.dialect) ?_
  have plain : Agree (i.Sees known) (i.Sees known) (visit.clauses s) ((Visitor.within visit' around [] s).clauses s) :=
    (agree_clauses same hk hl []).imp (fun _ h => h.mono (by simp)) fun _ h => h
  unfold Select.writtenTables
  cases Capability.withClause i.start.dialect with
  | native =>
    dsimp only
    rw [Select.commonTables]
    cases s.withClause with
    | none => exact .bind (.ofStep (.pure ())) fun _ => plain
    | some w => exact .bind (agree_withClause same hk hl w) fun _ => agree_clauses same hk hl w.tables
  | unsupported => exact .bind (.ofStep (.demand _ _)) fun _ => plain
  | hoistToTopLevel =>
    refine .flags (fun _ h => h.flags) ?_
    dsimp only
    split
    · refine .dialect (fun _ h => h.dialect) ?_
      cases s.hoisted i.start.dialect with
      | error e => exact .throw e
      | ok w => exact agree_selectUnder same hk hl w
    · exact plain

omit hl in
theorem agree_select {c : Context} (hc : i.Sees known c) :
    visit.select s c = (Visitor.within visit' around
        (s.writtenTables c.dialect (!c.scopes.isOpen) c.flags.commonTablesHoisted) s).select s c ∧
      ∀ u k, visit.select s c = .ok u k → i.Sees known k := by
  have level := agree_selectOnLevel (i := i.opening c.scopes) (s := s) same hk rfl (!c.scopes.isOpen)
  rw [hc.dialect, hc.flags]
  exact Agree.onQueryLevel hc level

end

/-! ### Nodes that have an alias made -/

section

variable {S : Simulation Bracket} {j : Bracket} {make make' : String → Render String} {visit' : Visitor}
  (made : ∀ i stem, S.Step i (make stem) (make' stem))
include made

theorem step_renamedBy (s : Select) (names : List String) (construct : String) :
    S.Step j (renamedBy make s names construct) (renamedBy make' s names construct) := by
  unfold renamedBy
  cases s.rename? names with
  | none => exact .unsupported construct
  | some plan =>
    dsimp only
    split
    · exact .bind (made _ _) fun _ => .pure _
    · exact .bind (.pure _) fun _ => .pure _

variable (same : ∀ n, S.Same visit visit' n)
include same

theorem step_partsBy (n : Node) : S.Step j (visit.partsBy make n) (visit'.partsBy make' n) := by
  unfold partsBy
  split
  · next s negated =>
    refine .bind .dialect fun d => ?_
    cases Capability.selectIsNull d s.flattened.length with
    | standard => exact .bind (.subquery (same _)) fun _ => .sql _
    | countTest =>
      exact .bind (step_renamedBy made _ _ _) fun _ => .bind (made _ _) fun _ => .compare _ (same _) (same _)
  · next s asName columns =>
    refine .bind .dialect fun d => ?_
    split
    · exact .bind (.subquery (same _)) fun _ => .bind (.sql _) fun _ => .bind (.name _) fun _ =>
        .when fun _ => .nameList _
    · exact .bind (step_renamedBy made _ _ _) fun _ => .bind (.subquery (same _)) fun _ => .bind (.sql _) fun _ =>
        .name _
  · exact .parts fun m _ => same m

end

end Visitor

/-! ## The whole pass -/

/-- Where the names are visible no alias that is made is refused. -/
theorem Render.step_guardedAlias {around : Surroundings} {known : List String} (hk : around.Within known) (i : Bracket)
    (stem : String) : (Simulation.aware known).Step i (freshAlias stem) (guardedAlias around stem) := by
  rintro c _ ⟨rfl, hc⟩
  have invisible := Context.get?_freshAlias hc.tidy stem
  have free : ¬ (around.Names (c.freshAlias stem) ∨ (c.scopes.get? (c.freshAlias stem)).isSome = true) := by
    rw [invisible]
    rintro (hm | hm)
    · have visible := hc.visible _ (hk _ hm)
      rw [invisible] at visible
      cases visible
    · cases hm
  have passed : guardedAlias around stem c = freshAlias stem c := by
    show (if around.Names (c.freshAlias stem) ∨ (c.scopes.get? (c.freshAlias stem)).isSome = true then
      unsupported "an alias that captures" else Pure.pure (c.freshAlias stem) : Render String)
        (c.declare (c.freshAlias stem) .generated) = _
    rw [if_neg free]
    rfl
  rw [passed]
  exact (Simulation.Step.freshAlias (S := Simulation.aware known) (i := i) stem) ⟨rfl, hc⟩

theorem Render.same_guarded (levels : Nat) {around : Surroundings} {known : List String} (hk : around.Within known)
    (n : Node) : (Simulation.aware known).Same (Render.node levels) (Render.guarded levels around) n := by
  induction levels generalizing around known n with
  | zero => exact fun _ => .throw _
  | succ levels ih =>
    intro i
    have parts : ∀ n, (Simulation.aware known).Step i (Visitor.parts (Render.node levels) n)
        (Visitor.partsBy (guardedAlias around) (Render.guarded levels around) n) := by
      intro n
      rw [← Visitor.partsBy_freshAlias]
      exact Visitor.step_partsBy (fun i stem => step_guardedAlias hk i stem) (fun m => ih hk m) n
    cases n with
    | select s =>
      exact Agree.step fun c hc => Visitor.agree_select (fun _ _ hk n => ih hk n) hk hc
    | _ => exact parts _

/-- A fresh alias is the first of its candidates that no level declares. It is declared on the current one, and every
other name is as visible as before. -/
theorem Render.freshAlias_eq {c : Context} (h : c.scopes.Tidy) (ho : c.scopes.isOpen = true) (stem : String) :
    ∃ k c', freshAlias stem c = .ok (Context.aliasCandidate stem k) c' ∧
      (∀ level, c.scopes.valueAt level (Context.aliasCandidate stem k) = none) ∧
      (∀ j < k, ∃ level, c.scopes.valueAt level (Context.aliasCandidate stem j) ≠ none) ∧
      c'.scopes.getCurrent? (Context.aliasCandidate stem k) = some .generated ∧
      ∀ n ≠ Context.aliasCandidate stem k,
        c'.scopes.get? n = c.scopes.get? n ∧ ∀ level, c'.scopes.valueAt level n = c.scopes.valueAt level n := by
  obtain ⟨k, hk, free, before⟩ := Context.exists_freshAlias h stem
  refine ⟨k, c.declare (Context.aliasCandidate stem k) .generated, ?_, free, before, h.getCurrent?_set ho _ _, ?_⟩
  · rw [← hk]
    rfl
  · intro n hn
    have slots := ScopeStack.slotsOf_set_of_ne (s := c.scopes) hn .generated
    refine ⟨congrArg ScopeStack.innermost slots, fun level => ?_⟩
    exact congrArg (fun list : List (Option Declaration) => list[level]?.join) slots

/-- Whatever is written, from whatever context: with a level open, a fresh alias is the first of its candidates that no
level declares, the stem itself and then the stem with a number, and declaring it changes no other name. So no alias
that is made is a name of an entry in the `FROM` clause of a select in whose clauses it is made, nor of a common table
that was declared there, nor one that is visible: the pass that refuses such aliases is the pass that is made. -/
theorem Render.generated_aliases_hygienic :
    (∀ stem, Context.aliasCandidate stem 0 = stem ∧
      ∀ k, Context.aliasCandidate stem (k + 1) = stem ++ toString (k + 1)) ∧
    (∀ c : Context, c.Arises → c.scopes.isOpen = true → ∀ stem,
      ∃ k c', freshAlias stem c = .ok (Context.aliasCandidate stem k) c' ∧
        (∀ level, c.scopes.valueAt level (Context.aliasCandidate stem k) = none) ∧
        (∀ j < k, ∃ level, c.scopes.valueAt level (Context.aliasCandidate stem j) ≠ none) ∧
        c'.scopes.getCurrent? (Context.aliasCandidate stem k) = some .generated ∧
        ∀ n ≠ Context.aliasCandidate stem k,
          c'.scopes.get? n = c.scopes.get? n ∧ ∀ level, c'.scopes.valueAt level n = c.scopes.valueAt level n) ∧
    ∀ c : Context, c.Arises → ∀ n : Node, n.write c = Render.guarded n.reach .nothing n c := by
  refine ⟨fun stem => ⟨rfl, fun _ => rfl⟩, fun c h ho stem => freshAlias_eq h.tidy ho stem, fun c h n => ?_⟩
  have seen : Bracket.Sees ⟨c, false⟩ [] c := ⟨.refl h.tidy, fun _ hm => absurd hm List.not_mem_nil⟩
  exact (Agree.ofStep (same_guarded n.reach Surroundings.within_nothing n _) c seen).1

namespace CountedRows

/-- `SELECT id FROM t WHERE (SELECT a, b FROM x) IS NULL` -/
def select : Select :=
  { Select.ofFields [.col "id"] with
    tables := [.named none "t" none]
    condition :=
      .selectIsNull { Select.ofFields [.col "a", .col "b"] with tables := [.named none "x" none] } false }

/-- Where its clauses are written, behind what it declares. -/
def clauses : Context :=
  (select.tables.flatMap Table.declaredNames).foldl (fun c n => c.declare n .table)
    { Context.new .sqlite .default with scopes := ScopeStack.empty.start }

theorem reach_select : (Node.select select).reach = 11 := by
  simp [Node.reach_eq, Node.weight, Node.children, Node.clauseChildren, Node.fieldChildren, Node.conditionChildren,
    Node.tableChildren, Select.commonTables, select, Select.ofFields, Field.col]

/-- The rows are counted under another alias than the name in the `FROM` clause around them. -/
theorem generated_alias_beside_table :
    Surroundings.Names (.among .nothing select.tables) "t" ∧
      (∃ k c, 0 < k ∧ freshAlias "t" clauses = .ok (Context.aliasCandidate "t" k) c) ∧
      (Node.select select).write (Context.new .sqlite .default)
        = Render.guarded 11 .nothing (.select select) (Context.new .sqlite .default) ∧
      (Node.select select).render .sqlite .default = .ok
        ⟨"SELECT id FROM t WHERE 1 = (SELECT COUNT(*) FROM (SELECT a AS v1, b AS v2 FROM x) AS t1 " ++
          "WHERE t1.v1 IS NULL AND t1.v2 IS NULL)", []⟩ := by
  have arises : clauses.Arises := .declare "t" .table (.start (.new .sqlite .default))
  obtain ⟨-, fresh, guarded⟩ := generated_aliases_hygienic
  obtain ⟨k, c, hr, free, -⟩ := fresh clauses arises rfl "t"
  have same := guarded _ (.new .sqlite .default) (.select select)
  rw [reach_select] at same
  refine ⟨.inr ⟨_, .head _, .named⟩, ⟨k, c, Nat.pos_of_ne_zero ?_, hr⟩, same, ?_⟩
  · rintro rfl
    have declared : clauses.scopes.valueAt 0 "t" = some .table := by decide
    rw [show Context.aliasCandidate "t" 0 = "t" from rfl] at free
    rw [free 0] at declared
    cases declared
  · unfold Node.render Node.write
    rw [reach_select]
    decide +kernel

end CountedRows

end SqlDialects
