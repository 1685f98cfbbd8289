import SqlDialects.Schema.Session

/-!
# What a reader keeps does not show

A reader keeps the interpreted statement of each table that a column asked about, also that the statement was refused.
What it keeps is found by the name of the table alone. As long as the catalog answers the same, it is what the statement
would be interpreted as again (`Faithful`): nothing is kept where the read failed, and each column leaves the reader as
one that was asked once. So every call of a session is answered as by a reader that has read nothing
(`TableReader.session_transparent`).
-/

set_option autoImplicit false

namespace SqlDialects.Schema.TableReader

variable {α β ε : Type} {r r' : TableReader} {name source : String} {b b' : Bool} {a : ReadTask.Answers}
  {fetch : Duration → String → Except ε ReadTask.Answers}

/-! ## Interpreting -/

theorem run_bind {x : StateM TableReader α} {f : α → StateM TableReader β} {v : α} (h : x.run r = (v, r')) :
    (x >>= f).run r = (f v).run r' := by
  rw [StateT.run_bind, h]
  rfl

/-- The reader after the statement of a table may have been asked for. -/
def keepIf (r : TableReader) (asked : Bool) (table source : String) : TableReader :=
  if asked then r.keep table source else r

theorem run_interpret (r : TableReader) (name source : String) :
    (interpret name source).run r = (r.interpretation name source, r.keepIf true name source) := by
  have looked : (get : StateM TableReader TableReader).run r = (r, r) := rfl
  rw [interpret, run_bind looked, interpretation, keepIf, if_pos rfl, keep, interpretation]
  cases r.interpretations.lookup name with
  | some kept => rfl
  | none => rfl

/-- A statement that is kept is interpreted as before. -/
theorem interpretation_keepIf : (r.keepIf b name source).interpretation name source = r.interpretation name source := by
  cases b with
  | false => rfl
  | true =>
    rw [keepIf, if_pos rfl, keep, interpretation]
    cases kept : r.interpretations.lookup name with
    | some declared => simp only [kept, Option.getD_some, interpretation]
    | none => simp only [interpretation, kept, List.lookup_cons_self, Option.getD_some, Option.getD_none]

theorem keepIf_keepIf : (r.keepIf b name source).keepIf b' name source = r.keepIf (b || b') name source := by
  cases b with
  | false => rfl
  | true =>
    cases b' with
    | false => rfl
    | true =>
      rw [Bool.or_self, keepIf, if_pos rfl, keepIf, if_pos rfl]
      cases kept : r.interpretations.lookup name with
      | some declared => simp only [keep, kept]
      | none => simp only [keep, kept, List.lookup_cons_self]

theorem timeout_keepIf : (r.keepIf b name source).timeout = r.timeout := by
  unfold keepIf keep
  split
  · split <;> rfl
  · rfl

/-! ## Columns -/

theorem run_readType (r : TableReader) (name source : String) (c : CatalogColumn) :
    (readType name source c).run r
      = (completedType (r.interpretation name source) c, r.keepIf c.typeText.isUnknown name source) := by
  unfold readType completedType
  split
  · next unknown =>
    rw [run_bind (run_interpret r name source), unknown]
    cases (r.interpretation name source).bind (·.column? c.name) with
    | some d => rfl
    | none => rfl
  · next known =>
    rw [Bool.not_eq_true] at known
    rw [known]
    rfl

theorem run_readIdentity (r : TableReader) (name : String) (a : ReadTask.Answers) (c : CatalogColumn) :
    (readIdentity name a c).run r
      = (a.isIdentity (r.interpretation name a.source) c, r.keepIf (a.facts.asksStatement c) name a.source) := by
  unfold readIdentity ReadTask.Answers.isIdentity ReadTask.KeyFacts.asksStatement
  cases c.isKey && !a.facts.withoutRowid with
  | false => rfl
  | true =>
    cases a.facts.inSequence with
    | true => rfl
    | false =>
      cases a.facts.isEmpty with
      | false => rfl
      | true => exact run_bind (run_interpret r name a.source)

/-- Whether a column asks for the interpreted statement. -/
def asks (a : ReadTask.Answers) (c : CatalogColumn) : Bool := c.typeText.isUnknown || a.facts.asksStatement c

/-- Whichever columns have asked before, each one is read as if it were alone. -/
theorem run_readColumns (r : TableReader) (name : String) (a : ReadTask.Answers) (position : Nat)
    (cs : List CatalogColumn) :
    (readColumns name a position cs).run r
      = (cs.mapIdx fun i c => a.column (r.interpretation name a.source) c (i + position),
        r.keepIf (cs.any (asks a)) name a.source) := by
  induction cs generalizing r position with
  | nil => rfl
  | cons c cs ih =>
    rw [readColumns, run_bind (run_readType r name a.source c), run_bind (run_readIdentity _ name a c),
      run_bind (ih _ (position + 1)), interpretation_keepIf, keepIf_keepIf, interpretation_keepIf, keepIf_keepIf,
      List.mapIdx_cons, List.any_cons, Nat.zero_add]
    simp only [Nat.add_right_comm _ 1 position, Nat.add_assoc _ position 1]
    rfl

/-! ## Calls -/

theorem run_columns (fetch : Duration → String → Except ε ReadTask.Answers) (name : String) (r : TableReader) :
    (columns fetch name).run r =
      match fetch r.timeout name with
      | .error e => (.error e, r)
      | .ok a => (.ok (a.definition name (r.interpretation name a.source)).columns,
          r.keepIf a.needsStatement name a.source) := by
  have looked : (get : StateM TableReader TableReader).run r = (r, r) := rfl
  rw [columns, run_bind looked]
  cases fetch r.timeout name with
  | error e => rfl
  | ok a => exact run_bind (run_readColumns r name a 1 a.columns)

/-- Reading column by column comes to reading the table at once. -/
theorem run_table_eq_read (database : String → Catalog) (name : String) (r : TableReader) :
    (table (fetched database) name).run r
      = ((r.read (database name) name).table, (r.read (database name) name).reader) := by
  rw [table, run_bind (run_columns (fetched database) name r), read, fetched]
  rcases (ReadTask.answers ⟨name, database name, r.timeout⟩).run ⟨0, []⟩ with ⟨_ | a, p⟩
  · rfl
  · rfl

/-! ## Sessions -/

/-- Whether what a reader keeps for a table is what its statement is interpreted as. -/
def Faithful (fetch : Duration → String → Except ε ReadTask.Answers) (r : TableReader) : Prop :=
  ∀ name kept, r.interpretations.lookup name = some kept →
    ∃ a, fetch r.timeout name = .ok a ∧ kept = (DeclaredObject.ofStatement a.source).toOption

theorem faithful_new (fetch : Duration → String → Except ε ReadTask.Answers) (timeout : Duration) :
    Faithful fetch (new timeout) := by
  intro name kept found
  cases found

/-- A table whose statement is known is interpreted as by a reader that keeps nothing. -/
theorem Faithful.interpretation_eq (h : Faithful fetch r) (read : fetch r.timeout name = .ok a) :
    r.interpretation name a.source = (DeclaredObject.ofStatement a.source).toOption := by
  rw [interpretation]
  cases found : r.interpretations.lookup name with
  | none => rfl
  | some kept =>
    obtain ⟨a', read', same⟩ := h name kept found
    cases read.symm.trans read'
    exact same

theorem Faithful.keepIf (h : Faithful fetch r) (read : fetch r.timeout name = .ok a) (asked : Bool) :
    Faithful fetch (r.keepIf asked name a.source) := by
  intro other kept found
  rw [timeout_keepIf]
  cases asked with
  | false => exact h other kept found
  | true =>
    rw [TableReader.keepIf, if_pos rfl, keep] at found
    cases known : r.interpretations.lookup name with
    | some declared =>
      rw [known] at found
      exact h other kept found
    | none =>
      rw [known, List.lookup_cons] at found
      split at found
      · next same =>
        cases found
        rw [eq_of_beq same]
        exact ⟨a, read, h.interpretation_eq read⟩
      · exact h other kept found

theorem Faithful.columns (h : Faithful fetch r) (name : String) :
    ((columns fetch name).run r).1 = ((columns fetch name).run (new r.timeout)).1
      ∧ Faithful fetch ((columns fetch name).run r).2 ∧ ((columns fetch name).run r).2.timeout = r.timeout := by
  rw [run_columns, run_columns]
  cases read : fetch r.timeout name with
  | error e =>
    have read' : fetch (new r.timeout).timeout name = .error e := read
    rw [read']
    exact ⟨rfl, h, rfl⟩
  | ok a =>
    have read' : fetch (new r.timeout).timeout name = .ok a := read
    rw [read']
    simp only [h.interpretation_eq read, (faithful_new fetch r.timeout).interpretation_eq read', true_and]
    exact ⟨h.keepIf read _, timeout_keepIf⟩

/-- The table that is called for. -/
def Call.target : Call → String
  | .columns name => name
  | .table name => name

/-- The answer to a call, from the columns that were read. -/
def Call.answer (read : Except ε (List ColumnDefinition)) : Call → Answer ε
  | .columns _ => .columns read
  | .table name => .table (read.map (TableDefinition.mk name))

theorem run_respond (fetch : Duration → String → Except ε ReadTask.Answers) (call : Call) (r : TableReader) :
    (respond fetch call).run r
      = (call.answer ((columns fetch call.target).run r).1, ((columns fetch call.target).run r).2) := by
  cases call <;> rfl

/-- A call leaves a faithful reader faithful, and is answered as by a reader that has read nothing. -/
theorem Faithful.respond (h : Faithful fetch r) (call : Call) :
    ((respond fetch call).run r).1 = ((respond fetch call).run (new r.timeout)).1
      ∧ Faithful fetch ((respond fetch call).run r).2 ∧ ((respond fetch call).run r).2.timeout = r.timeout := by
  obtain ⟨same, faithful, timeout⟩ := h.columns call.target
  rw [run_respond, run_respond, same]
  exact ⟨rfl, faithful, timeout⟩

/-- However many calls have been made before, each is answered as by a reader that has read nothing. -/
theorem Faithful.session (h : Faithful fetch r) (calls : List Call) :
    ((session fetch calls).run r).1
      = calls.map fun call => ((TableReader.respond fetch call).run (new r.timeout)).1 := by
  induction calls generalizing r with
  | nil => rfl
  | cons call calls ih =>
    obtain ⟨same, faithful, timeout⟩ := h.respond call
    have rest := ih faithful
    rw [timeout] at rest
    rw [List.map_cons, ← same, ← rest, TableReader.session, List.mapM_cons]
    rfl

/-- A reader is called again and again, for the columns of a table or for the table with them. What comes of asking the
catalog about a table is the same each time, be it answers or any failure; a table may be missing, and it may have been
asked for before. Each call is answered as by a reader that has read nothing. With a catalog's answers, reading column
by column as the calls do comes to reading each table at once. -/
theorem session_transparent (fetch : Duration → String → Except ε ReadTask.Answers) (timeout : Duration)
    (calls : List Call) :
    ((session fetch calls).run (new timeout)).1
        = calls.map (fun call => ((respond fetch call).run (new timeout)).1)
      ∧ ∀ (database : String → Catalog) name r, (table (fetched database) name).run r
          = ((r.read (database name) name).table, (r.read (database name) name).reader) :=
  ⟨(faithful_new fetch timeout).session calls, run_table_eq_read⟩

end SqlDialects.Schema.TableReader
