import SqlDialects.Proofs.Render.Hoisting
import SqlDialects.Query.Build
import Mathlib.Data.List.TakeWhile

/-!
# Names before and after hoisting

An unqualified table name denotes the nearest common table of that name that is visible where it stands, and
a base table if there is none. Hoisting moves declarations outwards, so what is visible changes: in the flat
clause the body of a common table sees the tables written before it, and the outermost query sees all of them.

A reference never comes to denote a different common table, because tables of one name are equal. But it may
be lost or captured. It is lost if the common table that it denotes is written behind the one in whose body it
stands, and a reference to a base table is captured if a common table of its name is written before that body.
Nothing else can happen: a reference keeps its meaning exactly if it is bound to a common table in the query
when one of its name is written before its block, and only then. `LostReference` is a query for which it is not
so, since the second of two equal tables moves to the place of the first.
-/

set_option autoImplicit false

namespace SqlDialects

/-- An unqualified reference to a table. Its block is the innermost common table in whose body it stands; a
reference of the outermost query has none. -/
structure TableReference where
  name : String
  block : Option CommonTable
  /-- The common tables that are visible where it stands, the nearest first. -/
  visible : List CommonTable

/-- The references in a node that itself stands in a block and sees some common tables. The body of a common
table sees the tables before it, and itself if the clause is recursive; the other clauses of a select see all
its common tables. -/
inductive Node.Refers : Node → Option CommonTable → List CommonTable → TableReference → Prop where
  | named {name : String} {asName : Option String} {block : Option CommonTable}
      {visible : List CommonTable} :
      Refers (.table (.named none name asName)) block visible ⟨name, block, visible⟩
  | part {n m : Node} {block : Option CommonTable} {visible : List CommonTable} {r : TableReference}
      (hn : ∀ s, n ≠ .select s) (hm : m ∈ n.children) (h : Refers m block visible r) :
      Refers n block visible r
  | clause {s : Select} {m : Node} {block : Option CommonTable} {visible : List CommonTable}
      {r : TableReference} (hm : m ∈ Node.clauseChildren s)
      (h : Refers m block (s.commonTables.reverse ++ visible) r) : Refers (.select s) block visible r
  | body {s : Select} {w : With} {before after : List CommonTable} {t : CommonTable}
      {block : Option CommonTable} {visible : List CommonTable} {r : TableReference}
      (hw : s.withClause = some w) (ht : w.tables = before ++ t :: after)
      (h : Refers (.select t.select) (some t)
        ((if w.recursive then [t] else []) ++ before.reverse ++ visible) r) :
      Refers (.select s) block visible r

/-- The common table that a name denotes where some are visible. -/
def CommonTable.resolve? (visible : List CommonTable) (name : String) : Option CommonTable :=
  visible.find? fun t => t.name == name

/-- The common tables that a block sees in a flat clause: those written before it, and itself if the clause
is recursive. -/
def With.visibleIn (w : With) : Option CommonTable → List CommonTable
  | none => w.tables.reverse
  | some b =>
    (if w.recursive then (w.tables.find? fun e => e.name == b.name).toList else [])
      ++ (w.tables.takeWhile fun e => e.name != b.name).reverse

namespace TableReference

/-- What a reference denotes in the query. -/
def denoted? (r : TableReference) : Option CommonTable := CommonTable.resolve? r.visible r.name

/-- What it denotes under a flat clause. -/
def hoisted? (r : TableReference) (w : With) : Option CommonTable :=
  CommonTable.resolve? (w.visibleIn r.block) r.name

/-- A reference that denotes the same under a flat clause: a base table as before, or a common table that
stands for the one before. -/
def Kept (r : TableReference) (w : With) : Prop :=
  match r.denoted?, r.hoisted? w with
  | none, none => True
  | some t, some e => e.Matches t
  | _, _ => False

/-- Whether a common table of a reference's name is written before its block, common tables being emitted in
some order. The outermost query stands behind all of them, and a block of a recursive clause also behind its
own name. -/
def Reached (r : TableReference) (emitted : List CommonTable) (recursive : Bool) : Prop :=
  match r.block with
  | none => ∃ t ∈ emitted, t.name = r.name
  | some b =>
    (recursive = true ∧ b.name = r.name)
      ∨ ∃ t ∈ emitted.takeWhile (fun t => t.name != b.name), t.name = r.name

end TableReference

/-! ## References stay within the query -/

theorem Node.commonTables_subset_emitted (s : Select) : s.commonTables ⊆ (Node.select s).emitted := by
  intro t ht
  have hc : Node.commonTable t ∈ (Node.select s).children :=
    List.mem_append_left _ (List.mem_map_of_mem ht)
  apply Node.emitted_subset_of_mem_children hc
  rw [Node.emitted_commonTable]
  simp

/-- What a reference sees and the block that it stands in are declared in the query or around it. -/
theorem Node.Refers.declared {n : Node} {block : Option CommonTable} {visible : List CommonTable}
    {r : TableReference} (h : n.Refers block visible r) {ts : List CommonTable} (hn : n.emitted ⊆ ts)
    (hb : ∀ b, block = some b → b ∈ ts) (hv : visible ⊆ ts) :
    (∀ b, r.block = some b → b ∈ ts) ∧ r.visible ⊆ ts := by
  induction h with
  | named => exact ⟨hb, hv⟩
  | part _ hm _ ih => exact ih (fun t ht => hn (Node.emitted_subset_of_mem_children hm ht)) hb hv
  | @clause s m _ _ _ hm _ ih =>
    have hc : m ∈ (Node.select s).children := List.mem_append_right _ hm
    apply ih (fun t ht => hn (Node.emitted_subset_of_mem_children hc ht)) hb
    intro t ht
    rcases List.mem_append.1 ht with ht | ht
    · exact hn (Node.commonTables_subset_emitted s (List.mem_reverse.1 ht))
    · exact hv ht
  | @body s w before after t _ _ _ hw ht _ ih =>
    have hs : s.commonTables = before ++ t :: after := by
      rw [← ht, Select.commonTables, hw]
    have own : ∀ u ∈ before ++ t :: after, u ∈ ts := by
      intro u hu
      rw [← hs] at hu
      exact hn (Node.commonTables_subset_emitted s hu)
    have ht' : t ∈ ts := own t (by simp)
    -- In the body the block is the table itself, and what it sees is declared in the same clause or outside.
    apply ih
    · intro u hu
      have htn : t ∈ (Node.select s).emitted := Node.commonTables_subset_emitted s (by rw [hs]; simp)
      exact hn (Node.mem_emitted_of_body htn hu)
    · rintro b ⟨⟩
      exact ht'
    · intro u hu
      rcases List.mem_append.1 hu with hu | hu
      · rcases List.mem_append.1 hu with hu | hu
        · split at hu
          · rw [List.mem_singleton.1 hu]
            exact ht'
          · simp at hu
        · exact own u (List.mem_append_left _ (List.mem_reverse.1 hu))
      · exact hv hu

/-! ## What a block sees -/

namespace Hoisting

theorem exists_name_firsts (ts : List CommonTable) (name : String) :
    (∃ e ∈ firsts ts, e.name = name) ↔ ∃ t ∈ ts, t.name = name := by
  have h := congrArg Option.isSome (find?_firsts ts name)
  rw [Bool.eq_iff_iff, List.find?_isSome, List.find?_isSome] at h
  simpa using h

theorem takeWhile_append_of_exists {ts us : List CommonTable} {name : String}
    (h : ∃ t ∈ ts, t.name = name) :
    (ts ++ us).takeWhile (fun t => t.name != name) = ts.takeWhile fun t => t.name != name := by
  rw [List.takeWhile_append, if_neg]
  intro hl
  obtain ⟨t, ht, hn⟩ := h
  have hs := (List.takeWhile_sublist fun t : CommonTable => t.name != name).eq_of_length hl
  rw [List.takeWhile_eq_self_iff] at hs
  exact bne_iff_ne.1 (hs t ht) hn

/-- The first tables before a name are the first ones of the tables before it. -/
theorem takeWhile_firsts (ts : List CommonTable) (name : String) :
    (firsts ts).takeWhile (fun t => t.name != name) = firsts (ts.takeWhile fun t => t.name != name) := by
  induction ts using List.reverseRecOn with
  | nil => rfl
  | append_singleton ts t ih =>
    by_cases hn : ∃ u ∈ ts, u.name = name
    · -- The name has occurred, so neither side reaches the last table.
      rw [takeWhile_append_of_exists hn, ← ih, firsts_snoc, add]
      split
      · rfl
      · exact takeWhile_append_of_exists ((exists_name_firsts ts name).2 hn)
    · have hts : ∀ u ∈ ts, (u.name != name) = true := fun u hu => bne_iff_ne.2 fun he => hn ⟨u, hu, he⟩
      have hfs : ∀ u ∈ firsts ts, (u.name != name) = true := fun u hu => hts u (mem_of_mem_firsts hu)
      rw [List.takeWhile_append_of_pos hts, firsts_snoc]
      by_cases ht : t.name = name
      · have hadd : add (firsts ts) t = firsts ts ++ [t] := by
          rw [add, if_neg]
          intro ha
          obtain ⟨u, hu, he⟩ := List.any_eq_true.1 ha
          rw [ht] at he
          exact bne_iff_ne.1 (hfs u hu) (beq_iff_eq.1 he)
        rw [hadd, List.takeWhile_append_of_pos hfs]
        simp [ht]
      · have hone : [t].takeWhile (fun t => t.name != name) = [t] := by simp [ht]
        rw [hone, firsts_snoc, List.takeWhile_eq_self_iff]
        intro u hu
        rw [add] at hu
        split at hu
        · exact hfs u hu
        · rcases List.mem_append.1 hu with hu | hu
          · exact hfs u hu
          · rw [List.mem_singleton.1 hu]
            exact bne_iff_ne.2 ht

end Hoisting

/-- Under the hoisted clause a reference denotes a common table exactly if one of its name is written before
its block. -/
theorem TableReference.hoisted?_isSome_iff {s : Select} {d : Dialect} {w : With}
    (hw : s.hoisted d = .ok w) {r : TableReference}
    (hb : ∀ b, r.block = some b → b ∈ (Node.select s).emitted) :
    (r.hoisted? w).isSome = true
      ↔ r.Reached (Node.select s).emitted (s.withClauses.any With.recursive) := by
  have ht := Select.tables_of_hoisted hw
  have hr := Select.recursive_of_hoisted hw
  unfold hoisted? CommonTable.resolve? Reached With.visibleIn
  rw [List.find?_isSome]
  cases hblock : r.block with
  | none =>
    rw [ht, ← Hoisting.exists_name_firsts]
    simp
  | some b =>
    -- The block is written under its name, as the first common table that has it.
    obtain ⟨e, he⟩ : ∃ e, (w.tables.find? fun e => e.name == b.name) = some e := by
      rw [← Option.isSome_iff_exists, ht, Hoisting.find?_firsts, List.find?_isSome]
      exact ⟨b, hb b hblock, beq_self_eq_true _⟩
    have hn : e.name = b.name := by simpa using List.find?_some he
    dsimp only
    rw [he, hr, ht, Hoisting.takeWhile_firsts, ← Hoisting.exists_name_firsts]
    cases s.withClauses.any With.recursive <;> simp [hn]

theorem With.visibleIn_subset (w : With) (block : Option CommonTable) : w.visibleIn block ⊆ w.tables := by
  intro e he
  cases block with
  | none => exact List.mem_reverse.1 he
  | some b =>
    rcases List.mem_append.1 he with he | he
    · split at he
      · exact List.mem_of_find?_eq_some (Option.mem_toList.1 he)
      · simp at he
    · exact (List.takeWhile_sublist _).mem (List.mem_reverse.1 he)

theorem CommonTable.resolve?_eq_some {visible : List CommonTable} {name : String} {t : CommonTable}
    (h : resolve? visible name = some t) : t ∈ visible ∧ t.name = name :=
  ⟨List.mem_of_find?_eq_some h, by simpa using List.find?_some h⟩

/-- A reference of a query is kept by hoisting exactly if it denotes a common table when one of its name is
emitted before its block, and only then. Common tables are emitted in the order of the walk, and what counts is
the first of each name. -/
theorem Select.hoisted_keeps_iff {s : Select} {d : Dialect} {w : With} (hw : s.hoisted d = .ok w)
    {r : TableReference} (hr : (Node.select s).Refers none [] r) :
    r.Kept w ↔ ((∃ t ∈ r.visible, t.name = r.name)
      ↔ r.Reached (Node.select s).emitted (s.withClauses.any With.recursive)) := by
  obtain ⟨hb, hv⟩ := hr.declared (List.Subset.refl _) (by simp) (by simp)
  have hd : r.denoted?.isSome = true ↔ ∃ t ∈ r.visible, t.name = r.name := by
    simp [TableReference.denoted?, CommonTable.resolve?]
  rw [← hd, ← TableReference.hoisted?_isSome_iff hw hb, TableReference.Kept]
  cases hx : r.denoted? with
  | none => cases r.hoisted? w <;> simp
  | some t =>
    cases hy : r.hoisted? w with
    | none => simp
    | some e =>
      obtain ⟨ht, htn⟩ := CommonTable.resolve?_eq_some hx
      obtain ⟨he, hen⟩ := CommonTable.resolve?_eq_some hy
      have hem : e ∈ (Node.select s).emitted := by
        have hew := With.visibleIn_subset w r.block he
        rw [tables_of_hoisted hw] at hew
        exact Hoisting.mem_of_mem_firsts hew
      -- Two tables of one name are equal, so it cannot be another one.
      have hm : e.Matches t := by
        by_cases het : e = t
        · exact .inl het
        · exact .inr ((agree_of_hoisted hw).forall hem (hv ht) het (hen.trans htn.symm))
      simp [hm]

/-! ## A lost reference -/

namespace LostReference

/-- `a AS (SELECT n AS x FROM numbers)`. -/
def tableA : CommonTable :=
  ⟨"a", [], { Select.ofFields [.aliased (.col "n") "x"] with tables := [.named none "numbers" none] }⟩

/-- `b AS (SELECT x FROM a)`. -/
def tableB : CommonTable :=
  ⟨"b", [], { Select.ofFields [.col "x"] with tables := [.named none "a" none] }⟩

/-- `SELECT x FROM b`, with `b` declared behind other common tables. -/
def readB (before : List CommonTable) : Select :=
  { Select.ofFields [.col "x"] with
    withClause := some ⟨false, before ++ [tableB]⟩
    tables := [.named none "b" none] }

/-- Two queries that declare the same `b`. In the first its `a` is a base table, in the second it is the
common table declared before. -/
def query : Select :=
  { Select.ofFields [] with
    tables := [.derived (readB []) "d1" [], .derived (readB [tableA]) "d2" []] }

/-- The `a` that the second `b` reads from. -/
def reference : TableReference := ⟨"a", some tableB, [tableA]⟩

theorem tableB_beq_self : (tableB == tableB) = true := by
  apply Node.beq_self (n := .commonTable tableB)
  simp [Node.values_eq, Node.value?, Node.children, Node.clauseChildren, Node.fieldChildren,
    Node.conditionChildren, Node.tableChildren, Select.commonTables, tableB, Select.ofFields, Field.col]

theorem emitted_query : (Node.select query).emitted = [tableB, tableA, tableB] := by
  simp [Node.emitted_eq, Node.ownTable, Node.children, Node.clauseChildren, Node.fieldChildren,
    Node.conditionChildren, Node.tableChildren, Select.commonTables, query, readB, tableA, tableB,
    Select.ofFields, Field.col]

theorem exists_hoisted : ∃ w, query.hoisted .firebird4 = .ok w := by
  rw [Select.exists_hoisted_iff, ← Select.pairwise_agrees_iff, emitted_query]
  have hab : tableB.name ≠ tableA.name := by simp [tableA, tableB]
  have ab : tableA.Agrees tableB := fun h => absurd h.symm hab
  have ba : tableB.Agrees tableA := fun h => absurd h hab
  have bb : tableB.Agrees tableB := fun _ => tableB_beq_self
  refine ⟨?_, ?_⟩
  · intro w hw
    have hws : query.withClauses = [⟨false, [tableB]⟩, ⟨false, [tableA, tableB]⟩] := rfl
    rw [hws] at hw
    simp at hw
    rcases hw with rfl | rfl <;> simp [tableA, tableB]
  · simp [ab, ba, bb]

theorem refers : (Node.select query).Refers none [] reference := by
  have hd : Node.table (.derived (readB [tableA]) "d2" []) ∈ Node.clauseChildren query := by
    simp [Node.clauseChildren, query]
  have ha : Node.table (.named none "a" none) ∈ Node.clauseChildren tableB.select := by
    simp [Node.clauseChildren, tableB]
  have ht : (readB [tableA]).withClause = some ⟨false, [tableA] ++ tableB :: []⟩ := rfl
  refine .clause hd (.part (by simp) (.head _) (.body ht rfl (.clause ha ?_)))
  exact .named

theorem not_reached : ¬ reference.Reached (Node.select query).emitted (query.withClauses.any With.recursive) := by
  have hws : query.withClauses = [⟨false, [tableB]⟩, ⟨false, [tableA, tableB]⟩] := rfl
  rw [emitted_query, hws]
  rintro (⟨hr, -⟩ | ⟨t, ht, -⟩)
  · simp at hr
  · simp [tableB] at ht

/-- The second `b` is hoisted to the place of the first, where its `a` is no longer declared. -/
theorem hoisted_loses_reference :
    ∃ w r, query.hoisted .firebird4 = .ok w ∧ (Node.select query).Refers none [] r ∧ ¬ r.Kept w := by
  obtain ⟨w, hw⟩ := exists_hoisted
  refine ⟨w, reference, hw, refers, ?_⟩
  have hb : ∀ b, reference.block = some b → b ∈ (Node.select query).emitted := by
    rintro b ⟨⟩
    rw [emitted_query]
    exact .head _
  have hn : reference.hoisted? w = none := by
    rw [← Option.not_isSome_iff_eq_none, TableReference.hoisted?_isSome_iff hw hb]
    exact not_reached
  have hd : reference.denoted? = some tableA := rfl
  intro hk
  rw [TableReference.Kept, hd, hn] at hk
  exact hk

/-- The condition fails at this reference, and with it the meaning. -/
theorem hoisted_keeps_iff_reference :
    ∃ w, query.hoisted .firebird4 = .ok w ∧ (Node.select query).Refers none [] reference ∧
      (reference.Kept w ↔ ((∃ t ∈ reference.visible, t.name = reference.name)
        ↔ reference.Reached (Node.select query).emitted (query.withClauses.any With.recursive))) := by
  obtain ⟨w, hw⟩ := exists_hoisted
  exact ⟨w, hw, refers, Select.hoisted_keeps_iff hw refers⟩

end LostReference

end SqlDialects
