import SqlDialects.Proofs.Query.ColumnNames
import SqlDialects.Proofs.Query.Postorder
import Mathlib.Data.List.Nodup

/-!
# The names that columns are read by

A select that is read through a projection gives each of its flattened fields a name. The names are fixed in one pass
from left to right, so a name that is made up for a field has to avoid those that fields further right will keep. It
does, because the names to avoid are collected beforehand and every name that a field may keep is among them
(`naturalName_mem_takenNames`). Hence whether a field keeps its name depends on the fields before it and on nothing
that was made up for them (`mem_given_iff`).

The names to avoid are those that the clauses of the select itself mention: `Node.Mentions` is an occurrence of a
column outside selects, which is what a pass over all fields of a clause comes upon
(`Node.mentions_iff_mem_postorder`).
-/

set_option autoImplicit false

namespace SqlDialects

/-! ## Columns outside selects -/

/-- A column occurs in a node, not inside a select. -/
inductive Node.Mentions : Node → ColumnRef → Prop where
  | here (c : ColumnRef) : Node.Mentions (.field (.column c)) c
  | part {n m : Node} {c : ColumnRef} (outside : ∀ s, n ≠ .select s) (child : m ∈ n.children)
      (mentions : Node.Mentions m c) : Node.Mentions n c

namespace Node

/-- The column that a node is. -/
def column? : Node → Option ColumnRef
  | .field (.column c) => some c
  | _ => none

theorem column?_eq_some {n : Node} {c : ColumnRef} : n.column? = some c ↔ n = .field (.column c) := by
  unfold column?
  split
  · simp
  · next h => simpa using h c

/-- A pass over all fields goes into every node but a select. -/
theorem mem_fields_parts {n m : Node} :
    m ∈ Traversal.fields.parts n ↔ (∀ s, n ≠ .select s) ∧ m ∈ n.children := by
  cases n with
  | select s => simp [Traversal.parts, Traversal.fields]
  | _ => simp [Traversal.parts, Traversal.fields]

/-- The columns that a node mentions are those that a pass over all fields hands over. -/
theorem mentions_iff_mem_postorder (n : Node) (c : ColumnRef) :
    n.Mentions c ↔ .field (.column c) ∈ Traversal.fields.postorder n := by
  rw [Traversal.postorder_eq, List.mem_append, List.mem_flatMap]
  constructor
  · intro h
    induction h with
    | here c => exact .inr (List.mem_singleton_self _)
    | part outside child _ ih =>
      rw [← List.mem_flatMap, ← List.mem_append, ← Traversal.postorder_eq] at ih
      exact .inl ⟨_, mem_fields_parts.2 ⟨outside, child⟩, ih⟩
  · intro h
    induction n using Traversal.postorder.induct Traversal.fields with
    | case1 n ih =>
      rcases h with ⟨m, hm, hc⟩ | h
      · rw [Traversal.postorder_eq, List.mem_append, List.mem_flatMap] at hc
        obtain ⟨outside, child⟩ := mem_fields_parts.1 hm
        exact .part outside child (ih ⟨m, hm⟩ hc)
      · split at h
        · rw [← List.mem_singleton.1 h]
          exact .here c
        · cases h

/-- The names of columns are those of the columns that a pass over all fields hands over, in that order. -/
theorem columnNames_eq_postorder (n : Node) :
    n.columnNames = ((Traversal.fields.postorder n).filterMap column?).map ColumnRef.name := by
  induction n using columnNames.induct with
  | case1 s =>
    rw [columnNames, Traversal.postorder_eq]
    rfl
  | case2 c =>
    rw [columnNames, Traversal.postorder_eq]
    rfl
  | case3 n hs hc ih =>
    -- What is handed over besides the fields below is the node itself, which is no column.
    have self : (if Traversal.fields.hands n then [n] else []).filterMap column? = [] := by
      have none : n.column? = none := Option.eq_none_iff_forall_ne_some.2 fun c h => hc c (column?_eq_some.1 h)
      split
      · rw [List.filterMap_cons_none none, List.filterMap_nil]
      · rfl
    have entered : Traversal.fields.parts n = n.children := by
      cases n with
      | select s => exact absurd rfl (hs s)
      | _ => rfl
    have parts : n.children.flatMap columnNames
        = n.children.flatMap fun m => ((Traversal.fields.postorder m).filterMap column?).map ColumnRef.name := by
      rw [List.flatMap_def, List.flatMap_def]
      exact congrArg List.flatten (List.map_congr_left fun m hm => ih ⟨m, hm⟩)
    rw [columnNames.eq_3 n hs hc, List.flatMap_subtype (g := columnNames) fun _ _ => rfl, List.unattach_attach, parts,
      Traversal.postorder_eq, entered, List.filterMap_append, self, List.append_nil, List.filterMap_flatMap,
      List.map_flatMap]

theorem mem_columnNames_iff {n : Node} {name : String} :
    name ∈ n.columnNames ↔ ∃ c, n.Mentions c ∧ c.name = name := by
  simp only [columnNames_eq_postorder, List.mem_map, List.mem_filterMap, column?_eq_some, mentions_iff_mem_postorder,
    exists_eq_right]

theorem mentions_iff_children {n : Node} {c : ColumnRef} (outside : ∀ s, n ≠ .select s)
    (other : n ≠ .field (.column c)) : n.Mentions c ↔ ∃ m ∈ n.children, m.Mentions c := by
  constructor
  · intro h
    cases h with
    | here => exact absurd rfl other
    | part _ child mentions => exact ⟨_, child, mentions⟩
  · rintro ⟨m, child, mentions⟩
    exact .part outside child mentions

end Node

/-- A row mentions what its members mention, and so does a row under an alias. -/
theorem Field.exists_mem_flatten_mentions (f : Field) (c : ColumnRef) :
    (∃ g ∈ f.flatten, (Node.field g).Mentions c) ↔ (Node.field f).Mentions c := by
  have members : ∀ fs : List Field, (Node.field (.row fs)).Mentions c ↔ ∃ f ∈ fs, (Node.field f).Mentions c := by
    intro fs
    rw [Node.mentions_iff_children (by simp) (by simp)]
    simp [Node.children, Node.fieldChildren]
  induction f using flatten.induct
      (motive_2 := fun fs => (∃ g ∈ flattenAll fs, (Node.field g).Mentions c) ↔ ∃ f ∈ fs, (Node.field f).Mentions c) with
  | case1 fs ih => rw [flatten, ih, members]
  | case2 fs a ih =>
    rw [flatten, ih, ← members, Node.mentions_iff_children (n := .field (.aliased _ a)) (by simp) (by simp)]
    simp [Node.children, Node.fieldChildren]
  | case3 f hr ha =>
    rw [flatten.eq_3 f hr ha]
    simp
  | case4 => simp [flattenAll]
  | case5 f fs ihf ihfs =>
    simp only [flattenAll, List.mem_append, List.mem_cons, or_and_right, exists_or, ihf, ihfs, exists_eq_left]

/-! ## What each column is called -/

/-- Two fields go by one name, whatever the case of its letters. -/
def Field.SharesName (f g : Field) : Prop :=
  ∃ m n, f.naturalName? = some m ∧ g.naturalName? = some n ∧ Text.asciiLower m = Text.asciiLower n

namespace Select

/-- A name is made up for the column at an index by trying one candidate after the other, up to the first that is
neither to be avoided nor given already. -/
structure Generates (taken used : List String) (index tries : Nat) : Prop where
  free : generatedName index tries ∉ taken ++ used
  occupied : ∀ j < tries, generatedName index j ∈ taken ++ used
  /-- No more candidates are turned down than there are names. -/
  bounded : tries ≤ (taken ++ used).length

theorem exists_generates (taken used : List String) (index : Nat) :
    ∃ tries, Generates taken used index tries ∧
      Text.firstFree (generatedName index) (taken ++ used) = generatedName index tries := by
  obtain ⟨tries, picked, free, occupied⟩ := Text.exists_firstFree (generatedName_injective index) (taken ++ used)
  refine ⟨tries, ⟨free, occupied, ?_⟩, picked⟩
  have nodup : ((List.range tries).map (generatedName index)).Nodup :=
    List.Nodup.map (fun i j h => generatedName_injective index i j h) List.nodup_range
  have subset : (List.range tries).map (generatedName index) ⊆ taken ++ used := by
    intro name h
    obtain ⟨j, hj, rfl⟩ := List.mem_map.1 h
    exact occupied j (List.mem_range.1 hj)
  have := Text.length_le_of_nodup_of_subset nodup subset
  rwa [List.length_map, List.length_range] at this

/-- The name of the column at an index, after the names that were given before. -/
def columnName (taken used : List String) (index : Nat) (f : Field) : String :=
  match f.naturalName? with
  | some n => if used.contains (Text.asciiLower n) then Text.firstFree (generatedName index) (taken ++ used) else n
  | none => Text.firstFree (generatedName index) (taken ++ used)

theorem nameColumns_cons (taken used : List String) (index : Nat) (f : Field) (fs : List Field) :
    nameColumns taken index used (f :: fs) =
      columnName taken used index f ::
        nameColumns taken (index + 1) (Text.asciiLower (columnName taken used index f) :: used) fs :=
  rfl

/-- A column keeps a name that was not given before, and a name is made up for any other. -/
theorem columnName_cases (taken used : List String) (index : Nat) (f : Field) :
    (∃ n, f.naturalName? = some n ∧ Text.asciiLower n ∉ used ∧ columnName taken used index f = n) ∨
      (∀ n, f.naturalName? = some n → Text.asciiLower n ∈ used) ∧
        ∃ tries, Generates taken used index tries ∧ columnName taken used index f = generatedName index tries := by
  unfold columnName
  cases hn : f.naturalName? with
  | none => exact .inr ⟨by simp, exists_generates taken used index⟩
  | some n =>
    by_cases hu : Text.asciiLower n ∈ used
    · right
      simpa [hu] using exists_generates taken used index
    · left
      simp [hu]

theorem nameColumns_append (taken used : List String) (index : Nat) (fs gs : List Field) :
    nameColumns taken index used (fs ++ gs) =
      nameColumns taken index used fs ++
        nameColumns taken (index + fs.length)
          (((nameColumns taken index used fs).map Text.asciiLower).reverse ++ used) gs := by
  induction fs generalizing index used with
  | nil => rfl
  | cons f fs ih =>
    rw [List.cons_append, nameColumns_cons, nameColumns_cons, ih, List.length_cons]
    simp [Nat.add_assoc, Nat.add_comm 1]

/-- A name to avoid is given to some column exactly if a column has it already: nothing that is made up is among these
names, and a column that does not keep its name leaves it to one that does. -/
theorem mem_given_iff {taken : List String} {name : String} (h : name ∈ taken) (used : List String) (index : Nat)
    (fs : List Field) :
    name ∈ ((nameColumns taken index used fs).map Text.asciiLower).reverse ++ used ↔
      (∃ f ∈ fs, ∃ n, f.naturalName? = some n ∧ Text.asciiLower n = name) ∨ name ∈ used := by
  induction fs generalizing index used with
  | nil => simp [nameColumns]
  | cons f fs ih =>
    have first : name = Text.asciiLower (columnName taken used index f) ∨ name ∈ used ↔
        (∃ n, f.naturalName? = some n ∧ Text.asciiLower n = name) ∨ name ∈ used := by
      rcases columnName_cases taken used index f with ⟨n, hn, -, kept⟩ | ⟨hu, tries, generates, made⟩
      · rw [kept, hn]
        simp [eq_comm]
      · have other : name ≠ Text.asciiLower (columnName taken used index f) := by
          intro he
          rw [made, asciiLower_generatedName] at he
          exact generates.free (List.mem_append_left _ (he ▸ h))
        have given : (∃ n, f.naturalName? = some n ∧ Text.asciiLower n = name) → name ∈ used := by
          rintro ⟨n, hn, rfl⟩
          exact hu n hn
        simp only [other, false_or]
        exact ⟨.inr, fun h => h.elim given id⟩
    have rest := ih (Text.asciiLower (columnName taken used index f) :: used) (index + 1)
    rw [List.mem_cons, first] at rest
    rw [nameColumns_cons]
    simpa [or_assoc, or_left_comm] using rest

theorem take_nameColumns (taken used : List String) (index i : Nat) (fs : List Field) :
    (nameColumns taken index used fs).take i = nameColumns taken index used (fs.take i) := by
  conv => lhs; rw [← List.take_append_drop i fs, nameColumns_append]
  by_cases hi : i ≤ fs.length
  · exact List.take_left' (by rw [length_nameColumns, List.length_take_of_le hi])
  · have all : fs.length ≤ i := Nat.le_of_not_le hi
    rw [List.take_of_length_le all, List.drop_of_length_le all, nameColumns, List.append_nil,
      List.take_of_length_le (by rwa [length_nameColumns])]

/-- What a column is called depends on the names before it. -/
theorem getElem?_nameColumns {taken : List String} {fs : List Field} {i : Nat} {f : Field} (h : fs[i]? = some f) :
    (nameColumns taken 0 [] fs)[i]? =
      some (columnName taken (((nameColumns taken 0 [] fs).take i).map Text.asciiLower).reverse i f) := by
  obtain ⟨hi, rfl⟩ := List.getElem?_eq_some_iff.1 h
  have split : fs = fs.take i ++ fs[i] :: fs.drop (i + 1) := by
    rw [← List.drop_eq_getElem_cons, List.take_append_drop]
  have length : (fs.take i).length = i := List.length_take_of_le (Nat.le_of_lt hi)
  rw [take_nameColumns]
  conv => lhs; rw [split]
  rw [nameColumns_append, List.getElem?_append_right (Nat.le_of_eq ((length_nameColumns _ _ _ _).trans length)),
    length_nameColumns, length, nameColumns_cons]
  simp

/-- A column occurs, outside subqueries, in a clause that may refer to the columns of the select. -/
def MentionsColumn (s : Select) (c : ColumnRef) : Prop :=
  (∃ f ∈ s.fields, (Node.field f).Mentions c) ∨ (∃ f ∈ s.groupBy, (Node.field f).Mentions c) ∨
    (Node.condition s.having).Mentions c ∨ ∃ e ∈ s.orderBy, (Node.sortField e).Mentions c

/-- The names to avoid are the aliases of the flattened fields and the names of the columns that are mentioned. -/
theorem mem_takenNames_iff (s : Select) (name : String) :
    name ∈ s.takenNames s.flattened ↔
      (∃ f ∈ s.flattened, ∃ a, f.alias? = some a ∧ Text.asciiLower a = name) ∨
        ∃ c, s.MentionsColumn c ∧ Text.asciiLower c.name = name := by
  have listed : ∀ c, (∃ f ∈ s.flattened, (Node.field f).Mentions c) ↔ ∃ f ∈ s.fields, (Node.field f).Mentions c := by
    intro c
    rw [flattened, Field.flattenAll_eq_flatMap]
    constructor
    · rintro ⟨g, hg, hc⟩
      obtain ⟨f, hf, hg⟩ := List.mem_flatMap.1 hg
      exact ⟨f, hf, (f.exists_mem_flatten_mentions c).1 ⟨g, hg, hc⟩⟩
    · rintro ⟨f, hf, hc⟩
      obtain ⟨g, hg, hc⟩ := (f.exists_mem_flatten_mentions c).2 hc
      exact ⟨g, List.mem_flatMap.2 ⟨f, hf, hg⟩, hc⟩
  simp only [takenNames, MentionsColumn, ← listed]
  simp only [List.map_append, List.mem_append, List.mem_map, List.mem_filterMap, List.mem_flatMap,
    Node.mem_columnNames_iff, List.mem_singleton]
  grind

/-- Whatever name a field may keep is one that no other column is given. -/
theorem naturalName_mem_takenNames {s : Select} {f : Field} {n : String} (hf : f ∈ s.flattened)
    (hn : f.naturalName? = some n) : Text.asciiLower n ∈ s.takenNames s.flattened := by
  rw [mem_takenNames_iff]
  cases f with
  | aliased x a =>
    cases hn
    exact .inl ⟨_, hf, n, rfl, rfl⟩
  | column c =>
    cases hn
    rw [flattened, Field.flattenAll_eq_flatMap] at hf
    obtain ⟨f, hf, hc⟩ := List.mem_flatMap.1 hf
    exact .inr ⟨c, .inl ⟨f, hf, (f.exists_mem_flatten_mentions c).1 ⟨_, hc, .here c⟩⟩, rfl⟩
  | _ => cases hn

/-- The column at an index does not go by a name of its own. -/
def IsMadeUp (s : Select) (names : List String) (i : Nat) (name : String) : Prop :=
  names[i]? = some name ∧ ∃ f, s.flattened[i]? = some f ∧ f.naturalName? ≠ some name

/-- Names by which the flattened fields of a select can be told apart. -/
structure TellsApart (s : Select) (names : List String) : Prop where
  count : names.length = s.flattened.length
  distinct : (names.map Text.asciiLower).Nodup
  /-- A field keeps its alias or the name of its column, unless an earlier one goes by the same name. -/
  kept : ∀ {i : Nat} {f : Field} {name : String}, s.flattened[i]? = some f → names[i]? = some name →
    (f.naturalName? = some name ↔ f.naturalName? ≠ none ∧ ∀ g ∈ s.flattened.take i, ¬ g.SharesName f)
  generated : ∀ {i : Nat} {name : String}, s.IsMadeUp names i name →
    ∃ tries, Generates (s.takenNames s.flattened) ((names.take i).map Text.asciiLower) i tries ∧
      name = generatedName i tries
  /-- What is made up is no alias of any field, in whatever case. -/
  no_alias : ∀ {i : Nat} {name : String}, s.IsMadeUp names i name →
    ∀ f ∈ s.flattened, ∀ a, f.alias? = some a → Text.asciiLower name ≠ Text.asciiLower a
  /-- Nor is it the name of a column that is mentioned. -/
  no_column : ∀ {i : Nat} {name : String}, s.IsMadeUp names i name →
    ∀ c, s.MentionsColumn c → Text.asciiLower name ≠ Text.asciiLower c.name

variable {s : Select}

/-- A field that does not keep its name shares it with an earlier one. -/
theorem outputNames_cases {i : Nat} {f : Field} {name : String} (hf : s.flattened[i]? = some f)
    (hn : (s.outputNames s.flattened)[i]? = some name) :
    (f.naturalName? = some name ∧ ∀ g ∈ s.flattened.take i, ¬ g.SharesName f) ∨
      (f.naturalName? ≠ none → ∃ g ∈ s.flattened.take i, g.SharesName f) ∧
        ∃ tries, Generates (s.takenNames s.flattened)
          (((s.outputNames s.flattened).take i).map Text.asciiLower) i tries ∧ name = generatedName i tries := by
  rw [outputNames] at hn ⊢
  rw [getElem?_nameColumns hf] at hn
  obtain rfl := Option.some.inj hn
  -- Of the names that a field may keep, those that were given are the ones earlier fields have.
  have given : ∀ n, f.naturalName? = some n →
      (Text.asciiLower n ∈ (((nameColumns (s.takenNames s.flattened) 0 [] s.flattened).take i).map
        Text.asciiLower).reverse ↔ ∃ g ∈ s.flattened.take i, g.SharesName f) := by
    intro n hn
    have := mem_given_iff (naturalName_mem_takenNames (List.mem_of_getElem? hf) hn) [] 0 (s.flattened.take i)
    rw [List.append_nil, ← take_nameColumns] at this
    rw [this]
    simp [Field.SharesName, hn]
  rcases columnName_cases (s.takenNames s.flattened) _ i f with ⟨n, hn, fresh, kept⟩ | ⟨shared, tries, generates, made⟩
  · left
    rw [kept]
    rw [given n hn] at fresh
    exact ⟨hn, fun g hg h => fresh ⟨g, hg, h⟩⟩
  · right
    refine ⟨?_, tries, ?_, made⟩
    · intro h
      obtain ⟨n, hn⟩ := Option.ne_none_iff_exists'.1 h
      exact (given n hn).1 (shared n hn)
    · obtain ⟨free, occupied, bounded⟩ := generates
      simp only [List.mem_append, List.mem_reverse, List.length_append, List.length_reverse] at free occupied bounded
      refine ⟨?_, ?_, ?_⟩
      · simpa using free
      · simpa using occupied
      · simpa using bounded

/-- What is made up for a field is not to be avoided, whatever the case of its letters. -/
theorem IsMadeUp.asciiLower_not_mem {i : Nat} {name : String}
    (h : s.IsMadeUp (s.outputNames s.flattened) i name) : Text.asciiLower name ∉ s.takenNames s.flattened := by
  obtain ⟨hn, f, hf, made⟩ := h
  rcases outputNames_cases hf hn with ⟨kept, -⟩ | ⟨-, tries, generates, rfl⟩
  · exact absurd kept made
  · rw [asciiLower_generatedName]
    exact fun h => generates.free (List.mem_append_left _ h)

/-- The flattened fields of every select are given names by which they can be told apart: one for each, different in
more than the case of their letters. A field keeps its own name exactly if no earlier one has it, and a name that is
made up, by a search that ends, is used by no alias and no column that the select mentions. -/
theorem outputNames_tellsApart (s : Select) : s.TellsApart (s.outputNames s.flattened) where
  count := s.length_outputNames s.flattened
  distinct := (distinct_nameColumns _ _ _ _).1
  kept {i f name} hf hn := by
    rcases outputNames_cases hf hn with ⟨kept, unshared⟩ | ⟨shared, tries, generates, rfl⟩
    · simp only [kept, true_iff]
      exact ⟨Option.some_ne_none _, unshared⟩
    · constructor
      · intro kept
        have taken := naturalName_mem_takenNames (List.mem_of_getElem? hf) kept
        rw [asciiLower_generatedName] at taken
        exact absurd (List.mem_append_left _ taken) generates.free
      · rintro ⟨named, unshared⟩
        obtain ⟨g, hg, shares⟩ := shared named
        exact absurd shares (unshared g hg)
  generated := by
    rintro i name ⟨hn, f, hf, made⟩
    rcases outputNames_cases hf hn with ⟨kept, -⟩ | ⟨-, generated⟩
    · exact absurd kept made
    · exact generated
  no_alias made f hf a ha h := made.asciiLower_not_mem ((s.mem_takenNames_iff _).2 (.inl ⟨f, hf, a, ha, h.symm⟩))
  no_column made c hc h := made.asciiLower_not_mem ((s.mem_takenNames_iff _).2 (.inr ⟨c, hc, h.symm⟩))

/-- A column that is grouped by is not mistaken for the first of the select list. -/
example :
    let one : Field := .value (.int 1)
    ({ ofFields [one] with groupBy := [.col "C1"] } : Select).outputNames [one] = ["c1_"] := by
  cbv

end Select

end SqlDialects
