import SqlDialects.Proofs.Render.Aliases
import SqlDialects.Proofs.Render.Field
import SqlDialects.Query.Renaming

/-!
# Selects under new column names

Renaming the columns of a select gives each of its flattened fields a name. Where nothing but the select list names
the columns, the fields are renamed in place; elsewhere the select is kept, under names by which each column can be
told from the others, and read through a projection, and only then an alias is asked for.

A renamed field goes by its new alias alone, the aliases it had being taken off. A row under several aliases is one
column of a flattened list, but under a single one it is expanded again, and then the columns of the renamed select
are not those that were named (`HiddenRow`). Every other field stays the one column that it was.
-/

set_option autoImplicit false

namespace SqlDialects

/-! ## Fields that stand for themselves -/

namespace Field

def isRow : Field → Bool
  | row _ => true
  | _ => false

/-- Whether a field stands for others in a select list: a row does, and a row under one alias. -/
def expands : Field → Bool
  | row _ => true
  | aliased x _ => x.isRow
  | _ => false

theorem flatten_of_not_expands {f : Field} (h : f.expands = false) : f.flatten = [f] := by
  unfold flatten
  split
  · cases h
  · cases h
  · rfl

/-- Nothing in a flattened list stands for others. -/
theorem not_expands_of_mem_flatten {f g : Field} (h : g ∈ f.flatten) : g.expands = false := by
  induction f using flatten.induct (motive_2 := fun fs => g ∈ flattenAll fs → g.expands = false) with
  | case1 members ih =>
    rw [flatten] at h
    exact ih h
  | case2 members a ih =>
    rw [flatten] at h
    exact ih h
  | case3 f hr ha =>
    have hf : f.expands = false := by
      unfold expands
      split
      · exact absurd rfl (hr _)
      · next x a =>
        cases x with
        | row members => exact absurd rfl (ha members a)
        | _ => rfl
      · rfl
    rw [flatten_of_not_expands hf, List.mem_singleton] at h
    rw [h]
    exact hf
  | case4 => simp [flattenAll] at *
  | case5 f fs ihf ihfs h =>
    rw [flattenAll] at h
    rcases List.mem_append.1 h with h | h
    · exact ihf h
    · exact ihfs h

theorem not_expands_of_mem_flattenAll {f : Field} {fs : List Field} (h : f ∈ flattenAll fs) : f.expands = false := by
  rw [flattenAll_eq_flatMap] at h
  obtain ⟨x, -, hx⟩ := List.mem_flatMap.1 h
  exact not_expands_of_mem_flatten hx

/-- A select list is its own flattened list exactly if none of its fields stands for others. -/
theorem flattenAll_eq_self_iff (fs : List Field) : flattenAll fs = fs ↔ ∀ f ∈ fs, f.expands = false := by
  constructor
  · intro h f hf
    rw [← h] at hf
    exact not_expands_of_mem_flattenAll hf
  · intro h
    induction fs with
    | nil => rfl
    | cons f fs ih =>
      have hf := flatten_of_not_expands (h f (by simp))
      rw [flattenAll, hf, ih fun g hg => h g (by simp [hg])]
      rfl

theorem flattenAll_zipWith_iff {α : Type} (g : α → String → Field) (xs : List α) (names : List String) :
    flattenAll (List.zipWith g xs names) = List.zipWith g xs names
      ↔ ∀ p ∈ xs.zip names, (g p.1 p.2).expands = false := by
  rw [flattenAll_eq_self_iff, ← List.map_uncurry_zip_eq_zipWith, List.forall_mem_map]
  rfl

/-! ## Names of fields -/

theorem unaliased_unaliased (f : Field) : f.unaliased.unaliased = f.unaliased := by
  induction f using unaliased.induct with
  | case1 x a ih => exact ih
  | case2 f hf =>
    have bare : f.unaliased = f := by
      cases f with
      | aliased x a => exact absurd rfl (hf x a)
      | _ => rfl
    rw [bare, bare]

theorem unaliased_named (f : Field) (name : String) : (f.named name).unaliased = f.unaliased := by
  unfold named
  split
  · rfl
  · rw [unaliased, unaliased_unaliased]

theorem naturalName?_named (f : Field) (name : String) : (f.named name).naturalName? = some name := by
  unfold named
  split
  · next h => exact h
  · rfl

/-- A field that does not go by a name yet is one column under it, unless it hides a row. -/
theorem expands_named {f : Field} (h : f.expands = false) (name : String) :
    (f.named name).expands = false ↔ f.naturalName? = some name ∨ f.unaliased.isRow = false := by
  unfold named
  split
  · next hn => simp [h, hn]
  · next hn =>
    rw [or_iff_right hn]
    rfl

end Field

/-! ## Names of columns -/

theorem Text.lowerChar_of_isDigit {c : Char} (h : c.isDigit = true) : Text.lowerChar c = c := by
  have hd : c.toNat ≤ '9'.toNat := by
    simp only [Char.isDigit, ge_iff_le, Bool.and_eq_true, decide_eq_true_eq] at h
    exact h.2
  have hu : ¬ ('A' ≤ c ∧ c ≤ 'Z') := by
    intro hc
    have ha : 'A'.toNat ≤ c.toNat := hc.1
    have : 'A'.toNat ≤ '9'.toNat := Nat.le_trans ha hd
    exact absurd this (by decide)
  rw [Text.lowerChar, if_neg hu]

theorem Text.asciiLower_append (s t : String) :
    Text.asciiLower (s ++ t) = Text.asciiLower s ++ Text.asciiLower t := by
  simp only [Text.asciiLower, String.toList_append, List.map_append, String.ofList_append]

theorem Text.asciiLower_digits (n : Nat) : Text.asciiLower (Decimal.digits n) = Decimal.digits n := by
  have digits : (Nat.toDigits 10 n).map Text.lowerChar = Nat.toDigits 10 n := by
    conv => rhs; rw [← List.map_id (Nat.toDigits 10 n)]
    exact List.map_congr_left fun c hc =>
      Text.lowerChar_of_isDigit (Nat.isDigit_of_mem_toDigits (by decide) (by decide) hc)
  rw [Text.asciiLower, Decimal.digits, String.toList_ofList, digits]

namespace Select

/-- Generated names have no capital letters. -/
theorem asciiLower_generatedName (index tries : Nat) :
    Text.asciiLower (generatedName index tries) = generatedName index tries := by
  have tail : Text.asciiLower (String.ofList (List.replicate tries '_'))
      = String.ofList (List.replicate tries '_') := by
    rw [Text.asciiLower, String.toList_ofList, List.map_replicate]
    rfl
  rw [generatedName, Text.asciiLower_append, Text.asciiLower_append, Text.asciiLower_digits, tail]
  rfl

theorem generatedName_injective (index i j : Nat) (h : generatedName index i = generatedName index j) : i = j := by
  have hl := congrArg String.length h
  simpa [generatedName] using hl

theorem length_nameColumns (taken : List String) (index : Nat) (used : List String) (fs : List Field) :
    (nameColumns taken index used fs).length = fs.length := by
  induction fs generalizing index used with
  | nil => rfl
  | cons f fs ih =>
    rw [nameColumns, List.length_cons, List.length_cons, ih]

theorem generated_not_taken (taken : List String) (index : Nat) (used : List String) :
    Text.asciiLower (Text.firstFree (generatedName index) (taken ++ used)) ∉ taken ++ used := by
  obtain ⟨k, hk, free, -⟩ := Text.exists_firstFree (generatedName_injective index) (taken ++ used)
  rw [hk, asciiLower_generatedName]
  exact free

/-- A column keeps its name or is given one that is not taken. -/
theorem kept_or_free_of_mem_nameColumns (taken : List String) (index : Nat) (used : List String) (fs : List Field)
    {p : Field × String} (hp : p ∈ fs.zip (nameColumns taken index used fs)) :
    p.1.naturalName? = some p.2 ∨ Text.asciiLower p.2 ∉ taken := by
  induction fs generalizing index used with
  | nil => cases hp
  | cons f fs ih =>
    rw [nameColumns, List.zip_cons_cons, List.mem_cons] at hp
    rcases hp with rfl | hp
    · have generated : Text.asciiLower (Text.firstFree (generatedName index) (taken ++ used)) ∉ taken :=
        fun hm => generated_not_taken taken index used (List.mem_append_left _ hm)
      dsimp only
      split
      · next n hn =>
        split
        · exact .inr generated
        · exact .inl hn
      · exact .inr generated
    · exact ih _ _ hp

/-- The names of columns differ from each other and from those that were given before, whatever their case. -/
theorem distinct_nameColumns (taken : List String) (index : Nat) (used : List String) (fs : List Field) :
    ((nameColumns taken index used fs).map Text.asciiLower).Nodup ∧
      ∀ n ∈ nameColumns taken index used fs, Text.asciiLower n ∉ used := by
  induction fs generalizing index used with
  | nil => simp [nameColumns]
  | cons f fs ih =>
    have generated : Text.asciiLower (Text.firstFree (generatedName index) (taken ++ used)) ∉ used :=
      fun hm => generated_not_taken taken index used (List.mem_append_right _ hm)
    -- Whichever way the first column gets its name, the name was not given before.
    have step : ∀ name, Text.asciiLower name ∉ used →
        ((name :: nameColumns taken (index + 1) (Text.asciiLower name :: used) fs).map Text.asciiLower).Nodup ∧
          ∀ n ∈ name :: nameColumns taken (index + 1) (Text.asciiLower name :: used) fs, Text.asciiLower n ∉ used := by
      intro name hname
      obtain ⟨nodup, fresh⟩ := ih (index + 1) (Text.asciiLower name :: used)
      refine ⟨?_, ?_⟩
      · rw [List.map_cons, List.nodup_cons]
        refine ⟨?_, nodup⟩
        intro hm
        obtain ⟨n, hn, he⟩ := List.mem_map.1 hm
        exact fresh n hn (by rw [he]; exact List.mem_cons_self)
      · intro n hn
        rcases List.mem_cons.1 hn with rfl | hn
        · exact hname
        · exact fun hu => fresh n hn (List.mem_cons_of_mem _ hu)
    rw [nameColumns]
    apply step
    split
    · next n _ =>
      split
      · exact generated
      · next hu => simpa using hu
    · exact generated

/-! ## Renaming -/

/-- Whether a select has clauses, besides the select list, that may refer to the names of its columns. -/
def ReadsNames (s : Select) : Prop := s.groupBy ≠ [] ∨ s.having ≠ .none ∨ s.orderBy ≠ []

/-- A select whose columns were renamed in place. -/
structure RenamedInPlace (s : Select) (names : List String) (q : Select) : Prop where
  clauses : q = { s with fields := q.fields }
  fields : q.fields = List.zipWith (fun f name => .aliased f.unaliased name) s.flattened names
  aliases : q.fields.map Field.alias? = names.map some
  /-- Each field is one column of the renamed select, exactly if none of them hides a row. -/
  flattened : q.flattened = q.fields ↔ ∀ f ∈ s.flattened, f.unaliased.isRow = false

/-- The columns of a select, each read under a name and given another. -/
def project (inner : Select) (asName : String) (columns names : List String) : Select :=
  { ofFields (List.zipWith (fun column name => .aliased (.qualified asName column) name) columns names) with
    tables := [.derived inner asName []] }

/-- A select under column names by which its flattened fields can be told apart. -/
structure ReadableAs (s : Select) (columns : List String) (inner : Select) : Prop where
  clauses : inner = { s with fields := inner.fields }
  fields : inner.fields.map Field.unaliased = s.flattened.map Field.unaliased
  names : inner.fields.map Field.naturalName? = columns.map some
  distinct : (columns.map Text.asciiLower).Nodup
  /-- No other clause, nor any other column, goes by a name that is new. -/
  unread : ∀ p ∈ s.flattened.zip columns,
    p.1.naturalName? = some p.2 ∨ Text.asciiLower p.2 ∉ s.takenNames s.flattened
  /-- Each field is one column, exactly if none of those that did not go by their names yet hides a row. -/
  flattened : inner.flattened = inner.fields ↔
    ∀ p ∈ s.flattened.zip columns, p.1.naturalName? = some p.2 ∨ p.1.unaliased.isRow = false

/-- Renames the columns of a select, with an action that yields an alias where one is needed. -/
def renameWith {m : Type → Type} [Monad m] (wrapper : m String) (s : Select) (names : List String) :
    m (Option Select) :=
  match s.rename? names with
  | none => pure none
  | some plan => do
    let asName ← if plan.needsAlias then wrapper else pure ""
    return some (plan.toSelect asName)

end Select

/-- While a query is written, the alias is a fresh one. -/
theorem Visitor.renamed_eq_renameWith (s : Select) (names : List String) (construct : String) :
    Visitor.renamed s names construct = (do
      match ← s.renameWith (Render.freshAlias "q") names with
      | none => Render.unsupported construct
      | some q => return q) := by
  unfold renamed Select.renameWith
  cases s.rename? names with
  | none => rfl
  | some plan =>
    by_cases ha : plan.needsAlias
    · simp [ha]
    · simp [ha]

namespace Select

variable {s : Select} {names : List String}

theorem rename?_eq_none (h : names = [] ∨ names.length ≠ s.flattened.length) : s.rename? names = none := by
  unfold rename?
  rw [if_pos]
  rcases h with rfl | h
  · cases hf : s.flattened with
    | nil => exact .inl rfl
    | cons f fs => exact .inr (by simp)
  · exact .inr (Ne.symm h)

theorem rename?_eq_some (hn : names ≠ []) (hl : names.length = s.flattened.length) :
    s.rename? names =
      if s.groupBy.isEmpty ∧ s.having.isEmpty ∧ s.orderBy.isEmpty then
        some (.inPlace { s with fields := List.zipWith (fun f n => .aliased f.unaliased n) s.flattened names })
      else
        some (.projected { s with fields := List.zipWith Field.named s.flattened (s.outputNames s.flattened) }
          ((s.outputNames s.flattened).zip names)) := by
  unfold rename?
  dsimp only
  rw [if_neg]
  rintro (he | hne)
  · have : s.flattened = [] := by simpa using he
    rw [this] at hl
    exact hn (List.length_eq_zero_iff.1 hl)
  · exact hne hl.symm

theorem readsNames_iff : s.ReadsNames ↔ ¬ (s.groupBy.isEmpty ∧ s.having.isEmpty ∧ s.orderBy.isEmpty) := by
  have hh : s.having.isEmpty = true ↔ s.having = .none := by
    cases s.having <;> simp [Condition.isEmpty]
  simp only [ReadsNames, List.isEmpty_iff, hh]
  grind

theorem map_zipWith_left {α β γ δ : Type} {g : α → β → γ} {h : γ → δ} {k : α → δ} (hg : ∀ a b, h (g a b) = k a)
    {xs : List α} {ys : List β} (hl : xs.length = ys.length) : (List.zipWith g xs ys).map h = xs.map k := by
  have hz : (xs.zip ys).map Prod.fst = xs := List.map_fst_zip (Nat.le_of_eq hl)
  conv => rhs; rw [← hz, List.map_map]
  rw [← List.map_uncurry_zip_eq_zipWith, List.map_map]
  exact List.map_congr_left fun p _ => hg p.1 p.2

theorem map_zipWith_right {α β γ δ : Type} {g : α → β → γ} {h : γ → δ} {k : β → δ} (hg : ∀ a b, h (g a b) = k b)
    {xs : List α} {ys : List β} (hl : xs.length = ys.length) : (List.zipWith g xs ys).map h = ys.map k := by
  rw [List.zipWith_comm]
  exact map_zipWith_left (fun b a => hg a b) hl.symm

theorem aliases_zipWith {α : Type} (g : α → Field) {xs : List α} (hl : xs.length = names.length) :
    (List.zipWith (fun x n => Field.aliased (g x) n) xs names).map Field.alias? = names.map some :=
  map_zipWith_right (g := fun x n => Field.aliased (g x) n) (h := Field.alias?) (k := some) (fun _ _ => rfl) hl

theorem length_outputNames (s : Select) (fs : List Field) : (s.outputNames fs).length = fs.length :=
  length_nameColumns _ _ _ _

theorem renamedInPlace (hl : names.length = s.flattened.length) :
    s.RenamedInPlace names
      { s with fields := List.zipWith (fun f n => .aliased f.unaliased n) s.flattened names } where
  clauses := rfl
  fields := rfl
  aliases := aliases_zipWith Field.unaliased hl.symm
  flattened := by
    have hz : (s.flattened.zip names).map Prod.fst = s.flattened := List.map_fst_zip (Nat.le_of_eq hl.symm)
    refine (Field.flattenAll_zipWith_iff _ _ _).trans ?_
    conv => rhs; rw [← hz, List.forall_mem_map]
    rfl

theorem readableAs (s : Select) :
    s.ReadableAs (s.outputNames s.flattened)
      { s with fields := List.zipWith Field.named s.flattened (s.outputNames s.flattened) } where
  clauses := rfl
  fields := map_zipWith_left Field.unaliased_named (s.length_outputNames s.flattened).symm
  names := map_zipWith_right Field.naturalName?_named (s.length_outputNames s.flattened).symm
  distinct := (distinct_nameColumns _ _ _ _).1
  unread _ hp := kept_or_free_of_mem_nameColumns _ _ _ _ hp
  flattened := by
    refine (Field.flattenAll_zipWith_iff _ _ _).trans (forall₂_congr fun p hp => ?_)
    exact Field.expands_named (Field.not_expands_of_mem_flattenAll (List.of_mem_zip hp).1) p.2

/-- The columns of a projection are columns of their own. -/
theorem flattened_project (inner : Select) (asName : String) (columns names : List String) :
    (inner.project asName columns names).flattened
      = List.zipWith (fun column name => .aliased (.qualified asName column) name) columns names :=
  (Field.flattenAll_zipWith_iff (fun column name => .aliased (.qualified asName column) name) columns _).2
    fun _ _ => rfl

theorem aliases_project {inner : Select} {columns names : List String} (asName : String)
    (hl : columns.length = names.length) :
    (inner.project asName columns names).flattened.map Field.alias? = names.map some := by
  rw [flattened_project]
  exact aliases_zipWith (Field.qualified asName) hl

theorem toSelect_projected (inner : Select) (columns names : List String) (asName : String) :
    (Renaming.projected inner (columns.zip names)).toSelect asName = inner.project asName columns names := by
  simp only [Renaming.toSelect, project]
  rw [← List.map_uncurry_zip_eq_zipWith]
  rfl

/-- The columns of a select are renamed exactly if there are names for them, one for each. If no other clause reads
their names, the select list alone changes, and each field keeps its expression under its new alias. Otherwise, and
only then, an alias is asked for: the select is kept but for its list, whose fields can be told apart by name, and the
renamed select reads each of them by its name.

A row under several aliases is the exception: with one alias left it is not one column but several. -/
theorem renameWith_columns {m : Type → Type} [Monad m] [LawfulMonad m] (wrapper : m String) (s : Select)
    (names : List String) :
    (names = [] ∨ names.length ≠ s.flattened.length → s.renameWith wrapper names = pure none) ∧
    (names ≠ [] → names.length = s.flattened.length →
      (¬ s.ReadsNames → ∃ q, s.renameWith wrapper names = pure (some q) ∧ s.RenamedInPlace names q) ∧
      (s.ReadsNames → ∃ inner columns, s.ReadableAs columns inner ∧
        s.renameWith wrapper names = (do return some (inner.project (← wrapper) columns names)) ∧
        ∀ asName, (inner.project asName columns names).flattened.map Field.alias? = names.map some)) := by
  refine ⟨?_, ?_⟩
  · intro h
    rw [renameWith, rename?_eq_none h]
  · intro hn hl
    rw [readsNames_iff, Classical.not_not, renameWith, rename?_eq_some hn hl]
    refine ⟨?_, ?_⟩
    · intro hp
      rw [if_pos hp]
      exact ⟨_, by simp [Renaming.needsAlias, Renaming.toSelect], renamedInPlace hl⟩
    · intro hp
      rw [if_neg hp]
      have hc : (s.outputNames s.flattened).length = names.length := (s.length_outputNames s.flattened).trans hl.symm
      refine ⟨_, _, s.readableAs, ?_, fun asName => aliases_project asName hc⟩
      simp [Renaming.needsAlias, toSelect_projected]

end Select

/-! ## A sorted select -/

namespace SortedColumns

/-- Asks for an alias, and counts how often. -/
def wrapper : StateM Nat String := do
  modify (· + 1)
  return "q"

/-- `SELECT a, A FROM t ORDER BY a` -/
def select : Select :=
  { Select.ofFields [.col "a", .col "A"] with tables := [.named none "t" none], orderBy := [⟨.col "a", none, none⟩] }

/-- The columns of a sorted select, which go by one name but for its case, are renamed by a projection over a select
in which the second has a name of its own. -/
theorem renameWith_sorted :
    select.ReadsNames ∧ ∃ inner columns, select.ReadableAs columns inner ∧
      (select.renameWith wrapper ["x", "y"]).run 0 = (some (inner.project "q" columns ["x", "y"]), 1) := by
  have reads : select.ReadsNames := .inr (.inr (List.cons_ne_nil _ _))
  obtain ⟨inner, columns, readable, renamed, -⟩ :=
    ((Select.renameWith_columns wrapper select ["x", "y"]).2 (List.cons_ne_nil _ _) rfl).2 reads
  refine ⟨reads, inner, columns, readable, ?_⟩
  rw [renamed]
  rfl

end SortedColumns

/-! ## A row under two aliases -/

namespace HiddenRow

/-- `SELECT (a, b) AS x AS y FROM t` -/
def select : Select :=
  { Select.ofFields [.aliased (.aliased (.row [.col "a", .col "b"]) "x") "y"] with tables := [.named none "t" none] }

/-- Under two aliases the row is one column, and one name is enough for it. Under its new alias alone it is the two
columns that it was made of, and neither goes by that name. -/
theorem columns_lost :
    select.flattened.length = 1 ∧
    ∃ q, select.renameWith (m := Id) "q" ["n"] = some q ∧ q.flattened.length = 2 ∧
      q.flattened.map Field.alias? = [none, none] :=
  ⟨rfl, _, rfl, rfl, rfl⟩

end HiddenRow

end SqlDialects
