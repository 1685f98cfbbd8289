import SqlDialects.Proofs.Schema.Columns

/-!
# Creation statements that are written and read back

The creation statement of a table, with its name and the columns of its list quoted, declares the table and the
columns that were written (`DeclaredObject.ofStatement_creation`), whatever stands in their names. Four readers go over
the names, each by rules of its own: the one that finds where the name of the table ends, the one that says what a
name is, the one that finds where the list of columns ends, and the one that cuts the list. They agree, for each
leaves the quotes at the same character.
-/

set_option autoImplicit false

namespace SqlDialects.Schema

open Text

/-- The list of columns of a creation statement. -/
def columnList (columns : List WrittenColumn) : String := ", ".intercalate (columns.map WrittenColumn.text)

/-- The creation statement of a table. -/
def creation (table : String) (columns : List WrittenColumn) : String :=
  "CREATE TABLE " ++ Dialect.sqlite.quoteIdentifier table ++ " (" ++ columnList columns ++ ")"

variable {cs r : List Char}

/-! ## The head -/

theorem toList_creation (table : String) (columns : List WrittenColumn) :
    (creation table columns).toList
      = "CREATE TABLE ".toList ++ '"' :: (doubling '"' table.toList
        ++ '"' :: ' ' :: '(' :: ((columnList columns).toList ++ [')'])) := by
  have name : (Dialect.sqlite.quoteIdentifier table).toList = '"' :: (doubling '"' table.toList ++ ['"']) :=
    toList_quoted '"' table
  have opening : " (".toList = [' ', '('] := rfl
  have closing : ")".toList = [')'] := rfl
  unfold creation
  generalize columnList columns = list
  rw [String.toList_append, String.toList_append, String.toList_append, String.toList_append, name, opening, closing]
  simp only [List.cons_append, List.append_assoc, List.nil_append]

/-- A name is read up to the quote that closes it, as it is written. -/
theorem takeQuoted_doubling {isFirst : Bool} (hf : isFirst = true → cs ≠ []) (h : r.head? ≠ some '"') :
    takeQuoted isFirst (doubling '"' cs ++ '"' :: r) = some (doubling '"' cs, r) := by
  induction cs generalizing isFirst with
  | nil =>
    have inside : isFirst = false := by simpa using hf
    cases r with
    | nil => simp [doubling, takeQuoted, inside]
    | cons c r =>
      have hc : c ≠ '"' := fun hc => h (congrArg some hc)
      simp [doubling, takeQuoted, inside, hc]
  | cons c cs ih =>
    have behind : takeQuoted false (doubling '"' cs ++ '"' :: r) = some (doubling '"' cs, r) :=
      ih fun first => absurd first (by decide)
    by_cases hc : c = '"'
    · rw [doubling, if_pos hc, List.cons_append, List.cons_append, takeQuoted, behind]
    · rw [doubling, if_neg hc, List.cons_append, takeQuoted, behind]
      · rfl
      · exact fun _ hc' _ => hc hc'
      · exact hc

theorem takeDottedName_quoted (hn : cs ≠ []) :
    takeDottedName ('"' :: (doubling '"' cs ++ '"' :: ' ' :: '(' :: r))
      = some ('"' :: (doubling '"' cs ++ ['"']), ' ' :: '(' :: r) := by
  have name : takeName ('"' :: (doubling '"' cs ++ '"' :: ' ' :: '(' :: r))
      = some ('"' :: (doubling '"' cs ++ ['"']), ' ' :: '(' :: r) := by
    rw [takeName, takeQuoted_doubling (fun _ => hn) (by simp +decide)]
    rfl
  rw [takeDottedName, name]
  rfl

theorem lastNamePart_quoted : lastNamePart ('"' :: (doubling '"' cs ++ ['"'])) = some cs := by
  have name : leadingName ('"' :: (doubling '"' cs ++ ['"'])) = some (cs, []) := leadingName_quoted nofun
  unfold lastNamePart
  split
  · next none =>
    rw [name] at none
    cases none
  · next some =>
    rw [name] at some
    cases some
    rfl

theorem takeHead_creation (hn : cs ≠ []) :
    takeHead ("CREATE TABLE ".toList ++ '"' :: (doubling '"' cs ++ '"' :: ' ' :: '(' :: r))
      = some ⟨.table, '"' :: (doubling '"' cs ++ ['"']), '(' :: r⟩ := by
  have name := takeDottedName_quoted (r := r) hn
  generalize hd : doubling '"' cs ++ '"' :: ' ' :: '(' :: r = behind at name ⊢
  have start : trimStart ("CREATE TABLE ".toList ++ '"' :: behind) = "CREATE TABLE ".toList ++ '"' :: behind := rfl
  have create : dropWord "create" ("CREATE TABLE ".toList ++ '"' :: behind)
      = some ("TABLE ".toList ++ '"' :: behind) := rfl
  have permanent : ((dropWord "temporary" ("TABLE ".toList ++ '"' :: behind)).orElse fun _ =>
      dropWord "temp" ("TABLE ".toList ++ '"' :: behind)) = none := rfl
  have kind : takeKind ("TABLE ".toList ++ '"' :: behind) = some (.table, '"' :: behind) := rfl
  have newName : takeNewName ('"' :: behind) = takeDottedName ('"' :: behind) := rfl
  simp only [takeHead, start, create, permanent, kind, newName, name, Option.bind_eq_bind, Option.bind_some,
    Option.getD_none]
  rfl

/-! ## The list -/

theorem toList_columnList (c : WrittenColumn) (columns : List WrittenColumn) :
    (columnList (c :: columns)).toList
      = c.text.toList ++ (columns.map fun c => ' ' :: c.text.toList).flatMap (',' :: ·) := by
  rw [columnList, String.toList_intercalate, List.map_cons, List.map_cons, intercalate_cons, List.map_map,
    List.flatMap_map, List.flatMap_map]
  rfl

theorem passes_blank {stop : Char} (c : WrittenColumn) (hs : IsCut stop) :
    Passes stop .top (' ' :: c.text.toList) .top := by
  have blank : Passes stop .top [' '] .top := passes_of_isIdle hs (List.forall_mem_singleton.2 (by decide))
  exact blank.append (c.passes_text hs)

theorem passes_columnList (c : WrittenColumn) (columns : List WrittenColumn) :
    Passes ')' .top (columnList (c :: columns)).toList .top := by
  rw [toList_columnList]
  refine (c.passes_text (.inl rfl)).append (.flatMap fun item hi => ?_)
  obtain ⟨c', -, rfl⟩ := List.mem_map.1 hi
  exact .cons rfl (passes_blank c' (.inl rfl))

/-- The items of the list are the columns, each with a blank before it but the first. -/
theorem listItems_columnList (c : WrittenColumn) (columns : List WrittenColumn) :
    listItems (columnList (c :: columns)).toList
      = c.text.toList :: columns.map fun c => ' ' :: c.text.toList := by
  have full : ∀ c : WrittenColumn, c.text.toList.all isBlank = false := by
    intro c
    rw [WrittenColumn.text, String.toList_append, c.toList_definition]
    rfl
  rw [toList_columnList]
  refine listItems_of_passes ?_ ?_
  · refine List.forall_mem_cons.2 ⟨c.passes_text (.inr rfl), fun item hi => ?_⟩
    obtain ⟨c', -, rfl⟩ := List.mem_map.1 hi
    exact passes_blank c' (.inr rfl)
  · refine List.forall_mem_cons.2 ⟨full c, fun item hi => ?_⟩
    obtain ⟨c', -, rfl⟩ := List.mem_map.1 hi
    rw [List.all_cons, full, Bool.and_false]

theorem elements_columnList (c : WrittenColumn) (columns : List WrittenColumn) :
    (listItems (columnList (c :: columns)).toList).map trimChars
      = (c :: columns).map fun c => c.definition.toList := by
  have first := c.trimChars_text (List.forall_mem_nil _)
  have others : (trimChars ∘ fun c : WrittenColumn => ' ' :: c.text.toList) = fun c => c.definition.toList := by
    funext c
    rw [Function.comp_apply, ← List.singleton_append]
    exact c.trimChars_text (List.forall_mem_singleton.2 (by decide))
  rw [List.nil_append] at first
  rw [listItems_columnList, List.map_cons, List.map_cons, List.map_map, first, others]

/-- A list of columns declares its columns. -/
theorem declaredTable_columnList {table : String} (c : WrittenColumn) (columns : List WrittenColumn) :
    declaredTable table ('(' :: ((columnList (c :: columns)).toList ++ [')']))
      = .ok ⟨table, .table, (c :: columns).map WrittenColumn.declared, false⟩ := by
  have columns_only : ((c :: columns).map fun c => c.definition.toList).filter (fun e => !isTableConstraint e)
      = (c :: columns).map fun c => c.definition.toList := by
    rw [List.filter_eq_self]
    intro e he
    obtain ⟨c', -, rfl⟩ := List.mem_map.1 he
    rw [c'.isTableConstraint_definition]
    rfl
  have definitions : ((c :: columns).map fun c => c.definition.toList).mapM columnDefinition
      = .ok ((c :: columns).map WrittenColumn.declared) := by
    have each : (columnDefinition ∘ fun c : WrittenColumn => c.definition.toList) = fun c => pure c.declared := by
      funext c
      rw [Function.comp_apply, c.columnDefinition_definition]
      rfl
    rw [List.mapM_map, each, List.mapM_pure]
    rfl
  rw [declaredTable, splitClosing_of_passes (passes_columnList c columns)]
  simp only [elements_columnList, columns_only, definitions]
  rfl

/-- A table that is written is declared as it was written. -/
theorem DeclaredObject.ofStatement_creation {table : String} {columns : List WrittenColumn} (ht : table ≠ "")
    (hc : columns ≠ []) :
    DeclaredObject.ofStatement (creation table columns)
      = .ok ⟨table, .table, columns.map WrittenColumn.declared, false⟩ := by
  obtain ⟨c, columns, rfl⟩ := List.exists_cons_of_ne_nil hc
  have head := takeHead_creation (r := (columnList (c :: columns)).toList ++ [')'])
    fun he => ht (String.toList_eq_nil_iff.1 he)
  have named : String.ofList table.toList = table := String.ofList_toList
  rw [ofStatement, toList_creation, head]
  simp only [lastNamePart_quoted, Option.getD_some, named]
  exact declaredTable_columnList c columns

/-- Names with quotes, commas, brackets, parentheses and a line break in them, a type of two words with a measure, and
a column with no type. -/
theorem DeclaredObject.ofStatement_creation_quoted :
    DeclaredObject.ofStatement "CREATE TABLE \"t\"\"(\" (\"a, \"\")[b\" DECIMAL big(10, 2), \"\n] x, UNIQUE'\" )"
      = .ok
        { name := "t\"("
          kind := .table
          columns :=
            [⟨"a, \")[b", "DECIMAL big", some 10, some 2, "\"a, \"\")[b\" DECIMAL big(10, 2)"⟩,
             ⟨"\n] x, UNIQUE'", "", none, none, "\"\n] x, UNIQUE'\""⟩]
          withoutRowid := false } := by
  obtain ⟨columns, full, written, declared⟩ : ∃ columns : List WrittenColumn, columns ≠ []
      ∧ creation "t\"(" columns
        = "CREATE TABLE \"t\"\"(\" (\"a, \"\")[b\" DECIMAL big(10, 2), \"\n] x, UNIQUE'\" )"
      ∧ columns.map WrittenColumn.declared
        = [⟨"a, \")[b", "DECIMAL big", some 10, some 2, "\"a, \"\")[b\" DECIMAL big(10, 2)"⟩,
           ⟨"\n] x, UNIQUE'", "", none, none, "\"\n] x, UNIQUE'\""⟩] :=
    ⟨[⟨"a, \")[b", some ⟨⟨"DECIMAL", by decide, by decide, by decide⟩, [⟨"big", by decide, by decide, by decide⟩],
        some ⟨10, some 2⟩⟩, "", by decide, by decide⟩,
      ⟨"\n] x, UNIQUE'", none, " ", by decide, by decide⟩], by simp, by decide +kernel, by decide +kernel⟩
  rw [← written, ← declared]
  exact ofStatement_creation (by decide) full

end SqlDialects.Schema
