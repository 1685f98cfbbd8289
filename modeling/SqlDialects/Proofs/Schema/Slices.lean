import SqlDialects.Proofs.Schema.Scanners
import SqlDialects.Proofs.Schema.WithoutRowid

/-!
# Statements by byte offsets

A creation statement is read with the scanners of byte offsets: from the end of its head on, up to the parenthesis that
closes its column list, from one separator to the next, up to the keyword that ends a select list, and around names and
the words of types. Wherever a cut or a byte would be missing the reading gives nothing.

It gives what the reading by characters gives, for every text (`DeclaredObject.sliced_eq_ofStatement`): every statement
is accepted or refused with a reason, and no cut fails on the way.
-/

set_option autoImplicit false

namespace SqlDialects.Schema

open Text
open String (utf8Len)

/-! ## Column definitions -/

/-- The word of a type at the start of a text and the text after it, cut out of the text. A parenthesis or a constraint
begins none. -/
def typeWordSlice? (text : List Char) : Option (Option (List Char × List Char)) :=
  if text.head? = some '(' then some none
  else do
    let word ← sliceTo? text (endOffset isPlainWordChar 0 text)
    if word.isEmpty || isWordOf constraintWords word then some none
    else do
      let rest ← sliceFrom? text (endOffset isPlainWordChar 0 text)
      return some (word, rest)

theorem typeWordSlice?_eq (text : List Char) :
    typeWordSlice? text = some (if (text.takeWhile isPlainWordChar).isEmpty
        || isWordOf constraintWords (text.takeWhile isPlainWordChar) then none
      else some (text.takeWhile isPlainWordChar, text.dropWhile isPlainWordChar)) := by
  obtain ⟨front, back⟩ := slices_endOffset isPlainWordChar text
  unfold typeWordSlice?
  split
  · next paren =>
    obtain ⟨rest, rfl⟩ := List.head?_eq_some_iff.1 paren
    rfl
  · rw [front, back]
    simp only [Option.bind_eq_bind, Option.bind_some]
    split <;> rfl

/-- The words of a type, cut out one after the other, and the text after them. -/
def typeWordSlices? (cs : List Char) : Option (List (List Char) × List Char) :=
  match _h : typeWordSlice? (trimStart cs) with
  | none => none
  | some none => some ([], trimStart cs)
  | some (some (word, rest)) => (typeWordSlices? rest).map fun r => (word :: r.1, r.2)
termination_by cs.length
decreasing_by
  have trimmed := length_trimStart_le cs
  have cut := congrArg List.length (List.takeWhile_append_dropWhile (p := isPlainWordChar) (l := trimStart cs))
  rw [typeWordSlice?_eq, Option.some_inj] at _h
  split at _h
  · cases _h
  · next some =>
    cases _h
    rw [Bool.or_eq_true, not_or, List.isEmpty_iff] at some
    have positive := List.length_pos_of_ne_nil some.1
    rw [List.length_append] at cut
    omega

theorem takeTypeWords_eq (cs : List Char) :
    takeTypeWords cs
      = if ((trimStart cs).takeWhile isPlainWordChar).isEmpty
          || isWordOf constraintWords ((trimStart cs).takeWhile isPlainWordChar) then ([], trimStart cs)
        else ((trimStart cs).takeWhile isPlainWordChar :: (takeTypeWords ((trimStart cs).dropWhile isPlainWordChar)).1,
          (takeTypeWords ((trimStart cs).dropWhile isPlainWordChar)).2) := by
  cases word : (trimStart cs).takeWhile isPlainWordChar with
  | nil => exact takeTypeWords_of_nil word
  | cons c w =>
    cases constraint : isWordOf constraintWords (c :: w) with
    | false => exact takeTypeWords_of_cons word constraint
    | true =>
      rw [takeTypeWords]
      split
      · next none => cases none.symm.trans word
      · next some =>
        cases some.symm.trans word
        rw [if_pos constraint]
        rfl

theorem typeWordSlices?_eq (cs : List Char) : typeWordSlices? cs = some (takeTypeWords cs) := by
  fun_induction typeWordSlices? cs with
  | case1 cs fails => cases fails.symm.trans (typeWordSlice?_eq _)
  | case2 cs none =>
    rw [typeWordSlice?_eq, Option.some_inj] at none
    rw [takeTypeWords_eq]
    split at none
    · next stops => rw [if_pos stops]
    · cases none
  | case3 cs word rest read ih =>
    rw [typeWordSlice?_eq, Option.some_inj] at read
    rw [takeTypeWords_eq, ih]
    split at read
    · cases read
    · next goesOn =>
      cases read
      rw [if_neg goesOn]
      rfl

/-- The column that a definition declares, its name and the words of its type cut out of it. -/
def columnSlices? (definition : List Char) : Option (Except StatementError DeclaredColumn) := do
  match ← leadingSlice? definition with
  | none => return .error (.missingColumnName (String.ofList definition))
  | some (name, rest) =>
    let (words, rest) ← typeWordSlices? rest
    let measure := if words.isEmpty then none else (takeMeasure rest).map Prod.fst
    return .ok
      { name := String.ofList name
        typeName := String.ofList ([' '].intercalate words)
        precision := Measure.precision? measure
        scale := Measure.scale? measure
        declaration := String.ofList definition }

theorem columnSlices?_eq (definition : List Char) : columnSlices? definition = some (columnDefinition definition) := by
  rw [columnSlices?, columnDefinition, leadingSlice?_eq]
  simp only [Option.bind_eq_bind, Option.bind_some]
  cases leadingName definition with
  | none => rfl
  | some r =>
    simp only [typeWordSlices?_eq, Option.bind_some]
    rfl

/-! ## Tables -/

/-- The columns that the elements of a list declare, up to the first that declares none. -/
def columnsSlices? : List (List Char) → Option (Except StatementError (List DeclaredColumn))
  | [] => some (.ok [])
  | e :: es =>
    if isTableConstraint e then columnsSlices? es
    else do
      match ← columnSlices? e with
      | .error error => return .error error
      | .ok c => return (← columnsSlices? es).map (c :: ·)

theorem columnsSlices?_eq (es : List (List Char)) :
    columnsSlices? es = some ((es.filter fun e => !isTableConstraint e).mapM columnDefinition) := by
  induction es with
  | nil => rfl
  | cons e es ih =>
    rw [columnsSlices?, List.filter_cons]
    cases isTableConstraint e with
    | true => exact ih
    | false =>
      simp only [columnSlices?_eq, ih, Option.bind_eq_bind, Option.bind_some]
      show _ = some ((e :: es.filter fun e => !isTableConstraint e).mapM columnDefinition)
      rw [List.mapM_cons]
      cases columnDefinition e with
      | error error => rfl
      | ok c => cases (es.filter fun e => !isTableConstraint e).mapM columnDefinition <;> rfl

/-- The table of a statement whose head has been read, its column list and what stands behind it cut out. -/
def tableSlices? (name : String) : List Char → Option (Except StatementError DeclaredObject)
  | '(' :: body =>
    match closingOffset? .top 0 body with
    | none => some (.error .unbalancedColumns)
    | some close => do
      let inside ← sliceTo? body close
      let elements ← listSlices? inside
      match ← columnsSlices? (elements.map trimChars) with
      | .error error => return .error error
      | .ok columns =>
        if columns.isEmpty then return .error (.noColumns .table name)
        else
          let behind ← sliceFrom? body close
          return .ok ⟨name, .table, columns, hasWithoutRowid false behind⟩
  | _ => some (.error .noColumnList)

theorem tableSlices?_eq (name : String) (cs : List Char) : tableSlices? name cs = some (declaredTable name cs) := by
  unfold tableSlices?
  split
  · next body =>
    rw [closingOffset?_eq, declaredTable]
    cases closes : splitClosing .top body with
    | none => rfl
    | some r =>
      obtain ⟨inside, behind⟩ := r
      obtain ⟨rfl, -⟩ := splitClosing_eq_some_iff.1 closes
      -- The cut at the parenthesis keeps it, which does not matter behind the list.
      have option : hasWithoutRowid false (')' :: behind) = hasWithoutRowid false behind :=
        @hasWithoutRowid_append_cons ')' [] behind false (by decide) (by decide)
      simp only [Option.map_some, Nat.zero_add, sliceTo?_append, sliceFrom?_append, listSlices?_eq,
        columnsSlices?_eq, Option.bind_eq_bind, Option.bind_some, option]
      cases (((listItems inside).map trimChars).filter fun e => !isTableConstraint e).mapM columnDefinition with
      | error error => rfl
      | ok columns => cases columns <;> rfl
  · next other => rw [declaredTable.eq_2 name cs other]

/-! ## Views -/

/-- The expression of an item, and the name of its alias cut out of its quotes. -/
def aliasSlice? (item : List Char) : Option (List Char × Option (List Char)) :=
  match splitAtAlias item with
  | none => some (item, none)
  | some (before, asName) =>
    let expression := trimChars before
    if isLevel expression && !isWordOf (constraintWords ++ ["END", "ASC", "DESC"]) asName
        && !asksForMore expression && !expression.isEmpty then
      (unquotedSlice? asName).map fun name => (expression, some name)
    else some (item, none)

theorem aliasSlice?_eq (item : List Char) : aliasSlice? item = some (splitAlias item) := by
  unfold aliasSlice? splitAlias
  cases splitAtAlias item with
  | none => rfl
  | some r =>
    simp only [unquotedSlice?_eq]
    split <;> rfl

/-- The name of a column that is neither renamed nor given an alias. -/
def expressionSlice? (expression : List Char) : Option (List Char) :=
  if isColumnReference expression then (lastNameSlice? expression).map (·.getD expression) else some expression

theorem expressionSlice?_eq (expression : List Char) :
    expressionSlice? expression = some (expressionName expression) := by
  unfold expressionSlice? expressionName
  rw [lastNameSlice?_eq]
  split <;> rfl

/-- The column that an item declares, under the name that the view gives it, if it gives one. -/
def itemSlices? (item : List Char) (given : Option (List Char)) : Option DeclaredColumn := do
  let (expression, asName) ← aliasSlice? item
  let name ← match given.orElse fun _ => asName with
    | some name => some name
    | none => expressionSlice? expression
  let target := castTarget? expression
  let measure := target.bind CastTarget.measure
  return {
    name := String.ofList name
    typeName := String.ofList ((target.map fun t => trimChars t.name).getD [])
    precision := Measure.precision? measure
    scale := Measure.scale? measure
    declaration := String.ofList item }

theorem itemSlices?_eq (item : List Char) (given : Option (List Char)) :
    itemSlices? item given = some (viewColumn item given) := by
  rw [itemSlices?, viewColumn, aliasSlice?_eq]
  simp only [Option.bind_eq_bind, Option.bind_some, expressionSlice?_eq]
  cases given.orElse fun _ => (splitAlias item).2 <;> rfl

/-- The columns that the items of a select list declare, up to the first that stands for unknown ones. -/
def itemsSlices? (view : String) :
    List (List Char) → List (List Char) → Option (Except StatementError (List DeclaredColumn))
  | _, [] => some (.ok [])
  | given, item :: items =>
    if isStar item then some (.error (.unknownColumns view (String.ofList item)))
    else do
      let column ← itemSlices? item given.head?
      return (← itemsSlices? view given.tail items).map (column :: ·)

theorem itemsSlices?_eq (view : String) (given items : List (List Char)) :
    itemsSlices? view given items = some (viewColumns view given items) := by
  induction items generalizing given with
  | nil => rfl
  | cons item items ih =>
    rw [itemsSlices?, viewColumns]
    split
    · rfl
    · simp only [itemSlices?_eq, ih, Option.bind_eq_bind, Option.bind_some]
      cases viewColumns view given.tail items <;> rfl

/-- The view of a statement whose head has been read, the names it gives and the items of its select list cut out. -/
def viewSlices? (name : String) (cs : List Char) : Option (Except StatementError DeclaredObject) :=
  match takeSelection cs with
  | none => some (.error .notSelection)
  | some (names, query) => do
    let names ← listSlices? names
    let given ← names.mapM fun n => unquotedSlice? (trimChars n)
    let list ← beforeWordSlice? "FROM" query
    let items ← listSlices? list
    match ← itemsSlices? name given (items.map trimChars) with
    | .error error => return .error error
    | .ok columns =>
      if columns.isEmpty then return .error (.noColumns .view name)
      else return .ok ⟨name, .view, columns, false⟩

theorem viewSlices?_eq (name : String) (cs : List Char) : viewSlices? name cs = some (declaredView name cs) := by
  unfold viewSlices? declaredView
  cases takeSelection cs with
  | none => rfl
  | some r =>
    obtain ⟨names, query⟩ := r
    have given : (listItems names).mapM (fun n => unquotedSlice? (trimChars n))
        = some ((listItems names).map fun n => unquoted (trimChars n)) := by
      simp only [unquotedSlice?_eq]
      exact List.mapM_pure
    have before : beforeWordSlice? "FROM" query = some (beforeWord "from".toList false .top query) :=
      beforeWordSlice?_eq (by decide) (by decide) query
    simp only [listSlices?_eq, given, before, itemsSlices?_eq, Option.bind_eq_bind, Option.bind_some]
    cases viewColumns name ((listItems names).map fun n => unquoted (trimChars n))
        ((listItems (beforeWord "from".toList false .top query)).map trimChars) with
    | error error => rfl
    | ok columns => cases columns <;> rfl

/-! ## Statements -/

/-- What a creation statement declares, read by byte offsets: the name cut out of the head, and the rest of the text cut
off where the head ends. -/
def DeclaredObject.sliced? (source : String) : Option (Except StatementError DeclaredObject) :=
  match takeHead source.toList with
  | none => some (.error .notCreation)
  | some head => do
    let name ← lastNameSlice? head.name
    let rest ← sliceFrom? source.toList (utf8Len source.toList - utf8Len head.rest)
    match head.kind with
    | .table => tableSlices? (String.ofList (name.getD [])) rest
    | .view => viewSlices? (String.ofList (name.getD [])) rest

/-- Every text is accepted or refused, and every byte and every cut that the reading asks for is there. -/
theorem DeclaredObject.sliced_eq_ofStatement (source : String) : sliced? source = some (ofStatement source) := by
  unfold sliced? ofStatement
  cases read : takeHead source.toList with
  | none => rfl
  | some head =>
    obtain ⟨keywords, parts, text, blanks, cut, -⟩ := exists_of_takeHead read
    have rest : sliceFrom? source.toList (utf8Len source.toList - utf8Len head.rest) = some head.rest := by
      have size : utf8Len source.toList - utf8Len head.rest = utf8Len (keywords ++ (text ++ blanks)) := by
        rw [cut]
        simp only [String.utf8Len_append]
        omega
      have whole : source.toList = (keywords ++ (text ++ blanks)) ++ head.rest := by rw [cut]; simp
      rw [size, whole, sliceFrom?_append]
    simp only [lastNameSlice?_eq, rest, Option.bind_eq_bind, Option.bind_some]
    cases head.kind with
    | table => exact tableSlices?_eq _ _
    | view => exact viewSlices?_eq _ _

end SqlDialects.Schema
