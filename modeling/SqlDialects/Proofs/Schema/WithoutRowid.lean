import SqlDialects.Proofs.Schema.Elements
import SqlDialects.Proofs.Schema.Heads
import SqlDialects.Proofs.Schema.SelectList
import SqlDialects.Schema.Reader

/-!
# Where a statement says `WITHOUT ROWID`

Two readers ask whether a table has row ids. The one of columns looks for `WITHOUT ROWID` behind the column list, where
the option stands; the one of a catalog looks for the two words in the whole statement, whatever encloses them. The
words do not reach over a character that is neither a word character nor blank, so what the whole statement says is what
its parts say: the name of the table, the elements of the column list, and the text behind the list
(`isWithoutRowid_eq`).

So the two agree exactly if the table is without row ids or neither its name nor an element of its list contains the
words. Where they disagree, no column of the table is read as an identity (`DeclaredObject.isWithoutRowid_iff`).
-/

set_option autoImplicit false

namespace SqlDialects.Schema

open Text

/-! ## Words over the ends of texts -/

section Words

variable {c : Char} {ks cs tail blanks : List Char} {isInsideWord : Bool}

theorem dropLetters_append_cons (h : ∀ k ∈ ks, isReadAs k c = false) :
    dropLetters ks (cs ++ c :: tail) = (dropLetters ks cs).map (· ++ c :: tail) := by
  induction ks generalizing cs with
  | nil => rfl
  | cons k ks ih =>
    cases cs with
    | nil => exact if_neg (by simp [h k List.mem_cons_self])
    | cons a cs =>
      rw [List.cons_append, dropLetters, dropLetters, ih fun k' hk' => h k' (List.mem_cons_of_mem k hk')]
      split <;> rfl

theorem trimStart_append_cons (h : isBlank c = false) : trimStart (cs ++ c :: tail) = trimStart cs ++ c :: tail := by
  induction cs with
  | nil => exact trimStart_eq_self (forall_head?_cons h)
  | cons a cs ih =>
    cases ha : isBlank a with
    | true => simpa [trimStart, ha] using ih
    | false => simp [trimStart, ha]

theorem dropBlanks_append_cons (h : isBlank c = false) :
    dropBlanks (cs ++ c :: tail) = (dropBlanks cs).map (· ++ c :: tail) := by
  cases cs with
  | nil => exact if_neg (by simp [h])
  | cons a cs =>
    rw [List.cons_append, dropBlanks, dropBlanks, trimStart_append_cons h]
    split <;> rfl

theorem not_isReadAs (h : isWordChar c = false) (hk : ks.all isPlainWordChar = true) :
    ∀ k ∈ ks, isReadAs k c = false := by
  intro k mem
  by_contra reads
  rw [isWordChar_of_isReadAs (List.all_eq_true.1 hk k mem) (by simpa using reads)] at h
  cases h

theorem beginsWithoutRowid_append_cons (h : isWordChar c = false) (hb : isBlank c = false) :
    beginsWithoutRowid (cs ++ c :: tail) = beginsWithoutRowid cs := by
  unfold beginsWithoutRowid dropWord dropKeyword
  rw [dropLetters_append_cons (not_isReadAs h (by decide))]
  cases dropLetters "without".toList cs with
  | none => rfl
  | some behind =>
    rw [Option.map_some, Option.bind_some, Option.bind_some, dropBlanks_append_cons hb]
    cases dropBlanks behind with
    | none => rfl
    | some second =>
      rw [Option.map_some, Option.bind_some, Option.bind_some,
        dropLetters_append_cons (not_isReadAs h (by decide))]
      cases dropLetters "rowid".toList second with
      | none => rfl
      | some rest =>
        cases rest with
        | nil => simp [h]
        | cons => rfl

theorem beginsWithoutRowid_cons (h : isReadAs 'w' c = false) : beginsWithoutRowid (c :: cs) = false := by
  have none : dropKeyword "without" (c :: cs) = none := by
    show (if isReadAs 'w' c then _ else none) = none
    rw [h]
    rfl
  rw [beginsWithoutRowid, dropWord, none]
  rfl

/-- The words do not reach over a character that is neither a word character nor blank. -/
theorem hasWithoutRowid_append_cons (h : isWordChar c = false) (hb : isBlank c = false) :
    hasWithoutRowid isInsideWord (cs ++ c :: tail)
      = (hasWithoutRowid isInsideWord cs || hasWithoutRowid false tail) := by
  induction cs generalizing isInsideWord with
  | nil =>
    have none := not_isReadAs h (by decide) 'w' (List.mem_singleton_self 'w')
    rw [List.nil_append, hasWithoutRowid, hasWithoutRowid, h, beginsWithoutRowid_cons none, Bool.and_false]
  | cons a cs ih =>
    have begins : beginsWithoutRowid (a :: (cs ++ c :: tail)) = beginsWithoutRowid (a :: cs) :=
      @beginsWithoutRowid_append_cons c (a :: cs) tail h hb
    rw [List.cons_append, hasWithoutRowid, hasWithoutRowid, begins, ih, Bool.or_assoc]

/-! ### Blanks -/

theorem isReadAs_of_isBlank {k : Char} (hk : isPlainWordChar k = true) (h : isBlank c = true) :
    isReadAs k c = false :=
  not_isReadAs (not_isWordChar_of_isBlank h) (by simp [hk]) k (List.mem_singleton_self k)

theorem dropLetters_append_blanks (hk : ks.all isPlainWordChar = true) (h : blanks.all isBlank = true) :
    dropLetters ks (cs ++ blanks) = (dropLetters ks cs).map (· ++ blanks) := by
  cases blanks with
  | nil => simp
  | cons b blanks =>
    have hb : isBlank b = true := List.all_eq_true.1 h b List.mem_cons_self
    exact dropLetters_append_cons fun k mem => isReadAs_of_isBlank (List.all_eq_true.1 hk k mem) hb

theorem trimStart_blanks (h : blanks.all isBlank = true) : trimStart blanks = [] :=
  trimStart_eq_iff.2 ⟨blanks, (List.append_nil blanks).symm, h, by simp⟩

theorem dropLetters_trimStart_append_blanks (hn : ks ≠ []) (hk : ks.all isPlainWordChar = true)
    (h : blanks.all isBlank = true) :
    dropLetters ks (trimStart (cs ++ blanks)) = (dropLetters ks (trimStart cs)).map (· ++ blanks) := by
  induction cs with
  | nil =>
    obtain ⟨k, ks, rfl⟩ := List.exists_cons_of_ne_nil hn
    rw [List.nil_append, trimStart_blanks h]
    rfl
  | cons a cs ih =>
    cases ha : isBlank a with
    | true => simpa [trimStart, ha] using ih
    | false =>
      rw [List.cons_append, trimStart_eq_self (forall_head?_cons ha), trimStart_eq_self (forall_head?_cons ha)]
      exact @dropLetters_append_blanks ks (a :: cs) blanks hk h

theorem dropBlanks_append_blanks (hn : ks ≠ []) (hk : ks.all isPlainWordChar = true) (h : blanks.all isBlank = true) :
    (dropBlanks (cs ++ blanks)).bind (dropLetters ks)
      = ((dropBlanks cs).bind (dropLetters ks)).map (· ++ blanks) := by
  have behind := fun cs => @dropLetters_trimStart_append_blanks ks cs blanks hn hk h
  cases cs with
  | cons a cs =>
    rw [List.cons_append, dropBlanks, dropBlanks]
    split
    · exact behind cs
    · rfl
  | nil =>
    obtain ⟨k, ks, rfl⟩ := List.exists_cons_of_ne_nil hn
    cases blanks with
    | nil => rfl
    | cons b blanks =>
      rw [List.all_cons, Bool.and_eq_true] at h
      have none : dropBlanks (b :: blanks) = some [] := by rw [dropBlanks, if_pos h.1, trimStart_blanks h.2]
      rw [List.nil_append, none]
      rfl

theorem beginsWithoutRowid_append_blanks (h : blanks.all isBlank = true) :
    beginsWithoutRowid (cs ++ blanks) = beginsWithoutRowid cs := by
  unfold beginsWithoutRowid dropWord
  have first : dropKeyword "without" (cs ++ blanks) = (dropKeyword "without" cs).map (· ++ blanks) :=
    dropLetters_append_blanks (by decide) h
  rw [first]
  cases dropKeyword "without" cs with
  | none => rfl
  | some behind =>
    have second : (dropBlanks (behind ++ blanks)).bind (dropKeyword "rowid")
        = ((dropBlanks behind).bind (dropKeyword "rowid")).map (· ++ blanks) :=
      dropBlanks_append_blanks (by decide) (by decide) h
    rw [Option.map_some, Option.bind_some, Option.bind_some, second]
    cases (dropBlanks behind).bind (dropKeyword "rowid") with
    | none => rfl
    | some rest =>
      cases rest with
      | cons => rfl
      | nil =>
        cases blanks with
        | nil => rfl
        | cons b blanks =>
          have hb : isBlank b = true := List.all_eq_true.1 h b List.mem_cons_self
          simp [not_isWordChar_of_isBlank hb]

theorem hasWithoutRowid_append_blanks (h : blanks.all isBlank = true) :
    hasWithoutRowid isInsideWord (cs ++ blanks) = hasWithoutRowid isInsideWord cs := by
  induction cs generalizing isInsideWord with
  | cons a cs ih =>
    have begins : beginsWithoutRowid (a :: (cs ++ blanks)) = beginsWithoutRowid (a :: cs) :=
      @beginsWithoutRowid_append_blanks (a :: cs) blanks h
    rw [List.cons_append, hasWithoutRowid, hasWithoutRowid, begins, ih]
  | nil =>
    rw [List.nil_append, hasWithoutRowid]
    induction blanks generalizing isInsideWord with
    | nil => rfl
    | cons b blanks ih =>
      rw [List.all_cons, Bool.and_eq_true] at h
      rw [hasWithoutRowid, ih h.2, beginsWithoutRowid_cons (isReadAs_of_isBlank (by decide) h.1), Bool.and_false]
      rfl

/-- Characters that cannot begin the words, the last of them no word character, do not matter before them. -/
theorem hasWithoutRowid_append_of_forall (h : ∀ c ∈ cs, isReadAs 'w' c = false)
    (ends : endsInWord isWordChar isInsideWord cs = false) :
    hasWithoutRowid isInsideWord (cs ++ tail) = hasWithoutRowid false tail := by
  induction cs generalizing isInsideWord with
  | nil => rw [List.nil_append, show isInsideWord = false from ends]
  | cons a cs ih =>
    rw [List.cons_append, hasWithoutRowid, beginsWithoutRowid_cons (h a List.mem_cons_self), Bool.and_false,
      Bool.false_or]
    exact ih (fun c hc => h c (List.mem_cons_of_mem a hc)) ends

theorem endsInWord_blanks (h : blanks.all isBlank = true) : endsInWord isWordChar false blanks = false := by
  rcases List.eq_nil_or_concat' blanks with rfl | ⟨before, b, rfl⟩
  · rfl
  · rw [endsInWord_concat]
    exact not_isWordChar_of_isBlank (List.all_eq_true.1 h b (by simp))

theorem hasWithoutRowid_blanks_append (h : blanks.all isBlank = true) :
    hasWithoutRowid false (blanks ++ cs) = hasWithoutRowid false cs :=
  hasWithoutRowid_append_of_forall (fun b hb => isReadAs_of_isBlank (by decide) (List.all_eq_true.1 h b hb))
    (endsInWord_blanks h)

theorem hasWithoutRowid_trimChars (cs : List Char) :
    hasWithoutRowid false (trimChars cs) = hasWithoutRowid false cs := by
  obtain ⟨before, hcs, blank, -⟩ := trimStart_eq_iff.1 (rfl : trimStart cs = trimStart cs)
  obtain ⟨behind, hrev, blank', -⟩ := trimStart_eq_iff.1 (rfl : trimStart (trimStart cs).reverse = _)
  have start : trimStart cs = trimChars cs ++ behind.reverse := by
    rw [← List.reverse_inj, List.reverse_append, List.reverse_reverse, trimChars, trimEnd, List.reverse_reverse]
    exact hrev
  calc hasWithoutRowid false (trimChars cs)
      = hasWithoutRowid false (trimChars cs ++ behind.reverse) :=
        (hasWithoutRowid_append_blanks (by simpa using blank')).symm
    _ = hasWithoutRowid false (before ++ trimStart cs) := by rw [← start, hasWithoutRowid_blanks_append blank]
    _ = hasWithoutRowid false cs := by rw [← hcs]

end Words

/-! ## Parts of a statement -/

section Parts

variable {words : List String} {keywords cs tail : List Char} {parts : List NamePart}

theorem not_isReadAs_w {k c : Char} (reads : isReadAs k c = true) (ne : k ≠ 'w') : isReadAs 'w' c = false := by
  have other : lowerChar c ≠ 'w' := by
    rw [isReadAs, Bool.or_eq_true, Bool.or_eq_true, Bool.and_eq_true, Bool.and_eq_true, beq_iff_eq, beq_iff_eq,
      beq_iff_eq, beq_iff_eq, beq_iff_eq] at reads
    rcases reads with (rfl | ⟨-, rfl⟩) | ⟨-, rfl⟩
    · exact ne
    · decide
    · decide
  simp [isReadAs, other]

/-- Keywords without the letter that the words begin with do not matter. -/
theorem AreKeywords.hasWithoutRowid_append (h : AreKeywords words keywords)
    (hw : words.all (fun word => !word.toList.contains 'w') = true) :
    hasWithoutRowid false (keywords ++ tail) = hasWithoutRowid false tail := by
  refine hasWithoutRowid_append_of_forall (fun c hc => ?_) ?_
  · rcases h.letters c hc with blank | ⟨word, mem, k, hk, reads⟩
    · exact isReadAs_of_isBlank (by decide) blank
    · have ne : k ≠ 'w' := by
        rintro rfl
        have free := List.all_eq_true.1 hw word mem
        simp [hk] at free
      exact not_isReadAs_w reads ne
  · rcases List.eq_nil_or_concat' keywords with rfl | ⟨before, c, rfl⟩
    · rfl
    · rw [endsInWord_concat]
      exact not_isWordChar_of_isBlank (h.ends c List.getLast?_concat)

/-- A dotted name contains the words if one of its parts does. -/
theorem IsDotted.hasWithoutRowid_eq (h : IsDotted parts cs) :
    hasWithoutRowid false cs = parts.any fun p => hasWithoutRowid false p.written := by
  induction h with
  | last p => rw [List.any_cons, List.any_nil, Bool.or_false]
  | @cons p parts cs before behind blank blank' _ ih =>
    rw [← List.append_assoc, hasWithoutRowid_append_cons (by decide) (by decide), hasWithoutRowid_append_blanks blank,
      hasWithoutRowid_blanks_append blank', ih, List.any_cons]

/-- A text is what its parts are, with the separators between them. -/
theorem intercalate_cutAt (sep : Char) (s : Nesting) (cs : List Char) : [sep].intercalate (cutAt sep s cs) = cs := by
  induction cs generalizing s with
  | nil => rfl
  | cons c cs ih =>
    rw [cutAt]
    split
    · next cuts =>
      rw [Bool.and_eq_true, beq_iff_eq] at cuts
      have behind := ih s
      obtain ⟨part, parts, some⟩ := List.exists_cons_of_ne_nil (cutAt_ne_nil sep s cs)
      rw [some] at behind ⊢
      rw [List.intercalate_cons_cons, behind, cuts.2]
      rfl
    · have behind := ih (s.next .quotesAndBrackets c)
      split
      · next none => exact absurd none (cutAt_ne_nil _ _ _)
      · next part parts some =>
        rw [some, intercalate_cons] at behind
        rw [intercalate_cons, List.cons_append, behind]

/-- A list contains the words if one of its items does. -/
theorem hasWithoutRowid_listItems (cs : List Char) :
    hasWithoutRowid false cs = ((listItems cs).map trimChars).any (hasWithoutRowid false) := by
  have blank : ∀ part : List Char, part.all isBlank = true → hasWithoutRowid false part = false := by
    intro part h
    rw [← List.nil_append part, hasWithoutRowid_append_blanks h]
    rfl
  have items : ((listItems cs).map trimChars).any (hasWithoutRowid false)
      = (cutAt ',' .top cs).any (hasWithoutRowid false) := by
    rw [List.any_map, listItems, List.any_filter]
    congr 1
    funext part
    rw [Function.comp_apply, hasWithoutRowid_trimChars]
    cases h : part.all isBlank with
    | true => rw [blank part h, Bool.and_false]
    | false => rfl
  have separated : ∀ (part : List Char) (parts : List (List Char)),
      hasWithoutRowid false (part ++ parts.flatMap (',' :: ·)) = (part :: parts).any (hasWithoutRowid false) := by
    intro part parts
    induction parts generalizing part with
    | nil => rw [List.flatMap_nil, List.append_nil, List.any_cons, List.any_nil, Bool.or_false]
    | cons part' parts ih =>
      rw [List.flatMap_cons, List.cons_append, hasWithoutRowid_append_cons (by decide) (by decide), ih, List.any_cons,
        List.any_cons, List.any_cons]
  obtain ⟨part, parts, cut⟩ := List.exists_cons_of_ne_nil (cutAt_ne_nil ',' .top cs)
  have whole := intercalate_cutAt ',' .top cs
  rw [cut, intercalate_cons] at whole
  rw [items, cut, ← separated]
  exact congrArg _ whole.symm

/-- A statement contains the words if the name of its table, an element of its list, or the text behind the list
does. -/
theorem isWithoutRowid_eq {source : String} {head : Head} {o : DeclaredObject}
    (h : DeclaredObject.ofStatement source = .ok o) (hk : o.kind = .table) (hh : takeHead source.toList = some head) :
    isWithoutRowid source
      = (hasWithoutRowid false head.name || (columnElements head.rest).any (hasWithoutRowid false)
        || o.withoutRowid) := by
  obtain ⟨head', read, kind, -, table, -⟩ := exists_of_ofStatement h
  obtain rfl : head = head' := Option.some.inj (hh.symm.trans read)
  obtain ⟨inside, behind, rest, elements, -, same⟩ := exists_of_declaredTable (table hk)
  obtain ⟨keywords, parts, text, blanks, cut, words, kept, written, blank⟩ := exists_of_takeHead read
  have plain : (headWords head.kind).all (fun word => !word.toList.contains 'w') = true := by
    rw [kind, hk]
    decide
  have option : o.withoutRowid = hasWithoutRowid false behind := congrArg DeclaredObject.withoutRowid same
  rw [isWithoutRowid, cut, words.hasWithoutRowid_append plain, rest, ← List.append_assoc text,
    hasWithoutRowid_append_cons (by decide) (by decide), hasWithoutRowid_append_blanks blank,
    hasWithoutRowid_append_cons (by decide) (by decide), written.hasWithoutRowid_eq, ← kept.hasWithoutRowid_eq,
    hasWithoutRowid_listItems inside, ← elements, option, rest, Bool.or_assoc]

end Parts

/-! ## Identities -/

section Identities

variable {α β : Type} {task : ReadTask} {source : String} {p p' : Progress}

theorem run_bind_eq_ok {x : Reading α} {f : α → Reading β} {b : β} (h : (x >>= f).run p = (.ok b, p')) :
    ∃ a p₁, x.run p = (.ok a, p₁) ∧ (f a).run p₁ = (.ok b, p') := by
  have bind : (x >>= f).run p
      = match x.run p with
        | (.ok a, p₁) => (f a).run p₁
        | (.error e, p₁) => (.error e, p₁) := by
    simp only [Bind.bind, ExceptT.bind, ExceptT.run, ExceptT.mk, StateT.bind, ExceptT.bindCont]
    rcases (x : StateM Progress (Except ReadError α)) p with ⟨_ | _, _⟩ <;> rfl
  rw [bind] at h
  split at h
  · next a p₁ read => exact ⟨a, p₁, read, h⟩
  · cases h

theorem eq_of_ask {query : CatalogQuery} {answer a : α} (h : (task.ask query answer).run p = (.ok a, p')) :
    a = answer := by
  unfold ReadTask.ask at h
  obtain ⟨_, p₁, _, h⟩ := run_bind_eq_ok h
  split at h
  · cases h
    rfl
  · obtain ⟨progress, p₂, _, h⟩ := run_bind_eq_ok h
    simp only at h
    split at h
    · obtain ⟨_, p₃, _, h⟩ := run_bind_eq_ok h
      cases h
      rfl
    · cases h
  · cases h

/-- No key of a table whose statement contains the words is read as an identity. -/
theorem facts_of_answers {a : ReadTask.Answers} (read : task.answers.run p = (.ok a, p'))
    (hs : task.catalog.source = some source) (h : isWithoutRowid source = true) :
    a.facts.withoutRowid = true ∨ a.columns.any CatalogColumn.isKey = false := by
  unfold ReadTask.answers at read
  obtain ⟨found, p₁, asked, read⟩ := run_bind_eq_ok read
  rw [eq_of_ask asked, hs] at read
  obtain ⟨columns, p₂, asked, read⟩ := run_bind_eq_ok read
  simp only at read
  split at read
  · rw [ReadTask.keyFacts, if_pos h] at read
    cases read
    exact .inl rfl
  · next none =>
    cases read
    exact .inr (by simpa using none)

/-- No column of a table whose statement contains the words is read as an identity. -/
theorem TableReader.identity?_eq_none {r : TableReader} {catalog : Catalog} {table : String} {t : TableDefinition}
    (hs : catalog.source = some source) (h : isWithoutRowid source = true)
    (read : (r.read catalog table).table = .ok t) : t.identity? = none := by
  unfold TableReader.read at read
  simp only at read
  split at read
  · cases read
  · next a p' answered =>
    cases read
    have facts := facts_of_answers answered hs h
    refine List.find?_eq_none.2 fun c hc identity => ?_
    obtain ⟨i, hi, rfl⟩ := List.mem_mapIdx.1 hc
    replace identity : a.isIdentity _ a.columns[i] = true := identity
    rw [ReadTask.Answers.isIdentity, Bool.and_eq_true, Bool.and_eq_true, Bool.not_eq_true'] at identity
    rcases facts with without | none
    · rw [without] at identity
      cases identity.1.2
    · exact List.any_eq_false.1 none _ (List.getElem_mem hi) identity.1.1

/-- The two readers agree exactly if the table is without row ids or neither its name nor an element of its column list
contains the words. Where the words are found, no column is read as an identity. -/
theorem DeclaredObject.isWithoutRowid_iff {head : Head} {o : DeclaredObject} (h : ofStatement source = .ok o)
    (hk : o.kind = .table) (hh : takeHead source.toList = some head) :
    (isWithoutRowid source = o.withoutRowid ↔
        o.withoutRowid = true ∨
          hasWithoutRowid false head.name = false ∧ ∀ e ∈ columnElements head.rest, hasWithoutRowid false e = false) ∧
      ∀ (r : TableReader) (catalog : Catalog) (table : String) (t : TableDefinition), catalog.source = some source →
        isWithoutRowid source = true → (r.read catalog table).table = .ok t → t.identity? = none := by
  refine ⟨?_, fun r catalog table t hs without read => TableReader.identity?_eq_none hs without read⟩
  rw [isWithoutRowid_eq h hk hh]
  cases o.withoutRowid with
  | true => simp
  | false => simp [List.any_eq_false]

end Identities

/-! ## Words apart and words enclosed -/

namespace RowidWords

def apart : String := "CREATE TABLE \"without\" (rowid INT DEFAULT 'WITHOUT_ROWID', CHECK (rowid <> 'without, rowid'))"

def head : Head :=
  ⟨.table, "\"without\"".toList, "(rowid INT DEFAULT 'WITHOUT_ROWID', CHECK (rowid <> 'without, rowid'))".toList⟩

def table : DeclaredObject :=
  ⟨"without", .table, [⟨"rowid", "INT", none, none, "rowid INT DEFAULT 'WITHOUT_ROWID'"⟩], false⟩

/-- The readers agree where something stands between the words. -/
theorem apart_agrees :
    DeclaredObject.ofStatement apart = .ok table ∧ takeHead apart.toList = some head ∧
      isWithoutRowid apart = table.withoutRowid := by
  have declares : DeclaredObject.ofStatement apart = .ok table := by decide +kernel
  have begins : takeHead apart.toList = some head := by decide +kernel
  exact ⟨declares, begins,
    (DeclaredObject.isWithoutRowid_iff declares rfl begins).1.2 (.inr ⟨by decide +kernel, by decide +kernel⟩)⟩

def counted (default : String) : String :=
  "CREATE TABLE t (id INTEGER PRIMARY KEY AUTOINCREMENT, note TEXT DEFAULT '" ++ default ++ "')"

/-- A table whose first column has been counted up. -/
def catalog (default : String) : Catalog where
  source := some (counted default)
  columns := [⟨"id", "INTEGER", false, none, 1, 0⟩, ⟨"note", "TEXT", false, some ("'" ++ default ++ "'"), 0, 0⟩]
  sequenceExists := true
  sequenceEntry := true
  isEmpty := false
  latency := fun _ => some 0

/-- The name of the identity column that is read. -/
def identity (default : String) : Option String :=
  (((TableReader.new TableReader.defaultTimeout).read (catalog default) "t").table.toOption.bind
    TableDefinition.identity?).map ColumnDefinition.name

/-- A default that contains the words costs the table its identity. -/
theorem identity_denied :
    (∃ o, DeclaredObject.ofStatement (counted "WITHOUT ROWID") = .ok o ∧ o.kind = .table ∧ o.withoutRowid = false) ∧
      isWithoutRowid (counted "WITHOUT ROWID") = true ∧ identity "WITHOUT ROWID" = none ∧
      identity "WITH ROWID" = some "id" := by
  refine ⟨⟨⟨"t", .table, [⟨"id", "INTEGER", none, none, "id INTEGER PRIMARY KEY AUTOINCREMENT"⟩,
    ⟨"note", "TEXT", none, none, "note TEXT DEFAULT 'WITHOUT ROWID'"⟩], false⟩, ?_, rfl, rfl⟩, ?_, ?_, ?_⟩
  all_goals decide +kernel

end RowidWords

end SqlDialects.Schema
