import SqlDialects.Proofs.Schema.Names
import SqlDialects.Schema.Reader

/-!
# Where a definition says `AUTOINCREMENT`

The keyword `AUTOINCREMENT` is a token of its own, outside quotes and comments (`saysAutoincrement`). What is asked of a
definition is less: that it has the plain word, wherever that stands (`mentionsAutoincrement`). So it may also stand
between quotes, in a comment, or in a longer name (`hidesAutoincrement`), and nowhere else, since quotes, comments and
names do not cut words apart (`mentionsAutoincrement_eq`).

A reader of tables asks the definition of the first column of a name, if there is one. It is right about that column
exactly if the definition says the word wherever it hides it (`DeclaredObject.countsUp_iff`).
-/

set_option autoImplicit false

namespace SqlDialects.Schema

open Text

/-! ## Quotes and comments -/

/-- Where a reader of tokens stands. -/
inductive Region where
  /-- Outside quotes and comments. -/
  | bare
  /-- Behind a dash outside, with which a comment may begin. -/
  | dash
  /-- Behind a slash outside, with which a comment may begin. -/
  | slash
  | single
  | double
  | back
  | brackets
  /-- In a comment that ends with the line. -/
  | line
  /-- In a comment between slashes and asterisks. -/
  | block
  /-- Behind an asterisk in such a comment, with which it may end. -/
  | asterisk
  deriving DecidableEq

namespace Region

def isBare : Region → Bool
  | bare | dash | slash => true
  | single | double | back | brackets | line | block | asterisk => false

/-- Where the reader stands behind a character with which something may begin. -/
def begins : Char → Region
  | '-' => dash
  | '/' => slash
  | '\'' => single
  | '"' => double
  | '\x60' => back
  | '[' => brackets
  | _ => bare

/-- Where the reader stands after one more character. -/
def next : Region → Char → Region
  | bare, c => begins c
  | dash, c => if c = '-' then line else begins c
  | slash, c => if c = '*' then block else begins c
  | single, c => if c = '\'' then bare else single
  | double, c => if c = '"' then bare else double
  | back, c => if c = '\x60' then bare else back
  | brackets, c => if c = ']' then bare else brackets
  | line, c => if c = '\n' then bare else line
  | block, c => if c = '*' then asterisk else block
  | asterisk, c => if c = '/' then bare else if c = '*' then asterisk else block

end Region

/-- A text with blanks in place of all that quotes or comments enclose. -/
def bareText (s : Region) : List Char → List Char
  | [] => []
  | c :: cs => (if s.isBare && (s.next c).isBare then c else ' ') :: bareText (s.next c) cs

/-- A text with blanks in place of all that neither quotes nor comments enclose. -/
def enclosedText (s : Region) : List Char → List Char
  | [] => []
  | c :: cs => (if s.isBare && (s.next c).isBare then ' ' else c) :: enclosedText (s.next c) cs

/-- Whether `AUTOINCREMENT` is one of the names and keywords that stand in a text outside quotes and comments. -/
def saysAutoincrement (text : List Char) : Bool :=
  (runs isNameChar (bareText .bare text)).any (isWordOf ["AUTOINCREMENT"])

/-- Whether a text has the word between quotes, in a comment, or in a longer name. -/
def hidesAutoincrement (text : List Char) : Bool :=
  (plainWords (enclosedText .bare text)).any (isWordOf ["AUTOINCREMENT"])
    || (runs isNameChar (bareText .bare text)).any fun name =>
      !isWordOf ["AUTOINCREMENT"] name && (plainWords name).any (isWordOf ["AUTOINCREMENT"])

/-! ## Words -/

section Words

variable {c : Char} {w : List Char}

/-- Where quotes or comments begin or end there is no word. -/
theorem Region.isBare_next (s : Region) (h : isPlainWordChar c = true) : (s.next c).isBare = s.isBare := by
  have other : ∀ a, isPlainWordChar a = false → c ≠ a := fun a ha => ne_of_apply_ne isPlainWordChar (by simp [h, ha])
  have inside : begins c = bare := by
    unfold begins
    split
    all_goals first | rfl | exact absurd h (by decide)
  cases s <;> simp [next, inside, isBare, other '-' (by decide), other '*' (by decide), other '\'' (by decide),
    other '"' (by decide), other '\x60' (by decide), other ']' (by decide), other '\n' (by decide),
    other '/' (by decide)]

/-- A text has the words that stand outside quotes and comments and those that stand inside. The characters before the
text are on the side where its reader begins. -/
theorem mem_plainWords_iff (s : Region) (before cs : List Char) :
    w ∈ plainWords (before ++ cs) ↔
      w ∈ plainWords ((if s.isBare then before else []) ++ bareText s cs) ∨
        w ∈ plainWords ((if s.isBare then [] else before) ++ enclosedText s cs) := by
  have blank : isPlainWordChar ' ' = false := by decide
  induction cs generalizing s before with
  | nil => cases s.isBare <;> simp [bareText, enclosedText, show plainWords [] = [] from rfl]
  | cons c cs ih =>
    cases hc : isPlainWordChar c with
    | true =>
      -- The character goes on with what stands before it, on the same side.
      have behind := ih (s.next c) (before ++ [c])
      have stays := s.isBare_next hc
      rw [bareText, enclosedText, stays]
      rw [stays] at behind
      cases side : s.isBare with
      | true => simpa [side, plainWords_cons_of_other blank] using behind
      | false => simpa [side, plainWords_cons_of_other blank] using behind
    | false =>
      -- The words before the character end here.
      have behind : w ∈ plainWords cs ↔
          w ∈ plainWords (bareText (s.next c) cs) ∨ w ∈ plainWords (enclosedText (s.next c) cs) := by
        simpa using ih (s.next c) []
      have ends : ∀ b : Bool,
          isPlainWordChar (if b then c else ' ') = false ∧ isPlainWordChar (if b then ' ' else c) = false
        | true => ⟨hc, blank⟩
        | false => ⟨blank, hc⟩
      obtain ⟨outside, inside⟩ := ends (s.isBare && (s.next c).isBare)
      rw [bareText, enclosedText, plainWords_append_cons hc, plainWords_append_cons outside,
        plainWords_append_cons inside, List.mem_append, List.mem_append, List.mem_append, behind]
      cases s.isBare with
      | true => simp [show plainWords [] = [] from rfl, or_assoc]
      | false => simp [show plainWords [] = [] from rfl, or_left_comm]

theorem plainWords_of_isWordOf {words : List String}
    (plain : words.all (fun k => k != "" && k.toList.all fun c => isPlainWordChar (lowerChar c)) = true)
    (h : isWordOf words w = true) : plainWords w = [w] := by
  obtain ⟨full, word⟩ := isPlainWordChar_of_isWordOf plain h
  have run : plainWords (w ++ []) = w :: plainWords [] := plainWords_run full word (by simp)
  rwa [List.append_nil] at run

/-- A text mentions `AUTOINCREMENT` if it says it or hides it. -/
theorem mentionsAutoincrement_eq (text : List Char) :
    mentionsAutoincrement (String.ofList text) = (saysAutoincrement text || hidesAutoincrement text) := by
  have same : ∀ w, sameIgnoringCase (String.ofList w) "AUTOINCREMENT" = isWordOf ["AUTOINCREMENT"] w := by
    intro w
    rw [isWordOf, isAnyOf, List.any_cons, List.any_nil, Bool.or_false, sameIgnoringCase, sameIgnoringCase, BEq.comm]
  have mentions : mentionsAutoincrement (String.ofList text) = (plainWords text).any (isWordOf ["AUTOINCREMENT"]) := by
    rw [mentionsAutoincrement, String.toList_ofList]
    exact congrArg _ (funext same)
  have sides : (plainWords text).any (isWordOf ["AUTOINCREMENT"])
      = ((plainWords (bareText .bare text)).any (isWordOf ["AUTOINCREMENT"])
        || (plainWords (enclosedText .bare text)).any (isWordOf ["AUTOINCREMENT"])) := by
    have both := fun w => @mem_plainWords_iff w .bare [] text
    rw [Bool.eq_iff_iff, Bool.or_eq_true, List.any_eq_true, List.any_eq_true, List.any_eq_true, ← exists_or]
    refine exists_congr fun w => ?_
    rw [← or_and_right]
    exact and_congr_left' (both w)
  have names : (plainWords (bareText .bare text)).any (isWordOf ["AUTOINCREMENT"])
      = (saysAutoincrement text || (runs isNameChar (bareText .bare text)).any fun name =>
        !isWordOf ["AUTOINCREMENT"] name && (plainWords name).any (isWordOf ["AUTOINCREMENT"])) := by
    have word : ∀ c, isPlainWordChar c = true → isNameChar c = true := by
      intro c hc
      rw [isNameChar, isWordChar_of_isPlainWordChar hc]
      rfl
    have cut : plainWords (bareText .bare text) = (runs isNameChar (bareText .bare text)).flatMap plainWords :=
      runs_eq_flatMap word _
    have one : ∀ name, (plainWords name).any (isWordOf ["AUTOINCREMENT"])
        = (isWordOf ["AUTOINCREMENT"] name
          || !isWordOf ["AUTOINCREMENT"] name && (plainWords name).any (isWordOf ["AUTOINCREMENT"])) := by
      intro name
      cases same : isWordOf ["AUTOINCREMENT"] name with
      | true =>
        rw [plainWords_of_isWordOf (by decide) same, List.any_cons, same]
        rfl
      | false => rfl
    rw [cut, List.any_flatMap, saysAutoincrement, Bool.eq_iff_iff, Bool.or_eq_true, List.any_eq_true, List.any_eq_true,
      List.any_eq_true, ← exists_or]
    refine exists_congr fun name => ?_
    rw [← and_or_left, ← Bool.or_eq_true, ← one name]
  rw [mentions, sides, names, hidesAutoincrement, Bool.or_assoc, Bool.or_comm (List.any (plainWords _) _)]

end Words

/-! ## Columns -/

/-- Whether an element of a column list is read as a column of a name, in either case. -/
def isReadUnder (name : String) (e : List Char) : Bool :=
  !isTableConstraint e && (leadingName e).any fun r => sameIgnoringCase (String.ofList r.1) name

section Columns

variable {source table name : String} {rest : List Char} {head : Head} {o : DeclaredObject}

theorem find?_of_forall₂ {es : List (List Char)} {columns : List DeclaredColumn}
    (h : List.Forall₂ (fun e c => columnDefinition e = .ok c) es columns) :
    (columns.find? fun c => sameIgnoringCase c.name name).map DeclaredColumn.declaration
      = (es.find? fun e => (leadingName e).any fun r => sameIgnoringCase (String.ofList r.1) name).map
        String.ofList := by
  induction h with
  | nil => rfl
  | @cons e c es columns declares _ ih =>
    obtain ⟨name', left, read, named, declaration⟩ := exists_of_columnDefinition declares
    rw [List.find?_cons, List.find?_cons, read, named, Option.any_some]
    cases sameIgnoringCase (String.ofList name') name with
    | true => rw [Option.map_some, Option.map_some, declaration]
    | false => exact ih

/-- The column of a name is that of the first element that is read under the name. -/
theorem column?_eq (h : declaredTable table rest = .ok o) :
    (o.column? name).map DeclaredColumn.declaration
      = ((columnElements rest).find? (isReadUnder name)).map String.ofList := by
  rw [DeclaredObject.column?, find?_of_forall₂ (forall₂_of_mapM (mapM_of_declaredTable h)), List.find?_filter]
  simp only [Bool.decide_and, Bool.decide_eq_true]
  rfl

/-- Whether a column counts up is asked of the first element that is read under its name. About that element the answer
is right exactly if it says `AUTOINCREMENT` wherever it hides it, about another one exactly if that is also the answer
for the other; and where no element is read under the name the answer is no. -/
theorem DeclaredObject.countsUp_iff (h : ofStatement source = .ok o) (hk : o.kind = .table)
    (hh : takeHead source.toList = some head) (name : String) :
    (∀ e ∈ columnElements head.rest, beginsConstraint e = false →
      ((countsUp source (some o) name = true ↔ saysAutoincrement e = true) ↔
        match (columnElements head.rest).find? (isReadUnder name) with
        | some e' =>
          if e' = e then hidesAutoincrement e = true → saysAutoincrement e = true
          else (saysAutoincrement e' || hidesAutoincrement e') = saysAutoincrement e
        | none => saysAutoincrement e = false)) ∧
    ∀ (a : ReadTask.Answers) (c : CatalogColumn), a.source = source → c.name = name → a.facts.asksStatement c = true →
      a.isIdentity (some o) c = countsUp source (some o) name := by
  obtain ⟨head', read, -, -, table, -⟩ := exists_of_ofStatement h
  obtain rfl : head = head' := Option.some.inj (hh.symm.trans read)
  have asked : countsUp source (some o) name = ((columnElements head.rest).find? (isReadUnder name)).any
      fun e => saysAutoincrement e || hidesAutoincrement e := by
    have column : (o.column? name).map DeclaredColumn.declaration
        = ((columnElements head.rest).find? (isReadUnder name)).map String.ofList := column?_eq (table hk)
    have found := congrArg (Option.any mentionsAutoincrement) column
    rw [Option.any_map, Option.any_map] at found
    exact found.trans (congrArg (Option.any · _) (funext mentionsAutoincrement_eq))
  refine ⟨fun e _ _ => ?_, ?_⟩
  · rw [asked, ← Bool.eq_iff_iff]
    cases (columnElements head.rest).find? (isReadUnder name) with
    | none => exact eq_comm
    | some e' =>
      simp only [Option.any_some]
      split
      · next same =>
        rw [same]
        cases saysAutoincrement e <;> cases hidesAutoincrement e <;> decide
      · exact Iff.rfl
  · rintro a c rfl rfl asks
    rw [ReadTask.KeyFacts.asksStatement, Bool.and_eq_true, Bool.and_eq_true, Bool.and_eq_true] at asks
    obtain ⟨⟨⟨key, rowid⟩, uncounted⟩, empty⟩ := asks
    rw [Bool.not_eq_true'] at uncounted
    rw [ReadTask.Answers.isIdentity, key, rowid, uncounted, empty]
    rfl

end Columns

/-! ## Keywords and other words -/

namespace CountedKeys

def source : String :=
  "CREATE TABLE t (note TEXT DEFAULT 'AUTOINCREMENT', id INTEGER PRIMARY KEY -- counted\n Autoincrement)"

def head : Head :=
  ⟨.table, "t".toList, "(note TEXT DEFAULT 'AUTOINCREMENT', id INTEGER PRIMARY KEY -- counted\n Autoincrement)".toList⟩

def key : String := "id INTEGER PRIMARY KEY -- counted\n Autoincrement"

def table : DeclaredObject where
  name := "t"
  kind := .table
  columns :=
    [⟨"note", "TEXT", none, none, "note TEXT DEFAULT 'AUTOINCREMENT'"⟩, ⟨"id", "INTEGER", none, none, key⟩]
  withoutRowid := false

/-- The keyword counts behind a comment, in either case. -/
theorem key_counts :
    DeclaredObject.ofStatement source = .ok table ∧ takeHead source.toList = some head ∧
      key.toList ∈ columnElements head.rest ∧ beginsConstraint key.toList = false ∧
      countsUp source (some table) "ID" = true := by
  have declares : DeclaredObject.ofStatement source = .ok table := by decide +kernel
  have begins : takeHead source.toList = some head := by decide +kernel
  have mem : key.toList ∈ columnElements head.rest := by decide +kernel
  have column : beginsConstraint key.toList = false := by decide +kernel
  have found : (columnElements head.rest).find? (isReadUnder "ID") = some key.toList := by decide +kernel
  have said : saysAutoincrement key.toList = true := by decide +kernel
  have agrees := (DeclaredObject.countsUp_iff declares rfl begins "ID").1 key.toList mem column
  simp only [found, ↓reduceIte] at agrees
  exact ⟨declares, begins, mem, column, (agrees.2 fun _ => said).2 said⟩

/-- A table without rows, with a key. -/
def catalog (source : String) : Catalog where
  source := some source
  columns := [⟨"id", "INTEGER", false, none, 1, 0⟩]
  sequenceExists := true
  sequenceEntry := false
  isEmpty := true
  latency := fun _ => some 0

/-- The name of the identity column that is read. -/
def identity (source : String) : Option String :=
  (((TableReader.new TableReader.defaultTimeout).read (catalog source) "t").table.toOption.bind
    TableDefinition.identity?).map ColumnDefinition.name

/-- A default, a check or a comment that contains the word makes the key of an empty table its identity. -/
theorem words_count :
    DeclaredObject.ofStatement "CREATE TABLE t (id INTEGER PRIMARY KEY DEFAULT 'autoincrement')"
      = .ok ⟨"t", .table, [⟨"id", "INTEGER", none, none, "id INTEGER PRIMARY KEY DEFAULT 'autoincrement'"⟩], false⟩ ∧
    (∀ words ∈ ["DEFAULT 'autoincrement'", "CHECK (id <> 'AUTOINCREMENT')", "/* no autoincrement */"],
      saysAutoincrement ("id INTEGER PRIMARY KEY " ++ words).toList = false) ∧
    identity "CREATE TABLE t (id INTEGER PRIMARY KEY DEFAULT 'autoincrement')" = some "id" ∧
    identity "CREATE TABLE t (id INTEGER PRIMARY KEY CHECK (id <> 'AUTOINCREMENT'))" = some "id" ∧
    identity "CREATE TABLE t (id INTEGER PRIMARY KEY /* no autoincrement */)" = some "id" ∧
    identity "CREATE TABLE t (id INTEGER PRIMARY KEY DEFAULT 'increment')" = none := by
  refine ⟨?_, ?_, ?_, ?_, ?_, ?_⟩
  all_goals decide +kernel

end CountedKeys

end SqlDialects.Schema
