import SqlDialects.Dialect
import SqlDialects.Proofs.Schema.Cuts
import SqlDialects.Schema.Declaration

/-!
# Columns that are written and read back

A column as one would write it (`WrittenColumn`): its name between double quotes, the words of its type, and behind
a type perhaps a precision, with or without a scale. What a definition is made of is found again piece by piece, each
with what follows it: the name up to its closing quote, a word up to the next character that stands in none, digits
up to the next that is none. So the definition declares the column (`WrittenColumn.columnDefinition_definition`).

Two things a column must not look like: a type ends at the first word that begins a constraint, and an element of a
list whose first word begins a constraint of the table is no column. That first word may stand inside the quotes of
the name, so the name is asked for it too.
-/

set_option autoImplicit false

namespace SqlDialects.Schema

open Text

/-! ## What is written -/

/-- A word that may stand in a type. -/
structure TypeWord where
  text : String
  text_ne : text ≠ ""
  plain : text.toList.all isPlainWordChar = true
  unreserved : isAnyOf ("FOREIGN" :: constraintWords) text = false

/-- The precision behind a type, with or without a scale. -/
structure WrittenMeasure where
  precision : UInt32
  scale : Option UInt32

namespace WrittenMeasure

def text (m : WrittenMeasure) : String :=
  match m.scale with
  | none => "(" ++ toString m.precision ++ ")"
  | some scale => "(" ++ toString m.precision ++ ", " ++ toString scale ++ ")"

end WrittenMeasure

structure WrittenType where
  word : TypeWord
  words : List TypeWord
  measure : Option WrittenMeasure

namespace WrittenType

/-- The words of the type, a blank between them. -/
def name (t : WrittenType) : String := " ".intercalate ((t.word :: t.words).map TypeWord.text)

def text (t : WrittenType) : String := t.name ++ (t.measure.map WrittenMeasure.text).getD ""

end WrittenType

structure WrittenColumn where
  name : String
  type : Option WrittenType
  /-- The blanks behind the definition, before what follows it in the list. -/
  blanks : String
  blanks_blank : blanks.toList.all isBlank = true
  /-- The name does not make a constraint of the definition. -/
  isColumn : ∀ w ∈ (plainWords name.toList).head?, isWordOf tableConstraintWords w = false

namespace WrittenColumn

/-- The definition of the column: its quoted name, and its type behind a blank. -/
def definition (c : WrittenColumn) : String :=
  Dialect.sqlite.quoteIdentifier c.name ++ (c.type.map fun t => " " ++ t.text).getD ""

/-- The column in a list of columns. -/
def text (c : WrittenColumn) : String := c.definition ++ c.blanks

/-- The measure behind the type, if it has both. -/
def measure (c : WrittenColumn) : Option WrittenMeasure := c.type.bind WrittenType.measure

/-- The column that is declared. -/
def declared (c : WrittenColumn) : DeclaredColumn :=
  { name := c.name
    typeName := (c.type.map WrittenType.name).getD ""
    precision := c.measure.map fun m => m.precision.toNat
    scale := c.measure.bind fun m => m.scale.map UInt32.toNat
    declaration := c.definition }

end WrittenColumn

/-! ## Names -/

variable {r : List Char}

theorem closeQuoted_doubling {cs : List Char} (h : r.head? ≠ some '"') :
    closeQuoted (doubling '"' cs ++ '"' :: r) = some (cs, r) := by
  induction cs with
  | nil =>
    cases r with
    | nil => rfl
    | cons c r =>
      have hc : c ≠ '"' := fun hc => h (congrArg some hc)
      simp [doubling, closeQuoted, hc]
  | cons c cs ih =>
    by_cases hc : c = '"'
    · rw [doubling, if_pos hc, List.cons_append, List.cons_append, closeQuoted, ih, hc]
      rfl
    · rw [doubling, if_neg hc, List.cons_append, closeQuoted, ih]
      · rfl
      · exact fun _ hc' _ => hc hc'
      · exact hc

theorem leadingName_quoted {cs : List Char} (h : r.head? ≠ some '"') :
    leadingName ('"' :: (doubling '"' cs ++ '"' :: r)) = some (cs, r) := by
  have start : trimStart ('"' :: (doubling '"' cs ++ '"' :: r)) = '"' :: (doubling '"' cs ++ '"' :: r) :=
    trimStart_eq_self (forall_head?_cons (by decide))
  rw [leadingName, start]
  exact closeQuoted_doubling h

/-! ## Types -/

namespace TypeWord

variable (w : TypeWord)

theorem toList_ne : w.text.toList ≠ [] := fun h => w.text_ne (String.toList_eq_nil_iff.1 h)

theorem isPlainWordChar_of_mem : ∀ c ∈ w.text.toList, isPlainWordChar c = true := List.all_eq_true.1 w.plain

theorem head?_append : ∀ c ∈ (w.text.toList ++ r).head?, isBlank c = false := by
  cases hw : w.text.toList with
  | nil => exact absurd hw w.toList_ne
  | cons c cs =>
    have plain : isPlainWordChar c = true := w.isPlainWordChar_of_mem c (hw ▸ List.mem_cons_self)
    exact forall_head?_cons (isBlank_of_isPlainWordChar plain)

theorem not_isWordOf {words : List String} (h : words ⊆ "FOREIGN" :: constraintWords) :
    isWordOf words w.text.toList = false := by
  have unreserved := w.unreserved
  rw [isAnyOf, List.any_eq_false] at unreserved
  rw [isWordOf, String.ofList_toList, isAnyOf, List.any_eq_false]
  exact fun word hw => unreserved word (h hw)

end TypeWord

/-- The words of a type as they are written, each behind a blank. -/
def spaced (ws : List TypeWord) : List Char := ws.flatMap fun w => ' ' :: w.text.toList

theorem spaced_cons (w : TypeWord) (ws : List TypeWord) : spaced (w :: ws) = ' ' :: (w.text.toList ++ spaced ws) := rfl

/-- No word goes on into the next. -/
theorem head?_spaced_append (ws : List TypeWord) (h : ∀ c ∈ r.head?, isPlainWordChar c = false) :
    ∀ c ∈ (spaced ws ++ r).head?, isPlainWordChar c = false := by
  cases ws with
  | nil => exact h
  | cons w ws => exact forall_head?_cons (by decide)

theorem takeTypeWords_of_nil {cs : List Char} (h : (trimStart cs).takeWhile isPlainWordChar = []) :
    takeTypeWords cs = ([], trimStart cs) := by
  unfold takeTypeWords
  split
  · rfl
  · next some =>
    rw [h] at some
    cases some

theorem takeTypeWords_of_cons {cs word : List Char} {c : Char}
    (h : (trimStart cs).takeWhile isPlainWordChar = c :: word) (hw : isWordOf constraintWords (c :: word) = false) :
    takeTypeWords cs
      = ((c :: word) :: (takeTypeWords ((trimStart cs).dropWhile isPlainWordChar)).1,
        (takeTypeWords ((trimStart cs).dropWhile isPlainWordChar)).2) := by
  rw [takeTypeWords]
  split
  · next none =>
    rw [h] at none
    cases none
  · next some =>
    rw [h] at some
    cases some
    rw [hw]
    rfl

/-- The words of a type are read up to what no word begins with. -/
theorem takeTypeWords_spaced (ws : List TypeWord)
    (h : ∀ c ∈ r.head?, isPlainWordChar c = false ∧ isBlank c = false) :
    takeTypeWords (spaced ws ++ r) = (ws.map (·.text.toList), r) := by
  induction ws with
  | nil =>
    have start : trimStart r = r := trimStart_eq_self fun c hc => (h c hc).2
    have none : (trimStart r).takeWhile isPlainWordChar = [] := by
      rw [start]
      exact (takeWhile_run (List.forall_mem_nil _) fun c hc => (h c hc).1).1
    show takeTypeWords r = ([], r)
    rw [takeTypeWords_of_nil none, start]
  | cons w ws ih =>
    obtain ⟨c, cs, hw⟩ := List.exists_cons_of_ne_nil w.toList_ne
    have start : trimStart (' ' :: (w.text.toList ++ (spaced ws ++ r))) = w.text.toList ++ (spaced ws ++ r) :=
      (takeWhile_run (List.forall_mem_singleton.2 (by decide : isBlank ' ' = true)) w.head?_append).2
    have run := takeWhile_run w.isPlainWordChar_of_mem (head?_spaced_append ws fun c hc => (h c hc).1)
    have unreserved := w.not_isWordOf (List.subset_cons_self "FOREIGN" constraintWords)
    rw [hw] at start run unreserved
    rw [spaced_cons, List.cons_append, List.append_assoc, List.map_cons, hw,
      takeTypeWords_of_cons (by rw [start, run.1]) unreserved, start, run.2, ih]

/-! ## Measures -/

theorem isDecimalDigit_of_isAsciiDigit {c : Char} (h : isAsciiDigit c = true) : isDecimalDigit c = true := by
  have ascii : c.toNat < 128 := toNat_lt_of_isPlainWordChar (isPlainWordChar_of_isAsciiDigit h)
  rw [isDecimalDigit, if_pos ascii, h]

/-- Skipping blanks, digits are read up to what is none. -/
theorem takeDigits_toDigits {n : Nat} (h : ∀ c ∈ r.head?, isDecimalDigit c = false) :
    takeDigits (trimStart (Nat.toDigits 10 n ++ r)) = some (Nat.toDigits 10 n, r) := by
  have digits := List.all_eq_true.1 (all_digits n)
  obtain ⟨c, cs, hn⟩ := List.exists_cons_of_ne_nil (Nat.toDigits_ne_nil (b := 10) (n := n))
  have first : isBlank c = false := by
    refine isBlank_of_isPlainWordChar ?_
    exact isPlainWordChar_of_isAsciiDigit (digits c (hn ▸ List.mem_cons_self))
  obtain ⟨taken, left⟩ := takeWhile_run (fun c hc => isDecimalDigit_of_isAsciiDigit (digits c hc)) h
  rw [trimStart_eq_self (by simpa [hn] using first), takeDigits, taken, left, hn]

theorem smallNumber?_toDigits {n : Nat} (h : n < Nat.pow 2 32) : smallNumber? (Nat.toDigits 10 n) = some n := by
  have value : (Nat.toDigits 10 n).foldl (fun n c => 10 * n + (c.toNat - 48)) 0 = n := Nat.ofDigitChars_ten_toDigits
  rw [smallNumber?, if_pos (all_digits n), value, Option.filter_some, if_pos (by simpa using h)]

theorem toList_toString (n : UInt32) : (toString n).toList = Nat.toDigits 10 n.toNat := by
  show (toString n.toNat).toList = _
  rw [Nat.toString_eq_repr, Nat.repr, String.toList_ofList]

namespace WrittenMeasure

/-- What is written between the parentheses. -/
def inside (m : WrittenMeasure) : List Char :=
  Nat.toDigits 10 m.precision.toNat
    ++ (m.scale.map fun scale => ',' :: ' ' :: Nat.toDigits 10 scale.toNat).getD []

/-- The digits that a measure is written with. -/
def digits (m : WrittenMeasure) : Measure :=
  ⟨Nat.toDigits 10 m.precision.toNat, m.scale.map fun scale => Nat.toDigits 10 scale.toNat⟩

theorem toList_text (m : WrittenMeasure) : m.text.toList = '(' :: (m.inside ++ [')']) := by
  unfold text inside
  cases m.scale <;> simp [toList_toString]

theorem passes_inside (m : WrittenMeasure) {stop : Char} (hs : IsCut stop) :
    Passes stop ⟨none, 1⟩ m.inside ⟨none, 1⟩ := by
  have digits : ∀ n, Passes stop ⟨none, 1⟩ (Nat.toDigits 10 n) ⟨none, 1⟩ := by
    refine fun n => passes_of_isIdle hs fun a ha => ?_
    simp [isIdle, isPlainWordChar_of_isAsciiDigit (List.all_eq_true.1 (all_digits n) a ha)]
  have blank : Passes stop ⟨none, 1⟩ [' '] ⟨none, 1⟩ := passes_of_isIdle hs (List.forall_mem_singleton.2 (by decide))
  refine (digits _).append ?_
  cases m.scale with
  | none => exact .nil _
  | some scale => exact .cons rfl (blank.append (digits _))

theorem takeMeasure_text (m : WrittenMeasure) : takeMeasure m.text.toList = some (m.digits, []) := by
  rw [toList_text]
  unfold inside digits
  cases m.scale with
  | none =>
    rw [Option.map_none, Option.getD_none, List.append_nil, takeMeasure,
      takeDigits_toDigits (forall_head?_cons (by decide))]
    rfl
  | some scale =>
    have comma : trimStart (',' :: ' ' :: (Nat.toDigits 10 scale.toNat ++ [')']))
        = ',' :: ' ' :: (Nat.toDigits 10 scale.toNat ++ [')']) := rfl
    have behind : takeDigits (trimStart (' ' :: (Nat.toDigits 10 scale.toNat ++ [')'])))
        = some (Nat.toDigits 10 scale.toNat, [')']) := takeDigits_toDigits (forall_head?_cons (by decide))
    have closing : trimStart [')'] = [')'] := rfl
    have ends : ∀ c ∈ (',' :: ' ' :: (Nat.toDigits 10 scale.toNat ++ [')'])).head?, isDecimalDigit c = false :=
      forall_head?_cons (by decide)
    simp only [Option.map_some, Option.getD_some, List.append_assoc, List.cons_append, takeMeasure,
      takeDigits_toDigits ends, comma, behind, closing]

theorem precision?_digits (m : WrittenMeasure) : Measure.precision? (some m.digits) = some m.precision.toNat :=
  smallNumber?_toDigits m.precision.toNat_lt

theorem scale?_digits (m : WrittenMeasure) : Measure.scale? (some m.digits) = m.scale.map UInt32.toNat := by
  unfold Measure.scale? digits
  cases m.scale with
  | none => rfl
  | some scale => exact smallNumber?_toDigits scale.toNat_lt

end WrittenMeasure

/-! ## Columns -/

/-- What a definition declares, once its name and the words behind it are known. -/
theorem columnDefinition_eq {definition name rest left : List Char} {words : List (List Char)}
    (hn : leadingName definition = some (name, rest)) (hw : takeTypeWords rest = (words, left)) :
    columnDefinition definition =
      let measure := if words.isEmpty then none else (takeMeasure left).map Prod.fst
      .ok
        { name := String.ofList name
          typeName := String.ofList ([' '].intercalate words)
          precision := Measure.precision? measure
          scale := Measure.scale? measure
          declaration := String.ofList definition } := by
  rw [columnDefinition, hn]
  simp only [hw]

theorem intercalate_cons {sep cs : List Char} {css : List (List Char)} :
    sep.intercalate (cs :: css) = cs ++ css.flatMap (sep ++ ·) := by
  induction css generalizing cs with
  | nil => simp
  | cons cs' css ih => rw [List.intercalate_cons_cons, ih, List.flatMap_cons, List.append_assoc, List.append_assoc]

namespace WrittenType

theorem ofList_words (t : WrittenType) :
    String.ofList ([' '].intercalate ((t.word :: t.words).map fun w => w.text.toList)) = t.name := by
  rw [← String.toList_inj, String.toList_ofList, WrittenType.name, String.toList_intercalate, List.map_map]
  rfl

/-- What is written behind the words of a type. -/
def ending (t : WrittenType) : List Char := (t.measure.map fun m => m.text.toList).getD []

theorem toList_text (t : WrittenType) :
    ' ' :: t.text.toList = spaced (t.word :: t.words) ++ t.ending := by
  have name : t.name.toList = t.word.text.toList ++ spaced t.words := by
    rw [WrittenType.name, String.toList_intercalate, List.map_cons, List.map_cons, intercalate_cons, List.flatMap_map,
      List.flatMap_map]
    rfl
  have behind : ((t.measure.map WrittenMeasure.text).getD "").toList = t.ending := by
    unfold ending
    cases t.measure <;> rfl
  rw [text, String.toList_append, name, behind, spaced_cons, List.cons_append]

/-- No word goes on behind the last one. -/
theorem head?_ending (t : WrittenType) : ∀ c ∈ t.ending.head?, isPlainWordChar c = false ∧ isBlank c = false := by
  unfold ending
  cases t.measure with
  | none => exact nofun
  | some m =>
    rw [Option.map_some, Option.getD_some, m.toList_text]
    exact forall_head?_cons (by decide)

theorem passes_text (t : WrittenType) {stop : Char} (hs : IsCut stop) :
    Passes stop .top (' ' :: t.text.toList) .top := by
  have words : Passes stop .top (spaced (t.word :: t.words)) .top := by
    refine passes_of_isIdle hs fun a ha => ?_
    obtain ⟨w, -, ha⟩ := List.mem_flatMap.1 ha
    rcases List.mem_cons.1 ha with rfl | ha
    · decide
    · simp [isIdle, w.isPlainWordChar_of_mem a ha]
  rw [t.toList_text]
  refine words.append ?_
  unfold ending
  cases t.measure with
  | none => exact .nil .top
  | some m =>
    rw [Option.map_some, Option.getD_some, m.toList_text]
    exact passes_enclosed hs (m.passes_inside hs)

theorem getLast?_text (t : WrittenType) : ∀ a ∈ (' ' :: t.text.toList).getLast?, isBlank a = false := by
  have word : ∀ w : TypeWord, ∀ a ∈ (' ' :: w.text.toList).getLast?, isBlank a = false := by
    intro w a ha
    rw [List.getLast?_cons_of_ne_nil w.toList_ne] at ha
    exact isBlank_of_isPlainWordChar (w.isPlainWordChar_of_mem a (List.mem_of_getLast? ha))
  have words : ∀ ws : List TypeWord, ∀ a ∈ (spaced ws).getLast?, isBlank a = false := by
    intro ws
    induction ws with
    | nil => exact nofun
    | cons w ws ih => exact getLast?_append_not_isBlank (word w) ih
  rw [t.toList_text]
  refine getLast?_append_not_isBlank (words _) ?_
  unfold ending
  cases t.measure with
  | none => exact nofun
  | some m =>
    rw [Option.map_some, Option.getD_some, m.toList_text, ← List.cons_append]
    exact forall_getLast?_concat (by decide)

theorem takeMeasure_ending (t : WrittenType) :
    (takeMeasure t.ending).map Prod.fst = t.measure.map WrittenMeasure.digits := by
  unfold ending
  cases t.measure with
  | none => rfl
  | some m => rw [Option.map_some, Option.getD_some, m.takeMeasure_text, Option.map_some, Option.map_some]

end WrittenType

namespace WrittenColumn

variable (c : WrittenColumn)

/-- What is written behind the name of a column. -/
def ending : List Char := (c.type.map fun t => ' ' :: t.text.toList).getD []

theorem toList_definition :
    c.definition.toList = '"' :: (doubling '"' c.name.toList ++ '"' :: c.ending) := by
  have behind : ((c.type.map fun t => " " ++ t.text).getD "").toList = c.ending := by
    unfold ending
    cases c.type with
    | none => rfl
    | some t => exact String.toList_append
  rw [definition, String.toList_append, behind, Dialect.quoteIdentifier, toList_quoted]
  simp [Dialect.identifierQuote, Dialect.family]

theorem head?_ending : c.ending.head? ≠ some '"' := by
  unfold ending
  cases c.type with
  | none => exact nofun
  | some t => simp

/-- A written definition declares the column that was written. -/
theorem columnDefinition_definition : columnDefinition c.definition.toList = .ok c.declared := by
  have named : leadingName c.definition.toList = some (c.name.toList, c.ending) := by
    rw [toList_definition]
    exact leadingName_quoted c.head?_ending
  have spelled : String.ofList c.definition.toList = c.definition := String.ofList_toList
  unfold declared measure
  unfold ending at named
  cases ht : c.type with
  | none =>
    rw [ht] at named
    have words : takeTypeWords [] = ([], []) := takeTypeWords_spaced [] nofun
    rw [columnDefinition_eq named words, spelled, String.ofList_toList]
    rfl
  | some t =>
    rw [ht, Option.map_some, Option.getD_some, t.toList_text] at named
    have words := takeTypeWords_spaced (t.word :: t.words) t.head?_ending
    rw [columnDefinition_eq named words, spelled, String.ofList_toList, t.ofList_words]
    simp only [List.map_cons, List.isEmpty_cons, Bool.false_eq_true, if_false, t.takeMeasure_ending, Option.bind_some]
    cases t.measure with
    | none => rfl
    | some m =>
      rw [Option.map_some, m.precision?_digits, m.scale?_digits]
      rfl

/-- A written definition is not taken for a constraint of the table. -/
theorem isTableConstraint_definition : isTableConstraint c.definition.toList = false := by
  have quote : isPlainWordChar '"' = false := by decide
  have words : plainWords c.definition.toList = plainWords c.name.toList ++ plainWords c.ending := by
    rw [toList_definition, plainWords_cons_of_other quote, plainWords_append_cons quote, plainWords_doubling quote]
  rw [isTableConstraint, words, List.head?_append]
  cases hn : (plainWords c.name.toList).head? with
  | some w => exact c.isColumn w hn
  | none =>
    unfold ending
    cases c.type with
    | none => decide
    | some t =>
      have ends := head?_spaced_append t.words fun a ha => (t.head?_ending a ha).1
      rw [Option.map_some, Option.getD_some, t.toList_text, spaced_cons, List.cons_append, List.append_assoc,
        plainWords_cons_of_other (by decide), plainWords_run t.word.toList_ne t.word.isPlainWordChar_of_mem ends]
      exact t.word.not_isWordOf (by decide)

/-! ### In a list -/

/-- Commas and parentheses inside a column neither end it nor the list that it stands in. -/
theorem passes_text {stop : Char} (hs : IsCut stop) : Passes stop .top c.text.toList .top := by
  have behind : Passes stop .top c.ending .top := by
    unfold ending
    cases c.type with
    | none => exact .nil .top
    | some t => exact t.passes_text hs
  have blanks : Passes stop .top c.blanks.toList .top := by
    refine passes_of_isIdle hs fun a ha => ?_
    simp [isIdle, List.all_eq_true.1 c.blanks_blank a ha]
  have spelled : c.text.toList
      = '"' :: (doubling '"' c.name.toList ++ ['"']) ++ (c.ending ++ c.blanks.toList) := by
    rw [text, String.toList_append, toList_definition]
    simp
  rw [spelled]
  exact (passes_quoted hs).append (behind.append blanks)

/-- Trimming leaves of a column in a list its definition. -/
theorem trimChars_text {cs : List Char} (h : ∀ a ∈ cs, isBlank a = true) :
    trimChars (cs ++ c.text.toList) = c.definition.toList := by
  have first : ∀ a ∈ c.definition.toList.head?, isBlank a = false := by
    rw [toList_definition]
    exact forall_head?_cons (by decide)
  have last : ∀ a ∈ c.definition.toList.getLast?, isBlank a = false := by
    have closed : c.definition.toList = ('"' :: doubling '"' c.name.toList) ++ ['"'] ++ c.ending := by
      rw [toList_definition]
      simp
    have behind : ∀ a ∈ c.ending.getLast?, isBlank a = false := by
      unfold ending
      cases c.type with
      | none => exact nofun
      | some t => exact t.getLast?_text
    rw [closed]
    exact getLast?_append_not_isBlank (forall_getLast?_concat (by decide)) behind
  rw [text, String.toList_append]
  exact trimChars_blanks h (List.all_eq_true.1 c.blanks_blank) first last

end WrittenColumn

end SqlDialects.Schema
