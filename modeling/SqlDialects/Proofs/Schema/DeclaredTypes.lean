import SqlDialects.Proofs.Schema.TypeNames

/-!
# Types that the catalog and the statement declare

A catalog and a creation statement that declare the same type agree on its precision and its scale. The name of the type
is in one case the text as it is written and in the other the words with a single blank between them, and no name with
other blanks is that of a known type. So the two resolve to one type exactly if the words are one blank apart and, for a
generated column, no two of them make up a `GENERATED ALWAYS` (`ColumnType.resolved_eq_iff`).
-/

set_option autoImplicit false

namespace SqlDialects.Schema

open Text

/-! ## Letters -/

theorem upperChar_of_isBlank {c : Char} (h : isBlank c = true) : upperChar c = c := by
  rw [upperChar, if_neg]
  rintro ⟨ha, hz⟩
  have plain : isPlainWordChar c = true := by simp [isPlainWordChar, isAsciiLetter, ha, hz]
  rw [isBlank_of_isPlainWordChar plain] at h
  cases h

theorem upperChar_lowerChar (c : Char) : upperChar (lowerChar c) = upperChar c := by
  by_cases h : 'A' ≤ c ∧ c ≤ 'Z'
  · have all : ∀ n < 128, upperChar (lowerChar (Char.ofNat n)) = upperChar (Char.ofNat n) := by decide
    have ascii : c.toNat < 128 := by
      refine toNat_lt_of_isPlainWordChar ?_
      simp [isPlainWordChar, isAsciiLetter, h]
    have one := all c.toNat ascii
    rwa [Char.ofNat_toNat] at one
  · rw [lowerChar, if_neg h]

end SqlDialects.Schema

/-! ## Types that are known -/

namespace SqlDialects.SqlType

open Schema Text

/-- The names that stand for a type of their own, in capital letters. -/
def knownNames : List String :=
  ["", "OTHER", "SMALLINT", "INT2", "TINYINT", "INT", "INTEGER", "INT4", "MEDIUMINT", "BIGINT", "INT8", "REAL",
    "FLOAT", "FLOAT4", "DOUBLE", "DOUBLE PRECISION", "FLOAT8", "DECIMAL", "NUMERIC", "CHAR", "CHARACTER", "NCHAR",
    "VARCHAR", "CHARACTER VARYING", "NVARCHAR", "VARYING CHARACTER", "TEXT", "CLOB", "BLOB", "BYTEA", "BINARY",
    "VARBINARY", "DATE", "TIME", "TIMESTAMP", "DATETIME", "BOOLEAN", "BOOL", "JSON", "JSONB", "XML"]

variable {name n : String} {precision scale : Option Nat} {cs : List Char}

theorem ofDeclared_of_not_mem (h : asciiUpper (trim name) ∉ knownNames) :
    ofDeclared name precision scale = custom (trim name) := by
  unfold ofDeclared
  split
  case h_42 => rfl
  all_goals
    next known =>
      rw [known] at h
      exact absurd (by decide) h

theorem eq_trim_of_ofDeclared (h : ofDeclared name precision scale = custom n) : n = trim name := by
  unfold ofDeclared at h
  split at h
  case h_42 => exact (custom.inj h).symm
  all_goals cases h

/-- No known name has another blank than one space between two words, nor a `GENERATED`. -/
theorem spaced_of_mem_knownNames : ∀ n ∈ knownNames,
    n.toList.all (fun c => !isBlank c || c == ' ') = true ∧ ¬ [' ', ' '] <:+: n.toList ∧
      ¬ "GENERATED".toList <:+: n.toList := by
  decide +kernel

/-- A name with another blank than single spaces is of no known type. -/
theorem not_mem_knownNames_of_blank (h : (∃ c ∈ cs, isBlank c = true ∧ c ≠ ' ') ∨ [' ', ' '] <:+: cs) :
    String.ofList (cs.map upperChar) ∉ knownNames := by
  intro known
  obtain ⟨single, apart, -⟩ := spaced_of_mem_knownNames _ known
  rw [String.toList_ofList] at single apart
  rcases h with ⟨c, hc, blank, other⟩ | two
  · have capital := upperChar_of_isBlank blank
    have space := List.all_eq_true.1 single c (List.mem_map.2 ⟨c, hc, capital⟩)
    rw [blank, Bool.not_true, Bool.false_or, beq_iff_eq] at space
    exact other space
  · exact apart (two.map upperChar)

/-- Nor is one with a `GENERATED` in it, in whatever case. -/
theorem not_mem_knownNames_of_generated (h : "generated".toList <:+: cs.map lowerChar) :
    String.ofList (cs.map upperChar) ∉ knownNames := by
  intro known
  obtain ⟨-, -, other⟩ := spaced_of_mem_knownNames _ known
  have same : upperChar ∘ lowerChar = upperChar := funext upperChar_lowerChar
  have capitals := h.map upperChar
  rw [List.map_map, same] at capitals
  have spelled : (String.ofList (cs.map upperChar)).toList = cs.map upperChar := String.toList_ofList
  rw [spelled] at other
  exact other capitals

end SqlDialects.SqlType

namespace SqlDialects.Schema

open Text

/-! ## Two ways to one type -/

section Resolution

variable {words : List (List Char)} {cs suffix : List Char} {m : Option Measure}

/-- The words of a type are written so that the catalog leaves them as a definition joins them. -/
structure ReadAlike (words : List (List Char)) (cs : List Char) (generated : Bool) : Prop where
  spaced : cs = [' '].intercalate words
  apart : generated = true → words.IsChain StaysApart

theorem IsTypeName.trim_ofList (h : IsTypeName words cs) : trim (String.ofList cs) = String.ofList cs := by
  have trimmed := h.trimChars_append (List.forall_mem_nil _)
  rw [List.append_nil] at trimmed
  rw [trim, String.toList_ofList, trimmed]

/-- A name of words that is not known stands for itself. -/
theorem IsTypeName.ofDeclared_eq (h : IsTypeName words cs) {precision scale : Option Nat}
    (other : String.ofList (cs.map upperChar) ∉ SqlType.knownNames) :
    SqlType.ofDeclared (String.ofList cs) precision scale = .custom (String.ofList cs) := by
  have unknown : asciiUpper (trim (String.ofList cs)) ∉ SqlType.knownNames := by
    rwa [h.trim_ofList, asciiUpper, String.toList_ofList]
  rw [SqlType.ofDeclared_of_not_mem unknown, h.trim_ofList]

/-- The name that the catalog leaves and the words that a definition joins are of one type exactly if they are one. -/
theorem ofDeclared_eq_iff (h : IsTypeName words cs) (generated : Bool) (precision scale : Option Nat) :
    SqlType.ofDeclared (String.ofList (if generated then withoutGeneration cs else cs)) precision scale
        = SqlType.ofDeclared (String.ofList ([' '].intercalate words)) precision scale ↔
      ReadAlike words cs generated := by
  obtain ⟨kept, cut⟩ := withoutGeneration_isTypeName h
  by_cases apart : generated = true → words.IsChain StaysApart
  · have name : (if generated then withoutGeneration cs else cs) = cs := by
      cases generated with
      | false => rfl
      | true => exact kept (apart rfl)
    rw [name]
    constructor
    · intro same
      refine ⟨?_, apart⟩
      rcases h.eq_joined_or with joined | blank
      · exact joined
      · rw [h.ofDeclared_eq (SqlType.not_mem_knownNames_of_blank blank)] at same
        have := SqlType.eq_trim_of_ofDeclared same.symm
        rwa [h.joined.trim_ofList, String.ofList_inj] at this
    · intro alike
      rw [← alike.spaced]
  · simp only [Classical.not_imp] at apart
    obtain ⟨rfl, meets⟩ := apart
    constructor
    · intro same
      obtain ⟨w, hw, ends⟩ := exists_of_not_isChain meets
      have inside := ends.isInfix.trans ((h.joined.isInfix hw).map lowerChar)
      rw [if_pos rfl, h.joined.ofDeclared_eq (SqlType.not_mem_knownNames_of_generated inside)] at same
      -- Then what the catalog leaves would be the joined words, but it has fewer letters.
      have name := SqlType.eq_trim_of_ofDeclared same
      rw [trim, String.toList_ofList, String.ofList_inj] at name
      have fewer := Nat.lt_of_le_of_lt (countVisible_trimChars_le (withoutGeneration cs)) (cut meets)
      rw [← name, h.joined.countVisible_eq, h.countVisible_eq] at fewer
      exact absurd fewer (Nat.lt_irrefl _)
    · intro alike
      exact absurd (alike.apart rfl) meets

/-- What the catalog says about a type, before it is completed. -/
theorem typeText_eq {c : CatalogColumn} (h : IsTypeName words cs) (hs : IsTypeSuffix m suffix)
    (hc : c.declaredType.toList = cs ++ suffix) :
    c.typeText = ⟨String.ofList cs, Measure.precision? m, Measure.scale? m⟩ := by
  rw [CatalogColumn.typeText, hc, withoutMeasures_type h hs, firstMeasure?_append h.ne_paren, hs.firstMeasure?_eq]

/-- The type that a reader derives from what the catalog declares. -/
theorem column_type {c : CatalogColumn} (h : IsTypeName words cs) (hs : IsTypeSuffix m suffix)
    (hc : c.declaredType.toList = cs ++ suffix) (known : sameIgnoringCase (String.ofList cs) "OTHER" = false)
    (a : ReadTask.Answers) (declared : Option DeclaredObject) (position : Nat) :
    (a.column declared c position).type.typeName
        = String.ofList (if c.generation?.isSome then withoutGeneration cs else cs) ∧
      (a.column declared c position).type.precision = Measure.precision? m ∧
      (a.column declared c position).type.scale = Measure.scale? m := by
  have named : (String.ofList cs == "") = false := by
    rw [beq_eq_false_iff_ne]
    intro none
    exact h.ne_nil (String.ofList_inj.1 none)
  have complete : completedType declared c = c.typeText := by
    rw [completedType, TypeText.isUnknown, typeText_eq h hs hc]
    simp [named, known]
  rw [ReadTask.Answers.column, complete, typeText_eq h hs hc]
  refine ⟨?_, rfl, rfl⟩
  cases c.generation?.isSome with
  | false => rfl
  | true => simp

/-- The catalog and a creation statement that declare one type, other than `OTHER`: the precision and the scale that
are derived are always the same, and the two resolve to one type exactly if the words are one blank apart and, for a
generated column, no two of them make up a `GENERATED ALWAYS`. -/
theorem ColumnType.resolved_eq_iff {c : CatalogColumn} {definition name blanks : List Char}
    (h : IsTypeName words cs) (hs : IsTypeSuffix m suffix) (known : sameIgnoringCase (String.ofList cs) "OTHER" = false)
    (hc : c.declaredType.toList = cs ++ suffix) (blank : ∀ b ∈ blanks, isBlank b = true)
    (hn : leadingName definition = some (name, blanks ++ (cs ++ suffix))) (a : ReadTask.Answers)
    (declared : Option DeclaredObject) (position : Nat) :
    ∃ d, columnDefinition definition = .ok d ∧
      (a.column declared c position).type.precision = d.precision ∧
      (a.column declared c position).type.scale = d.scale ∧
      ((a.column declared c position).type.resolved = .ofDeclared d.typeName d.precision d.scale ↔
        ReadAlike words cs c.generation?.isSome) := by
  refine ⟨_, columnDefinition_type h hs blank hn, ?_⟩
  obtain ⟨typeName, precision, scale⟩ := column_type h hs hc known a declared position
  rw [ColumnType.resolved, typeName, precision, scale]
  exact ⟨rfl, rfl, ofDeclared_eq_iff h _ _ _⟩

end Resolution

/-! ## Two blanks between words -/

namespace SpelledTypes

/-- A column of the given type that is generated or not, as the code says. -/
def column (type : String) (hidden : Int) : CatalogColumn := ⟨"x", type, false, none, 0, hidden⟩

def answers : ReadTask.Answers := ⟨"", [], ⟨false, false, false⟩⟩

/-- A generated column of the type `CHARACTER VARYING`, one blank apart and with a precision, is of one type whichever
way it is read. -/
theorem resolved_varying :
    ∃ d, columnDefinition "x CHARACTER VARYING\t( 20 )".toList = .ok d ∧
      (answers.column none (column "CHARACTER VARYING\t( 20 )" 2) 1).type.precision = d.precision ∧
      (answers.column none (column "CHARACTER VARYING\t( 20 )" 2) 1).type.scale = d.scale ∧
      (answers.column none (column "CHARACTER VARYING\t( 20 )" 2) 1).type.resolved
        = .ofDeclared d.typeName d.precision d.scale := by
  have first : IsTypeWord "CHARACTER".toList := ⟨by decide, List.all_eq_true.1 (by decide), by decide⟩
  have second : IsTypeWord "VARYING".toList := ⟨by decide, List.all_eq_true.1 (by decide), by decide⟩
  have named : IsTypeName ["CHARACTER".toList, "VARYING".toList] ("CHARACTER".toList ++ ([' '] ++ "VARYING".toList)) :=
    .more first (by decide) (List.all_eq_true.1 (by decide)) (.one second)
  have padded : IsPadded ['2', '0'] ([' '] ++ (['2', '0'] ++ [' '])) :=
    .mk (by decide) (by decide) (by decide) (by decide)
  have tab : ∀ b ∈ ['\t'], isBlank b = true := List.forall_mem_singleton.2 (by decide)
  have suffix : IsTypeSuffix (some ⟨['2', '0'], none⟩) "\t( 20 )".toList := .some tab (.precision padded)
  have declares : (column "CHARACTER VARYING\t( 20 )" 2).declaredType.toList
      = "CHARACTER".toList ++ ([' '] ++ "VARYING".toList) ++ "\t( 20 )".toList := by
    decide
  have behind : leadingName "x CHARACTER VARYING\t( 20 )".toList
      = some (['x'], [' '] ++ ("CHARACTER".toList ++ ([' '] ++ "VARYING".toList) ++ "\t( 20 )".toList)) := by
    decide
  have apart : ["CHARACTER".toList, "VARYING".toList].IsChain StaysApart := by
    unfold StaysApart
    decide
  obtain ⟨d, defined, precision, scale, resolved⟩ :=
    ColumnType.resolved_eq_iff named suffix (by decide) declares (List.forall_mem_singleton.2 (by decide)) behind answers
      none 1
  exact ⟨d, defined, precision, scale, resolved.2 ⟨by decide, fun _ => apart⟩⟩

/-- With two blanks between its words `DOUBLE PRECISION` is no known type to the catalog, though a definition still
declares it. -/
theorem double_precision_differs :
    (answers.column none (column "DOUBLE  PRECISION" 0) 1).type.resolved = .custom "DOUBLE  PRECISION" ∧
      ∃ d, columnDefinition "x DOUBLE  PRECISION".toList = .ok d ∧
        SqlType.ofDeclared d.typeName d.precision d.scale = .double := by
  have first : IsTypeWord "DOUBLE".toList := ⟨by decide, List.all_eq_true.1 (by decide), by decide⟩
  have second : IsTypeWord "PRECISION".toList := ⟨by decide, List.all_eq_true.1 (by decide), by decide⟩
  have named : IsTypeName ["DOUBLE".toList, "PRECISION".toList] ("DOUBLE".toList ++ ([' ', ' '] ++ "PRECISION".toList)) :=
    .more first (by decide) (List.all_eq_true.1 (by decide)) (.one second)
  have behind : leadingName "x DOUBLE  PRECISION".toList
      = some (['x'], [' '] ++ ("DOUBLE".toList ++ ([' ', ' '] ++ "PRECISION".toList) ++ [])) := by
    decide
  have blank : ∀ b ∈ [' '], isBlank b = true := List.forall_mem_singleton.2 (by decide)
  exact ⟨by decide, _, columnDefinition_type named .none blank behind, by decide⟩

end SpelledTypes

end SqlDialects.Schema
