import SqlDialects.Proofs.Schema.Keywords
import Mathlib.Data.List.Forall2

/-!
# Which elements of a column list are columns

An element of a column list is a constraint of the table if its first token is one of five keywords. What is asked of
an element is less: that its first plain word, wherever it stands, is one of them (`isTableConstraint`). The two differ
where the word stands behind something else, as in the quotes of a name, or where the token goes on behind the word
(`hidesConstraint`). So no constraint is taken for a column, but a column may be taken for a constraint.

The columns that are declared are those of the other elements, in their order, and they are all there exactly if no
element hides a constraint word (`declaredTable_columns`).
-/

set_option autoImplicit false

namespace SqlDialects.Schema

open Text

/-- The elements of the list in parentheses that a text begins with. -/
def columnElements : List Char → List (List Char)
  | '(' :: body =>
    match splitClosing .top body with
    | some (inside, _) => (listItems inside).map trimChars
    | none => []
  | _ => []

/-- Whether the first token of an element is a keyword that begins a constraint. -/
def beginsConstraint (element : List Char) : Bool :=
  isWordOf tableConstraintWords (element.takeWhile isNameChar)

/-- Whether the first plain word of an element begins a constraint without being its first token. -/
def hidesConstraint (element : List Char) : Bool :=
  !beginsConstraint element && (plainWords element).head?.any (isWordOf tableConstraintWords)

/-! ## Elements -/

section Elements

variable {e : List Char}

/-- The first token of a constraint is its first plain word. -/
theorem head?_plainWords_of_beginsConstraint (h : beginsConstraint e = true) :
    (plainWords e).head? = some (e.takeWhile isNameChar) := by
  obtain ⟨full, plain⟩ := isPlainWordChar_of_isWordOf (by decide) h
  have ends : ∀ c ∈ (e.dropWhile isNameChar).head?, isPlainWordChar c = false := by
    intro c hc
    have stops := List.head?_dropWhile_not isNameChar e
    rw [Option.mem_def.1 hc] at stops
    replace stops : (isWordChar c || c == '$') = false := stops
    by_contra word
    rw [isWordChar_of_isPlainWordChar (by simpa using word)] at stops
    cases stops
  have cut := List.takeWhile_append_dropWhile (p := isNameChar) (l := e)
  have run := plainWords_run full plain ends
  rw [cut] at run
  rw [run]
  rfl

/-- An element is passed over exactly if it begins a constraint or hides a constraint word. -/
theorem isTableConstraint_eq (e : List Char) :
    isTableConstraint e = (beginsConstraint e || hidesConstraint e) := by
  have none : isWordOf tableConstraintWords [] = false := by decide
  have first : isTableConstraint e = (plainWords e).head?.any (isWordOf tableConstraintWords) := by
    unfold isTableConstraint
    cases (plainWords e).head? with
    | none => exact none
    | some w => rfl
  rw [hidesConstraint, ← first]
  cases hb : beginsConstraint e with
  | false => rfl
  | true =>
    rw [first, head?_plainWords_of_beginsConstraint hb]
    exact hb

end Elements

/-! ## Columns -/

theorem forall₂_of_mapM {α β ε : Type} {f : α → Except ε β} {xs : List α} {ys : List β} (h : xs.mapM f = .ok ys) :
    List.Forall₂ (fun x y => f x = .ok y) xs ys := by
  induction xs generalizing ys with
  | nil =>
    cases h
    exact .nil
  | cons x xs ih =>
    rw [List.mapM_cons] at h
    cases hx : f x with
    | error e =>
      rw [hx] at h
      cases h
    | ok y =>
      rw [hx] at h
      cases hxs : xs.mapM f with
      | error e =>
        rw [hxs] at h
        cases h
      | ok zs =>
        rw [hxs] at h
        cases h
        exact .cons hx (ih hxs)

/-- What a table is declared by: a list in parentheses, and the text behind it. -/
theorem exists_of_declaredTable {name : String} {rest : List Char} {o : DeclaredObject}
    (h : declaredTable name rest = .ok o) :
    ∃ inside behind, rest = '(' :: (inside ++ ')' :: behind) ∧ columnElements rest = (listItems inside).map trimChars ∧
      ((columnElements rest).filter fun e => !isTableConstraint e).mapM columnDefinition = .ok o.columns ∧
      o = ⟨name, .table, o.columns, hasWithoutRowid false behind⟩ := by
  unfold declaredTable at h
  split at h
  · next body =>
    split at h
    · cases h
    · next inside behind split =>
      have elements : columnElements ('(' :: body) = (listItems inside).map trimChars := by
        rw [columnElements, split]
      refine ⟨inside, behind, by rw [← (splitClosing_eq_some_iff.1 split).1], elements, ?_⟩
      rw [elements]
      cases hm : (((listItems inside).map trimChars).filter fun e => !isTableConstraint e).mapM columnDefinition with
      | error e =>
        simp only [hm] at h
        cases h
      | ok columns =>
        simp only [hm] at h
        replace h : (if columns.isEmpty = true then throw (.noColumns .table name)
          else pure ⟨name, .table, columns, hasWithoutRowid false behind⟩ : Except StatementError DeclaredObject)
            = .ok o := h
        split at h
        · cases h
        · cases h
          exact ⟨rfl, rfl⟩
  · cases h

theorem mapM_of_declaredTable {name : String} {rest : List Char} {o : DeclaredObject}
    (h : declaredTable name rest = .ok o) :
    ((columnElements rest).filter fun e => !isTableConstraint e).mapM columnDefinition = .ok o.columns := by
  obtain ⟨_, _, _, _, columns, _⟩ := exists_of_declaredTable h
  exact columns

/-- Every column of a table is declared by an element of its list. -/
theorem exists_of_mem_columns {name : String} {rest : List Char} {o : DeclaredObject} {c : DeclaredColumn}
    (h : declaredTable name rest = .ok o) (hc : c ∈ o.columns) :
    ∃ e ∈ columnElements rest, isTableConstraint e = false ∧ columnDefinition e = .ok c := by
  have columns := forall₂_of_mapM (mapM_of_declaredTable h)
  obtain ⟨i, hi, rfl⟩ := List.mem_iff_getElem.1 hc
  have hi' := hi.trans_eq columns.length_eq.symm
  obtain ⟨mem, passed⟩ := List.mem_filter.1 (List.getElem_mem hi')
  exact ⟨_, mem, by simpa using passed, columns.get hi' hi⟩

/-- The columns of a table are those of the elements that neither begin a constraint nor hide a constraint word, in
their order. So every element that begins no constraint has its column exactly if no element hides such a word. -/
theorem declaredTable_columns {name : String} {rest : List Char} {o : DeclaredObject}
    (h : declaredTable name rest = .ok o) :
    List.Forall₂ (fun e c => columnDefinition e = .ok c)
        ((columnElements rest).filter fun e => !hidesConstraint e && !beginsConstraint e) o.columns ∧
      (List.Forall₂ (fun e c => columnDefinition e = .ok c)
          ((columnElements rest).filter fun e => !beginsConstraint e) o.columns ↔
        ∀ e ∈ columnElements rest, hidesConstraint e = false) := by
  have passed : (fun e => !isTableConstraint e) = fun e => !hidesConstraint e && !beginsConstraint e := by
    funext e
    rw [isTableConstraint_eq, Bool.not_or, Bool.and_comm]
  have columns := forall₂_of_mapM (mapM_of_declaredTable h)
  rw [passed] at columns
  refine ⟨columns, ?_⟩
  rw [← List.filter_filter] at columns
  constructor
  · -- Both filters leave as many elements as there are columns, so they leave the same.
    intro all
    have same := List.filter_sublist.eq_of_length (columns.length_eq.trans all.length_eq.symm)
    intro e he
    cases hb : beginsConstraint e with
    | true => rw [hidesConstraint, hb, Bool.not_true, Bool.false_and]
    | false => simpa using List.filter_eq_self.1 same e (List.mem_filter.2 ⟨he, by simp [hb]⟩)
  · intro none
    have same : ((columnElements rest).filter fun e => !beginsConstraint e).filter (fun e => !hidesConstraint e)
        = (columnElements rest).filter fun e => !beginsConstraint e := by
      refine List.filter_eq_self.2 fun e he => ?_
      rw [none e (List.mem_filter.1 he).1]
      rfl
    rwa [same] at columns

/-! ## Names with constraint words in them -/

namespace ConstraintWords

def list : List Char := "(a INT, \"is unique\" INT, [a check], `PRIMARIES`, Unique (a))".toList

def table : DeclaredObject where
  name := "t"
  kind := .table
  columns :=
    [⟨"a", "INT", none, none, "a INT"⟩, ⟨"is unique", "INT", none, none, "\"is unique\" INT"⟩,
      ⟨"a check", "", none, none, "[a check]"⟩, ⟨"PRIMARIES", "", none, none, "`PRIMARIES`"⟩]
  withoutRowid := false

theorem declaredTable_list : declaredTable "t" list = .ok table := by decide +kernel

/-- Where the constraint words of names do not stand first, every element but the constraint has its column. -/
theorem list_columns :
    declaredTable "t" list = .ok table ∧
      List.Forall₂ (fun e c => columnDefinition e = .ok c)
        ((columnElements list).filter fun e => !beginsConstraint e) table.columns ∧
      ((columnElements list).filter fun e => !beginsConstraint e)
        = ["a INT".toList, "\"is unique\" INT".toList, "[a check]".toList, "`PRIMARIES`".toList] :=
  ⟨declaredTable_list, (declaredTable_columns declaredTable_list).2.2 (by decide +kernel), by decide +kernel⟩

/-- Names that begin with a constraint word cost the table their columns. -/
theorem column_lost :
    ∃ o, DeclaredObject.ofStatement "CREATE TABLE t (a INT, \"unique id\" INT, [check] TEXT)" = .ok o ∧
      o.columns = [⟨"a", "INT", none, none, "a INT"⟩] ∧
      ((columnElements "(a INT, \"unique id\" INT, [check] TEXT)".toList).filter fun e => !beginsConstraint e)
        = ["a INT".toList, "\"unique id\" INT".toList, "[check] TEXT".toList] ∧
      ¬ List.Forall₂ (fun e c => columnDefinition e = .ok c)
        ["a INT".toList, "\"unique id\" INT".toList, "[check] TEXT".toList] o.columns := by
  refine ⟨⟨"t", .table, [⟨"a", "INT", none, none, "a INT"⟩], false⟩, by decide +kernel, rfl, by decide +kernel, ?_⟩
  intro all
  exact absurd all.length_eq (by decide)

end ConstraintWords

end SqlDialects.Schema
