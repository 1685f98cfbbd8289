import SqlDialects.Proofs.Grammar.Lexeme

/-!
# Texts and backslashes

Some databases read a backslash in a text as an escape. The literal of a text doubles its quotes and nothing else,
so there a backslash is taken together with what stands behind it, which may be the quote that was to close the
literal. A text is read back exactly if none of its backslashes is taken for an escape
(`Lexeme.read_backslashes_iff`): each stands before a percent sign or an underscore, with which it stands for
itself. At the first other backslash the reading goes wrong, and it does not end at the right place with the right
value by chance: that would take a value longer than the text it is read from (`Lexeme.length_close_doubling`).
-/

set_option autoImplicit false

namespace SqlDialects.Lexeme

/-- Whether a backslash before a character stands for itself. -/
def isKept (c : Char) : Bool := c == '%' || c == '_'

/-- Whether each backslash of a text stands for itself. -/
def keepsBackslashes : List Char → Bool
  | [] => true
  | c :: cs => (c != '\\' || cs.head?.any isKept) && keepsBackslashes cs

variable {c : Char} {cs r value : List Char}

theorem value?_backslash (c : Char) : Escapes.backslash.value? '\\' c = some (Escapes.behindBackslash c) := rfl

theorem value?_of_ne (h : c ≠ '\\') (c' : Char) : Escapes.backslash.value? c c' = none := if_neg h

theorem eq_of_isKept (h : isKept c = true) : c = '%' ∨ c = '_' :=
  (Bool.or_eq_true_iff.1 h).imp eq_of_beq eq_of_beq

theorem behindBackslash_of_isKept (h : isKept c = true) : Escapes.behindBackslash c = ['\\', c] := by
  rcases eq_of_isKept h with rfl | rfl <;> rfl

/-- Any other character behind a backslash stands for one, and only a backslash for a backslash. -/
theorem behindBackslash_of_not_isKept (h : isKept c = false) :
    ∃ c', Escapes.behindBackslash c = [c'] ∧ (c' = '\\' → c = '\\') := by
  unfold Escapes.behindBackslash
  split
  · exact ⟨_, rfl, by decide⟩
  · exact ⟨_, rfl, by decide⟩
  · exact ⟨_, rfl, by decide⟩
  · exact ⟨_, rfl, by decide⟩
  · exact ⟨_, rfl, by decide⟩
  · exact ⟨_, rfl, by decide⟩
  · cases h
  · cases h
  · exact ⟨_, rfl, id⟩

/-- A character that is no backslash stands for itself, a quote when it is doubled. -/
theorem close_doubling_cons (h : c ≠ '\\') :
    close .backslash '\'' (Text.doubling '\'' (c :: cs) ++ '\'' :: r)
      = (close .backslash '\'' (Text.doubling '\'' cs ++ '\'' :: r)).map fun p => (c :: p.1, p.2) := by
  by_cases hc : c = '\''
  · subst hc
    rw [Text.doubling, if_pos rfl, List.cons_append, List.cons_append, close_pair]
  · rw [Text.doubling, if_neg hc, List.cons_append, close_plain hc (value?_of_ne h)]

/-- So does a backslash that is kept. -/
theorem close_kept (h : isKept c = true) :
    close .backslash '\'' ('\\' :: c :: cs) = (close .backslash '\'' (c :: cs)).map fun p => ('\\' :: p.1, p.2) := by
  have plain : c ≠ '\'' ∧ c ≠ '\\' := by
    rcases eq_of_isKept h with rfl | rfl <;> decide
  rw [close_escape (by decide) (value?_backslash c), behindBackslash_of_isKept h,
    close_plain plain.1 (value?_of_ne plain.2), Option.map_map]
  rfl

/-! ## The length of what is read -/

/-- Two for each character, and one for a quote, for a quote is written as two. -/
def weight : List Char → Nat
  | [] => 0
  | c :: cs => (if c = '\'' then 1 else 2) + weight cs

theorem weight_cons (c : Char) (cs : List Char) : weight (c :: cs) = (if c = '\'' then 1 else 2) + weight cs := rfl

theorem weight_doubling_append (cs r : List Char) :
    weight (Text.doubling '\'' cs ++ r) = 2 * cs.length + weight r := by
  induction cs with
  | nil => simp [Text.doubling]
  | cons c cs ih =>
    by_cases hc : c = '\''
    · rw [Text.doubling, if_pos hc, List.cons_append, List.cons_append, weight_cons, weight_cons, ih, if_pos rfl,
        List.length_cons]
      omega
    · rw [Text.doubling, if_neg hc, List.cons_append, weight_cons, ih, if_neg hc, List.length_cons]
      omega

/-- The value of an escape weighs no more than the escape. -/
theorem length_behindBackslash_le (c : Char) :
    2 * (Escapes.behindBackslash c).length ≤ 2 + if c = '\'' then 1 else 2 := by
  cases hc : isKept c with
  | true =>
    have hq : c ≠ '\'' := by
      rcases eq_of_isKept hc with rfl | rfl <;> decide
    rw [behindBackslash_of_isKept hc, if_neg hq]
    exact Nat.le_refl 4
  | false =>
    obtain ⟨c', hv, -⟩ := behindBackslash_of_not_isKept hc
    rw [hv, List.length_singleton]
    omega

theorem exists_of_map_eq {o : Option (List Char × List Char)} {f : List Char → List Char}
    (h : (o.map fun p => (f p.1, p.2)) = some (value, r)) : ∃ v, o = some (v, r) ∧ f v = value := by
  obtain ⟨⟨v, r'⟩, ho, hp⟩ := Option.map_eq_some_iff.1 h
  cases hp
  exact ⟨v, ho, rfl⟩

/-- What is read weighs less than the text that it is read from, by the quote that closes it at least. -/
theorem length_close_lt (h : close .backslash '\'' cs = some (value, r)) :
    2 * value.length + weight r < weight cs := by
  fun_induction close .backslash '\'' cs generalizing value with
  | case1 => cases h
  | case2 =>
    cases h
    decide
  | case3 c hc => cases h
  | case4 cs ih =>
    obtain ⟨v, hv, rfl⟩ := exists_of_map_eq h
    have rest := ih hv
    simp only [weight_cons, List.length_cons, if_true]
    omega
  | case5 c' cs hc' =>
    cases h
    rw [weight_cons '\'', if_pos rfl, List.length_nil]
    omega
  | case6 c c' cs hc escaped he ih =>
    obtain ⟨v, hv, rfl⟩ := exists_of_map_eq h
    have rest := ih hv
    -- Only a backslash escapes.
    have hb : c = '\\' := by
      by_contra hb
      rw [value?_of_ne hb] at he
      cases he
    have hescaped : escaped = Escapes.behindBackslash c' := by
      rw [hb, value?_backslash] at he
      exact (Option.some.inj he).symm
    have short := length_behindBackslash_le c'
    rw [weight_cons, weight_cons, if_neg hc, List.length_append, hescaped]
    omega
  | case7 c c' cs hc he ih =>
    obtain ⟨v, hv, rfl⟩ := exists_of_map_eq h
    have rest := ih hv
    rw [weight_cons, if_neg hc, List.length_cons]
    omega

/-- So the value read from a literal, up to the end of that literal, is no longer than the text in it. -/
theorem length_close_doubling (h : close .backslash '\'' (Text.doubling '\'' cs ++ '\'' :: r) = some (value, r)) :
    value.length ≤ cs.length := by
  have shorter := length_close_lt h
  rw [weight_doubling_append, weight_cons, if_pos rfl] at shorter
  omega

/-! ## What is read back -/

/-- An escape that is read as a backslash is a backslash behind another. -/
theorem close_escape_eq_backslash (hc : isKept c = false)
    (h : close .backslash '\'' ('\\' :: c :: cs) = some ('\\' :: value, r)) :
    c = '\\' ∧ close .backslash '\'' cs = some (value, r) := by
  rw [close_escape (by decide) (value?_backslash c)] at h
  obtain ⟨v, hv, he⟩ := exists_of_map_eq h
  obtain ⟨c', hc', hb⟩ := behindBackslash_of_not_isKept hc
  rw [hc', List.singleton_append] at he
  obtain ⟨hfirst, rfl⟩ := List.cons.inj he
  exact ⟨hb hfirst, hv⟩

/-- A text that goes on behind an escaping backslash is not read as it was. -/
theorem close_doubling_ne {a : Char} (ha : isKept a = false) :
    close .backslash '\'' ('\\' :: (Text.doubling '\'' (a :: cs) ++ '\'' :: r)) ≠ some ('\\' :: a :: cs, r) := by
  intro h
  by_cases hq : a = '\''
  · rw [hq, Text.doubling, if_pos rfl] at h
    exact absurd (close_escape_eq_backslash (by decide) h).1 (by decide)
  · rw [Text.doubling, if_neg hq] at h
    have longer := length_close_doubling (close_escape_eq_backslash ha h).2
    rw [List.length_cons] at longer
    omega

theorem map_cons_eq_some_iff {o : Option (List Char × List Char)} :
    (o.map fun p => (c :: p.1, p.2)) = some (c :: cs, r) ↔ o = some (cs, r) := by
  constructor
  · intro h
    obtain ⟨v, ho, hv⟩ := exists_of_map_eq h
    rw [ho, (List.cons.inj hv).2]
  · intro h
    rw [h]
    rfl

/-- The inside of a literal is read up to the quote that closes it, with the text as its value, exactly if every
backslash of the text stands for itself. -/
theorem close_doubling_iff (hr : r.head? ≠ some '\'') :
    close .backslash '\'' (Text.doubling '\'' cs ++ '\'' :: r) = some (cs, r) ↔ keepsBackslashes cs = true := by
  induction cs with
  | nil => exact ⟨fun _ => rfl, fun _ => close_end hr⟩
  | cons c cs ih =>
    by_cases hc : c = '\\'
    · subst hc
      have opened : Text.doubling '\'' ('\\' :: cs) ++ '\'' :: r = '\\' :: (Text.doubling '\'' cs ++ '\'' :: r) := rfl
      rw [opened]
      cases cs with
      | nil =>
        -- The backslash takes the quote that is to close the literal.
        refine ⟨fun h => ?_, fun h => by cases h⟩
        exact absurd (close_escape_eq_backslash (by decide) h).1 (by decide)
      | cons a cs =>
        have behind : keepsBackslashes ('\\' :: a :: cs) = (isKept a && keepsBackslashes (a :: cs)) := rfl
        cases ha : isKept a with
        | true =>
          have hq : a ≠ '\'' := by
            rcases eq_of_isKept ha with rfl | rfl <;> decide
          rw [Text.doubling, if_neg hq, List.cons_append] at ih ⊢
          rw [close_kept ha, behind, ha, Bool.true_and]
          exact map_cons_eq_some_iff.trans ih
        | false =>
          rw [behind, ha, Bool.false_and]
          exact ⟨fun h => absurd h (close_doubling_ne ha), fun h => by cases h⟩
    · have kept : keepsBackslashes (c :: cs) = keepsBackslashes cs := by simp [keepsBackslashes, hc]
      rw [close_doubling_cons hc, kept]
      exact map_cons_eq_some_iff.trans ih

/-- What escapes characters in the texts of a database, in the mode it starts in. -/
def escapesOf (d : Dialect) : Escapes :=
  match d.family with
  | .mySql | .mariaDb => .backslash
  | _ => .none

/-- In the databases whose lexer knows the backslash, the literal of a text is read back, to its end and with its
value, exactly if every backslash of the text stands for itself. -/
theorem read_backslashes_iff {d : Dialect} (hd : d.family = .mySql ∨ d.family = .mariaDb) (s : String)
    (hr : r.head? ≠ some '\'') :
    read (escapesOf d) d (((Value.text s).literal d).toList ++ r) = some (.text s.toList, r)
      ↔ keepsBackslashes s.toList = true := by
  have known : escapesOf d = .backslash := by
    rcases hd with h | h <;> rw [escapesOf, h]
  rw [← close_doubling_iff hr, Value.literal, Text.toList_quoted, List.cons_append, List.append_assoc,
    List.singleton_append, read, if_pos rfl, known]
  constructor
  · intro h
    obtain ⟨⟨v, r'⟩, hv, hp⟩ := Option.map_eq_some_iff.1 h
    cases hp
    exact hv
  · intro h
    rw [h]
    rfl

/-- A pattern in which a percent sign is escaped, before a bracket. -/
theorem read_backslashes_pattern :
    read (escapesOf .mariaDb) .mariaDb (((Value.text "it's 5\\%").literal .mariaDb).toList ++ [')'])
      = some (.text "it's 5\\%".toList, [')']) :=
  (read_backslashes_iff (.inr rfl) "it's 5\\%" (by decide)).2 (by decide)

/-- A text that closes its own literal: the backslash takes the first of the two quotes, the second is read as the
end, and the rest of the text is read as SQL. -/
theorem read_backslash_quote :
    read (escapesOf .mySql8) .mySql8 (((Value.text "\\' OR TRUE -- ").literal .mySql8).toList ++ [])
        = some (.text ['\''], " OR TRUE -- '".toList)
      ∧ ¬ ∀ (s : String) (r : List Char), r.head? ≠ some '\'' →
        read (escapesOf .mySql8) .mySql8 (((Value.text s).literal .mySql8).toList ++ r) = some (.text s.toList, r) := by
  have closed : read (escapesOf .mySql8) .mySql8 (((Value.text "\\' OR TRUE -- ").literal .mySql8).toList ++ [])
      = some (.text ['\''], " OR TRUE -- '".toList) := by decide +kernel
  refine ⟨closed, fun all => ?_⟩
  have back := all "\\' OR TRUE -- " [] (by decide)
  rw [closed] at back
  exact absurd back (by decide +kernel)

end SqlDialects.Lexeme
