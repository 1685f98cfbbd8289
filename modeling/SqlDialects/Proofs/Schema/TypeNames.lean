import SqlDialects.Proofs.Schema.Casts
import SqlDialects.Proofs.Schema.Columns
import SqlDialects.Schema.Reader

/-!
# Names of types, read word by word and by patterns

The type of a column is read in two ways. A definition in a creation statement is read word by word, and the words are
joined again, one blank apart (`columnDefinition_type`). A catalog declares the type as a text, from which measures are
removed by a pattern that leaves the blanks between the words as they are (`withoutMeasures_type`).

For a generated column the words `GENERATED ALWAYS` are removed too, wherever they stand. No word of a type is a
`GENERATED`, but one may end in it before a word that begins with `ALWAYS`, and only then the pattern matches
(`IsTypeName.exists_takeGeneratedAlways_iff`).
-/

set_option autoImplicit false

namespace SqlDialects.Schema

open Text

/-! ## What is written -/

/-- A word that may stand in the type of a column. -/
structure IsTypeWord (w : List Char) : Prop where
  full : w ≠ []
  plain : ∀ c ∈ w, isPlainWordChar c = true
  unreserved : isWordOf constraintWords w = false

/-- Words of a type with blanks between them. -/
inductive IsTypeName : List (List Char) → List Char → Prop where
  | one {w : List Char} (hw : IsTypeWord w) : IsTypeName [w] w
  | more {w gap cs : List Char} {words : List (List Char)} (hw : IsTypeWord w) (full : gap ≠ [])
    (blank : ∀ c ∈ gap, isBlank c = true) (h : IsTypeName words cs) : IsTypeName (w :: words) (w ++ (gap ++ cs))

/-- What stands behind the words of a type: nothing, or a measure behind blanks. -/
inductive IsTypeSuffix : Option Measure → List Char → Prop where
  | none : IsTypeSuffix none []
  | some {m : Measure} {blanks cs : List Char} (blank : ∀ c ∈ blanks, isBlank c = true) (hm : IsMeasure (some m) cs) :
    IsTypeSuffix (some m) (blanks ++ cs)

/-- The end of one word and the start of the next do not make up a `GENERATED ALWAYS`. -/
def StaysApart (v w : List Char) : Prop :=
  ¬ ("generated".toList <:+ v.map lowerChar ∧ "always".toList <+: w.map lowerChar)

/-! ## Names of types -/

section Names

variable {words : List (List Char)} {w cs r suffix : List Char} {m : Option Measure}

theorem IsTypeWord.head?_append (hw : IsTypeWord w) : ∀ c ∈ (w ++ r).head?, isPlainWordChar c = true := by
  obtain ⟨c, w, rfl⟩ := List.exists_cons_of_ne_nil hw.full
  exact forall_head?_cons (hw.plain c List.mem_cons_self)

theorem IsTypeName.head? (h : IsTypeName words cs) : ∀ c ∈ (cs ++ r).head?, isPlainWordChar c = true := by
  cases h with
  | one hw => exact hw.head?_append
  | more hw =>
    rw [List.append_assoc]
    exact hw.head?_append

theorem IsTypeName.ne_nil (h : IsTypeName words cs) : cs ≠ [] := by
  cases h with
  | one hw => exact hw.full
  | more hw => exact List.append_ne_nil_of_left_ne_nil hw.full _

theorem IsTypeName.words_ne_nil (h : IsTypeName words cs) : words ≠ [] := by
  cases h <;> exact List.cons_ne_nil _ _

theorem IsTypeName.getLast? (h : IsTypeName words cs) : ∀ c ∈ cs.getLast?, isPlainWordChar c = true := by
  induction h with
  | one hw => exact fun c hc => hw.plain c (List.mem_of_getLast? hc)
  | @more w gap cs words hw full blank h ih =>
    rwa [← List.append_assoc, List.getLast?_append_of_ne_nil _ h.ne_nil]

/-- Nothing in a name begins a measure. -/
theorem IsTypeName.plain_or_blank (h : IsTypeName words cs) :
    ∀ c ∈ cs, isPlainWordChar c = true ∨ isBlank c = true := by
  induction h with
  | one hw => exact fun c hc => .inl (hw.plain c hc)
  | more hw full blank h ih =>
    simp only [List.forall_mem_append]
    exact ⟨fun c hc => .inl (hw.plain c hc), fun c hc => .inr (blank c hc), ih⟩

theorem IsTypeName.trimChars_append (h : IsTypeName words cs) (blank : ∀ c ∈ r, isBlank c = true) :
    trimChars (cs ++ r) = cs := by
  have first := h.head? (r := [])
  rw [List.append_nil] at first
  exact trimChars_blanks (List.forall_mem_nil _) blank (fun c hc => isBlank_of_isPlainWordChar (first c hc))
    fun c hc => isBlank_of_isPlainWordChar (h.getLast? c hc)

end Names

/-! ## Read word by word -/

section Words

variable {words : List (List Char)} {w cs r blanks suffix : List Char} {m : Option Measure}

/-- A word is read up to its end. -/
theorem takeTypeWords_word (hw : IsTypeWord w) (blank : ∀ c ∈ blanks, isBlank c = true)
    (ends : ∀ c ∈ r.head?, isPlainWordChar c = false) :
    takeTypeWords (blanks ++ (w ++ r)) = (w :: (takeTypeWords r).1, (takeTypeWords r).2) := by
  have start : trimStart (blanks ++ (w ++ r)) = w ++ r :=
    (takeWhile_run blank fun c hc => isBlank_of_isPlainWordChar (hw.head?_append c hc)).2
  have run := takeWhile_run hw.plain ends
  have unreserved := hw.unreserved
  obtain ⟨c, w, rfl⟩ := List.exists_cons_of_ne_nil hw.full
  rw [takeTypeWords_of_cons (by rw [start, run.1]) unreserved, start, run.2]

theorem takeTypeWords_isTypeName (h : IsTypeName words cs) (blank : ∀ c ∈ blanks, isBlank c = true)
    (ends : ∀ c ∈ r.head?, isPlainWordChar c = false) (done : (takeTypeWords r).1 = []) :
    takeTypeWords (blanks ++ (cs ++ r)) = (words, (takeTypeWords r).2) := by
  induction h generalizing blanks with
  | one hw => rw [takeTypeWords_word hw blank ends, done]
  | @more w gap cs words hw full blank' h ih =>
    have stops : ∀ c ∈ (gap ++ (cs ++ r)).head?, isPlainWordChar c = false := by
      obtain ⟨b, gap, rfl⟩ := List.exists_cons_of_ne_nil full
      exact forall_head?_cons (isPlainWordChar_of_isBlank (blank' b List.mem_cons_self))
    rw [List.append_assoc, List.append_assoc, takeTypeWords_word hw blank stops, ih blank']

theorem IsMeasure.exists_eq_cons {m : Measure} (h : IsMeasure (some m) cs) : ∃ cs', cs = '(' :: cs' := by
  cases h <;> exact ⟨_, rfl⟩

theorem IsMeasure.takeMeasure_eq {m : Measure} (h : IsMeasure (some m) cs) : takeMeasure cs = some (m, []) :=
  takeMeasure_eq_some_iff.2 ⟨cs, (List.append_nil cs).symm, h⟩

/-- Behind the words of a type a measure is found, whatever blanks are before it. -/
theorem IsTypeSuffix.takeTypeWords_eq (h : IsTypeSuffix m suffix) :
    (takeTypeWords suffix).1 = [] ∧ (takeMeasure (takeTypeWords suffix).2).map Prod.fst = m := by
  cases h with
  | none =>
    rw [takeTypeWords_of_nil rfl]
    exact ⟨rfl, rfl⟩
  | @some m blanks cs blank hm =>
    obtain ⟨cs', rfl⟩ := hm.exists_eq_cons
    have start : trimStart (blanks ++ '(' :: cs') = '(' :: cs' :=
      (takeWhile_run blank (forall_head?_cons (by decide))).2
    have none : (trimStart (blanks ++ '(' :: cs')).takeWhile isPlainWordChar = [] := by
      rw [start]
      exact List.takeWhile_cons_of_neg (by decide)
    rw [takeTypeWords_of_nil none, start, hm.takeMeasure_eq]
    exact ⟨rfl, rfl⟩

theorem IsTypeSuffix.head? (h : IsTypeSuffix m suffix) : ∀ c ∈ suffix.head?, isPlainWordChar c = false := by
  cases h with
  | none => simp
  | @some m blanks cs blank hm =>
    obtain ⟨cs', rfl⟩ := hm.exists_eq_cons
    cases blanks with
    | nil => exact forall_head?_cons (by decide)
    | cons b blanks => exact forall_head?_cons (isPlainWordChar_of_isBlank (blank b List.mem_cons_self))

/-- A definition declares the words of its type, one blank apart, with the measure behind them. -/
theorem columnDefinition_type {definition name : List Char} (h : IsTypeName words cs) (hs : IsTypeSuffix m suffix)
    (blank : ∀ c ∈ blanks, isBlank c = true) (hn : leadingName definition = some (name, blanks ++ (cs ++ suffix))) :
    columnDefinition definition = .ok
      { name := String.ofList name
        typeName := String.ofList ([' '].intercalate words)
        precision := Measure.precision? m
        scale := Measure.scale? m
        declaration := String.ofList definition } := by
  obtain ⟨done, measured⟩ := hs.takeTypeWords_eq
  rw [columnDefinition_eq hn (takeTypeWords_isTypeName h blank hs.head? done)]
  have full : words.isEmpty = false := List.isEmpty_eq_false_iff.2 h.words_ne_nil
  simp only [full, Bool.false_eq_true, if_false, measured]

end Words

/-! ## Read by patterns -/

section Patterns

variable {take : List Char → Option (List Char)} {c : Char} {cs r rest : List Char}

/-- Whatever a step takes, it takes a character that is not blank. -/
def TakesVisible (take : List Char → Option (List Char)) : Prop :=
  ∀ cs rest, take cs = some rest → ∃ taken, cs = taken ++ rest ∧ ∃ c ∈ taken, isBlank c = false

theorem removing_covered (take : List Char → Option (List Char)) (n : Nat) (cs : List Char) :
    removing take n cs = removing take 0 (cs.drop n) := by
  induction cs generalizing n with
  | nil => simp [removing]
  | cons c cs ih =>
    cases n with
    | zero => rfl
    | succ n => rw [removing, ih, List.drop_succ_cons]

theorem removing_of_none (h : take (c :: cs) = none) : removing take 0 (c :: cs) = c :: removing take 0 cs := by
  rw [removing, h]

theorem removing_of_some (ht : TakesVisible take) (h : take cs = some rest) :
    removing take 0 cs = removing take 0 rest := by
  obtain ⟨taken, hcs, visible⟩ := ht cs rest h
  obtain ⟨a, taken, rfl⟩ : ∃ a taken', taken = a :: taken' := by
    obtain ⟨a, ha, -⟩ := visible
    exact List.exists_cons_of_ne_nil (List.ne_nil_of_mem ha)
  rw [List.cons_append] at hcs
  subst hcs
  have left : (taken ++ rest).length - rest.length = taken.length := by
    rw [List.length_append, Nat.add_sub_cancel]
  rw [removing, h]
  dsimp only
  rw [removing_covered, left, List.drop_left]

/-- What nothing is taken from is kept. -/
theorem removing_append (h : ∀ before behind, cs = before ++ behind → behind ≠ [] → take (behind ++ r) = none) :
    removing take 0 (cs ++ r) = cs ++ removing take 0 r := by
  induction cs with
  | nil => rfl
  | cons c cs ih =>
    have here : take (c :: (cs ++ r)) = none := h [] (c :: cs) rfl (List.cons_ne_nil _ _)
    rw [List.cons_append, removing_of_none here, ih, List.cons_append]
    rintro before behind rfl hne
    exact h (c :: before) behind rfl hne

/-- How many characters of a text are not blank. -/
def countVisible (cs : List Char) : Nat := cs.countP fun c => !isBlank c

theorem countVisible_removing_le (ht : TakesVisible take) (cs : List Char) :
    countVisible (removing take 0 cs) ≤ countVisible cs := by
  induction hl : cs.length using Nat.strong_induction_on generalizing cs with
  | _ n ih =>
    subst hl
    cases cs with
    | nil => rw [removing]
    | cons c cs =>
      cases h : take (c :: cs) with
      | none =>
        have := ih cs.length (Nat.lt_succ_self _) cs rfl
        simp only [countVisible, removing_of_none h, List.countP_cons] at this ⊢
        omega
      | some rest =>
        obtain ⟨taken, hcs, a, ha, -⟩ := ht _ rest h
        have shorter : rest.length < (c :: cs).length := by
          rw [hcs, List.length_append]
          exact Nat.lt_add_of_pos_left (List.length_pos_of_mem ha)
        have := ih rest.length shorter rest rfl
        rw [removing_of_some ht h, hcs]
        simp only [countVisible, List.countP_append] at this ⊢
        omega

theorem countVisible_removing_lt_of_some (ht : TakesVisible take) (h : take cs = some rest) :
    countVisible (removing take 0 cs) < countVisible cs := by
  obtain ⟨taken, rfl, a, ha, visible⟩ := ht cs rest h
  have left := countVisible_removing_le ht rest
  have gone : 0 < countVisible taken := List.countP_pos_iff.2 ⟨a, ha, by simp [visible]⟩
  rw [removing_of_some ht h]
  simp only [countVisible, List.countP_append] at left gone ⊢
  omega

/-- Where anything is taken, less is left that is not blank. -/
theorem countVisible_removing_lt (ht : TakesVisible take) {before behind : List Char} (h : (take behind).isSome) :
    countVisible (removing take 0 (before ++ behind)) < countVisible (before ++ behind) := by
  induction before with
  | nil =>
    obtain ⟨rest, h⟩ := Option.isSome_iff_exists.1 h
    exact countVisible_removing_lt_of_some ht h
  | cons b before ih =>
    cases hb : take (b :: (before ++ behind)) with
    | some rest => exact countVisible_removing_lt_of_some ht hb
    | none =>
      rw [List.cons_append, removing_of_none hb]
      simp only [countVisible, List.countP_cons] at ih ⊢
      omega

theorem countVisible_trimChars_le (cs : List Char) : countVisible (trimChars cs) ≤ countVisible cs := by
  have start : (trimStart cs).Sublist cs := List.dropWhile_sublist isBlank
  have ending : (trimChars cs).reverse.Sublist (trimStart cs).reverse := by
    rw [trimChars, trimEnd, List.reverse_reverse]
    exact List.dropWhile_sublist isBlank
  exact ((List.reverse_sublist.1 ending).trans start).countP_le

end Patterns

/-! ### Measures -/

section Measures

variable {words : List (List Char)} {cs r suffix : List Char} {m : Option Measure}

/-- The rest of a text behind the measure at its start. -/
def afterMeasure (cs : List Char) : Option (List Char) := (takeMeasure cs).map Prod.snd

theorem removing_afterMeasure (h : ∀ c ∈ cs, c ≠ '(') :
    removing afterMeasure 0 (cs ++ r) = cs ++ removing afterMeasure 0 r := by
  refine removing_append fun before behind hcs full => ?_
  obtain ⟨b, behind, rfl⟩ := List.exists_cons_of_ne_nil full
  have other : b ≠ '(' := h b (hcs ▸ List.mem_append_right _ List.mem_cons_self)
  rw [List.cons_append, afterMeasure, takeMeasure_eq_none (forall_head?_cons other)]
  rfl

theorem firstMeasure?_append (h : ∀ c ∈ cs, c ≠ '(') : firstMeasure? (cs ++ r) = firstMeasure? r := by
  induction cs with
  | nil => rfl
  | cons c cs ih =>
    have none : takeMeasure (c :: (cs ++ r)) = none := takeMeasure_eq_none (forall_head?_cons (h c List.mem_cons_self))
    rw [List.cons_append, firstMeasure?, none]
    exact ih fun a ha => h a (List.mem_cons_of_mem c ha)

theorem ne_paren_of_blank (h : ∀ c ∈ cs, isBlank c = true) : ∀ c ∈ cs, c ≠ '(' := by
  rintro c hc rfl
  exact absurd (h _ hc) (by decide)

theorem IsTypeName.ne_paren (h : IsTypeName words cs) : ∀ c ∈ cs, c ≠ '(' := by
  rintro c hc rfl
  rcases h.plain_or_blank _ hc with plain | blank
  · exact absurd plain (by decide)
  · exact absurd blank (by decide)

theorem IsTypeSuffix.firstMeasure?_eq (h : IsTypeSuffix m suffix) : firstMeasure? suffix = m := by
  cases h with
  | none => rfl
  | some blank hm =>
    rw [firstMeasure?_append (ne_paren_of_blank blank)]
    have taken := hm.takeMeasure_eq
    obtain ⟨cs', rfl⟩ := hm.exists_eq_cons
    rw [firstMeasure?, taken]

/-- The pattern removes the measure behind a type and leaves the blanks before it, which are trimmed. -/
theorem withoutMeasures_type (h : IsTypeName words cs) (hs : IsTypeSuffix m suffix) :
    withoutMeasures (cs ++ suffix) = cs := by
  show trimChars (removing afterMeasure 0 (cs ++ suffix)) = cs
  rw [removing_afterMeasure h.ne_paren]
  cases hs with
  | none => exact h.trimChars_append (List.forall_mem_nil _)
  | @some m blanks cs' blank hm =>
    have taken : afterMeasure cs' = some [] := by rw [afterMeasure, hm.takeMeasure_eq]; rfl
    have gone : removing afterMeasure 0 cs' = [] := by
      obtain ⟨cs'', rfl⟩ := hm.exists_eq_cons
      rw [removing, taken]
      dsimp only
      rw [removing_covered, List.length_nil, Nat.sub_zero, List.drop_length]
      rfl
    rw [removing_afterMeasure (ne_paren_of_blank blank), gone, List.append_nil]
    exact h.trimChars_append blank

end Measures

/-! ### Words for a generated column -/

section Generated

variable {words : List (List Char)} {v w w' gap cs r rest blanks ks : List Char} {c k : Char}

theorem isReadAs_of_plain (h : isPlainWordChar c = true) : isReadAs k c = (lowerChar c == k) := by
  have other : ∀ a, isPlainWordChar a = false → c ≠ a := by
    rintro a ha rfl
    rw [ha] at h
    cases h
  have s : (c == 'ſ') = false := beq_false_of_ne (other _ (by decide))
  have kelvin : (c == '\u212a') = false := beq_false_of_ne (other _ (by decide))
  rw [isReadAs, s, kelvin, Bool.and_false, Bool.and_false, Bool.or_false, Bool.or_false]

theorem not_isReadAs_of_isBlank (hk : isPlainWordChar k = true) (h : isBlank c = true) : isReadAs k c = false := by
  by_contra reads
  have word := isWordChar_of_isReadAs hk (by simpa using reads)
  rw [not_isWordChar_of_isBlank h] at word
  cases word

/-- The front of a word is compared letter by letter. -/
theorem exists_front_cons {p : List Char → Prop} :
    (∃ front left, c :: w = front ++ left ∧ front.map lowerChar = k :: ks ∧ p left) ↔
      lowerChar c = k ∧ ∃ front left, w = front ++ left ∧ front.map lowerChar = ks ∧ p left := by
  constructor
  · rintro ⟨front, left, hfront, hf, hl⟩
    cases front with
    | nil => cases hf
    | cons a front =>
      rw [List.cons_append, List.cons.injEq] at hfront
      rw [List.map_cons, List.cons.injEq] at hf
      exact ⟨by rw [hfront.1, hf.1], front, left, hfront.2, hf.2, hl⟩
  · rintro ⟨reads, front, left, rfl, hf, hl⟩
    exact ⟨c :: front, left, rfl, by rw [List.map_cons, reads, hf], hl⟩

/-- A keyword ends before the blanks behind a word. -/
theorem dropLetters_word (hk : ∀ k ∈ ks, isPlainWordChar k = true) (plain : ∀ c ∈ w, isPlainWordChar c = true)
    (blank : ∀ c ∈ r.head?, isBlank c = true) :
    dropLetters ks (w ++ r) = some rest ↔
      ∃ front left, w = front ++ left ∧ front.map lowerChar = ks ∧ rest = left ++ r := by
  induction ks generalizing w with
  | nil =>
    simp only [dropLetters, Option.some.injEq, List.map_eq_nil_iff]
    constructor
    · rintro rfl
      exact ⟨[], w, rfl, rfl, rfl⟩
    · rintro ⟨_, left, rfl, rfl, rfl⟩
      rfl
  | cons k ks ih =>
    obtain ⟨first, others⟩ := List.forall_mem_cons.1 hk
    cases w with
    | nil =>
      have none : dropLetters (k :: ks) r = none := by
        cases r with
        | nil => rfl
        | cons b r => exact if_neg (by simp [not_isReadAs_of_isBlank first (blank b rfl)])
      simp [none]
    | cons c w =>
      obtain ⟨hc, hw⟩ := List.forall_mem_cons.1 plain
      rw [List.cons_append, dropLetters, isReadAs_of_plain hc, exists_front_cons]
      by_cases reads : lowerChar c = k
      · rw [if_pos (beq_iff_eq.2 reads), ih others hw]
        simp [reads]
      · rw [if_neg (by simpa using reads)]
        simp [reads]

/-- The first word of a name, and the blanks that end it. -/
theorem IsTypeName.exists_first (h : IsTypeName (w :: words) cs) :
    IsTypeWord w ∧ ∃ r, cs = w ++ r ∧ ∀ c ∈ r.head?, isBlank c = true := by
  cases h with
  | one hw => exact ⟨hw, [], (List.append_nil w).symm, by simp⟩
  | @more w gap cs words hw full blank h =>
    obtain ⟨b, gap, rfl⟩ := List.exists_cons_of_ne_nil full
    exact ⟨hw, _, rfl, forall_head?_cons (blank b List.mem_cons_self)⟩

theorem dropKeyword_always_isSome_iff (h : IsTypeName (w :: words) cs) :
    (dropKeyword "always" cs).isSome ↔ "always".toList <+: w.map lowerChar := by
  obtain ⟨hw, r, rfl, blank⟩ := h.exists_first
  have letters : ∀ k ∈ "always".toList, isPlainWordChar k = true := List.all_eq_true.1 (by decide)
  rw [dropKeyword, Option.isSome_iff_exists]
  simp only [dropLetters_word letters hw.plain blank]
  constructor
  · rintro ⟨_, front, left, rfl, hf, -⟩
    exact ⟨left.map lowerChar, by rw [List.map_append, hf]⟩
  · rintro ⟨_, hl⟩
    obtain ⟨front, left, rfl, hf, -⟩ := List.map_eq_append_iff.1 hl.symm
    exact ⟨_, front, left, rfl, hf, rfl⟩

/-- At the end of a word `GENERATED` is followed by blanks exactly if the word has no other letters behind it. -/
theorem dropWord_generated_iff (full : v ≠ []) (plain : ∀ c ∈ v, isPlainWordChar c = true)
    (ends : ∀ c ∈ r.head?, isBlank c = true) :
    dropWord "generated" (trimStart (v ++ r)) = some rest ↔
      v.map lowerChar = "generated".toList ∧ dropBlanks r = some rest := by
  have start : trimStart (v ++ r) = v ++ r := by
    obtain ⟨c, v, rfl⟩ := List.exists_cons_of_ne_nil full
    exact trimStart_eq_self (forall_head?_cons (isBlank_of_isPlainWordChar (plain c List.mem_cons_self)))
  have letters : ∀ k ∈ "generated".toList, isPlainWordChar k = true := List.all_eq_true.1 (by decide)
  rw [start, dropWord, dropKeyword, Option.bind_eq_some_iff]
  simp only [dropLetters_word letters plain ends]
  constructor
  · rintro ⟨_, ⟨front, left, rfl, hf, rfl⟩, dropped⟩
    cases left with
    | nil => exact ⟨by rw [List.append_nil, hf], dropped⟩
    | cons a left =>
      have visible : isBlank a = false :=
        isBlank_of_isPlainWordChar (plain a (List.mem_append_right _ List.mem_cons_self))
      simp [dropBlanks, visible] at dropped
  · rintro ⟨hv, dropped⟩
    exact ⟨r, ⟨v, [], (List.append_nil v).symm, hv, rfl⟩, dropped⟩

theorem takeGeneratedAlways_blanks (blank : ∀ c ∈ blanks, isBlank c = true) :
    takeGeneratedAlways (blanks ++ cs) = takeGeneratedAlways cs := by
  have start : trimStart (blanks ++ cs) = trimStart cs := List.dropWhile_append_of_pos blank
  rw [takeGeneratedAlways, start, takeGeneratedAlways]

theorem takeGeneratedAlways_isSome_iff :
    (takeGeneratedAlways cs).isSome ↔
      ∃ left, dropWord "generated" (trimStart cs) = some left ∧ (dropKeyword "always" left).isSome := by
  rw [takeGeneratedAlways, Option.isSome_map]
  cases dropWord "generated" (trimStart cs) <;> simp

/-- From inside a word the pattern goes over to the word behind it, and no further. -/
theorem takeGeneratedAlways_word (fullv : v ≠ []) (plain : ∀ c ∈ v, isPlainWordChar c = true) (full : gap ≠ [])
    (blank : ∀ c ∈ gap, isBlank c = true) (h : IsTypeName (w :: words) cs) :
    (takeGeneratedAlways (v ++ (gap ++ cs))).isSome ↔
      v.map lowerChar = "generated".toList ∧ "always".toList <+: w.map lowerChar := by
  have first := h.head? (r := [])
  rw [List.append_nil] at first
  have dropped : dropBlanks (gap ++ cs) = some cs := by
    obtain ⟨b, gap, rfl⟩ := List.exists_cons_of_ne_nil full
    obtain ⟨hb, others⟩ := List.forall_mem_cons.1 blank
    have start : trimStart (gap ++ cs) = cs :=
      (takeWhile_run others fun c hc => isBlank_of_isPlainWordChar (first c hc)).2
    rw [List.cons_append, dropBlanks, if_pos hb, start]
  have ends : ∀ c ∈ (gap ++ cs).head?, isBlank c = true := by
    obtain ⟨b, gap, rfl⟩ := List.exists_cons_of_ne_nil full
    exact forall_head?_cons (blank b List.mem_cons_self)
  simp only [takeGeneratedAlways_isSome_iff, dropWord_generated_iff fullv plain ends, dropped, Option.some.injEq,
    and_assoc, exists_and_left, exists_eq_left', dropKeyword_always_isSome_iff h]

/-- The pattern for a generated column matches in a name exactly if two words make it up where they meet. -/
theorem IsTypeName.exists_takeGeneratedAlways_iff (h : IsTypeName words cs) :
    (∃ before behind, cs = before ++ behind ∧ (takeGeneratedAlways behind).isSome) ↔ ¬ words.IsChain StaysApart := by
  induction h with
  | @one w hw =>
    simp only [List.isChain_singleton, not_true, iff_false]
    rintro ⟨before, behind, rfl, taken⟩
    obtain ⟨left, dropped, -⟩ := takeGeneratedAlways_isSome_iff.1 taken
    have plain : ∀ c ∈ behind, isPlainWordChar c = true := fun c hc => hw.plain c (List.mem_append_right _ hc)
    have full : behind ≠ [] := by
      rintro rfl
      cases dropped
    have none := ((dropWord_generated_iff (r := []) full plain (by simp)).1 (by rwa [List.append_nil])).2
    cases none
  | @more w gap cs words hw full blank h ih =>
    obtain ⟨w', words, rfl⟩ := List.exists_cons_of_ne_nil h.words_ne_nil
    rw [List.isChain_cons_cons, not_and_or, ← ih, StaysApart, not_not]
    constructor
    · rintro ⟨before, behind, hcs, taken⟩
      rcases List.append_eq_append_iff.1 hcs with ⟨b, rfl, hb⟩ | ⟨v, rfl, rfl⟩
      · right
        rcases List.append_eq_append_iff.1 hb with ⟨b', rfl, rfl⟩ | ⟨g, rfl, rfl⟩
        · exact ⟨b', behind, rfl, taken⟩
        · rw [takeGeneratedAlways_blanks fun c hc => blank c (List.mem_append_right _ hc)] at taken
          exact ⟨[], cs, rfl, taken⟩
      · by_cases fullv : v = []
        · right
          rw [fullv, List.nil_append, takeGeneratedAlways_blanks blank] at taken
          exact ⟨[], cs, rfl, taken⟩
        · left
          have plain : ∀ c ∈ v, isPlainWordChar c = true := fun c hc => hw.plain c (List.mem_append_right _ hc)
          obtain ⟨generated, always⟩ := (takeGeneratedAlways_word fullv plain full blank h).1 taken
          exact ⟨⟨before.map lowerChar, by rw [List.map_append, generated]⟩, always⟩
    · rintro (⟨⟨_, hg⟩, always⟩ | ⟨before, behind, rfl, taken⟩)
      · obtain ⟨front, v, rfl, -, generated⟩ := List.map_eq_append_iff.1 hg.symm
        have fullv : v ≠ [] := by
          rintro rfl
          cases generated
        have plain : ∀ c ∈ v, isPlainWordChar c = true := fun c hc => hw.plain c (List.mem_append_right _ hc)
        exact ⟨front, _, List.append_assoc _ _ _,
          (takeGeneratedAlways_word fullv plain full blank h).2 ⟨generated, always⟩⟩
      · exact ⟨w ++ (gap ++ before), behind, by simp, taken⟩

theorem length_dropLetters (h : dropLetters ks cs = some rest) : cs.length = ks.length + rest.length := by
  induction ks generalizing cs with
  | nil =>
    cases h
    exact (Nat.zero_add _).symm
  | cons k ks ih =>
    cases cs with
    | nil => cases h
    | cons c cs =>
      rw [dropLetters] at h
      split at h
      · rw [List.length_cons, List.length_cons, ih h, Nat.add_right_comm]
      · cases h

theorem takesVisible_takeGeneratedAlways : TakesVisible takeGeneratedAlways := by
  intro cs rest h
  obtain ⟨left', always, hrest⟩ := Option.map_eq_some_iff.1 h
  obtain ⟨left, generated, always⟩ := Option.bind_eq_some_iff.1 always
  obtain ⟨blanks, hcs, -, -⟩ := trimStart_eq_iff.1 (rfl : trimStart cs = trimStart cs)
  obtain ⟨word, hword, -⟩ := exists_of_dropWord (by decide) generated
  obtain ⟨word', hword', read⟩ := exists_of_dropLetters always
  obtain ⟨blanks', hleft', -, -⟩ := trimStart_eq_iff.1 hrest
  -- The second word is enough: its first letter is not blank.
  have visible : ∃ c ∈ word', isBlank c = false := by
    cases word' with
    | nil =>
      have shorter := length_dropLetters always
      rw [hword', List.nil_append] at shorter
      exact absurd shorter (Nat.ne_of_lt (Nat.lt_add_of_pos_left (by decide)))
    | cons c word' =>
      obtain ⟨k, hk, reads⟩ := read c List.mem_cons_self
      have plain : ∀ k ∈ "always".toList, isPlainWordChar k = true := List.all_eq_true.1 (by decide)
      exact ⟨c, List.mem_cons_self, not_isBlank_of_isWordChar (isWordChar_of_isReadAs (plain k hk) reads)⟩
  obtain ⟨c, hc, hb⟩ := visible
  refine ⟨blanks ++ (word ++ (word' ++ blanks')), ?_, c, by simp [hc], hb⟩
  rw [hcs, hword, hword', hleft']
  simp only [List.append_assoc]

/-- Without such words the name of a generated column is left as it is, and with them it is cut. -/
theorem withoutGeneration_isTypeName (h : IsTypeName words cs) :
    (words.IsChain StaysApart → withoutGeneration cs = cs) ∧
      (¬ words.IsChain StaysApart → countVisible (withoutGeneration cs) < countVisible cs) := by
  constructor
  · intro apart
    have none : ∀ before behind, cs = before ++ behind → behind ≠ [] → takeGeneratedAlways (behind ++ []) = none := by
      intro before behind hcs _
      rw [List.append_nil, ← Option.not_isSome_iff_eq_none]
      intro taken
      exact h.exists_takeGeneratedAlways_iff.1 ⟨before, behind, hcs, taken⟩ apart
    have kept := removing_append none
    have trimmed := h.trimChars_append (List.forall_mem_nil _)
    rw [List.append_nil] at kept trimmed
    rw [withoutGeneration, kept, removing, List.append_nil, trimmed]
  · intro meets
    obtain ⟨before, behind, rfl, taken⟩ := h.exists_takeGeneratedAlways_iff.2 meets
    exact Nat.lt_of_le_of_lt (countVisible_trimChars_le _)
      (countVisible_removing_lt takesVisible_takeGeneratedAlways taken)

end Generated

/-! ## One blank apart -/

section Joined

variable {words : List (List Char)} {w cs : List Char} {c : Char}

theorem IsTypeName.joined (h : IsTypeName words cs) : IsTypeName words ([' '].intercalate words) := by
  induction h with
  | one hw =>
    rw [List.intercalate_singleton]
    exact .one hw
  | more hw full blank h ih =>
    obtain ⟨w', words, rfl⟩ := List.exists_cons_of_ne_nil h.words_ne_nil
    rw [List.intercalate_cons_cons, List.append_assoc]
    exact .more hw (List.cons_ne_nil _ _) (List.forall_mem_singleton.2 (by decide)) ih

/-- All that is not blank is in the words. -/
theorem IsTypeName.countVisible_eq (h : IsTypeName words cs) : countVisible cs = countVisible words.flatten := by
  induction h with
  | one hw => rw [List.flatten_singleton]
  | @more w gap cs words hw full blank h ih =>
    have none : countVisible gap = 0 := List.countP_eq_zero.2 fun c hc => by simp [blank c hc]
    simp only [countVisible, List.countP_append, List.flatten_cons] at ih none ⊢
    omega

/-- A name that is not one blank between its words has another blank, or two of them. -/
theorem IsTypeName.eq_joined_or (h : IsTypeName words cs) :
    cs = [' '].intercalate words ∨ (∃ c ∈ cs, isBlank c = true ∧ c ≠ ' ') ∨ [' ', ' '] <:+: cs := by
  induction h with
  | one hw => exact .inl List.intercalate_singleton.symm
  | @more w gap cs words hw full blank h ih =>
    obtain ⟨w', words, rfl⟩ := List.exists_cons_of_ne_nil h.words_ne_nil
    obtain ⟨b, gap, rfl⟩ := List.exists_cons_of_ne_nil full
    obtain ⟨hb, others⟩ := List.forall_mem_cons.1 blank
    by_cases other : ∃ c ∈ b :: gap, c ≠ ' '
    · obtain ⟨c, hc, hne⟩ := other
      exact .inr (.inl ⟨c, List.mem_append_right _ (List.mem_append_left _ hc), blank c hc, hne⟩)
    · have spaces : ∀ c ∈ b :: gap, c = ' ' := by simpa using other
      obtain rfl : b = ' ' := spaces b List.mem_cons_self
      cases gap with
      | cons b' gap =>
        obtain rfl : b' = ' ' := spaces b' (by simp)
        exact .inr (.inr ⟨w, gap ++ cs, by simp⟩)
      | nil =>
        rcases ih with rfl | ⟨c, hc, odd⟩ | ⟨before, behind, two⟩
        · left
          rw [List.intercalate_cons_cons, List.append_assoc]
        · exact .inr (.inl ⟨c, by simp [hc], odd⟩)
        · exact .inr (.inr ⟨w ++ ' ' :: before, behind, by simp [← two]⟩)

theorem IsTypeName.isInfix (h : IsTypeName words cs) (hw : w ∈ words) : w <:+: cs := by
  induction h with
  | one => exact List.mem_singleton.1 hw ▸ List.infix_refl _
  | @more v gap cs words hv full blank h ih =>
    rcases List.mem_cons.1 hw with rfl | hw
    · exact (List.prefix_append _ _).isInfix
    · exact (ih hw).trans ⟨v ++ gap, [], by simp⟩

/-- Where two words make up a `GENERATED ALWAYS`, one of them ends in `GENERATED`. -/
theorem exists_of_not_isChain (h : ¬ words.IsChain StaysApart) :
    ∃ w ∈ words, "generated".toList <:+ w.map lowerChar := by
  induction words with
  | nil => exact absurd .nil h
  | cons w words ih =>
    cases words with
    | nil => exact absurd (List.isChain_singleton w) h
    | cons w' words =>
      rw [List.isChain_cons_cons, not_and_or, StaysApart, not_not] at h
      rcases h with ⟨generated, -⟩ | h
      · exact ⟨w, List.mem_cons_self, generated⟩
      · obtain ⟨v, hv, generated⟩ := ih h
        exact ⟨v, List.mem_cons_of_mem w hv, generated⟩

end Joined

end SqlDialects.Schema
