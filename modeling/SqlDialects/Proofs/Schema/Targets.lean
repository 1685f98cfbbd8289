import SqlDialects.Proofs.Schema.Cuts
import SqlDialects.Schema.Statement

/-!
# Types in casts

The type that a cast casts to, as it is written: a name of words, and behind the name perhaps a precision, with or
without a scale, blanks around each of them (`Spells`). What follows an `AS` is read as a type up to the parenthesis
that ends the text, and each piece is found where it is written: digits end before the next character that is none, and
the name is as short as it can be, so it ends with its last word (`castFromAs?_iff`).
-/

set_option autoImplicit false

namespace SqlDialects.Schema

open Text

/-! ## What is written -/

/-- Digits with blanks around them. -/
inductive IsPadded (digits : List Char) : List Char → Prop where
  | mk {before behind : List Char} (blank : before.all isBlank = true) (full : digits ≠ [])
    (decimal : digits.all isDecimalDigit = true) (blank' : behind.all isBlank = true) :
    IsPadded digits (before ++ (digits ++ behind))

/-- What stands behind the name of a type: nothing, a precision, or a precision and a scale. -/
inductive IsMeasure : Option Measure → List Char → Prop where
  | none : IsMeasure none []
  | precision {p cs : List Char} (hp : IsPadded p cs) : IsMeasure (some ⟨p, none⟩) ('(' :: (cs ++ [')']))
  | scale {p s cs cs' : List Char} (hp : IsPadded p cs) (hs : IsPadded s cs') :
    IsMeasure (some ⟨p, some s⟩) ('(' :: (cs ++ ',' :: (cs' ++ [')'])))

/-- What stands behind the name of a type, with blanks around it. -/
inductive IsEnding (m : Option Measure) : List Char → Prop where
  | mk {before measure behind : List Char} (blank : before.all isBlank = true) (hm : IsMeasure m measure)
    (blank' : behind.all isBlank = true) : IsEnding m (before ++ (measure ++ behind))

/-- Words with spaces between them, perhaps one before the first word. -/
structure AreWords (cs : List Char) : Prop where
  words : ∀ c ∈ cs, isWordChar c = true ∨ c = ' '
  ends : ∀ c ∈ cs.getLast?, c ≠ ' '

/-- Whether a text spells the target of a cast. -/
inductive Spells : CastTarget → List Char → Prop where
  | mk {c : Char} {name ending : List Char} {m : Option Measure} (begins : beginsWord c = true) (words : AreWords name)
    (he : IsEnding m ending) : Spells ⟨c :: name, m⟩ (c :: (name ++ ending))

/-! ## Characters -/

section Characters

variable {c : Char}

theorem isWordChar_of_beginsWord (h : beginsWord c = true) : isWordChar c = true := by
  rw [beginsWord, Bool.or_eq_true, Bool.or_eq_true, Bool.or_eq_true, beq_iff_eq, beq_iff_eq, beq_iff_eq] at h
  rcases h with ((letter | rfl) | rfl) | rfl
  · exact isWordChar_of_isPlainWordChar (by simp [isPlainWordChar, letter])
  · decide
  · decide +kernel
  · decide +kernel

/-- The blank characters, by their numbers. -/
def blanks : List Nat :=
  [9, 10, 11, 12, 13, 0x20, 0x85, 0xA0, 0x1680, 0x2000, 0x2001, 0x2002, 0x2003, 0x2004, 0x2005, 0x2006, 0x2007, 0x2008,
    0x2009, 0x200A, 0x2028, 0x2029, 0x202F, 0x205F, 0x3000]

theorem toNat_mem_blanks (h : isBlank c = true) : c.toNat ∈ blanks := by
  simp only [isBlank, Bool.or_eq_true, Bool.and_eq_true, decide_eq_true_eq, beq_iff_eq] at h
  simp only [blanks, List.mem_cons, List.not_mem_nil, or_false]
  omega

theorem not_isWordChar_of_isBlank (h : isBlank c = true) : isWordChar c = false := by
  have all : ∀ n ∈ blanks, isWordChar (Char.ofNat n) = false := by decide +kernel
  have one := all _ (toNat_mem_blanks h)
  rwa [Char.ofNat_toNat] at one

theorem not_isDecimalDigit_of_isBlank (h : isBlank c = true) : isDecimalDigit c = false := by
  have all : ∀ n ∈ blanks, isDecimalDigit (Char.ofNat n) = false := by decide +kernel
  have one := all _ (toNat_mem_blanks h)
  rwa [Char.ofNat_toNat] at one

theorem not_isBlank_of_isWordChar (h : isWordChar c = true) : isBlank c = false := by
  by_contra blank
  rw [not_isWordChar_of_isBlank (by simpa using blank)] at h
  cases h

theorem not_isBlank_of_isDecimalDigit (h : isDecimalDigit c = true) : isBlank c = false := by
  by_contra blank
  rw [not_isDecimalDigit_of_isBlank (by simpa using blank)] at h
  cases h

end Characters

/-! ## Precisions -/

section Precisions

variable {c : Char} {cs ds rest : List Char}

theorem trimStart_eq_iff :
    trimStart cs = rest ↔
      ∃ before, cs = before ++ rest ∧ before.all isBlank = true ∧ ∀ c ∈ rest.head?, isBlank c = false := by
  constructor
  · rintro rfl
    refine ⟨cs.takeWhile isBlank, List.takeWhile_append_dropWhile.symm, List.all_takeWhile, fun c hc => ?_⟩
    have stops := List.head?_dropWhile_not isBlank cs
    rwa [← trimStart, Option.mem_def.1 hc] at stops
  · rintro ⟨before, rfl, blank, stops⟩
    exact (takeWhile_run (List.all_eq_true.1 blank) stops).2

theorem takeDigits_eq_some_iff :
    takeDigits cs = some (ds, rest) ↔
      cs = ds ++ rest ∧ ds ≠ [] ∧ ds.all isDecimalDigit = true ∧ ∀ c ∈ rest.head?, isDecimalDigit c = false := by
  constructor
  · intro h
    have cut := List.takeWhile_append_dropWhile (p := isDecimalDigit) (l := cs)
    have stops := List.head?_dropWhile_not isDecimalDigit cs
    have digits : (cs.takeWhile isDecimalDigit).all isDecimalDigit = true := List.all_takeWhile
    unfold takeDigits at h
    split at h
    · cases h
    · next taken =>
      cases h
      rw [taken] at cut digits
      refine ⟨cut.symm, List.cons_ne_nil _ _, digits, fun c hc => ?_⟩
      rwa [Option.mem_def.1 hc] at stops
  · rintro ⟨rfl, full, digits, stops⟩
    obtain ⟨d, ds, rfl⟩ := List.exists_cons_of_ne_nil full
    obtain ⟨taken, left⟩ := takeWhile_run (List.all_eq_true.1 digits) stops
    rw [takeDigits, taken, left]

/-- Digits with blanks around them are read before a character that is neither. -/
theorem takeDigits_padded_iff (hb : isBlank c = false) (hd : isDecimalDigit c = false) :
    (∃ left, takeDigits (trimStart cs) = some (ds, left) ∧ trimStart left = c :: rest) ↔
      ∃ padded, cs = padded ++ c :: rest ∧ IsPadded ds padded := by
  constructor
  · rintro ⟨left, taken, stops⟩
    obtain ⟨run, full, digits, -⟩ := takeDigits_eq_some_iff.1 taken
    obtain ⟨before, hcs, blank, -⟩ := trimStart_eq_iff.1 run
    obtain ⟨behind, rfl, blank', -⟩ := trimStart_eq_iff.1 stops
    exact ⟨before ++ (ds ++ behind), by simp [hcs], .mk blank full digits blank'⟩
  · rintro ⟨_, rfl, @⟨before, behind, blank, full, digits, blank'⟩⟩
    obtain ⟨d, ds, rfl⟩ := List.exists_cons_of_ne_nil full
    have first : isBlank d = false := not_isBlank_of_isDecimalDigit (List.all_eq_true.1 digits d List.mem_cons_self)
    have stops : ∀ a ∈ (behind ++ c :: rest).head?, isDecimalDigit a = false := by
      cases behind with
      | nil => exact forall_head?_cons hd
      | cons b behind =>
        exact forall_head?_cons (not_isDecimalDigit_of_isBlank (List.all_eq_true.1 blank' b List.mem_cons_self))
    refine ⟨behind ++ c :: rest, takeDigits_eq_some_iff.2 ⟨?_, full, digits, stops⟩, ?_⟩
    · exact trimStart_eq_iff.2 ⟨before, by simp, blank, forall_head?_cons first⟩
    · exact trimStart_eq_iff.2 ⟨behind, rfl, blank', forall_head?_cons hb⟩

theorem takeMeasure_eq_some_iff {m : Measure} :
    takeMeasure cs = some (m, rest) ↔ ∃ text, cs = text ++ rest ∧ IsMeasure (some m) text := by
  have closing {cs ds rest} := @takeDigits_padded_iff ')' cs ds rest (by decide) (by decide)
  have comma {cs ds rest} := @takeDigits_padded_iff ',' cs ds rest (by decide) (by decide)
  constructor
  · intro h
    unfold takeMeasure at h
    split at h
    · next cs =>
      split at h
      · cases h
      · next p left hp =>
        split at h
        · next hr =>
          cases h
          obtain ⟨text, rfl, padded⟩ := closing.1 ⟨left, hp, hr⟩
          exact ⟨'(' :: (text ++ [')']), by simp, .precision padded⟩
        · next hc =>
          obtain ⟨text, rfl, padded⟩ := comma.1 ⟨left, hp, hc⟩
          split at h
          · cases h
          · next s left' hs =>
            split at h
            · next hr =>
              cases h
              obtain ⟨text', rfl, padded'⟩ := closing.1 ⟨left', hs, hr⟩
              exact ⟨'(' :: (text ++ ',' :: (text' ++ [')'])), by simp, .scale padded padded'⟩
            · cases h
        · cases h
    · cases h
  · rintro ⟨text, rfl, written⟩
    cases written with
    | @precision p cs hp =>
      have read : ∃ left, takeDigits (trimStart (cs ++ ')' :: rest)) = some (p, left) ∧ trimStart left = ')' :: rest :=
        closing.2 ⟨cs, rfl, hp⟩
      obtain ⟨left, taken, stops⟩ := read
      simp only [List.cons_append, List.append_assoc, List.nil_append, takeMeasure, taken, stops]
    | @scale p s cs cs' hp hs =>
      have read : ∃ left, takeDigits (trimStart (cs ++ ',' :: (cs' ++ ')' :: rest))) = some (p, left) ∧
          trimStart left = ',' :: (cs' ++ ')' :: rest) := comma.2 ⟨cs, rfl, hp⟩
      have read' : ∃ left, takeDigits (trimStart (cs' ++ ')' :: rest)) = some (s, left) ∧
          trimStart left = ')' :: rest := closing.2 ⟨cs', rfl, hs⟩
      obtain ⟨left, taken, stops⟩ := read
      obtain ⟨left', taken', stops'⟩ := read'
      simp only [List.cons_append, List.append_assoc, List.nil_append, takeMeasure, taken, stops, taken', stops']

end Precisions

/-! ## Ends of casts -/

section Ends

variable {c : Char} {cs rest name ending : List Char} {m : Option Measure}

theorem takeMeasure_eq_none (h : ∀ c ∈ cs.head?, c ≠ '(') : takeMeasure cs = none := by
  cases cs with
  | nil => rfl
  | cons c cs =>
    unfold takeMeasure
    split
    · next hc => exact absurd (List.cons.inj hc).1 (h c rfl)
    · rfl

theorem castEnd?_eq_some_iff : castEnd? cs = some m ↔ ∃ ending, cs = ending ++ [')'] ∧ IsEnding m ending := by
  have closing : ∀ {cs}, trimStart cs = [')'] ↔ ∃ blanks, cs = blanks ++ [')'] ∧ blanks.all isBlank = true := by
    refine trimStart_eq_iff.trans (exists_congr fun blanks => and_congr_right fun _ => and_iff_left ?_)
    exact forall_head?_cons (by decide)
  constructor
  · intro h
    unfold castEnd? at h
    split at h
    · next m' rest hm =>
      split at h
      · next hr =>
        cases h
        obtain ⟨measure, hcs, written⟩ := takeMeasure_eq_some_iff.1 hm
        obtain ⟨before, rfl, blank, -⟩ := trimStart_eq_iff.1 hcs
        obtain ⟨behind, rfl, blank'⟩ := closing.1 hr
        exact ⟨before ++ (measure ++ behind), by simp, .mk blank written blank'⟩
      · cases h
    · split at h
      · next hr =>
        cases h
        obtain ⟨before, rfl, blank⟩ := closing.1 hr
        exact ⟨before ++ ([] ++ []), by simp, .mk blank .none rfl⟩
      · cases h
  · rintro ⟨_, rfl, @⟨before, measure, behind, blank, hm, blank'⟩⟩
    have ends : trimStart (behind ++ [')']) = [')'] := closing.2 ⟨behind, rfl, blank'⟩
    have start : trimStart (before ++ (measure ++ behind) ++ [')']) = trimStart (measure ++ (behind ++ [')'])) := by
      rw [List.append_assoc, List.append_assoc]
      exact List.dropWhile_append_of_pos (List.all_eq_true.1 blank)
    have measured : ∀ m', IsMeasure (some m') measure →
        castEnd? (before ++ (measure ++ behind) ++ [')']) = some m' := by
      intro m' written
      have opens : trimStart (measure ++ (behind ++ [')'])) = measure ++ (behind ++ [')']) := by
        cases written <;> exact trimStart_eq_self (forall_head?_cons (by decide))
      rw [castEnd?, start, opens, takeMeasure_eq_some_iff.2 ⟨measure, rfl, written⟩]
      exact if_pos ends
    cases m with
    | some m' => exact measured m' hm
    | none =>
      cases hm
      rw [castEnd?, start, List.nil_append, ends]
      rfl

/-- A cast does not end before a word. -/
theorem castEnd?_words (words : AreWords name) (full : name ≠ []) : castEnd? (name ++ rest) = none := by
  have start : ∃ c cs, trimStart (name ++ rest) = c :: cs ∧ isWordChar c = true := by
    induction name with
    | nil => exact absurd rfl full
    | cons c name ih =>
      rcases words.words c List.mem_cons_self with word | rfl
      · refine ⟨c, name ++ rest, ?_, word⟩
        exact trimStart_eq_self (forall_head?_cons (not_isBlank_of_isWordChar word))
      · have full' : name ≠ [] := by
          rintro rfl
          exact words.ends ' ' rfl rfl
        refine ih ⟨fun a ha => words.words a (List.mem_cons_of_mem _ ha), fun a ha => words.ends a ?_⟩ full'
        rwa [List.getLast?_cons_of_ne_nil full']
  obtain ⟨c, cs, trimmed, word⟩ := start
  have other : ∀ c', isWordChar c' = false → c ≠ c' := by
    rintro _ hc' rfl
    rw [word] at hc'
    cases hc'
  rw [castEnd?, trimmed, takeMeasure_eq_none (forall_head?_cons (other '(' (by decide)))]
  exact if_neg fun same => other ')' (by decide) (List.cons.inj same).1

theorem castName?_cons (goesOn : castEnd? (c :: cs) = none) (word : (isWordChar c || c == ' ') = true) :
    castName? (c :: cs) = (castName? cs).map fun t => { t with name := c :: t.name } := by
  rw [castName?.eq_def, goesOn]
  exact if_pos word

theorem castName?_eq_some_iff :
    castName? cs = some ⟨name, m⟩ ↔ ∃ ending, cs = name ++ (ending ++ [')']) ∧ AreWords name ∧ IsEnding m ending := by
  constructor
  · intro h
    fun_induction castName? cs generalizing name with
    | case1 cs m' ends =>
      cases h
      obtain ⟨ending, same, he⟩ := castEnd?_eq_some_iff.1 ends
      exact ⟨ending, same, ⟨nofun, nofun⟩, he⟩
    | case2 => cases h
    | case3 c cs word goesOn ih =>
      obtain ⟨⟨name, m⟩, read, same⟩ := Option.map_eq_some_iff.1 h
      cases same
      obtain ⟨ending, rfl, words, he⟩ := ih read
      rw [Bool.or_eq_true, beq_iff_eq] at word
      refine ⟨ending, rfl, ⟨List.forall_mem_cons.2 ⟨word, words.words⟩, ?_⟩, he⟩
      cases name with
      | cons a name =>
        rw [List.getLast?_cons_cons]
        exact words.ends
      | nil =>
        -- A cast that ends behind a space ends before it.
        rintro _ ⟨⟩ rfl
        have ends : castEnd? (ending ++ [')']) = some m := castEnd?_eq_some_iff.2 ⟨ending, rfl, he⟩
        have same : castEnd? (' ' :: (ending ++ [')'])) = castEnd? (ending ++ [')']) := rfl
        rw [List.nil_append, same, ends] at goesOn
        cases goesOn
    | case4 => cases h
  · rintro ⟨ending, rfl, words, he⟩
    induction name with
    | nil =>
      have ends : castEnd? (ending ++ [')']) = some m := castEnd?_eq_some_iff.2 ⟨ending, rfl, he⟩
      rw [List.nil_append]
      unfold castName?
      rw [ends]
    | cons c name ih =>
      have goesOn : castEnd? (c :: name ++ (ending ++ [')'])) = none := castEnd?_words words (List.cons_ne_nil c name)
      have word : (isWordChar c || c == ' ') = true := by simpa using words.words c List.mem_cons_self
      have behind : AreWords name := by
        refine ⟨fun a ha => words.words a (List.mem_cons_of_mem c ha), fun a ha => words.ends a ?_⟩
        cases name with
        | nil => cases ha
        | cons => rwa [List.getLast?_cons_cons]
      rw [List.cons_append] at goesOn ⊢
      rw [castName?_cons goesOn word, ih behind, Option.map_some]

/-- Behind an `AS` a cast ends exactly if a type is written between the two. -/
theorem castFromAs?_eq_some_iff {target : CastTarget} :
    castFromAs? cs = some target ↔ ∃ type, dropWord "as" cs = some (type ++ [')']) ∧ Spells target type := by
  constructor
  · intro h
    unfold castFromAs? at h
    split at h
    · next c cs behind =>
      split at h
      · next begins =>
        obtain ⟨⟨name, m⟩, read, rfl⟩ := Option.map_eq_some_iff.1 h
        obtain ⟨ending, rfl, words, he⟩ := castName?_eq_some_iff.1 read
        exact ⟨c :: (name ++ ending), by rw [behind, List.cons_append, List.append_assoc], .mk begins words he⟩
      · cases h
    · cases h
  · rintro ⟨_, behind, @⟨c, name, ending, m, begins, words, he⟩⟩
    have read : castName? (name ++ (ending ++ [')'])) = some ⟨name, m⟩ :=
      castName?_eq_some_iff.2 ⟨ending, rfl, words, he⟩
    rw [List.cons_append, List.append_assoc] at behind
    rw [castFromAs?, behind]
    simp only [begins, if_true, read, Option.map_some]

/-- The name of a type stands without blanks around it. -/
theorem Spells.trimChars_name {target : CastTarget} {type : List Char} (h : Spells target type) :
    trimChars target.name = target.name := by
  obtain @⟨c, name, ending, m, begins, words, -⟩ := h
  have first : isBlank c = false := not_isBlank_of_isWordChar (isWordChar_of_beginsWord begins)
  have last : ∀ a ∈ (c :: name).getLast?, isBlank a = false := by
    cases name with
    | nil =>
      rintro _ ⟨⟩
      exact first
    | cons b name =>
      intro a ha
      rw [List.getLast?_cons_cons] at ha
      have word := (words.words a (List.mem_of_getLast? ha)).resolve_right (words.ends a ha)
      exact not_isBlank_of_isWordChar word
  have trimmed := trimChars_blanks (List.forall_mem_nil _) (List.forall_mem_nil _) (forall_head?_cons first) last
  rwa [List.append_nil, List.nil_append] at trimmed

end Ends

end SqlDialects.Schema
