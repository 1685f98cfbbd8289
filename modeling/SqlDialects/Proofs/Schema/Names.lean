import SqlDialects.Proofs.Schema.Columns
import SqlDialects.Proofs.Schema.Heads

/-!
# Which names are read whole

Where a name ends is decided by one reader, which takes every word character and the dollar sign; what it is, by
another, which takes those of ASCII only. So a part of a name that is not quoted is cut short at its first character
beyond ASCII (`NamePart.isCut`), and nothing behind that part is read. Parts between quotes are read whole.

What is read of a dotted name follows from its parts (`IsDotted.lastNamePart_eq`): it is the last part if no part is cut
short, and else what is left of the first one that is, if anything is left. So objects, columns of tables and columns of
views that stand for other columns have their names exactly if no part is cut short, up to two coincidences
(`DeclaredObject.names_whole_iff`).
-/

set_option autoImplicit false

namespace SqlDialects.Schema

open Text

/-! ## Parts that are cut short -/

namespace NamePart

/-- What is read of a part that is not quoted. -/
def stem (p : NamePart) : List Char := p.name.takeWhile isPlainNameChar

/-- Whether a part is not read whole. -/
def isCut (p : NamePart) : Bool := p.quotes == .nothing && !p.name.all isPlainNameChar

end NamePart

/-- The last part of a name. -/
def lastName (parts : List NamePart) : List Char := (parts.getLast?.map NamePart.name).getD []

/-- What is read of a name: its last part, or what is left of the first part that is cut short. -/
def readName (parts : List NamePart) : Option (List Char) :=
  match parts.find? NamePart.isCut with
  | some p => if p.stem.isEmpty then none else some p.stem
  | none => parts.getLast?.map NamePart.name

/-- Whether what is left of the first part that is cut short, if any is, happens to be the last part. -/
def KeepsLast (parts : List NamePart) : Prop := ∀ p ∈ parts.find? NamePart.isCut, p.stem = lastName parts

/-! ## Names of parts -/

section Parts

variable {p : NamePart} {parts : List NamePart} {c : Char} {cs name rest next : List Char}

theorem isNameChar_of_isPlainNameChar (h : isPlainNameChar c = true) : isNameChar c = true := by
  rw [isPlainNameChar, Bool.or_eq_true] at h
  rw [isNameChar, Bool.or_eq_true]
  exact h.imp_left isWordChar_of_isPlainWordChar

theorem not_isPlainNameChar (h : isNameChar c = false) : isPlainNameChar c = false := by
  by_contra plain
  rw [isNameChar_of_isPlainNameChar (by simpa using plain)] at h
  cases h

theorem not_isBlank_of_isNameChar (h : isNameChar c = true) : isBlank c = false := by
  rw [isNameChar, Bool.or_eq_true, beq_iff_eq] at h
  rcases h with word | rfl
  · exact not_isBlank_of_isWordChar word
  · decide

/-- A name that begins with a name character is read up to the first one that is not plain. -/
theorem leadingName_plain (h : ∀ c ∈ cs.head?, isNameChar c = true) :
    leadingName cs
      = match cs.takeWhile isPlainNameChar with
        | [] => none
        | c :: name => some (c :: name, cs.dropWhile isPlainNameChar) := by
  have start : trimStart cs = cs := trimStart_eq_self fun c hc => not_isBlank_of_isNameChar (h c hc)
  have other : ∀ q, isNameChar q = false → ∀ cs', cs ≠ q :: cs' := by
    rintro q hq cs' rfl
    rw [h q rfl] at hq
    cases hq
  rw [leadingName, start]
  split
  · exact absurd rfl (other '"' (by decide) _)
  · exact absurd rfl (other '\x60' (by decide) _)
  · exact absurd rfl (other '[' (by decide) _)
  · rfl

theorem closeAt_append {close : Char} (h : close ∉ name) :
    closeAt close (name ++ close :: rest) = some (name, rest) := by
  induction name with
  | nil => exact if_pos rfl
  | cons c name ih =>
    rw [List.mem_cons, not_or] at h
    rw [List.cons_append, closeAt, if_neg (Ne.symm h.1), ih h.2]
    rfl

namespace NamePart

/-- A part that is not cut short is read whole. -/
theorem leadingName_whole (hp : p.isCut = false) (h : ∀ c ∈ rest.head?, c ≠ '"' ∧ isNameChar c = false) :
    leadingName (p.written ++ rest) = some (p.name, rest) := by
  obtain ⟨quotes, name, full, admitted⟩ := p
  cases quotes with
  | nothing =>
    have plain : name.all isPlainNameChar = true := by simpa [isCut] using hp
    obtain ⟨c, name, rfl⟩ := List.exists_cons_of_ne_nil full
    have ends : ∀ a ∈ rest.head?, isPlainNameChar a = false := fun a ha => not_isPlainNameChar (h a ha).2
    obtain ⟨taken, left⟩ := takeWhile_run (List.all_eq_true.1 plain) ends
    have first : isNameChar c = true := List.all_eq_true.1 admitted c List.mem_cons_self
    have read : leadingName (c :: name ++ rest) = _ := leadingName_plain (forall_head?_cons first)
    rw [taken, left] at read
    exact read
  | double =>
    have apart : rest.head? ≠ some '"' := fun same => (h '"' same).1 rfl
    have read : leadingName ('"' :: (doubling '"' name ++ '"' :: rest)) = some (name, rest) :=
      leadingName_quoted apart
    simpa [written] using read
  | back =>
    have free : '\x60' ∉ name := by simpa [NameQuotes.admits] using admitted
    have read : leadingName ('\x60' :: (name ++ '\x60' :: rest)) = some (name, rest) := closeAt_append free
    simpa [written] using read
  | brackets =>
    have free : ']' ∉ name := by simpa [NameQuotes.admits] using admitted
    have read : leadingName ('[' :: (name ++ ']' :: rest)) = some (name, rest) := closeAt_append free
    simpa [written] using read

/-- What is left of a part that is cut short, and the character it is cut at. -/
theorem exists_of_isCut (hp : p.isCut = true) :
    ∃ c behind, p.name = p.stem ++ c :: behind ∧ isNameChar c = true ∧ isPlainNameChar c = false ∧
      p.quotes = .nothing := by
  rw [isCut, Bool.and_eq_true, beq_iff_eq, Bool.not_eq_true'] at hp
  obtain ⟨quotes, plain⟩ := hp
  have cut := List.takeWhile_append_dropWhile (p := isPlainNameChar) (l := p.name)
  have stops := List.head?_dropWhile_not isPlainNameChar p.name
  have names := p.admitted
  rw [quotes] at names
  cases behind : p.name.dropWhile isPlainNameChar with
  | nil =>
    rw [behind, List.append_nil] at cut
    rw [← cut, List.all_takeWhile] at plain
    cases plain
  | cons c behind' =>
    rw [behind] at cut stops
    have mem : c ∈ p.name := by
      rw [← cut]
      simp
    exact ⟨c, behind', cut.symm, List.all_eq_true.1 names c mem, stops, quotes⟩

theorem leadingName_cut (hp : p.isCut = true) :
    leadingName (p.written ++ rest)
      = if p.stem.isEmpty then none else some (p.stem, p.name.dropWhile isPlainNameChar ++ rest) := by
  obtain ⟨c, behind, same, name, plain, quotes⟩ := exists_of_isCut hp
  have written : p.written = p.name := by rw [NamePart.written, quotes]
  have names : p.name.all isNameChar = true := by
    have admitted := p.admitted
    rwa [quotes] at admitted
  have first : ∀ a ∈ (p.name ++ rest).head?, isNameChar a = true := by
    obtain ⟨a, name, cons⟩ := List.exists_cons_of_ne_nil p.full
    rw [cons] at names ⊢
    exact forall_head?_cons (List.all_eq_true.1 names a List.mem_cons_self)
  have stem : ∀ a ∈ p.stem, isPlainNameChar a = true := List.all_eq_true.1 List.all_takeWhile
  obtain ⟨-, left⟩ := @takeWhile_run _ _ (c :: behind) stem (forall_head?_cons plain)
  obtain ⟨taken, left'⟩ := @takeWhile_run _ _ (c :: (behind ++ rest)) stem (forall_head?_cons plain)
  rw [written, leadingName_plain first]
  rw [← same] at left
  rw [left]
  have whole : p.name ++ rest = p.stem ++ c :: (behind ++ rest) := by rw [same]; simp
  rw [whole, taken, left']
  cases p.stem <;> rfl

end NamePart

/-! ### Dotted names -/

theorem lastNamePart_eq (cs : List Char) :
    lastNamePart cs = (leadingName cs).bind fun r =>
      match trimStart r.2 with
      | '.' :: next => lastNamePart next
      | _ => some r.1 := by
  rw [lastNamePart]
  split
  · next none =>
    rw [none]
    rfl
  · next name rest read =>
    rw [read, Option.bind_some]
    split
    · next dot => simp only [dot]
    · next other =>
      split
      · next dot => exact absurd dot (other _)
      · rfl

theorem lastNamePart_blanks {blanks : List Char} (h : blanks.all isBlank = true) :
    lastNamePart (blanks ++ cs) = lastNamePart cs := by
  have start : leadingName (blanks ++ cs) = leadingName cs := by
    have trimmed : trimStart (blanks ++ cs) = trimStart cs := List.dropWhile_append_of_pos (List.all_eq_true.1 h)
    rw [leadingName, leadingName, trimmed]
  rw [lastNamePart_eq, start, ← lastNamePart_eq]

/-- Nothing is read behind a part that is cut short. -/
theorem lastNamePart_cut (hp : p.isCut = true) :
    lastNamePart (p.written ++ rest) = if p.stem.isEmpty then none else some p.stem := by
  obtain ⟨c, behind, same, name, plain, -⟩ := p.exists_of_isCut hp
  have left : p.name.dropWhile isPlainNameChar = c :: behind := by
    have stem : ∀ a ∈ p.stem, isPlainNameChar a = true := List.all_eq_true.1 List.all_takeWhile
    obtain ⟨-, left⟩ := @takeWhile_run _ _ (c :: behind) stem (forall_head?_cons plain)
    rwa [← same] at left
  have apart : trimStart (c :: (behind ++ rest)) = c :: (behind ++ rest) :=
    trimStart_eq_self (forall_head?_cons (not_isBlank_of_isNameChar name))
  have dot : c ≠ '.' := by
    rintro rfl
    exact absurd name (by decide)
  rw [lastNamePart_eq, NamePart.leadingName_cut hp, left]
  split
  · rfl
  · rw [Option.bind_some, List.cons_append, apart]
    split
    · next same' => exact absurd (List.cons.inj same').1 dot
    · rfl

theorem IsDotted.lastName_cons (h : IsDotted parts cs) : lastName (p :: parts) = lastName parts := by
  cases h <;> rfl

theorem readName_cons_of_isCut (hp : p.isCut = true) :
    readName (p :: parts) = if p.stem.isEmpty then none else some p.stem := by
  rw [readName, List.find?_cons_of_pos hp]

theorem readName_singleton (hp : p.isCut = false) : readName [p] = some p.name := by
  rw [readName, List.find?_cons_of_neg (by simp [hp])]
  rfl

/-- What is read of a name is its last part, or what is left of the first part that is cut short. -/
theorem IsDotted.lastNamePart_eq (h : IsDotted parts cs) : lastNamePart cs = readName parts := by
  induction h with
  | last p =>
    cases hp : p.isCut with
    | true =>
      have read : lastNamePart (p.written ++ []) = if p.stem.isEmpty then none else some p.stem := lastNamePart_cut hp
      rw [List.append_nil] at read
      rw [read, readName_cons_of_isCut hp]
    | false =>
      have read : leadingName (p.written ++ []) = some (p.name, []) := p.leadingName_whole hp (by simp)
      rw [List.append_nil] at read
      rw [Schema.lastNamePart_eq, read, readName_singleton hp]
      rfl
  | @cons p parts cs before behind blank blank' rest ih =>
    cases hp : p.isCut with
    | true => rw [lastNamePart_cut hp, readName_cons_of_isCut hp]
    | false =>
      have ends : ∀ c ∈ (before ++ '.' :: (behind ++ cs)).head?, c ≠ '"' ∧ isNameChar c = false := by
        cases before with
        | nil => exact forall_head?_cons (by decide)
        | cons b before =>
          have hb : isBlank b = true := List.all_eq_true.1 blank b List.mem_cons_self
          refine forall_head?_cons ⟨?_, ?_⟩
          · rintro rfl
            cases hb
          · by_contra name
            rw [not_isBlank_of_isNameChar (by simpa using name)] at hb
            cases hb
      have dot : trimStart (before ++ '.' :: (behind ++ cs)) = '.' :: (behind ++ cs) :=
        trimStart_eq_iff.2 ⟨before, rfl, blank, forall_head?_cons (by decide)⟩
      have last : (p :: parts).getLast? = parts.getLast? := by
        cases rest <;> exact List.getLast?_cons_cons
      rw [Schema.lastNamePart_eq, p.leadingName_whole hp ends, Option.bind_some, dot]
      show lastNamePart (behind ++ cs) = _
      rw [lastNamePart_blanks blank', ih, readName, readName, List.find?_cons_of_neg (by simp [hp]), last]

/-- The last part of a name is not empty. -/
theorem IsDotted.lastName_ne_nil (h : IsDotted parts cs) : lastName parts ≠ [] := by
  induction h with
  | last p => exact p.full
  | cons _ _ rest ih => rwa [rest.lastName_cons]

/-- The last part is what is read exactly if no part is cut short, or what is left of the first one that is happens to
be the last part. -/
theorem IsDotted.readName_eq_iff (h : IsDotted parts cs) :
    readName parts = some (lastName parts) ↔ KeepsLast parts := by
  have full := h.lastName_ne_nil
  unfold readName KeepsLast
  cases parts.find? NamePart.isCut with
  | none =>
    refine iff_of_true ?_ nofun
    unfold lastName
    cases last : parts.getLast? with
    | some p => rfl
    | none =>
      rw [lastName, last] at full
      exact absurd rfl full
  | some p =>
    simp only [Option.mem_def, Option.some.injEq, forall_eq']
    split
    · next empty =>
      rw [List.isEmpty_iff] at empty
      exact iff_of_false nofun fun same => full (same ▸ empty)
    · exact Option.some_inj

end Parts

/-! ## References to columns -/

/-- Whether a text may stand behind a part of a name: there is none, or it goes on with a dot and further parts. -/
def GoesOn (cs : List Char) : Prop :=
  cs = [] ∨ ∃ parts text before behind, cs = before ++ '.' :: (behind ++ text) ∧ before.all isBlank = true ∧
    behind.all isBlank = true ∧ IsDotted parts text

/-- What a reader of a reference takes from the place where it stands. -/
def ReferenceState.Accepts : ReferenceState → List Char → Prop
  | start, cs => ∃ parts, IsDotted parts cs
  | part, cs => ∃ parts text behind, cs = behind ++ text ∧ behind.all isBlank = true ∧ IsDotted parts text
  | plain, cs => ∃ run tail, cs = run ++ tail ∧ run.all isNameChar = true ∧ GoesOn tail
  | quoted isEmpty, cs =>
    ∃ name tail, cs = doubling '"' name ++ '"' :: tail ∧ (isEmpty = true → name ≠ []) ∧ GoesOn tail
  | quote isEmpty, cs =>
    isEmpty = false ∧ GoesOn cs ∨ ∃ name tail, cs = '"' :: (doubling '"' name ++ '"' :: tail) ∧ GoesOn tail
  | gap, cs => cs ≠ [] ∧ GoesOn cs
  | failed, _ => False

section References

variable {c : Char} {cs tail : List Char}

theorem GoesOn.isDotted (h : GoesOn tail) (p : NamePart) : ∃ parts, IsDotted parts (p.written ++ tail) := by
  rcases h with rfl | ⟨parts, text, before, behind, rfl, blank, blank', rest⟩
  · exact ⟨[p], (List.append_nil p.written).symm ▸ .last p⟩
  · exact ⟨p :: parts, .cons blank blank' rest⟩

namespace ReferenceState

theorem isDotted_of_begins (h : (begins c).Accepts cs) : ∃ parts, IsDotted parts (c :: cs) := by
  unfold begins at h
  split at h
  · next quote =>
    obtain ⟨name, tail, rfl, full, rest⟩ := h
    obtain ⟨parts, dotted⟩ := rest.isDotted ⟨.double, name, full rfl, rfl⟩
    refine ⟨parts, ?_⟩
    simpa [NamePart.written, quote] using dotted
  · split at h
    · next first =>
      obtain ⟨run, tail, rfl, names, rest⟩ := h
      have admitted : (c :: run).all isNameChar = true := by rw [List.all_cons, first, names]; rfl
      exact rest.isDotted ⟨.nothing, c :: run, List.cons_ne_nil _ _, admitted⟩
    · exact h.elim

theorem goesOn_of_ends (h : (ends c).Accepts cs) : GoesOn (c :: cs) := by
  unfold ends at h
  split at h
  · next first =>
    obtain ⟨full, rest⟩ := h
    rcases rest with rfl | ⟨parts, text, before, behind, rfl, blank, blank', rest⟩
    · exact absurd rfl full
    · exact .inr ⟨parts, text, c :: before, behind, rfl, by rw [List.all_cons, first, blank]; rfl, blank', rest⟩
  · split at h
    · next dot =>
      obtain ⟨parts, text, behind, rfl, blank, rest⟩ := h
      exact .inr ⟨parts, text, [], behind, by rw [dot]; rfl, rfl, blank, rest⟩
    · exact h.elim

theorem accepts_of_isFinal {s : ReferenceState} (h : (cs.foldl next s).isFinal = true) : s.Accepts cs := by
  induction cs generalizing s with
  | nil =>
    cases s with
    | plain => exact ⟨[], [], rfl, rfl, .inl rfl⟩
    | quote isEmpty =>
      cases isEmpty with
      | false => exact .inl ⟨rfl, .inl rfl⟩
      | true => cases h
    | _ => cases h
  | cons c cs ih =>
    have behind := ih h
    cases s with
    | start => exact isDotted_of_begins behind
    | part =>
      rw [next] at behind
      split at behind
      · next first =>
        obtain ⟨parts, text, blanks, rfl, blank, rest⟩ := behind
        exact ⟨parts, text, c :: blanks, rfl, by rw [List.all_cons, first, blank]; rfl, rest⟩
      · obtain ⟨parts, rest⟩ := isDotted_of_begins behind
        exact ⟨parts, c :: cs, [], rfl, rfl, rest⟩
    | plain =>
      rw [next] at behind
      split at behind
      · next first =>
        obtain ⟨run, tail, rfl, names, rest⟩ := behind
        exact ⟨c :: run, tail, rfl, by rw [List.all_cons, first, names]; rfl, rest⟩
      · exact ⟨[], c :: cs, rfl, rfl, goesOn_of_ends behind⟩
    | quoted isEmpty =>
      rw [next] at behind
      split at behind
      · next first =>
        subst first
        rcases behind with ⟨full, rest⟩ | ⟨name, tail, rfl, rest⟩
        · exact ⟨[], cs, rfl, fun empty => absurd (full.symm.trans empty) (by decide), rest⟩
        · exact ⟨'"' :: name, tail, rfl, fun _ => List.cons_ne_nil _ _, rest⟩
      · next other =>
        obtain ⟨name, tail, rfl, -, rest⟩ := behind
        exact ⟨c :: name, tail, by rw [doubling, if_neg other]; rfl, fun _ => List.cons_ne_nil _ _, rest⟩
    | quote isEmpty =>
      rw [next] at behind
      split at behind
      · next first =>
        obtain ⟨name, tail, rfl, -, rest⟩ := behind
        exact .inr ⟨name, tail, by rw [first], rest⟩
      · split at behind
        · exact behind.elim
        · next full => exact .inl ⟨by simpa using full, goesOn_of_ends behind⟩
    | gap => exact ⟨List.cons_ne_nil _ _, goesOn_of_ends behind⟩
    | failed => exact behind.elim

end ReferenceState

/-- A reference to a column is a dotted name. -/
theorem exists_of_isColumnReference (h : isColumnReference cs = true) : ∃ parts, IsDotted parts cs :=
  ReferenceState.accepts_of_isFinal h

end References

/-! ## Names in declarations -/

section Declarations

variable {e cs name rest written : List Char} {c : DeclaredColumn} {isFirst : Bool}

/-- The two readers of a name between double quotes agree where the one that says what it is finds its end. -/
theorem takeQuoted_of_closeQuoted (h : closeQuoted cs = some (name, rest)) :
    takeQuoted isFirst cs = if isFirst && name.isEmpty then none else some (doubling '"' name, rest) := by
  fun_induction closeQuoted cs generalizing isFirst name with
  | case1 => cases h
  | case2 cs ih =>
    obtain ⟨⟨name', rest'⟩, read, same⟩ := Option.map_eq_some_iff.1 h
    cases same
    rw [takeQuoted, @ih name' false read]
    cases isFirst <;> rfl
  | case3 cs apart =>
    cases h
    rw [takeQuoted]
    · cases isFirst <;> rfl
    · exact apart
  | case4 c cs apart other ih =>
    obtain ⟨⟨name', rest'⟩, read, same⟩ := Option.map_eq_some_iff.1 h
    cases same
    have plain : doubling '"' (c :: name') = c :: doubling '"' name' := if_neg other
    rw [takeQuoted, @ih name' false read, plain]
    · cases isFirst <;> rfl
    · exact apart
    · exact other

theorem exists_of_columnDefinition (h : columnDefinition e = .ok c) :
    ∃ name rest, leadingName e = some (name, rest) ∧ c.name = String.ofList name ∧ c.declaration = String.ofList e := by
  unfold columnDefinition at h
  split at h
  · cases h
  · next name rest read =>
    cases h
    exact ⟨name, rest, read, rfl, rfl⟩

/-- What is read of the name at the start of a text, where the text begins with a name. -/
theorem exists_of_leadingName {left : List Char} (h : leadingName e = some (name, left))
    (taken : takeName e = some (written, rest)) :
    ∃ p : NamePart, p.written = written ∧ (name = p.name ↔ p.isCut = false) := by
  unfold takeName at taken
  split at taken
  · next cs =>
    replace h : closeQuoted cs = some (name, left) := h
    obtain ⟨⟨inner, rest'⟩, read, same⟩ := Option.map_eq_some_iff.1 taken
    cases same
    rw [takeQuoted_of_closeQuoted h] at read
    split at read
    · cases read
    · next full =>
      cases read
      refine ⟨⟨.double, name, by simpa using full, rfl⟩, rfl, iff_of_true rfl rfl⟩
  · next cs =>
    replace h : closeAt '\x60' cs = some (name, left) := h
    obtain ⟨⟨inner, rest'⟩, read, same⟩ := Option.map_eq_some_iff.1 taken
    cases same
    obtain ⟨closed, full⟩ := Option.filter_eq_some_iff.1 read
    obtain ⟨-, free⟩ := exists_of_closeAt closed
    cases h.symm.trans closed
    exact ⟨⟨.back, name, by simpa using full, by simpa [NameQuotes.admits] using free⟩, rfl, iff_of_true rfl rfl⟩
  · next cs =>
    replace h : closeAt ']' cs = some (name, left) := h
    obtain ⟨⟨inner, rest'⟩, read, same⟩ := Option.map_eq_some_iff.1 taken
    cases same
    obtain ⟨closed, full⟩ := Option.filter_eq_some_iff.1 read
    obtain ⟨-, free⟩ := exists_of_closeAt closed
    cases h.symm.trans closed
    exact ⟨⟨.brackets, name, by simpa using full, by simpa [NameQuotes.admits] using free⟩, rfl, iff_of_true rfl rfl⟩
  · obtain ⟨rfl, full, names, ends⟩ := exists_of_takePlain taken
    refine ⟨⟨.nothing, written, full, names⟩, rfl, ?_⟩
    have first : ∀ c ∈ (written ++ rest).head?, isNameChar c = true := by
      obtain ⟨c, written, rfl⟩ := List.exists_cons_of_ne_nil full
      exact forall_head?_cons (List.all_eq_true.1 names c List.mem_cons_self)
    have run : name = (written ++ rest).takeWhile isPlainNameChar := by
      rw [leadingName_plain first] at h
      split at h
      · cases h
      · next run =>
        cases h
        exact run.symm
    have whole : name = written ↔ written.all isPlainNameChar = true := by
      constructor
      · rintro rfl
        rw [run]
        exact List.all_takeWhile
      · intro plain
        have stops : ∀ c ∈ rest.head?, isPlainNameChar c = false := fun c hc => not_isPlainNameChar (ends c hc)
        rw [run, (takeWhile_run (List.all_eq_true.1 plain) stops).1]
    simpa [NamePart.isCut] using whole

/-- The name of a declared column is read whole exactly if it is not cut short. -/
theorem name_columnDefinition (h : columnDefinition e = .ok c) (taken : takeName e = some (written, rest)) :
    ∃ p : NamePart, p.written = written ∧ (c.name = String.ofList p.name ↔ p.isCut = false) := by
  obtain ⟨name, left, read, same, -⟩ := exists_of_columnDefinition h
  obtain ⟨p, rfl, whole⟩ := exists_of_leadingName read taken
  refine ⟨p, rfl, ?_⟩
  rw [same, String.ofList_inj, whole]

end Declarations

/-! ## Objects and columns of views -/

section Objects

variable {parts : List NamePart} {cs item : List Char} {source : String} {head : Head} {o : DeclaredObject}

theorem NamePart.length_name_le (p : NamePart) : p.name.length ≤ p.written.length := by
  have doubled : ∀ cs : List Char, cs.length ≤ (doubling '"' cs).length := by
    intro cs
    induction cs with
    | nil => exact le_rfl
    | cons c cs ih =>
      rw [doubling]
      split
      · exact Nat.succ_le_succ (ih.trans (Nat.le_succ _))
      · exact Nat.succ_le_succ ih
  have longer := doubled p.name
  unfold NamePart.written
  cases p.quotes with
  | nothing => exact le_rfl
  | double =>
    rw [List.length_cons, List.length_append]
    omega
  | back | brackets =>
    rw [List.length_cons, List.length_append]
    omega

theorem IsDotted.length_lastName_le (h : IsDotted parts cs) : (lastName parts).length ≤ cs.length := by
  induction h with
  | last p => exact p.length_name_le
  | @cons p parts cs before behind _ _ rest ih =>
    rw [rest.lastName_cons]
    simp only [List.length_append, List.length_cons]
    omega

/-- Where nothing is read of a name, its text is its last part only if that is its only part. -/
theorem IsDotted.getD_readName_eq_iff (h : IsDotted parts cs) :
    (readName parts).getD cs = lastName parts ↔ KeepsLast parts ∨ ∃ p, parts = [p] ∧ p.stem = [] := by
  have keeps := h.readName_eq_iff
  cases read : readName parts with
  | some name =>
    rw [read, Option.some_inj] at keeps
    rw [Option.getD_some, keeps]
    refine ⟨.inl, Or.rec id ?_⟩
    rintro ⟨p, rfl, empty⟩
    cases hp : p.isCut with
    | true =>
      rw [readName_cons_of_isCut hp, empty] at read
      cases read
    | false =>
      rw [KeepsLast, List.find?_cons_of_neg (by simp [hp])]
      nofun
  | none =>
    rw [read] at keeps
    have lost : ¬ KeepsLast parts := fun kept => nomatch keeps.2 kept
    rw [Option.getD_none, or_iff_right lost]
    cases h with
    | last p =>
      cases hp : p.isCut with
      | true =>
        obtain ⟨_, _, _, _, _, quotes⟩ := p.exists_of_isCut hp
        rw [readName_cons_of_isCut hp] at read
        have empty : p.stem = [] := by
          by_contra full
          simp [full] at read
        have written : p.written = p.name := by rw [NamePart.written, quotes]
        exact iff_of_true written ⟨p, rfl, empty⟩
      | false =>
        rw [readName_singleton hp] at read
        cases read
    | @cons p parts cs before behind _ _ rest =>
      -- The text is longer than its last part, since a dot stands before that.
      refine iff_of_false (fun same => ?_) ?_
      · have shorter := rest.length_lastName_le
        rw [← rest.lastName_cons (p := p), ← same] at shorter
        simp only [List.length_append, List.length_cons] at shorter
        omega
      · rintro ⟨q, single, -⟩
        cases rest <;> cases single

theorem name_viewColumn (h : (splitAlias item).2 = none) :
    (viewColumn item none).name = String.ofList (expressionName item) := by
  have whole : splitAlias item = (item, none) := by
    unfold splitAlias at h ⊢
    split
    · rfl
    · next split =>
      rw [split] at h
      simp only at h ⊢
      split at h
      · cases h
      · next more => rw [if_neg more]
  rw [viewColumn, whole]
  rfl

/-- Names are read whole exactly if no part of them is cut short, or what is left of the first one that is happens to be
the last part. A column of a view has its name also if nothing is left of the only part. -/
theorem DeclaredObject.names_whole_iff (h : ofStatement source = .ok o) (hh : takeHead source.toList = some head) :
    (∃ keywords parts text blanks, source.toList = keywords ++ (text ++ (blanks ++ head.rest)) ∧
      AreKeywords (headWords o.kind) keywords ∧ IsDotted parts text ∧ blanks.all isBlank = true ∧
      (o.name = String.ofList (lastName parts) ↔ KeepsLast parts)) ∧
    (o.kind = .table → ∀ c ∈ o.columns, ∀ written rest, takeName c.declaration.toList = some (written, rest) →
      ∃ p : NamePart, p.written = written ∧ (c.name = String.ofList p.name ↔ p.isCut = false)) ∧
    (o.kind = .view → ∀ names query, takeSelection head.rest = some (names, query) →
      ∀ (i : Nat) (c : DeclaredColumn), o.columns[i]? = some c → (listItems names)[i]? = none →
        (splitAlias c.declaration.toList).2 = none → isColumnReference c.declaration.toList = true →
        ∃ parts, IsDotted parts c.declaration.toList ∧
          (c.name = String.ofList (lastName parts) ↔ KeepsLast parts ∨ ∃ p, parts = [p] ∧ p.stem = [])) := by
  obtain ⟨head', read, kind, name, table, view⟩ := exists_of_ofStatement h
  obtain rfl : head = head' := Option.some.inj (hh.symm.trans read)
  refine ⟨?_, fun hk c hc written rest taken => ?_, fun hk names query selection i c hc notGiven notAlias refers => ?_⟩
  · obtain ⟨keywords, parts, text, blanks, cut, words, kept, dotted, blank⟩ := exists_of_takeHead read
    refine ⟨keywords, parts, text, blanks, cut, kind ▸ words, dotted, blank, ?_⟩
    have full := dotted.lastName_ne_nil
    rw [name, String.ofList_inj, kept.lastNamePart_eq, ← dotted.readName_eq_iff]
    cases readName parts with
    | none => exact iff_of_false (fun empty => full empty.symm) nofun
    | some => exact Option.some_inj.symm
  · obtain ⟨e, -, -, declares⟩ := exists_of_mem_columns (table hk) hc
    obtain ⟨_, _, -, -, declaration⟩ := exists_of_columnDefinition declares
    rw [declaration, String.toList_ofList] at taken
    exact name_columnDefinition declares taken
  · obtain ⟨names', query', read', columns, -⟩ := exists_of_declaredView (view hk)
    cases selection.symm.trans read'
    have ungiven : ((listItems names).map fun n => unquoted (trimChars n))[i]? = none := by
      rw [List.getElem?_map, notGiven]
      rfl
    rw [eq_of_viewColumns columns, List.getElem?_mapIdx] at hc
    obtain ⟨item, -, rfl⟩ := Option.map_eq_some_iff.1 hc
    have declaration : (viewColumn item none).declaration.toList = item := String.toList_ofList
    rw [ungiven, declaration] at notAlias refers ⊢
    obtain ⟨parts, dotted⟩ := exists_of_isColumnReference refers
    refine ⟨parts, dotted, ?_⟩
    rw [name_viewColumn notAlias, String.ofList_inj, expressionName, if_pos refers, dotted.lastNamePart_eq]
    exact dotted.getD_readName_eq_iff

end Objects

/-! ## Names beyond ASCII -/

namespace AccentedNames

def table : String := "CREATE TABLE \"ma in\" . [naïve] (\"é\" INT, a$b TEXT)"

def tableHead : Head := ⟨.table, "\"ma in\".[naïve]".toList, "(\"é\" INT, a$b TEXT)".toList⟩

def declared : DeclaredObject :=
  ⟨"naïve", .table, [⟨"é", "INT", none, none, "\"é\" INT"⟩, ⟨"a$b", "TEXT", none, none, "a$b TEXT"⟩], false⟩

def view : String := "CREATE VIEW v AS SELECT été, t . \"été\" FROM t"

def viewHead : Head := ⟨.view, "v".toList, "AS SELECT été, t . \"été\" FROM t".toList⟩

def selected : DeclaredObject :=
  ⟨"v", .view, [⟨"été", "", none, none, "été"⟩, ⟨"été", "", none, none, "t . \"été\""⟩], false⟩

/-- Between quotes, and as the only part of a reference, names are read whole. -/
theorem names_kept :
    (DeclaredObject.ofStatement table = .ok declared ∧ takeHead table.toList = some tableHead ∧
      ∃ p : NamePart, p.written = "\"é\"".toList ∧ ("é" = String.ofList p.name ↔ p.isCut = false)) ∧
    (DeclaredObject.ofStatement view = .ok selected ∧ takeHead view.toList = some viewHead ∧
      ∃ parts, IsDotted parts "été".toList ∧
        ("été" = String.ofList (lastName parts) ↔ KeepsLast parts ∨ ∃ p, parts = [p] ∧ p.stem = [])) := by
  have declares : DeclaredObject.ofStatement table = .ok declared := by decide +kernel
  have begins : takeHead table.toList = some tableHead := by decide +kernel
  have selects : DeclaredObject.ofStatement view = .ok selected := by decide +kernel
  have begins' : takeHead view.toList = some viewHead := by decide +kernel
  have selection : takeSelection viewHead.rest = some ([], "été, t . \"été\" FROM t".toList) := by decide +kernel
  obtain ⟨-, columns, -⟩ := DeclaredObject.names_whole_iff declares begins
  obtain ⟨-, -, columns'⟩ := DeclaredObject.names_whole_iff selects begins'
  have taken : takeName "\"é\" INT".toList = some ("\"é\"".toList, " INT".toList) := by decide +kernel
  refine ⟨⟨declares, begins, columns rfl _ List.mem_cons_self _ _ taken⟩, selects, begins', ?_⟩
  exact columns' rfl _ _ selection 0 _ rfl (by decide +kernel) (by decide +kernel) (by decide +kernel)

/-- A name without quotes is cut short at the first character beyond ASCII. -/
theorem names_cut :
    (∃ o, DeclaredObject.ofStatement "CREATE TABLE naïve (a INT)" = .ok o ∧ o.name = "na" ∧
      (takeHead "CREATE TABLE naïve (a INT)".toList).map Head.name = some "naïve".toList) ∧
    (∃ o, DeclaredObject.ofStatement "CREATE TABLE été (a INT)" = .ok o ∧ o.name = "" ∧
      (takeHead "CREATE TABLE été (a INT)".toList).map Head.name = some "été".toList) ∧
    (∃ o, DeclaredObject.ofStatement "CREATE TABLE t (naïve INT)" = .ok o ∧ o.columns.map (·.name) = ["na"] ∧
      takeName "naïve INT".toList = some ("naïve".toList, " INT".toList)) ∧
    (∃ o, DeclaredObject.ofStatement "CREATE VIEW v AS SELECT t.été, t.naïve FROM t" = .ok o ∧
      o.columns.map (·.name) = ["t.été", "na"] ∧
      isColumnReference "t.été".toList = true ∧ isColumnReference "t.naïve".toList = true) := by
  refine ⟨⟨⟨"na", .table, [⟨"a", "INT", none, none, "a INT"⟩], false⟩, ?_, rfl, ?_⟩,
    ⟨⟨"", .table, [⟨"a", "INT", none, none, "a INT"⟩], false⟩, ?_, rfl, ?_⟩,
    ⟨⟨"t", .table, [⟨"na", "", none, none, "naïve INT"⟩], false⟩, ?_, rfl, ?_⟩,
    ⟨⟨"v", .view, [⟨"t.été", "", none, none, "t.été"⟩, ⟨"na", "", none, none, "t.naïve"⟩], false⟩, ?_, rfl, ?_, ?_⟩⟩
  all_goals decide +kernel

end AccentedNames

end SqlDialects.Schema
