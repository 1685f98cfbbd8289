import SqlDialects.Proofs.Schema.Heads
import SqlDialects.Proofs.Text.Offsets

/-!
# Scanners by byte offsets

The readers of names, lists and keywords pass over characters and keep what they have passed. A text that is kept in
bytes is read with offsets instead: a scanner counts the bytes that it passes over, asks for the byte before or behind a
word, and cuts the text where it stopped. Each scanner here does so, and gives nothing if it cuts where no character
begins, or asks for a byte outside the text.

It never does: every scanner yields what the reader of characters yields, for every text.
-/

set_option autoImplicit false

namespace SqlDialects.Schema

open Text
open String (utf8Len)

/-! ## Quotes -/

/-- What a text names, cut out between its quotes. -/
def unquotedSlice? (cs : List Char) : Option (List Char) :=
  match cs with
  | [] => some []
  | c :: inner =>
    match c, inner.getLast? with
    | '"', some '"' => (slice? cs 1 (utf8Len cs - 1)).map halving
    | '\x60', some '\x60' | '[', some ']' => slice? cs 1 (utf8Len cs - 1)
    | _, _ => some cs

/-- The offset of the character that closes a name. Behind a double quote that is written twice the name goes on. -/
def closeOffset? (close : Char) (n : Nat) : List Char → Option Nat
  | [] => none
  | '"' :: '"' :: cs => if close = '"' then closeOffset? close (n + 2) cs else closeOffset? close (n + 1) ('"' :: cs)
  | c :: cs => if c = close then some n else closeOffset? close (n + c.utf8Size) cs

/-- The offset behind the characters of a kind at the start of a text. -/
def endOffset (p : Char → Bool) (n : Nat) : List Char → Nat
  | [] => n
  | c :: cs => if p c then endOffset p (n + c.utf8Size) cs else n

section Quotes

variable {cs inner rest name : List Char} {c q close : Char} {n : Nat}

theorem slice?_inner (hc : c.utf8Size = 1) (hq : q.utf8Size = 1) (h : inner.getLast? = some q) :
    slice? (c :: inner) 1 (utf8Len (c :: inner) - 1) = some inner.dropLast := by
  obtain ⟨before, rfl⟩ := List.getLast?_eq_some_iff.1 h
  have size : utf8Len (c :: (before ++ [q])) - 1 = utf8Len [c] + utf8Len before := by
    rw [String.utf8Len_cons, String.utf8Len_append, String.utf8Len_cons, String.utf8Len_cons, String.utf8Len_nil, hc,
      hq]
    omega
  have first : utf8Len [c] = 1 := by rw [String.utf8Len_cons, String.utf8Len_nil, hc]
  rw [size, List.dropLast_concat]
  nth_rewrite 1 [← first]
  exact slice?_append [c] before [q]

theorem unquotedSlice?_eq (cs : List Char) : unquotedSlice? cs = some (unquoted cs) := by
  cases cs with
  | nil => rfl
  | cons c inner =>
    simp only [unquotedSlice?]
    split
    · next last =>
      have name : unquoted ('"' :: inner) = halving inner.dropLast := by simp [unquoted, last]
      rw [slice?_inner rfl rfl last, Option.map_some, name]
    · next last =>
      have name : unquoted ('\x60' :: inner) = inner.dropLast := by simp [unquoted, last]
      rw [slice?_inner rfl rfl last, name]
    · next last =>
      have name : unquoted ('[' :: inner) = inner.dropLast := by simp [unquoted, last]
      rw [slice?_inner rfl rfl last, name]
    · simp only [unquoted]

theorem endOffset_eq (p : Char → Bool) (n : Nat) (cs : List Char) :
    endOffset p n cs = n + utf8Len (cs.takeWhile p) := by
  induction cs generalizing n with
  | nil => rfl
  | cons c cs ih =>
    rw [endOffset, List.takeWhile_cons]
    split
    · rw [ih, String.utf8Len_cons]
      omega
    · rfl

/-- The characters of a kind at the start of a text can be cut off. -/
theorem slices_endOffset (p : Char → Bool) (cs : List Char) :
    sliceTo? cs (endOffset p 0 cs) = some (cs.takeWhile p) ∧
      sliceFrom? cs (endOffset p 0 cs) = some (cs.dropWhile p) := by
  have cut := List.takeWhile_append_dropWhile (p := p) (l := cs)
  have front := sliceTo?_append (cs.takeWhile p) (cs.dropWhile p)
  have back := sliceFrom?_append (cs.takeWhile p) (cs.dropWhile p)
  rw [cut] at front back
  rw [endOffset_eq, Nat.zero_add]
  exact ⟨front, back⟩

/-- The name between double quotes is what stands before the closing quote, with each pair of quotes in it made one. -/
theorem closeOffset?_double (n : Nat) (cs : List Char) :
    (closeQuoted cs = none ∧ closeOffset? '"' n cs = none) ∨
      ∃ written rest, cs = written ++ '"' :: rest ∧ closeQuoted cs = some (halving written, rest) ∧
        closeOffset? '"' n cs = some (n + utf8Len written) := by
  fun_induction closeQuoted cs generalizing n with
  | case1 => exact .inl ⟨rfl, rfl⟩
  | case2 cs ih =>
    rw [closeOffset?, if_pos rfl]
    rcases ih (n + 2) with ⟨unread, none⟩ | ⟨written, rest, rfl, read, offset⟩
    · exact .inl ⟨by rw [unread]; rfl, none⟩
    · refine .inr ⟨'"' :: '"' :: written, rest, rfl, by rw [read]; rfl, ?_⟩
      rw [offset, String.utf8Len_cons, String.utf8Len_cons, show '"'.utf8Size = 1 from rfl]
      congr 1
      omega
  | case3 cs apart =>
    refine .inr ⟨[], cs, rfl, rfl, ?_⟩
    rw [closeOffset?]
    · rfl
    · exact fun cs' _ => apart cs'
  | case4 c cs apart other ih =>
    have offset : closeOffset? '"' n (c :: cs) = closeOffset? '"' (n + c.utf8Size) cs := by
      rw [closeOffset?, if_neg other]
      exact apart
    have halved : ∀ written, halving (c :: written) = c :: halving written := by
      intro written
      rw [halving]
      exact fun _ same _ => other same
    rw [offset]
    rcases ih (n + c.utf8Size) with ⟨unread, none⟩ | ⟨written, rest, rfl, read, offset⟩
    · exact .inl ⟨by rw [unread]; rfl, none⟩
    · refine .inr ⟨c :: written, rest, rfl, by rw [read, halved]; rfl, ?_⟩
      rw [offset, String.utf8Len_cons]
      congr 1
      omega

theorem closeOffset?_other (hq : close ≠ '"') (n : Nat) (cs : List Char) :
    closeOffset? close n cs = (closeAt close cs).map fun r => n + utf8Len r.1 := by
  have step : ∀ c cs n, closeOffset? close n (c :: cs)
      = if c = close then some n else closeOffset? close (n + c.utf8Size) cs := by
    intro c cs n
    rw [closeOffset?.eq_def]
    split
    · next empty => cases empty
    · next same =>
      cases same
      rw [if_neg hq, if_neg hq.symm]
      rfl
    · next same =>
      cases same
      rfl
  induction cs generalizing n with
  | nil => rfl
  | cons c cs ih =>
    rw [step, closeAt]
    split
    · rfl
    · rw [ih, Option.map_map]
      refine congrArg (Option.map · _) (funext fun r => ?_)
      rw [Function.comp_apply, String.utf8Len_cons]
      omega

end Quotes

/-! ## Names -/

/-- A name that a character opens and another closes, and the text after it, cut out of the text. -/
def enclosedSlice? (c close : Char) (inside : List Char) : Option (Option (List Char × List Char)) :=
  match closeOffset? close c.utf8Size inside with
  | none => some none
  | some n => do
    let name ← (sliceTo? (c :: inside) (n + 1)).bind unquotedSlice?
    let rest ← sliceFrom? (c :: inside) (n + 1)
    return some (name, rest)

/-- A name without quotes and the text after it, cut out of the text. -/
def plainSlice? (cs : List Char) : Option (Option (List Char × List Char)) :=
  if endOffset isPlainNameChar 0 cs = 0 then some none
  else do
    let name ← sliceTo? cs (endOffset isPlainNameChar 0 cs)
    let rest ← sliceFrom? cs (endOffset isPlainNameChar 0 cs)
    return some (name, rest)

/-- The name at the start of a text, after blanks, and the text after it, cut out of the text. -/
def leadingSlice? (cs : List Char) : Option (Option (List Char × List Char)) :=
  match trimStart cs with
  | '"' :: inside => enclosedSlice? '"' '"' inside
  | '\x60' :: inside => enclosedSlice? '\x60' '\x60' inside
  | '[' :: inside => enclosedSlice? '[' ']' inside
  | cs => plainSlice? cs

section Names

variable {cs written rest : List Char} {c close : Char}

theorem enclosedSlice?_of_closeOffset? (hc : close.utf8Size = 1)
    (h : closeOffset? close c.utf8Size (written ++ close :: rest) = some (c.utf8Size + utf8Len written)) :
    enclosedSlice? c close (written ++ close :: rest) = some (some (unquoted (c :: (written ++ [close])), rest)) := by
  have size : c.utf8Size + utf8Len written + 1 = utf8Len (c :: (written ++ [close])) := by
    rw [String.utf8Len_cons, String.utf8Len_append, String.utf8Len_cons, String.utf8Len_nil, hc]
    omega
  have cut : c :: (written ++ close :: rest) = (c :: (written ++ [close])) ++ rest := by simp
  rw [enclosedSlice?, h]
  simp only
  rw [size, cut, sliceTo?_append, sliceFrom?_append, Option.bind_some, unquotedSlice?_eq]
  rfl

theorem enclosedSlice?_double (inside : List Char) : enclosedSlice? '"' '"' inside = some (closeQuoted inside) := by
  rcases closeOffset?_double '"'.utf8Size inside with ⟨unread, none⟩ | ⟨written, rest, rfl, read, offset⟩
  · rw [enclosedSlice?, none, unread]
  · have name : unquoted ('"' :: (written ++ ['"'])) = halving written := by simp [unquoted]
    rw [enclosedSlice?_of_closeOffset? rfl offset, read, name]

theorem enclosedSlice?_other (c close : Char) (hq : close ≠ '"') (hc : close.utf8Size = 1)
    (name : ∀ written, unquoted (c :: (written ++ [close])) = written) (inside : List Char) :
    enclosedSlice? c close inside = some (closeAt close inside) := by
  have offset := closeOffset?_other hq c.utf8Size inside
  cases read : closeAt close inside with
  | none =>
    rw [read] at offset
    rw [enclosedSlice?, offset]
    rfl
  | some r =>
    obtain ⟨written, rest⟩ := r
    obtain ⟨rfl, -⟩ := exists_of_closeAt read
    rw [read] at offset
    rw [enclosedSlice?_of_closeOffset? hc offset, name]

theorem plainSlice?_eq (cs : List Char) :
    plainSlice? cs = some (match cs.takeWhile isPlainNameChar with
      | [] => none
      | c :: name => some (c :: name, cs.dropWhile isPlainNameChar)) := by
  obtain ⟨front, back⟩ := slices_endOffset isPlainNameChar cs
  have size : endOffset isPlainNameChar 0 cs = utf8Len (cs.takeWhile isPlainNameChar) := by
    rw [endOffset_eq, Nat.zero_add]
  rw [plainSlice?, front, back, size]
  cases cs.takeWhile isPlainNameChar with
  | nil => rfl
  | cons c name =>
    rw [if_neg fun empty => List.cons_ne_nil c name (String.utf8Len_eq_zero.1 empty)]
    rfl

/-- The name at the start of a text can be cut out of it. -/
theorem leadingSlice?_eq (cs : List Char) : leadingSlice? cs = some (leadingName cs) := by
  unfold leadingSlice?
  split
  · next inside text =>
    rw [leadingName, text]
    exact enclosedSlice?_double inside
  · next inside text =>
    rw [leadingName, text]
    exact enclosedSlice?_other '\x60' '\x60' (by decide) rfl (fun _ => by simp [unquoted]) inside
  · next inside text =>
    rw [leadingName, text]
    exact enclosedSlice?_other '[' ']' (by decide) rfl (fun _ => by simp [unquoted]) inside
  · next double back brackets =>
    refine (plainSlice?_eq (trimStart cs)).trans (congrArg some ?_)
    symm
    unfold leadingName
    split
    · next inside text => exact (double inside text).elim
    · next inside text => exact (back inside text).elim
    · next inside text => exact (brackets inside text).elim
    · rfl

end Names

/-- The last part of a dotted name, cut out of it. -/
def lastNameSlice? (cs : List Char) : Option (Option (List Char)) :=
  match _h : leadingSlice? cs with
  | none => none
  | some none => some none
  | some (some (name, rest)) =>
    match _hr : trimStart rest with
    | '.' :: next => lastNameSlice? next
    | _ => some (some name)
termination_by cs.length
decreasing_by
  have shorter := length_leadingName (Option.some.inj ((leadingSlice?_eq cs).symm.trans _h))
  have trimmed := length_trimStart_le rest
  simp [_hr] at trimmed
  omega

theorem lastNameSlice?_of_leadingName (cs : List Char) :
    lastNameSlice? cs =
      match leadingName cs with
      | none => some none
      | some (name, rest) =>
        match trimStart rest with
        | '.' :: next => lastNameSlice? next
        | _ => some (some name) := by
  have sliced := leadingSlice?_eq cs
  rw [lastNameSlice?]
  split
  · next fails => cases fails.symm.trans sliced
  · next none => rw [← Option.some.inj (none.symm.trans sliced)]
  · next name rest read =>
    rw [← Option.some.inj (read.symm.trans sliced)]
    simp only
    split
    · next dot => simp only [dot]
    · next other =>
      split
      · next dot => exact (other _ dot).elim
      · rfl

/-- The last part of a dotted name can be cut out of it. -/
theorem lastNameSlice?_eq (cs : List Char) : lastNameSlice? cs = some (lastNamePart cs) := by
  fun_induction lastNamePart cs with
  | case1 cs none => rw [lastNameSlice?_of_leadingName, none]
  | case2 cs name rest read next dot ih =>
    rw [lastNameSlice?_of_leadingName, read]
    simp only [dot]
    exact ih
  | case3 cs name rest read other =>
    rw [lastNameSlice?_of_leadingName, read]
    simp only

/-! ## Lists -/

/-- The offset of the parenthesis that closes one opened before the text. -/
def closingOffset? (s : Nesting) (n : Nat) : List Char → Option Nat
  | [] => none
  | c :: cs =>
    if s.isTop && c == ')' then some n else closingOffset? (s.next .quotesAndBrackets c) (n + c.utf8Size) cs

/-- The parts of a text between separators outside quotes and parentheses, each cut out of the text: from the offset
where it starts up to that of the separator behind it. -/
def partSlices? (separator : Char) (text : List Char) (s : Nesting) (start n : Nat) :
    List Char → Option (List (List Char))
  | [] => (sliceFrom? text start).map fun part => [part]
  | c :: cs =>
    if s.isTop && c == separator then do
      let part ← slice? text start n
      let parts ← partSlices? separator text s (n + c.utf8Size) (n + c.utf8Size) cs
      return part :: parts
    else partSlices? separator text (s.next .quotesAndBrackets c) start (n + c.utf8Size) cs

/-- The parts between commas that are not blank. -/
def listSlices? (cs : List Char) : Option (List (List Char)) :=
  (partSlices? ',' cs .top 0 0 cs).map (·.filter fun part => !part.all isBlank)

section Lists

variable {cs before part rest : List Char} {c separator : Char} {s : Nesting} {n : Nat}

theorem closingOffset?_eq (s : Nesting) (n : Nat) (cs : List Char) :
    closingOffset? s n cs = (splitClosing s cs).map fun r => n + utf8Len r.1 := by
  induction cs generalizing s n with
  | nil => rfl
  | cons c cs ih =>
    rw [closingOffset?, splitClosing]
    split
    · rfl
    · rw [ih, Option.map_map]
      refine congrArg (Option.map · _) (funext fun r => ?_)
      rw [Function.comp_apply, String.utf8Len_cons]
      omega

/-- What is cut out from the start of a part on is the part as far as it has been read, and what follows it there. -/
theorem partSlices?_eq (separator : Char) (s : Nesting) (before part cs : List Char) :
    partSlices? separator (before ++ (part ++ cs)) s (utf8Len before) (utf8Len before + utf8Len part) cs
      = some ((part ++ (cutAt separator s cs).headD []) :: (cutAt separator s cs).tail) := by
  induction cs generalizing s before part with
  | nil =>
    rw [partSlices?, sliceFrom?_append]
    rfl
  | cons c cs ih =>
    rw [partSlices?, cutAt]
    split
    · -- The part ends here, and the next one starts behind the separator.
      have next := ih s (before ++ (part ++ [c])) []
      have text : (before ++ (part ++ [c])) ++ ([] ++ cs) = before ++ (part ++ c :: cs) := by simp
      have offset : utf8Len (before ++ (part ++ [c])) = utf8Len before + utf8Len part + c.utf8Size := by
        simp [Nat.add_assoc]
      rw [text, offset, String.utf8Len_nil, Nat.add_zero, List.nil_append] at next
      rw [slice?_append, next]
      obtain ⟨first, others, cut⟩ := List.exists_cons_of_ne_nil (cutAt_ne_nil separator s cs)
      rw [cut]
      simp
    · -- The part goes on.
      have next := ih (s.next .quotesAndBrackets c) before (part ++ [c])
      have text : before ++ ((part ++ [c]) ++ cs) = before ++ (part ++ c :: cs) := by simp
      have offset : utf8Len before + utf8Len (part ++ [c]) = utf8Len before + utf8Len part + c.utf8Size := by
        simp [Nat.add_assoc]
      rw [text, offset] at next
      rw [next]
      obtain ⟨first, others, cut⟩ :=
        List.exists_cons_of_ne_nil (cutAt_ne_nil separator (s.next .quotesAndBrackets c) cs)
      rw [cut]
      simp

/-- The items of a list can be cut out of it. -/
theorem listSlices?_eq (cs : List Char) : listSlices? cs = some (listItems cs) := by
  have parts := partSlices?_eq ',' .top [] [] cs
  obtain ⟨first, others, cut⟩ := List.exists_cons_of_ne_nil (cutAt_ne_nil ',' .top cs)
  rw [cut] at parts
  replace parts : partSlices? ',' cs .top 0 0 cs = some (first :: others) := parts
  rw [listSlices?, parts, listItems, cut]
  rfl

end Lists

/-! ## Keywords -/

/-- Whether the byte before an offset, if there is one, is that of a word. -/
def wordBefore? (text : List Char) (n : Nat) : Option Bool :=
  if n = 0 then some false else (byteAt? text (n - 1)).map isWordByte

/-- Whether the byte behind an offset, if the text goes on there, is that of a word. -/
def wordBehind? (text : List Char) (n : Nat) : Option Bool :=
  if utf8Len text ≤ n then some false else (byteAt? text n).map isWordByte

/-- The offset of a word outside quotes and parentheses, neither the end nor the beginning of a longer one, if there is
one. -/
def wordOffset? (word : String) (text : List Char) (s : Nesting) (n : Nat) : List Char → Option (Option Nat)
  | [] => some none
  | c :: cs =>
    if s.isTop && s.next .quotes c == s && c != ')' then do
      let before ← wordBefore? text n
      let behind ← wordBehind? text (n + utf8Len word.toList)
      if !before && (!behind
          && (slice? text n (n + utf8Len word.toList)).any fun w => sameIgnoringCase (String.ofList w) word) then
        return some n
      else wordOffset? word text (s.next .quotes c) (n + c.utf8Size) cs
    else wordOffset? word text (s.next .quotes c) (n + c.utf8Size) cs

/-- The text before a word, cut off at its offset. -/
def beforeWordSlice? (word : String) (cs : List Char) : Option (List Char) := do
  let found ← wordOffset? word cs .top 0 cs
  sliceTo? cs (found.getD (utf8Len cs))

section Keywords

variable {word : String} {before rest cs : List Char} {c : Char} {s : Nesting}

theorem wordBefore?_eq (before rest : List Char) :
    wordBefore? (before ++ rest) (utf8Len before) = some (before.getLast?.any isPlainWordChar) := by
  rcases List.eq_nil_or_concat' before with rfl | ⟨before, c, rfl⟩
  · rfl
  · obtain ⟨b, read, word⟩ := exists_byteAt?_before before c rest
    have full : utf8Len (before ++ [c]) ≠ 0 := fun empty => by simpa using String.utf8Len_eq_zero.1 empty
    rw [wordBefore?, if_neg full, List.append_assoc, List.singleton_append, read, Option.map_some, word,
      List.getLast?_concat]
    rfl

/-- There is a byte behind an offset if the text goes on there, and where a character begins it tells of what kind that
is. -/
theorem exists_wordBehind? (text : List Char) (n : Nat) :
    ∃ goesOn, wordBehind? text n = some goesOn ∧
      ∀ before behind, text = before ++ behind → utf8Len before = n → goesOn = behind.head?.any isPlainWordChar := by
  unfold wordBehind?
  split
  · next outside =>
    refine ⟨false, rfl, ?_⟩
    rintro before behind rfl rfl
    rw [String.utf8Len_append] at outside
    have empty : utf8Len behind = 0 := by omega
    rw [String.utf8Len_eq_zero.1 empty]
    rfl
  · next inside =>
    obtain ⟨b, read⟩ := exists_byteAt? (Nat.lt_of_not_le inside)
    refine ⟨isWordByte b, by rw [read]; rfl, ?_⟩
    rintro before behind rfl rfl
    cases behind with
    | nil => exact absurd (le_of_eq (by rw [List.append_nil])) inside
    | cons c behind =>
      obtain ⟨b', read', word⟩ := exists_byteAt?_behind before c behind
      cases read.symm.trans read'
      exact word

/-- A word stands at an offset if the text cut out there is the word and the word ends there. -/
theorem slice?_any_eq (plain : (word.toList.map lowerChar).all isPlainWordChar = true) (before rest : List Char)
    {goesOn : Bool} (hg : ∀ before' behind, before ++ rest = before' ++ behind →
      utf8Len before' = utf8Len before + utf8Len word.toList → goesOn = behind.head?.any isPlainWordChar) :
    (!goesOn && (slice? (before ++ rest) (utf8Len before) (utf8Len before + utf8Len word.toList)).any
        fun w => sameIgnoringCase (String.ofList w) word)
      = beginsWithWord (word.toList.map lowerChar) rest := by
  have spelled : ∀ w : List Char, w.map lowerChar = word.toList.map lowerChar → utf8Len w = word.toList.length := by
    intro w same
    have plain' : ∀ c ∈ w, isPlainWordChar c = true := fun c hc =>
      isPlainWordChar_of_lowerChar (List.all_eq_true.1 plain _ (same ▸ List.mem_map_of_mem hc))
    rw [utf8Len_of_forall plain']
    simpa using congrArg List.length same
  rw [Bool.eq_iff_iff, Bool.and_eq_true, Option.any_eq_true, beginsWithWord, Bool.and_eq_true, beq_iff_eq,
    List.length_map]
  constructor
  · rintro ⟨stops, w, cut, same⟩
    obtain ⟨before', behind, whole, start, stop⟩ := slice?_eq_some_iff.1 cut
    obtain ⟨rfl, rfl⟩ := append_inj_of_utf8Len whole start.symm
    have lowered : w.map lowerChar = word.toList.map lowerChar := by simpa [sameIgnoringCase] using same
    have length : w.length = word.toList.length := by simpa using congrArg List.length lowered
    rw [← length, List.take_left, List.drop_left]
    refine ⟨lowered, ?_⟩
    rwa [← hg (before ++ w) behind (by simp) (by rw [String.utf8Len_append, stop])]
  · rintro ⟨lowered, stops⟩
    have cut := slice?_append before (rest.take word.toList.length) (rest.drop word.toList.length)
    have size := (spelled _ lowered).trans (spelled word.toList rfl).symm
    rw [List.take_append_drop, size] at cut
    refine ⟨?_, _, cut, by simpa [sameIgnoringCase] using lowered⟩
    rwa [hg (before ++ rest.take word.toList.length) (rest.drop word.toList.length) (by simp)
      (by rw [String.utf8Len_append, size])]

theorem wordOffset?_cons (plain : (word.toList.map lowerChar).all isPlainWordChar = true) (full : word ≠ "")
    (s : Nesting) (before : List Char) (c : Char) (cs : List Char) :
    wordOffset? word (before ++ c :: cs) s (utf8Len before) (c :: cs)
      = if s.isTop && !before.getLast?.any isPlainWordChar && beginsWithWord (word.toList.map lowerChar) (c :: cs) then
          some (some (utf8Len before))
        else wordOffset? word (before ++ c :: cs) (s.next .quotes c) (utf8Len before + c.utf8Size) cs := by
  obtain ⟨goesOn, asked, hg⟩ := exists_wordBehind? (before ++ c :: cs) (utf8Len before + utf8Len word.toList)
  rw [wordOffset?]
  split
  · next outside =>
    rw [Bool.and_eq_true, Bool.and_eq_true] at outside
    simp only [wordBefore?_eq, asked, Option.bind_eq_bind, Option.bind_some, slice?_any_eq plain _ _ hg, outside.1.1,
      Bool.true_and]
    rfl
  · next enclosed =>
    rw [if_neg]
    intro stands
    rw [Bool.and_eq_true, Bool.and_eq_true] at stands
    have letters : word.toList.map lowerChar ≠ [] := by simpa using full
    have word : isPlainWordChar c = true := head?_of_beginsWithWord plain letters stands.2 c rfl
    have paren : c ≠ ')' := by
      rintro rfl
      cases word
    obtain ⟨closing, depth⟩ := s
    have outside : closing = none := by
      have top := stands.1.1
      rw [Nesting.isTop, Bool.and_eq_true] at top
      exact Option.isNone_iff_eq_none.1 top.1
    have stays : (Nesting.mk closing depth).next .quotes c = ⟨closing, depth⟩ := by
      rw [outside, next_of_isIdle (by simp [isIdle, word])]
    refine enclosed ?_
    rw [stays, stands.1.1]
    simpa using paren

/-- The offset of a word is that where the text before it ends; where there is no word, that text is all of it. -/
theorem wordOffset?_spec (plain : (word.toList.map lowerChar).all isPlainWordChar = true) (full : word ≠ "")
    (s : Nesting) (before cs : List Char) :
    ∃ found, wordOffset? word (before ++ cs) s (utf8Len before) cs = some found ∧
      found.getD (utf8Len (before ++ cs)) = utf8Len before
        + utf8Len (beforeWord (word.toList.map lowerChar) (before.getLast?.any isPlainWordChar) s cs) := by
  induction cs generalizing s before with
  | nil => exact ⟨none, rfl, String.utf8Len_append _ _⟩
  | cons c cs ih =>
    rw [wordOffset?_cons plain full, beforeWord]
    split
    · exact ⟨some (utf8Len before), rfl, rfl⟩
    · obtain ⟨found, read, offset⟩ := ih (s.next .quotes c) (before ++ [c])
      have text : (before ++ [c]) ++ cs = before ++ c :: cs := by simp
      have size : utf8Len (before ++ [c]) = utf8Len before + c.utf8Size := by simp
      rw [text, size] at read
      rw [text, List.getLast?_concat, Option.any_some, size] at offset
      refine ⟨found, read, ?_⟩
      rw [offset, String.utf8Len_cons]
      omega

/-- The text before a word can be cut out. -/
theorem beforeWordSlice?_eq (plain : (word.toList.map lowerChar).all isPlainWordChar = true) (full : word ≠ "")
    (cs : List Char) : beforeWordSlice? word cs = some (beforeWord (word.toList.map lowerChar) false .top cs) := by
  obtain ⟨found, read, offset⟩ := wordOffset?_spec plain full .top [] cs
  obtain ⟨rest, cut, -, -⟩ := beforeWord_spec (word.toList.map lowerChar) false .top cs
  replace read : wordOffset? word cs .top 0 cs = some found := read
  replace offset : found.getD (utf8Len cs) = utf8Len (beforeWord (word.toList.map lowerChar) false .top cs) := by
    simpa using offset
  rw [beforeWordSlice?, read]
  simp only [Option.bind_eq_bind, Option.bind_some]
  rw [offset]
  nth_rewrite 1 [cut]
  exact sliceTo?_append _ _

end Keywords

end SqlDialects.Schema
