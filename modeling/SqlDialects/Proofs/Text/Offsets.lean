import SqlDialects.Text.Word
import Mathlib.Data.String.Basic

/-!
# Byte offsets of a text

A text is cut at byte offsets. A cut there is one only if the offset stands inside the text and between two characters
(`Text.isSome_cutOffset?_iff`), and a byte is one only if the text has that many. What a scanner takes for an offset is
the size of the text it has gone through, so it can be cut there (`Text.cutOffset?_append`).
-/

set_option autoImplicit false

namespace SqlDialects.Text

open String (utf8Len utf8EncodeChar)

/-! ## Cuts -/

/-- A text cut at a byte offset; nothing if the offset is outside the text or inside a character. -/
def cutOffset? : Nat → List Char → Option (List Char × List Char)
  | 0, cs => some ([], cs)
  | _ + 1, [] => none
  | n + 1, c :: cs =>
    if c.utf8Size ≤ n + 1 then (cutOffset? (n + 1 - c.utf8Size) cs).map fun r => (c :: r.1, r.2) else none

/-- The text up to an offset. -/
def sliceTo? (cs : List Char) (n : Nat) : Option (List Char) := (cutOffset? n cs).map Prod.fst

/-- The text from an offset on. -/
def sliceFrom? (cs : List Char) (n : Nat) : Option (List Char) := (cutOffset? n cs).map Prod.snd

/-- The text from one offset up to another. -/
def slice? (cs : List Char) (i n : Nat) : Option (List Char) := (sliceTo? cs n).bind (sliceFrom? · i)

section Cuts

variable {n : Nat} {cs before behind : List Char}

theorem cutOffset?_eq_some_iff :
    cutOffset? n cs = some (before, behind) ↔ cs = before ++ behind ∧ utf8Len before = n := by
  induction cs generalizing n before with
  | nil =>
    cases n with
    | zero =>
      rw [cutOffset?, Option.some_inj, Prod.mk.injEq, List.nil_eq_append_iff, String.utf8Len_eq_zero]
      constructor
      · rintro ⟨rfl, rfl⟩
        exact ⟨⟨rfl, rfl⟩, rfl⟩
      · rintro ⟨⟨rfl, rfl⟩, -⟩
        exact ⟨rfl, rfl⟩
    | succ n =>
      refine iff_of_false nofun ?_
      rintro ⟨empty, size⟩
      rw [(List.nil_eq_append_iff.1 empty).1] at size
      cases size
  | cons c cs ih =>
    have positive := c.utf8Size_pos
    cases n with
    | zero =>
      rw [cutOffset?, Option.some_inj, Prod.mk.injEq, String.utf8Len_eq_zero]
      constructor
      · rintro ⟨rfl, rfl⟩
        exact ⟨rfl, rfl⟩
      · rintro ⟨same, rfl⟩
        exact ⟨rfl, same⟩
    | succ n =>
      rw [cutOffset?]
      cases before with
      | nil =>
        refine iff_of_false (fun h => ?_) nofun
        split at h
        · obtain ⟨_, -, same⟩ := Option.map_eq_some_iff.1 h
          cases same
        · cases h
      | cons b before =>
        rw [String.utf8Len_cons, List.cons_append, List.cons.injEq]
        split
        · next fits =>
          rw [Option.map_eq_some_iff]
          constructor
          · rintro ⟨r, read, same⟩
            cases same
            obtain ⟨cut, size⟩ := ih.1 read
            exact ⟨⟨rfl, cut⟩, by omega⟩
          · rintro ⟨⟨rfl, cut⟩, size⟩
            exact ⟨(before, behind), ih.2 ⟨cut, by omega⟩, rfl⟩
        · next wide =>
          refine iff_of_false nofun ?_
          rintro ⟨⟨rfl, -⟩, size⟩
          omega

theorem cutOffset?_append (before behind : List Char) :
    cutOffset? (utf8Len before) (before ++ behind) = some (before, behind) :=
  cutOffset?_eq_some_iff.2 ⟨rfl, rfl⟩

/-- A text can be cut at an offset if it is a position of the text. -/
theorem isSome_cutOffset?_iff {s : String} : (cutOffset? n s.toList).isSome ↔ (String.Pos.Raw.mk n).IsValid s := by
  rw [String.Pos.Raw.isValid_iff_exists_append, Option.isSome_iff_exists]
  constructor
  · rintro ⟨⟨before, behind⟩, cut⟩
    obtain ⟨same, size⟩ := cutOffset?_eq_some_iff.1 cut
    refine ⟨String.ofList before, String.ofList behind, ?_, ?_⟩
    · rw [← String.ofList_append, ← same, String.ofList_toList]
    · rw [String.rawEndPos_ofList, size]
  · rintro ⟨before, behind, rfl, size⟩
    refine ⟨(before.toList, behind.toList), cutOffset?_eq_some_iff.2 ⟨String.toList_append, ?_⟩⟩
    rw [← String.ofList_toList (s := before), String.rawEndPos_ofList] at size
    exact (congrArg String.Pos.Raw.byteIdx size).symm

example : cutOffset? 1 "é".toList = none := by decide

/-- A text is cut at an offset in one way. -/
theorem append_inj_of_utf8Len {before' behind' : List Char} (h : before ++ behind = before' ++ behind')
    (size : utf8Len before = utf8Len before') : before = before' ∧ behind = behind' := by
  have cut := cutOffset?_append before behind
  rw [h, size, cutOffset?_append] at cut
  cases cut
  exact ⟨rfl, rfl⟩

theorem sliceTo?_append (before behind : List Char) : sliceTo? (before ++ behind) (utf8Len before) = some before := by
  rw [sliceTo?, cutOffset?_append]
  rfl

theorem sliceFrom?_append (before behind : List Char) :
    sliceFrom? (before ++ behind) (utf8Len before) = some behind := by
  rw [sliceFrom?, cutOffset?_append]
  rfl

theorem slice?_append (before inside behind : List Char) :
    slice? (before ++ (inside ++ behind)) (utf8Len before) (utf8Len before + utf8Len inside) = some inside := by
  rw [slice?, ← List.append_assoc, ← String.utf8Len_append, sliceTo?_append, Option.bind_some, sliceFrom?_append]

theorem slice?_eq_some_iff {i : Nat} {inside : List Char} :
    slice? cs i n = some inside ↔ ∃ before behind,
      cs = before ++ (inside ++ behind) ∧ utf8Len before = i ∧ utf8Len before + utf8Len inside = n := by
  constructor
  · intro h
    obtain ⟨front, cut, rest⟩ := Option.bind_eq_some_iff.1 h
    obtain ⟨⟨_, behind⟩, first, rfl⟩ := Option.map_eq_some_iff.1 cut
    obtain ⟨⟨before, _⟩, second, rfl⟩ := Option.map_eq_some_iff.1 rest
    obtain ⟨rfl, size⟩ := cutOffset?_eq_some_iff.1 first
    obtain ⟨whole, size'⟩ := cutOffset?_eq_some_iff.1 second
    simp only at whole size size' ⊢
    refine ⟨before, behind, by rw [whole, List.append_assoc], size', ?_⟩
    rw [← String.utf8Len_append, ← whole, size]
  · rintro ⟨before, behind, rfl, rfl, rfl⟩
    exact slice?_append before inside behind

end Cuts

/-! ## Bytes -/

/-- The byte at an offset. -/
def byteAt? (cs : List Char) (n : Nat) : Option UInt8 := (cs.flatMap utf8EncodeChar)[n]?

/-- Whether a number is the code of an ASCII letter, a digit or the underscore. -/
def isWordCode (n : Nat) : Bool :=
  (48 ≤ n && n ≤ 57) || (65 ≤ n && n ≤ 90) || (97 ≤ n && n ≤ 122) || n == 95

/-- Whether a byte is that of a plain word character. -/
def isWordByte (b : UInt8) : Bool := isWordCode b.toNat

section Bytes

variable {n : Nat} {cs before behind : List Char} {c : Char} {b : UInt8}

theorem isPlainWordChar_eq (c : Char) : isPlainWordChar c = isWordCode c.toNat := by
  rw [Bool.eq_iff_iff]
  simp only [isPlainWordChar, isAsciiLetter, isAsciiDigit, isWordCode, Char.le_def, Bool.or_eq_true, Bool.and_eq_true,
    decide_eq_true_eq, beq_iff_eq, UInt32.le_iff_toNat_le, ← Char.toNat_inj]
  have code : c.toNat = c.val.toNat := rfl
  simp only [Char.reduceVal, UInt32.reduceToNat, Char.toNat_val, Char.reduceToNat]
  omega

/-- A character beyond ASCII has no byte of ASCII. -/
theorem le_toNat_of_mem_utf8EncodeChar (wide : 128 ≤ c.toNat) (h : b ∈ utf8EncodeChar c) : 128 ≤ b.toNat := by
  have code : c.toNat = c.val.toNat := rfl
  unfold utf8EncodeChar at h
  simp only at h
  split at h
  · omega
  · split at h
    · simp only [List.mem_cons, List.not_mem_nil, or_false] at h
      rcases h with rfl | rfl <;> rw [UInt8.toNat_ofNat'] <;> omega
    · split at h
      · simp only [List.mem_cons, List.not_mem_nil, or_false] at h
        rcases h with rfl | rfl | rfl <;> rw [UInt8.toNat_ofNat'] <;> omega
      · simp only [List.mem_cons, List.not_mem_nil, or_false] at h
        rcases h with rfl | rfl | rfl | rfl <;> rw [UInt8.toNat_ofNat'] <;> omega

theorem utf8Size_of_isPlainWordChar (h : isPlainWordChar c = true) : c.utf8Size = 1 := by
  rw [Char.utf8Size_eq_one_iff, UInt32.le_iff_toNat_le]
  exact Nat.le_of_lt_succ (toNat_lt_of_isPlainWordChar h)

theorem utf8Len_of_forall (h : ∀ c ∈ cs, isPlainWordChar c = true) : utf8Len cs = cs.length := by
  induction cs with
  | nil => rfl
  | cons c cs ih =>
    rw [List.forall_mem_cons] at h
    rw [String.utf8Len_cons, ih h.2, utf8Size_of_isPlainWordChar h.1, List.length_cons]

/-- Every byte of a character tells whether it is a plain word character. -/
theorem isWordByte_eq (h : b ∈ utf8EncodeChar c) : isWordByte b = isPlainWordChar c := by
  rw [isPlainWordChar_eq, isWordByte]
  by_cases wide : 128 ≤ c.toNat
  · have high := le_toNat_of_mem_utf8EncodeChar wide h
    rw [Bool.eq_iff_iff]
    simp only [isWordCode, Bool.or_eq_true, Bool.and_eq_true, decide_eq_true_eq, beq_iff_eq]
    omega
  · have code : c.toNat = c.val.toNat := rfl
    have single : utf8EncodeChar c = [UInt8.ofNat c.toNat] := if_pos (by omega)
    rw [single, List.mem_singleton] at h
    rw [h, UInt8.toNat_ofNat', Nat.mod_eq_of_lt (by omega)]

theorem length_flatMap_utf8EncodeChar (cs : List Char) : (cs.flatMap utf8EncodeChar).length = utf8Len cs := by
  induction cs with
  | nil => rfl
  | cons c cs ih =>
    rw [List.flatMap_cons, List.length_append, String.length_utf8EncodeChar, ih, String.utf8Len_cons, Nat.add_comm]

/-- Every offset inside a text has a byte. -/
theorem exists_byteAt? (h : n < utf8Len cs) : ∃ b, byteAt? cs n = some b := by
  rw [← length_flatMap_utf8EncodeChar] at h
  exact ⟨_, List.getElem?_eq_getElem h⟩

theorem byteAt?_append_cons (before behind : List Char) {i : Nat} (h : i < c.utf8Size) :
    ∃ b ∈ utf8EncodeChar c, byteAt? (before ++ c :: behind) (utf8Len before + i) = some b := by
  rw [← String.length_utf8EncodeChar] at h
  refine ⟨_, List.getElem_mem h, ?_⟩
  rw [byteAt?, List.flatMap_append, List.flatMap_cons, ← length_flatMap_utf8EncodeChar,
    List.getElem?_append_right (Nat.le_add_right _ _), Nat.add_sub_cancel_left, List.getElem?_append_left h]
  exact List.getElem?_eq_getElem h

/-- The byte behind a place in a text tells whether the character behind it is a plain word character. -/
theorem exists_byteAt?_behind (before : List Char) (c : Char) (behind : List Char) :
    ∃ b, byteAt? (before ++ c :: behind) (utf8Len before) = some b ∧ isWordByte b = isPlainWordChar c := by
  obtain ⟨b, mem, read⟩ := byteAt?_append_cons before behind c.utf8Size_pos
  exact ⟨b, read, isWordByte_eq mem⟩

/-- The byte before a place in a text tells whether the character before it is a plain word character. -/
theorem exists_byteAt?_before (before : List Char) (c : Char) (behind : List Char) :
    ∃ b, byteAt? (before ++ c :: behind) (utf8Len (before ++ [c]) - 1) = some b ∧ isWordByte b = isPlainWordChar c := by
  have positive := c.utf8Size_pos
  obtain ⟨b, mem, read⟩ := byteAt?_append_cons before behind (Nat.sub_lt positive Nat.one_pos)
  have size : utf8Len (before ++ [c]) - 1 = utf8Len before + (c.utf8Size - 1) := by
    rw [String.utf8Len_append, String.utf8Len_cons, String.utf8Len_nil]
    omega
  exact ⟨b, size ▸ read, isWordByte_eq mem⟩

end Bytes

end SqlDialects.Text
