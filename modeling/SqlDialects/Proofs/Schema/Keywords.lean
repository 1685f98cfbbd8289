import SqlDialects.Proofs.Schema.Cuts
import SqlDialects.Schema.Declaration

/-!
# Where a word stands out of a text

Reading a text leads a reader to a place (`Nesting.after`). A word stands out there if neither quotes nor parentheses
enclose the place and the word is neither the end nor the beginning of a longer one (`StandsOut`). The text before a
word is the text up to the first place where it stands out, or all of it (`beforeWord_spec`).

What encloses depends on the reader: one that takes brackets for plain characters may find a word between them, and may
lose its place at a quote that stands between them.
-/

set_option autoImplicit false

namespace SqlDialects.Schema

open Text

/-- Where a reader stands behind a text. -/
def Nesting.after (q : Quoting) (s : Nesting) (cs : List Char) : Nesting := cs.foldl (Nesting.next q) s

/-- Whether a reader stands behind a word character, after a text that it began inside a word or not. -/
def endsInWord (isWord : Char → Bool) (isInsideWord : Bool) (cs : List Char) : Bool :=
  cs.foldl (fun _ c => isWord c) isInsideWord

/-- Whether a word, given in small letters, stands out behind a beginning of a text, which a reader began at some place
and inside a word or not. -/
def StandsOut (q : Quoting) (isInsideWord : Bool) (s : Nesting) (word before rest : List Char) : Prop :=
  (s.after q before).isTop = true ∧ endsInWord isPlainWordChar isInsideWord before = false ∧
    beginsWithWord word rest = true

/-- Whether a word stands out anywhere in a text. -/
def HasWord (q : Quoting) (word cs : List Char) : Prop :=
  ∃ n ≤ cs.length, StandsOut q false .top word (cs.take n) (cs.drop n)

instance (q : Quoting) (isInsideWord : Bool) (s : Nesting) (word before rest : List Char) :
    Decidable (StandsOut q isInsideWord s word before rest) :=
  inferInstanceAs (Decidable (_ ∧ _ ∧ _))

instance (q : Quoting) (word cs : List Char) : Decidable (HasWord q word cs) :=
  inferInstanceAs (Decidable (∃ n ≤ cs.length, StandsOut q false .top word (cs.take n) (cs.drop n)))

variable {q : Quoting} {s s' : Nesting} {stop c : Char} {cs word tail before rest : List Char} {isInsideWord : Bool}

theorem Passes.after (h : Passes stop s cs s') : s.after .quotesAndBrackets cs = s' := by
  induction h with
  | nil => rfl
  | cons free _ ih => exact ih

theorem standsOut_nil :
    StandsOut q isInsideWord s word [] rest ↔
      (s.isTop && !isInsideWord && beginsWithWord word rest) = true := by
  rw [Bool.and_eq_true, Bool.and_eq_true, Bool.not_eq_true', and_assoc]
  exact Iff.rfl

/-- The text before a word, what is left of the text, and why it was cut there. -/
theorem beforeWord_spec (word : List Char) (isInsideWord : Bool) (s : Nesting) (cs : List Char) :
    ∃ rest, cs = beforeWord word isInsideWord s cs ++ rest ∧
      (rest ≠ [] → StandsOut .quotes isInsideWord s word (beforeWord word isInsideWord s cs) rest) ∧
      ∀ before rest, cs = before ++ rest → before.length < (beforeWord word isInsideWord s cs).length →
        ¬ StandsOut .quotes isInsideWord s word before rest := by
  induction cs generalizing isInsideWord s with
  | nil => exact ⟨[], rfl, fun h => absurd rfl h, fun _ _ _ h => absurd h (Nat.not_lt_zero _)⟩
  | cons c cs ih =>
    cases stands : s.isTop && !isInsideWord && beginsWithWord word (c :: cs) with
    | true =>
      rw [beforeWord, if_pos stands]
      exact ⟨c :: cs, rfl, fun _ => standsOut_nil.2 stands, fun _ _ _ h => absurd h (Nat.not_lt_zero _)⟩
    | false =>
      obtain ⟨rest, cut, stands', first⟩ := ih (isPlainWordChar c) (s.next .quotes c)
      rw [beforeWord, if_neg (by simp [stands])]
      refine ⟨rest, by rw [List.cons_append, ← cut], stands', fun before behind hcut hlt hs => ?_⟩
      cases before with
      | nil =>
        rw [← List.nil_append behind, ← hcut, standsOut_nil, stands] at hs
        cases hs
      | cons c' before =>
        obtain ⟨rfl, same⟩ := List.cons.inj hcut
        exact first before behind same (Nat.lt_of_succ_lt_succ hlt) hs

/-! ## Words that go on -/

theorem endsInWord_append (isWord : Char → Bool) (isInsideWord : Bool) (cs cs' : List Char) :
    endsInWord isWord isInsideWord (cs ++ cs') = endsInWord isWord (endsInWord isWord isInsideWord cs) cs' :=
  List.foldl_append

theorem endsInWord_concat (isWord : Char → Bool) (isInsideWord : Bool) (cs : List Char) (c : Char) :
    endsInWord isWord isInsideWord (cs ++ [c]) = isWord c := List.foldl_concat _ _ _ _

/-- A word does not reach over a character that stands in none. -/
theorem not_beginsWithWord (plain : word.all isPlainWordChar = true) (hc : isPlainWordChar c = false)
    (h : before.length < word.length) : beginsWithWord word (before ++ c :: rest) = false := by
  by_contra begins
  rw [Bool.not_eq_false, beginsWithWord, Bool.and_eq_true, beq_iff_eq] at begins
  have inside : c ∈ (before ++ c :: rest).take word.length := by
    rw [List.take_append, List.take_of_length_le (Nat.le_of_lt h)]
    obtain ⟨n, hn⟩ := Nat.exists_eq_add_of_lt h
    have more : word.length - before.length = n + 1 := by omega
    rw [more, List.take_succ_cons]
    simp
  have lowered : lowerChar c ∈ word := by
    rw [← begins.1]
    exact List.mem_map_of_mem inside
  rw [isPlainWordChar_of_lowerChar (List.all_eq_true.1 plain _ lowered)] at hc
  cases hc

theorem length_le_of_beginsWithWord (h : beginsWithWord word cs = true) : word.length ≤ cs.length := by
  rw [beginsWithWord, Bool.and_eq_true, beq_iff_eq] at h
  have same := congrArg List.length h.1
  rw [List.length_map, List.length_take] at same
  omega

theorem head?_of_beginsWithWord (plain : word.all isPlainWordChar = true) (hw : word ≠ [])
    (h : beginsWithWord word cs = true) : ∀ c ∈ cs.head?, isPlainWordChar c = true := by
  obtain ⟨k, ks, rfl⟩ := List.exists_cons_of_ne_nil hw
  rw [beginsWithWord, Bool.and_eq_true, beq_iff_eq] at h
  cases cs with
  | nil => exact nofun
  | cons c cs =>
    have lowered : lowerChar c = k := (List.cons.inj h.1).1
    have word : isPlainWordChar (lowerChar c) = true := lowered ▸ List.all_eq_true.1 plain k List.mem_cons_self
    exact forall_head?_cons (isPlainWordChar_of_lowerChar word)

/-- A character that stands in no word ends every word before it. -/
theorem beginsWithWord_append_cons (plain : word.all isPlainWordChar = true) (hc : isPlainWordChar c = false) :
    beginsWithWord word (rest ++ c :: tail) = beginsWithWord word rest := by
  by_cases h : rest.length < word.length
  · have short : beginsWithWord word rest = false := by
      by_contra begins
      exact absurd (length_le_of_beginsWithWord (by simpa using begins)) (Nat.not_le_of_lt h)
    rw [not_beginsWithWord plain hc h, short]
  · have within : word.length ≤ rest.length := Nat.le_of_not_lt h
    have behind : (rest.drop word.length ++ c :: tail).head?.any isPlainWordChar
        = (rest.drop word.length).head?.any isPlainWordChar := by
      cases rest.drop word.length with
      | nil => exact hc
      | cons => rfl
    rw [beginsWithWord, beginsWithWord, List.take_append_of_le_length within, List.drop_append_of_le_length within,
      behind]

/-- What follows a text does not matter for the words that begin in the text, if no word reaches over its end. -/
theorem beginsWithWord_append (plain : word.all isPlainWordChar = true) (hr : rest ≠ [])
    (ends : ∀ c ∈ tail.head?, endsInWord isPlainWordChar isInsideWord rest = true → isPlainWordChar c = false) :
    beginsWithWord word (rest ++ tail) = beginsWithWord word rest := by
  obtain ⟨before, c, rfl⟩ := (List.eq_nil_or_concat' rest).resolve_left hr
  rw [endsInWord_concat] at ends
  cases tail with
  | nil => rw [List.append_nil]
  | cons c' tail =>
    cases hc : isPlainWordChar c with
    | false => 
      rw [List.append_assoc, List.singleton_append, beginsWithWord_append_cons plain hc,
        beginsWithWord_append_cons plain hc]
    | true => exact beginsWithWord_append_cons plain (ends c' rfl hc)

/-! ## Words of a list -/

/-- What is one of some words, in either case, is a word. -/
theorem isPlainWordChar_of_isWordOf {words : List String} {w : List Char}
    (plain : words.all (fun k => k != "" && k.toList.all fun c => isPlainWordChar (lowerChar c)) = true)
    (h : isWordOf words w = true) : w ≠ [] ∧ ∀ c ∈ w, isPlainWordChar c = true := by
  obtain ⟨k, hk, same⟩ := List.any_eq_true.1 h
  have lowered : k.toList.map lowerChar = w.map lowerChar := by simpa [sameIgnoringCase] using same
  have word := List.all_eq_true.1 plain k hk
  rw [Bool.and_eq_true, bne_iff_ne] at word
  refine ⟨?_, fun c hc => ?_⟩
  · rintro rfl
    exact word.1 (String.toList_eq_nil_iff.1 (List.map_eq_nil_iff.1 lowered))
  · have hc' : lowerChar c ∈ k.toList.map lowerChar := lowered ▸ List.mem_map_of_mem hc
    obtain ⟨c', hc', same'⟩ := List.mem_map.1 hc'
    exact isPlainWordChar_of_lowerChar (same' ▸ List.all_eq_true.1 word.2 c' hc')

end SqlDialects.Schema
