import SqlDialects.Text.Basic
import Mathlib.Data.List.SplitBy

/-!
# Words, numbers and blanks of a text

The runs of characters of one kind in a text, read from its left end: characters of the other kind are passed over
(`Text.run_induction`). The plain words are those of word characters; texts in which quotes are doubled have the words
that they had before (`Text.plainWords_doubling`).

Blanks are no word characters, and trimming takes the blanks around a text and nothing of it (`Text.trimChars_blanks`).
-/

set_option autoImplicit false

namespace SqlDialects.Text

/-! ## Ends -/

theorem forall_head?_cons {p : Char → Prop} {c : Char} {cs : List Char} (h : p c) : ∀ a ∈ (c :: cs).head?, p a := by
  rintro _ ⟨⟩
  exact h

theorem forall_getLast?_concat {p : Char → Prop} {c : Char} {cs : List Char} (h : p c) :
    ∀ a ∈ (cs ++ [c]).getLast?, p a := by
  rw [List.getLast?_concat]
  rintro _ ⟨⟩
  exact h

/-! ## Words -/

/-- Where a run of characters ends, there it is cut. -/
theorem takeWhile_run {p : Char → Bool} {w cs : List Char} (h : ∀ c ∈ w, p c = true)
    (h' : ∀ c ∈ cs.head?, p c = false) : (w ++ cs).takeWhile p = w ∧ (w ++ cs).dropWhile p = cs := by
  have ends : cs.takeWhile p = [] ∧ cs.dropWhile p = cs := by
    cases cs with
    | nil => exact ⟨rfl, rfl⟩
    | cons c cs =>
      have hc : p c = false := h' c rfl
      exact ⟨List.takeWhile_cons_of_neg (by simp [hc]), List.dropWhile_cons_of_neg (by simp [hc])⟩
  rw [List.takeWhile_append_of_pos h, List.dropWhile_append_of_pos h, ends.1, ends.2, List.append_nil]
  exact ⟨rfl, rfl⟩

section Words

variable {c q : Char} {cs cs' w : List Char}

/-- A character stands in words if its small letter does. -/
theorem isPlainWordChar_of_lowerChar (h : isPlainWordChar (lowerChar c) = true) : isPlainWordChar c = true := by
  unfold lowerChar at h
  split at h
  · next upper => simp [isPlainWordChar, isAsciiLetter, upper.1, upper.2]
  · exact h

/-! ### Runs of one kind -/

/-- The maximal runs of characters of one kind in a text. -/
def runs (p : Char → Bool) (cs : List Char) : List (List Char) :=
  (cs.splitBy fun a b => p a == p b).filter (·.any p)

variable {p : Char → Bool}

/-- Characters of the other kind add no runs to what follows. -/
theorem runs_append_of_other (h : ∀ c ∈ cs, p c = false) (h' : ∀ c ∈ cs'.head?, p c = true) :
    runs p (cs ++ cs') = runs p cs' := by
  have apart : ∀ x ∈ cs.getLast?, ∀ y ∈ cs'.head?, (p x == p y) = false := by
    intro x hx y hy
    rw [h x (List.mem_of_getLast? hx), h' y hy]
    rfl
  have none : (cs.splitBy fun a b => p a == p b).filter (·.any p) = [] := by
    rw [List.filter_eq_nil_iff]
    intro run hrun hany
    obtain ⟨c, hc, hp⟩ := List.any_eq_true.1 hany
    have hm : c ∈ cs := by
      rw [← List.flatten_splitBy (fun a b => p a == p b) cs]
      exact List.mem_flatten_of_mem hrun hc
    rw [h c hm] at hp
    cases hp
  rw [runs, List.splitBy_append apart, List.filter_append, none, List.nil_append, runs]

theorem runs_cons_of_other (h : p c = false) : runs p (c :: cs) = runs p cs := by
  have cut := List.takeWhile_append_dropWhile (p := fun c => !p c) (l := cs)
  have others : ∀ a ∈ cs.takeWhile fun c => !p c, p a = false := by
    intro a ha
    simpa using List.all_eq_true.1 List.all_takeWhile a ha
  have word : ∀ a ∈ (cs.dropWhile fun c => !p c).head?, p a = true := by
    intro a ha
    have hd := List.head?_dropWhile_not (fun c => !p c) cs
    rw [Option.mem_def.1 ha] at hd
    simpa using hd
  have behind := runs_append_of_other others word
  have all := runs_append_of_other (List.forall_mem_cons.2 ⟨h, others⟩) word
  rw [List.cons_append, cut] at all
  rw [cut] at behind
  rw [all, behind]

theorem runs_run (hne : w ≠ []) (h : ∀ c ∈ w, p c = true) (h' : ∀ c ∈ cs.head?, p c = false) :
    runs p (w ++ cs) = w :: runs p cs := by
  have apart : ∀ x ∈ w.getLast?, ∀ y ∈ cs.head?, (p x == p y) = false := by
    intro x hx y hy
    rw [h x (List.mem_of_getLast? hx), h' y hy]
    rfl
  have chain : w.IsChain fun a b => (p a == p b) = true := by
    have pairs : w.Pairwise fun a b => (p a == p b) = true := by
      refine List.pairwise_of_forall_mem_list ?_
      intro a ha b hb
      rw [h a ha, h b hb]
      rfl
    exact pairs.isChain
  have word : w.any p = true := by
    obtain ⟨c, hc⟩ := List.exists_mem_of_ne_nil w hne
    exact List.any_eq_true.2 ⟨c, hc, h c hc⟩
  rw [runs, List.splitBy_append apart, List.splitBy_of_isChain hne chain, List.filter_append,
    List.filter_singleton, word]
  rfl

/-- A text ends, begins with a character of the other kind, or begins with a run. -/
theorem run_induction (p : Char → Bool) {P : List Char → Prop} (nil : P [])
    (other : ∀ c cs, p c = false → P cs → P (c :: cs))
    (word : ∀ w cs, w ≠ [] → (∀ c ∈ w, p c = true) → (∀ c ∈ cs.head?, p c = false) → P cs → P (w ++ cs))
    (cs : List Char) : P cs := by
  induction hn : cs.length using Nat.strong_induction_on generalizing cs with
  | _ n ih =>
    cases cs with
    | nil => exact nil
    | cons c cs =>
      cases hc : p c with
      | false => exact other c cs hc (ih cs.length (by simp [← hn]) cs rfl)
      | true =>
        have cut := List.takeWhile_append_dropWhile (p := p) (l := cs)
        have shorter := (List.dropWhile_suffix p (l := cs)).length_le
        have run : ∀ a ∈ c :: cs.takeWhile p, p a = true :=
          List.forall_mem_cons.2 ⟨hc, List.all_eq_true.1 List.all_takeWhile⟩
        have ends : ∀ a ∈ (cs.dropWhile p).head?, p a = false := by
          intro a ha
          have hd := List.head?_dropWhile_not p cs
          rw [Option.mem_def.1 ha] at hd
          exact hd
        rw [← cut, ← List.cons_append]
        refine word _ _ (List.cons_ne_nil _ _) run ends (ih _ ?_ _ rfl)
        rw [← hn, List.length_cons]
        omega

/-- Runs do not reach over a character of the other kind. -/
theorem runs_append_cons (h : p c = false) : runs p (cs ++ c :: cs') = runs p cs ++ runs p cs' := by
  induction cs using run_induction p with
  | nil => exact runs_cons_of_other h
  | other a cs ha ih => rw [List.cons_append, runs_cons_of_other ha, runs_cons_of_other ha, ih]
  | word w cs hne hw hcs ih =>
    have ends : ∀ a ∈ (cs ++ c :: cs').head?, p a = false := by
      cases cs with
      | nil => simpa using h
      | cons b cs => simpa using hcs
    rw [List.append_assoc, runs_run hne hw ends, runs_run hne hw hcs, ih, List.cons_append]

/-- The runs of a kind are those in the runs of a wider kind. -/
theorem runs_eq_flatMap {q : Char → Bool} (h : ∀ c, p c = true → q c = true) (cs : List Char) :
    runs p cs = (runs q cs).flatMap (runs p) := by
  have outside : ∀ c, q c = false → p c = false := by
    intro c hc
    by_contra hp
    rw [h c (by simpa using hp)] at hc
    cases hc
  induction cs using run_induction q with
  | nil => rfl
  | other c cs hc ih => rw [runs_cons_of_other (outside c hc), runs_cons_of_other hc, ih]
  | word w cs hne hw hcs ih =>
    rw [runs_run hne hw hcs, List.flatMap_cons, ← ih]
    cases cs with
    | nil => rw [List.append_nil, show runs p [] = [] from rfl, List.append_nil]
    | cons c cs =>
      have hc := outside c (hcs c rfl)
      rw [runs_append_cons hc, runs_cons_of_other hc]

/-! ### Plain words -/

theorem plainWords_cons_of_other (h : isPlainWordChar c = false) : plainWords (c :: cs) = plainWords cs :=
  runs_cons_of_other h

/-- A run of word characters is a word. -/
theorem plainWords_run (hne : w ≠ []) (h : ∀ c ∈ w, isPlainWordChar c = true)
    (h' : ∀ c ∈ cs.head?, isPlainWordChar c = false) : plainWords (w ++ cs) = w :: plainWords cs :=
  runs_run hne h h'

/-- Words do not reach over a character that stands in none. -/
theorem plainWords_append_cons (h : isPlainWordChar c = false) :
    plainWords (cs ++ c :: cs') = plainWords cs ++ plainWords cs' :=
  runs_append_cons h

theorem doubling_append_of_not_mem (h : q ∉ w) : doubling q (w ++ cs) = w ++ doubling q cs := by
  induction w with
  | nil => rfl
  | cons c w ih =>
    have hc : c ≠ q := fun hc => h (hc ▸ List.mem_cons_self)
    rw [List.cons_append, doubling, if_neg hc, ih fun hw => h (List.mem_cons_of_mem c hw), List.cons_append]

theorem head?_doubling (q : Char) (cs : List Char) : (doubling q cs).head? = cs.head? := by
  cases cs with
  | nil => rfl
  | cons c cs =>
    by_cases hc : c = q
    · rw [doubling, if_pos hc, hc]
      rfl
    · rw [doubling, if_neg hc]
      rfl

theorem toList_quoted (q : Char) (s : String) : (quoted q s).toList = q :: (doubling q s.toList ++ [q]) :=
  String.toList_ofList

/-- Doubling a quote changes no word. -/
theorem plainWords_doubling (h : isPlainWordChar q = false) (cs : List Char) :
    plainWords (doubling q cs) = plainWords cs := by
  induction cs using run_induction isPlainWordChar with
  | nil => rfl
  | other c cs hc ih =>
    by_cases hq : c = q
    · rw [doubling, if_pos hq, plainWords_cons_of_other h, plainWords_cons_of_other h, plainWords_cons_of_other hc, ih]
    · rw [doubling, if_neg hq, plainWords_cons_of_other hc, plainWords_cons_of_other hc, ih]
  | word w cs hne hw hcs ih =>
    have plain : q ∉ w := by
      intro hq
      rw [hw q hq] at h
      cases h
    rw [doubling_append_of_not_mem plain, plainWords_run hne hw (by rwa [head?_doubling]), plainWords_run hne hw hcs,
      ih]

end Words

/-! ## Numbers -/

theorem all_digits (n : Nat) : (Nat.toDigits 10 n).all isAsciiDigit = true := by
  rw [List.all_eq_true]
  intro c hc
  exact Nat.isDigit_of_mem_toDigits (by decide) (by decide) hc

theorem isPlainWordChar_of_isAsciiDigit {c : Char} (h : isAsciiDigit c = true) : isPlainWordChar c = true := by
  simp [isPlainWordChar, h]

/-! ## Blanks -/

section Blanks

variable {c : Char} {cs a b : List Char}

theorem isPlainWordChar_of_isBlank (h : isBlank c = true) : isPlainWordChar c = false := by
  by_contra hc
  simp only [isBlank, isPlainWordChar, isAsciiLetter, isAsciiDigit, Bool.not_eq_false, Bool.or_eq_true,
    Bool.and_eq_true, decide_eq_true_eq, beq_iff_eq, Char.le_def, UInt32.le_iff_toNat_le] at h hc
  rcases hc with hc | rfl
  · simp at h hc
    omega
  · simp at h

theorem isBlank_of_isPlainWordChar (h : isPlainWordChar c = true) : isBlank c = false := by
  by_contra hc
  rw [isPlainWordChar_of_isBlank (by simpa using hc)] at h
  cases h

theorem trimStart_eq_self (h : ∀ c ∈ cs.head?, isBlank c = false) : trimStart cs = cs :=
  (takeWhile_run (List.forall_mem_nil _) h).2

/-- A text ends in no blank if none of its parts does. -/
theorem getLast?_append_not_isBlank (ha : ∀ c ∈ a.getLast?, isBlank c = false)
    (hb : ∀ c ∈ b.getLast?, isBlank c = false) : ∀ c ∈ (a ++ b).getLast?, isBlank c = false := by
  intro c hc
  rw [List.getLast?_append, Option.mem_def, Option.or_eq_some_iff] at hc
  rcases hc with hc | ⟨-, hc⟩
  · exact hb c hc
  · exact ha c hc

/-- Trimming takes the blanks around a text that neither begins nor ends with one. -/
theorem trimChars_blanks (ha : ∀ c ∈ a, isBlank c = true) (hb : ∀ c ∈ b, isBlank c = true)
    (first : ∀ c ∈ cs.head?, isBlank c = false) (last : ∀ c ∈ cs.getLast?, isBlank c = false) :
    trimChars (a ++ (cs ++ b)) = cs := by
  have ending : trimEnd (cs ++ b) = cs := by
    have reversed : (b.reverse ++ cs.reverse).dropWhile isBlank = cs.reverse :=
      (takeWhile_run (by simpa using hb) (by rwa [List.head?_reverse])).2
    rw [trimEnd, List.reverse_append, reversed, List.reverse_reverse]
  have start : trimStart (a ++ (cs ++ b)) = trimStart (cs ++ b) := List.dropWhile_append_of_pos ha
  cases cs with
  | nil =>
    have none : trimStart b = [] := by
      have all : (b ++ []).dropWhile isBlank = [] := (takeWhile_run hb (by simp)).2
      rwa [List.append_nil] at all
    rw [trimChars, start, List.nil_append, none]
    rfl
  | cons c cs =>
    rw [trimChars, start, trimStart_eq_self (by simpa using first), ending]

end Blanks

end SqlDialects.Text
