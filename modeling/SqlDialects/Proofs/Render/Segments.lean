import Mathlib.Data.List.Forall2
import Mathlib.Data.List.Infix
import Mathlib.Data.Nat.Digits.Defs
import SqlDialects.Render.Template

/-!
# Templates and their segments

The segments of a template write it out again: a text stands for itself, and a substitute for decimal digits between
braces (`Segment.Written`). Where a brace does not begin such a reference it is text, and the next reference is looked
for right behind it, so texts are cut more often than they need be. What matters is that no reference is left in texts
that stand next to each other (`Segment.Divides`): then there is only one way to divide a template, up to where its
texts are cut (`Segment.ofTemplate_divides`).

The proofs look at a template mark by mark (`Segment.marksOf`), a mark being a character of a text or a whole reference.
-/

set_option autoImplicit false

namespace SqlDialects.Segment

open Text

/-- The number that digits write in the decimal system. -/
def numberOf (ds : List Char) : Nat := Nat.ofDigits 10 (ds.reverse.map fun c => c.toNat - '0'.toNat)

/-- What a segment is written as in a template. A number that an index of 64 bits cannot hold is not written. -/
inductive Written : Segment → List Char → Prop where
  | text (t : String) : Written (.text t) t.toList
  | substitute {ds : List Char} (nonempty : ds ≠ []) (digits : ∀ c ∈ ds, isAsciiDigit c = true)
    (fits : numberOf ds < 2 ^ 64) : Written (.substitute (numberOf ds)) ('\x7b' :: (ds ++ ['\x7d']))

/-- Whether segments write a text, each of them a piece of it. -/
def Write (segments : List Segment) (cs : List Char) : Prop :=
  ∃ pieces, List.Forall₂ Written segments pieces ∧ pieces.flatten = cs

/-- A template is divided into segments if they write it and no reference is left in texts that stand next to each
other. -/
structure Divides (template : List Char) (segments : List Segment) : Prop where
  write : Write segments template
  plain : ∀ (before : List Segment) (texts : List String) (after : List Segment),
    segments = before ++ texts.map .text ++ after →
      ∀ i reference, Written (.substitute i) reference → ¬ reference <:+: texts.flatMap String.toList

/-- The marks of segments: the characters of texts, and the indices of substitutes. -/
def marks : List Segment → List (Char ⊕ Nat)
  | [] => []
  | .text t :: segments => t.toList.map .inl ++ marks segments
  | .substitute i :: segments => .inr i :: marks segments

/-- The marks of a template. -/
def marksOf (cs : List Char) : List (Char ⊕ Nat) :=
  match cs with
  | [] => []
  | c :: rest =>
    if c = '\x7b' then
      match _found : reference? rest with
      | some (i, after) => .inr i :: marksOf after
      | none => .inl '\x7b' :: marksOf rest
    else .inl c :: marksOf rest
termination_by cs.length
decreasing_by
  · have := length_lt_of_reference? _found
    simp; omega
  · simp
  · simp

/-- Whether marks stand for a text, character by character and reference by reference. -/
inductive Spells : List (Char ⊕ Nat) → List Char → Prop where
  | nil : Spells [] []
  | character {ms : List (Char ⊕ Nat)} {cs : List Char} (c : Char) (rest : Spells ms cs) :
    Spells (.inl c :: ms) (c :: cs)
  | reference {ms : List (Char ⊕ Nat)} {reference cs : List Char} {i : Nat}
    (written : Written (.substitute i) reference) (rest : Spells ms cs) : Spells (.inr i :: ms) (reference ++ cs)

/-- Whether no reference is spelled by characters that stand next to each other. -/
def Plain (ms : List (Char ⊕ Nat)) : Prop :=
  ∀ before run after, ms = before ++ run.map .inl ++ after →
    ∀ i reference, Written (.substitute i) reference → ¬ reference <:+: run

variable {c : Char} {cs cs' rest after xs run reference : List Char} {i : Nat} {segments segments' : List Segment}
  {ms ms' : List (Char ⊕ Nat)}

/-! ## References -/

theorem decimalValue_eq (ds : List Char) : decimalValue ds = numberOf ds := by
  have step : ∀ n, ds.foldl (fun n c => 10 * n + (c.toNat - 48)) n
      = Nat.ofDigits 10 (ds.reverse.map fun c => c.toNat - 48) + 10 ^ ds.length * n := by
    induction ds with
    | nil => intro n; simp
    | cons d ds ih =>
      intro n
      rw [List.foldl_cons, ih, List.reverse_cons, List.map_append, Nat.ofDigits_append, List.length_map,
        List.length_reverse, List.length_cons, pow_succ]
      simp
      ring
  rw [decimalValue, step 0]
  rfl

theorem not_isAsciiDigit_brace : isAsciiDigit '\x7d' = false := by decide

/-- A reference follows an opening brace exactly if both together begin with a written one. -/
theorem reference?_eq_some_iff :
    reference? rest = some (i, after) ↔
      ∃ reference, Written (.substitute i) reference ∧ '\x7b' :: rest = reference ++ after := by
  constructor
  · intro h
    unfold reference? at h
    dsimp only at h
    split at h
    · next behind closes =>
      split at h
      · next ok =>
        simp only [Option.some.injEq, Prod.mk.injEq] at h
        obtain ⟨rfl, rfl⟩ := h
        have whole := List.takeWhile_append_dropWhile (p := isAsciiDigit) (l := rest)
        rw [closes] at whole
        rw [decimalValue_eq] at ok ⊢
        refine ⟨_, .substitute ok.1 (List.all_eq_true.1 List.all_takeWhile) ok.2, ?_⟩
        simp [whole]
      · cases h
    · cases h
  · rintro ⟨reference, written, same⟩
    cases written with
    | @substitute ds nonempty digits fits =>
      rw [List.cons_append, List.cons.injEq] at same
      obtain ⟨-, rfl⟩ := same
      have taken : ((ds ++ ['\x7d']) ++ after).takeWhile isAsciiDigit = ds := by
        rw [List.append_assoc, List.takeWhile_append_of_pos digits]
        simp [not_isAsciiDigit_brace]
      have left : ((ds ++ ['\x7d']) ++ after).dropWhile isAsciiDigit = '\x7d' :: after := by
        rw [List.append_assoc, List.dropWhile_append_of_pos digits]
        simp [not_isAsciiDigit_brace]
      unfold reference?
      simp only [taken, left, decimalValue_eq]
      exact if_pos ⟨nonempty, fits⟩

theorem Written.exists_eq_cons (h : Written (.substitute i) reference) :
    ∃ behind, reference = '\x7b' :: behind ∧ '\x7b' ∉ behind := by
  cases h with
  | @substitute ds _ digits _ =>
    refine ⟨_, rfl, fun brace => ?_⟩
    rw [List.mem_append, List.mem_singleton] at brace
    rcases brace with digit | closing
    · exact absurd (digits _ digit) (by decide)
    · exact absurd closing (by decide)

/-! ## Marks -/

theorem marks_append (segments segments' : List Segment) :
    marks (segments ++ segments') = marks segments ++ marks segments' := by
  induction segments with
  | nil => rfl
  | cons s segments ih => cases s <;> simp [marks, ih]

theorem marks_texts (texts : List String) : marks (texts.map .text) = (texts.flatMap String.toList).map .inl := by
  induction texts with
  | nil => rfl
  | cons t texts ih => simp [marks, ih]

theorem marksOf_reference (h : Written (.substitute i) reference) :
    marksOf (reference ++ cs) = .inr i :: marksOf cs := by
  obtain ⟨behind, rfl, -⟩ := h.exists_eq_cons
  have found : reference? (behind ++ cs) = some (i, cs) := reference?_eq_some_iff.2 ⟨_, h, rfl⟩
  rw [List.cons_append, marksOf, if_pos rfl]
  split
  · next j after read =>
    cases read.symm.trans found
    rfl
  · next read => cases read.symm.trans found

theorem marksOf_character (h : c ≠ '\x7b' ∨ reference? cs = none) : marksOf (c :: cs) = .inl c :: marksOf cs := by
  rw [marksOf]
  split
  · next brace =>
    split
    · next read =>
      rcases h with other | none
      · exact absurd brace other
      · cases read.symm.trans none
    · rw [brace]
  · rfl

theorem spells_marksOf (cs : List Char) : Spells (marksOf cs) cs := by
  fun_induction marksOf cs with
  | case1 => exact .nil
  | case2 rest i after found ih =>
    obtain ⟨reference, written, same⟩ := reference?_eq_some_iff.1 found
    rw [same]
    exact .reference written ih
  | case3 rest none ih => exact .character _ ih
  | case4 c rest other ih => exact .character c ih

/-- Marks of characters spell these characters. -/
theorem Spells.exists_eq_append (h : Spells (xs.map .inl ++ ms) cs) : ∃ cs', cs = xs ++ cs' ∧ Spells ms cs' := by
  induction xs generalizing cs with
  | nil => exact ⟨cs, rfl, h⟩
  | cons x xs ih =>
    cases h with
    | character _ rest =>
      obtain ⟨cs', rfl, spelled⟩ := ih rest
      exact ⟨cs', rfl, spelled⟩

theorem Spells.characters (h : Spells ms cs) (xs : List Char) : Spells (xs.map .inl ++ ms) (xs ++ cs) := by
  induction xs with
  | nil => exact h
  | cons x xs ih => exact .character x ih

/-- Where no brace opens, all marks are characters. -/
theorem Spells.exists_map_append (h : Spells ms (xs ++ cs)) (hx : '\x7b' ∉ xs) :
    ∃ ms', ms = xs.map .inl ++ ms' := by
  induction xs generalizing ms with
  | nil => exact ⟨ms, rfl⟩
  | cons x xs ih =>
    rw [List.mem_cons, not_or] at hx
    generalize whole : x :: xs ++ cs = text at h
    cases h with
    | nil => cases whole
    | character c rest =>
      rw [List.cons_append, List.cons.injEq] at whole
      obtain ⟨rfl, rfl⟩ := whole
      obtain ⟨ms', rfl⟩ := ih rest hx.2
      exact ⟨ms', rfl⟩
    | reference written rest =>
      obtain ⟨behind, rfl, -⟩ := written.exists_eq_cons
      rw [List.cons_append, List.cons_append, List.cons.injEq] at whole
      exact absurd whole.1.symm hx.1

/-- A character that is no mark of its own begins a reference. -/
theorem exists_reference (h : ¬ (c ≠ '\x7b' ∨ reference? cs = none)) :
    ∃ i reference after, Written (.substitute i) reference ∧ c :: cs = reference ++ after := by
  rw [not_or, not_not, ← ne_eq, Option.ne_none_iff_exists'] at h
  obtain ⟨rfl, ⟨i, after⟩, found⟩ := h
  obtain ⟨reference, written, same⟩ := reference?_eq_some_iff.1 found
  exact ⟨i, reference, after, written, same⟩

/-- What stands behind some of the marks of a template are the marks of a template. -/
theorem exists_marksOf_eq (h : marksOf cs = ms ++ ms') : ∃ cs', marksOf cs' = ms' := by
  induction ms generalizing cs with
  | nil => exact ⟨cs, h⟩
  | cons m ms ih =>
    cases cs with
    | nil => rw [marksOf] at h; cases h
    | cons c rest =>
      by_cases character : c ≠ '\x7b' ∨ reference? rest = none
      · rw [marksOf_character character, List.cons_append, List.cons.injEq] at h
        exact ih h.2
      · obtain ⟨i, reference, after, written, same⟩ := exists_reference character
        rw [same, marksOf_reference written, List.cons_append, List.cons.injEq] at h
        exact ih h.2

/-- The marks of a template leave no reference in its characters. -/
theorem plain_marksOf (cs : List Char) : Plain (marksOf cs) := by
  rintro before run after split i reference written ⟨front, back, rfl⟩
  have here : marksOf cs = (before ++ front.map .inl) ++ (reference.map .inl ++ (back.map .inl ++ after)) := by
    simp [split]
  obtain ⟨cs', behind⟩ := exists_marksOf_eq here
  obtain ⟨cs'', rfl, -⟩ := (behind ▸ spells_marksOf cs').exists_eq_append
  obtain ⟨tail, rfl, -⟩ := written.exists_eq_cons
  rw [marksOf_reference written] at behind
  cases behind

theorem Spells.eq_marksOf (h : Spells ms cs) (plain : Plain ms) : ms = marksOf cs := by
  induction h with
  | nil => rw [marksOf]
  | @character ms cs c rest ih =>
    have tail : Plain ms := fun before run after split => plain (.inl c :: before) run after (by rw [split]; rfl)
    rw [marksOf_character, ih tail]
    by_contra refers
    obtain ⟨i, reference, after, written, same⟩ := exists_reference refers
    obtain ⟨behind, rfl, inside⟩ := written.exists_eq_cons
    rw [List.cons_append, List.cons.injEq] at same
    obtain ⟨rfl, rfl⟩ := same
    obtain ⟨ms', rfl⟩ := rest.exists_map_append inside
    exact plain [] ('\x7b' :: behind) ms' rfl i _ written List.infix_rfl
  | @reference ms _ _ i written rest ih =>
    have tail : Plain ms := fun before run after split => plain (.inr i :: before) run after (by rw [split]; rfl)
    rw [marksOf_reference written, ← ih tail]

/-! ## Segments -/

theorem Write.append (h : Write segments cs) (h' : Write segments' cs') :
    Write (segments ++ segments') (cs ++ cs') := by
  obtain ⟨pieces, written, rfl⟩ := h
  obtain ⟨pieces', written', rfl⟩ := h'
  exact ⟨pieces ++ pieces', List.rel_append written written', List.flatten_append⟩

theorem write_ofReversed (cs : List Char) : Write (ofReversed cs) cs.reverse := by
  cases cs with
  | nil => exact ⟨[], .nil, rfl⟩
  | cons c cs =>
    have written := Written.text (String.ofList (c :: cs).reverse)
    rw [String.toList_ofList] at written
    exact ⟨[(c :: cs).reverse], .cons written .nil, by simp⟩

theorem marks_ofReversed (cs : List Char) : marks (ofReversed cs) = cs.reverse.map .inl := by
  cases cs <;> simp [ofReversed, marks]

theorem ne_empty_of_mem_ofReversed {t : String} (h : text t ∈ ofReversed cs) : t ≠ "" := by
  cases cs with
  | nil => cases h
  | cons c cs =>
    have same : t = String.ofList (c :: cs).reverse := by simpa [ofReversed] using h
    simp [same, ← String.toList_inj]

theorem write_scan (pending cs : List Char) : Write (scan pending cs) (pending.reverse ++ cs) := by
  fun_induction scan pending cs with
  | case1 pending => simpa using write_ofReversed pending
  | case2 pending rest i after found ih =>
    obtain ⟨reference, written, same⟩ := reference?_eq_some_iff.1 found
    have one : Write [substitute i] reference := ⟨[reference], .cons written .nil, by simp⟩
    rw [same]
    simpa using (write_ofReversed pending).append (one.append ih)
  | case3 pending rest none ih => simpa using (write_ofReversed ('\x7b' :: pending)).append ih
  | case4 pending c rest other ih => simpa using ih

theorem marks_scan (pending cs : List Char) : marks (scan pending cs) = pending.reverse.map .inl ++ marksOf cs := by
  fun_induction scan pending cs with
  | case1 pending => simp [marks_ofReversed, marksOf]
  | case2 pending rest i after found ih =>
    obtain ⟨reference, written, same⟩ := reference?_eq_some_iff.1 found
    rw [same, marksOf_reference written, marks_append, marks_ofReversed, marks, ih]
    rfl
  | case3 pending rest none ih =>
    rw [marksOf_character (.inr none), marks_append, marks_ofReversed, ih]
    simp
  | case4 pending c rest other ih =>
    rw [marksOf_character (.inl other), ih]
    simp

theorem ne_empty_of_mem_scan {pending : List Char} {t : String} (h : text t ∈ scan pending cs) : t ≠ "" := by
  fun_induction scan pending cs with
  | case1 pending => exact ne_empty_of_mem_ofReversed h
  | case2 pending rest i after found ih =>
    rw [List.mem_append, List.mem_cons] at h
    rcases h with front | here | behind
    · exact ne_empty_of_mem_ofReversed front
    · cases here
    · exact ih behind
  | case3 pending rest none ih =>
    rw [List.mem_append] at h
    rcases h with front | behind
    · exact ne_empty_of_mem_ofReversed front
    · exact ih behind
  | case4 pending c rest other ih => exact ih h

theorem Spells.of_write (h : Write segments cs) : Spells (marks segments) cs := by
  obtain ⟨pieces, written, rfl⟩ := h
  induction written with
  | nil => exact .nil
  | cons one _ ih =>
    cases one with
    | text t => exact ih.characters t.toList
    | substitute nonempty digits fits => exact .reference (.substitute nonempty digits fits) ih

/-- Characters at the start of the marks are written by texts at the start of the segments. -/
theorem exists_texts_prefix (h : marks segments = run.map .inl ++ ms) :
    ∃ (texts : List String) (behind : List Segment), segments = texts.map .text ++ behind ∧
      run <+: texts.flatMap String.toList := by
  induction segments generalizing run with
  | nil =>
    have empty : run = [] := (by simpa [marks] using h.symm : run = [] ∧ ms = []).1
    exact ⟨[], [], rfl, empty ▸ List.nil_prefix⟩
  | cons s segments ih =>
    cases s with
    | text t =>
      rcases List.append_eq_append_iff.1 h with ⟨more, split, rest⟩ | ⟨more, split, -⟩
      · obtain ⟨first, run', rfl, same, rfl⟩ := List.map_eq_append_iff.1 split
        obtain rfl := List.map_injective_iff.2 Sum.inl_injective same
        obtain ⟨texts, behind, rfl, inside⟩ := ih rest
        exact ⟨t :: texts, behind, rfl, (List.prefix_append_right_inj _).2 inside⟩
      · obtain ⟨first, others, whole, same, -⟩ := List.map_eq_append_iff.1 split
        obtain rfl := List.map_injective_iff.2 Sum.inl_injective same
        exact ⟨[t], segments, rfl, by simp [whole]⟩
    | substitute i =>
      cases run with
      | nil => exact ⟨[], _, rfl, List.nil_prefix⟩
      | cons x run => cases h

/-- Characters that stand next to each other are written by texts that do. -/
theorem exists_texts_infix (h : marks segments = ms ++ (run.map .inl ++ ms')) :
    ∃ (before : List Segment) (texts : List String) (after : List Segment),
      segments = before ++ texts.map .text ++ after ∧ run <:+: texts.flatMap String.toList := by
  induction segments generalizing ms with
  | nil =>
    have empty : run = [] := (by simpa [marks] using h.symm : ms = [] ∧ run = [] ∧ ms' = []).2.1
    exact ⟨[], [], [], rfl, empty ▸ List.nil_infix⟩
  | cons s segments ih =>
    cases s with
    | text t =>
      rcases List.append_eq_append_iff.1 h with ⟨more, rfl, rest⟩ | ⟨more, split, rest⟩
      · obtain ⟨before, texts, after, rfl, inside⟩ := ih rest
        exact ⟨.text t :: before, texts, after, rfl, inside⟩
      · -- The characters begin inside this text.
        obtain ⟨first, others, whole, rfl, -⟩ := List.map_eq_append_iff.1 split
        rw [← List.append_assoc, ← List.map_append] at h
        obtain ⟨texts, behind, same, inside⟩ := exists_texts_prefix h
        exact ⟨[], texts, behind, same, (List.suffix_append first run).isInfix.trans inside.isInfix⟩
    | substitute i =>
      cases ms with
      | nil =>
        cases run with
        | nil => exact ⟨[], [], _, rfl, List.nil_infix⟩
        | cons x run => cases h
      | cons m ms =>
        obtain ⟨before, texts, after, rfl, inside⟩ := ih (List.cons.inj h).2
        exact ⟨.substitute i :: before, texts, after, rfl, inside⟩

theorem Divides.plain_marks {template : List Char} (h : Divides template segments) : Plain (marks segments) := by
  intro before run after split i reference written left
  rw [List.append_assoc] at split
  obtain ⟨front, texts, behind, same, inside⟩ := exists_texts_infix split
  exact h.plain front texts behind same i reference written (left.trans inside)

/-- The segments of a template divide it, none of them empty. Any other division has the same marks: it consists of the
same references and the same characters around them. -/
theorem ofTemplate_divides (template : String) :
    (∀ t, text t ∈ ofTemplate template → t ≠ "")
      ∧ Divides template.toList (ofTemplate template)
      ∧ ∀ segments, Divides template.toList segments → marks segments = marks (ofTemplate template) := by
  have same : marks (ofTemplate template) = marksOf template.toList := marks_scan [] template.toList
  refine ⟨fun t => ne_empty_of_mem_scan, ⟨write_scan [] template.toList, ?_⟩, fun segments divides => ?_⟩
  · intro before texts after split i reference written inside
    have found : marksOf template.toList
        = marks before ++ (texts.flatMap String.toList).map .inl ++ marks after := by
      rw [← same, split, marks_append, marks_append, marks_texts]
    exact plain_marksOf template.toList _ _ _ found i reference written inside
  · rw [same]
    exact (Spells.of_write divides.write).eq_marksOf divides.plain_marks

end SqlDialects.Segment
