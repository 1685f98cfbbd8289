import SqlDialects.Proofs.Text.Words
import SqlDialects.Schema.Nesting

/-!
# Where a text is cut

A text is cut at a character only outside quotes and parentheses. That a text leads a reader from one place to
another, and that the character it is cut at does not stand outside of everything on the way, is one relation
(`Passes`). Texts that pass can be put one behind the other, and that is all that is asked for by the two ways of
cutting: at the parenthesis that closes an open one (`splitClosing_of_passes`), and at the separators of a list
(`listItems_of_passes`).

A name between quotes passes whatever stands in it: a quote in it is written twice, so the reader leaves the quotes
and enters them again.
-/

set_option autoImplicit false

namespace SqlDialects.Schema

open Text

/-- Reading a text leads from one place to another, and is not stopped by a character at the top. -/
inductive Passes (stop : Char) : Nesting → List Char → Nesting → Prop where
  | nil (s : Nesting) : Passes stop s [] s
  | cons {s s' : Nesting} {c : Char} {cs : List Char} (free : (s.isTop && c == stop) = false)
    (rest : Passes stop (s.next .quotesAndBrackets c) cs s') : Passes stop s (c :: cs) s'

variable {stop c : Char} {s s' s'' : Nesting} {cs cs' r : List Char} {d : Nat}

theorem passes_nil_iff : Passes stop s [] s' ↔ s = s' := by
  constructor
  · rintro ⟨⟩
    rfl
  · rintro rfl
    exact .nil s

theorem passes_cons_iff :
    Passes stop s (c :: cs) s' ↔ (s.isTop && c == stop) = false ∧ Passes stop (s.next .quotesAndBrackets c) cs s' := by
  constructor
  · rintro ⟨⟩
    exact ⟨‹_›, ‹_›⟩
  · exact fun ⟨free, rest⟩ => .cons free rest

instance Passes.decidable (stop : Char) : ∀ s cs s', Decidable (Passes stop s cs s')
  | _, [], _ => decidable_of_iff _ passes_nil_iff.symm
  | s, c :: cs, s' =>
    have := Passes.decidable stop (s.next .quotesAndBrackets c) cs s'
    decidable_of_iff _ passes_cons_iff.symm

theorem Passes.append (h : Passes stop s cs s') (h' : Passes stop s' cs' s'') : Passes stop s (cs ++ cs') s'' := by
  induction h with
  | nil => exact h'
  | cons free _ ih => exact .cons free (ih h')

theorem passes_append_iff : Passes stop s (cs ++ cs') s'' ↔ ∃ s', Passes stop s cs s' ∧ Passes stop s' cs' s'' := by
  refine ⟨fun h => ?_, fun ⟨_, h, h'⟩ => h.append h'⟩
  induction cs generalizing s with
  | nil => exact ⟨s, .nil s, h⟩
  | cons c cs ih =>
    obtain ⟨free, rest⟩ := passes_cons_iff.1 h
    obtain ⟨s', front, back⟩ := ih rest
    exact ⟨s', .cons free front, back⟩

theorem Passes.flatMap {items : List (List Char)} {f : List Char → List Char}
    (h : ∀ item ∈ items, Passes stop s (f item) s) : Passes stop s (items.flatMap f) s := by
  induction items with
  | nil => exact .nil s
  | cons item items ih =>
    exact (h item List.mem_cons_self).append (ih fun i hi => h i (List.mem_cons_of_mem item hi))

/-! ## Cutting -/

/-- What passes is what stands inside the parenthesis. -/
theorem splitClosing_of_passes (h : Passes ')' s cs .top) : splitClosing s (cs ++ ')' :: r) = some (cs, r) := by
  generalize hs : Nesting.top = s' at h
  induction h with
  | nil => rw [List.nil_append, splitClosing, ← hs]; rfl
  | cons free _ ih => rw [List.cons_append, splitClosing, free, ih hs]; rfl

theorem splitClosing_eq_some_iff {r' : List Char} :
    splitClosing s cs = some (r, r') ↔ cs = r ++ ')' :: r' ∧ Passes ')' s r .top := by
  refine ⟨fun h => ?_, fun ⟨hcs, h⟩ => hcs ▸ splitClosing_of_passes h⟩
  induction cs generalizing s r with
  | nil => cases h
  | cons c cs ih =>
    rw [splitClosing] at h
    split at h
    · next closes =>
      cases h
      rw [Bool.and_eq_true, beq_iff_eq] at closes
      obtain ⟨closing, d⟩ := s
      have top : closing = none ∧ d = 0 := by simpa [Nesting.isTop] using closes.1
      rw [closes.2, top.1, top.2]
      exact ⟨rfl, .nil _⟩
    · next goesOn =>
      obtain ⟨⟨r, r'⟩, read, same⟩ := Option.map_eq_some_iff.1 h
      cases same
      obtain ⟨rfl, passes⟩ := ih read
      exact ⟨rfl, .cons (by simpa using goesOn) passes⟩

/-- What passes is the part before the separator. -/
theorem cutAt_of_passes (h : Passes stop s cs .top) : cutAt stop s (cs ++ stop :: r) = cs :: cutAt stop .top r := by
  generalize hs : Nesting.top = s' at h
  induction h with
  | nil => rw [List.nil_append, cutAt, ← hs]; simp [Nesting.isTop, Nesting.top]
  | cons free _ ih => rw [List.cons_append, cutAt, free, ih hs]; rfl

theorem cutAt_last (h : Passes stop s cs s') : cutAt stop s cs = [cs] := by
  induction h with
  | nil => rfl
  | cons free _ ih => rw [cutAt, free, ih]; rfl

/-- A list is cut into what its commas separate. -/
theorem cutAt_flatMap {items : List (List Char)} (h : ∀ item ∈ cs :: items, Passes ',' .top item .top) :
    cutAt ',' .top (cs ++ items.flatMap (',' :: ·)) = cs :: items := by
  induction items generalizing cs with
  | nil => rw [List.flatMap_nil, List.append_nil, cutAt_last (h cs List.mem_cons_self)]
  | cons item items ih =>
    rw [List.flatMap_cons, List.cons_append, cutAt_of_passes (h cs List.mem_cons_self),
      ih fun a ha => h a (List.mem_cons_of_mem cs ha)]

/-- The items of a list are those that its commas separate. -/
theorem listItems_of_passes {items : List (List Char)} (h : ∀ item ∈ cs :: items, Passes ',' .top item .top)
    (hb : ∀ item ∈ cs :: items, item.all isBlank = false) :
    listItems (cs ++ items.flatMap (',' :: ·)) = cs :: items := by
  rw [listItems, cutAt_flatMap h, List.filter_eq_self]
  intro item hi
  rw [hb item hi]
  rfl

/-! ## What passes -/

/-- The characters that the columns of a statement are cut at. -/
def IsCut (c : Char) : Prop := c = ')' ∨ c = ','

/-- Whether a character is a word character or blank, and so neither encloses nor ends anything. -/
def isIdle (c : Char) : Bool := isPlainWordChar c || isBlank c

theorem IsCut.not_isIdle (h : IsCut c) : isIdle c = false := by
  rcases h with rfl | rfl <;> decide

theorem next_of_isIdle {q : Quoting} (h : isIdle c = true) : (Nesting.mk none d).next q c = ⟨none, d⟩ := by
  have other : ∀ c', isIdle c' = false → c ≠ c' := fun c' hc' => ne_of_apply_ne isIdle (by simp [h, hc'])
  simp [Nesting.next, Quoting.closing?, other '\'' (by decide), other '"' (by decide), other '\x60' (by decide),
    other '[' (by decide), other '(' (by decide), other ')' (by decide)]

theorem passes_of_isIdle (hs : IsCut stop) (h : ∀ c ∈ cs, isIdle c = true) :
    Passes stop ⟨none, d⟩ cs ⟨none, d⟩ := by
  induction cs with
  | nil => exact .nil _
  | cons c cs ih =>
    have hc : isIdle c = true := h c List.mem_cons_self
    have other : c ≠ stop := ne_of_apply_ne isIdle (by simp [hc, hs.not_isIdle])
    refine .cons (by simp [other]) ?_
    rw [next_of_isIdle hc]
    exact ih fun a ha => h a (List.mem_cons_of_mem c ha)

theorem passes_quoted (hs : IsCut stop) :
    Passes stop ⟨none, d⟩ ('"' :: (doubling '"' cs ++ ['"'])) ⟨none, d⟩ := by
  have other : '"' ≠ stop := by
    rcases hs with rfl | rfl <;> decide
  have enter : (Nesting.mk none d).next .quotesAndBrackets '"' = ⟨some '"', d⟩ := rfl
  have leave : (Nesting.mk (some '"') d).next .quotesAndBrackets '"' = ⟨none, d⟩ := rfl
  have inside : Passes stop ⟨some '"', d⟩ (doubling '"' cs ++ ['"']) ⟨none, d⟩ := by
    induction cs with
    | nil => exact .cons rfl (.nil _)
    | cons c cs ih =>
      by_cases hc : c = '"'
      · rw [doubling, if_pos hc]
        refine .cons rfl (.cons (by simp [other]) ?_)
        rw [leave, enter]
        exact ih
      · have stays : (Nesting.mk (some '"') d).next .quotesAndBrackets c = ⟨some '"', d⟩ := by
          simp [Nesting.next, hc]
        rw [doubling, if_neg hc]
        refine .cons rfl ?_
        rw [stays]
        exact ih
  exact .cons (by simp [other]) inside

/-- Between parentheses a separator separates nothing. -/
theorem passes_enclosed (hs : IsCut stop) (h : Passes stop ⟨none, d + 1⟩ cs ⟨none, d + 1⟩) :
    Passes stop ⟨none, d⟩ ('(' :: (cs ++ [')'])) ⟨none, d⟩ := by
  have other : '(' ≠ stop := by
    rcases hs with rfl | rfl <;> decide
  have closing : Passes stop ⟨none, d + 1⟩ [')'] ⟨none, d⟩ := .cons rfl (.nil _)
  exact .cons (by simp [other]) (h.append closing)

end SqlDialects.Schema
