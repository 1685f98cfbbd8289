import Mathlib.Order.Bounds.Basic
import SqlDialects.Proofs.Schema.Scanners
import SqlDialects.Proofs.Schema.WithoutRowid

/-!
# Parentheses that belong to each other

The scanners of a statement go through it once, with the quotes they are in and a number of open parentheses. What they
look for can be said without going through the text: which characters stand outside quotes (`Outside`), and which
parentheses among them belong to each other (`Balanced`).

* The number that a scanner keeps is that of the parentheses that are opened and not closed (`opens_level`), and it is
  zero exactly if there are none (`level_eq_zero_iff`). A parenthesis that closes nothing does not count.
* A scanner stands outside of everything exactly if the quotes before are closed, and the parentheses outside quotes too
  (`isTop_after_iff`).
* A text is cut at its first parenthesis that closes nothing (`splitClosing_iff`). In a text without one, parentheses
  never close more than have been opened (`neverBelowZero_iff`), and there is one way to cut it at every separator
  outside quotes that has as many parentheses opened as closed before it (`cutsAt_iff`).
-/

set_option autoImplicit false

namespace SqlDialects.Schema

open Text
open String (utf8Len)

/-! ## Parentheses that belong to each other -/

/-- Whether every parenthesis of a text belongs to another one in it. -/
inductive Balanced : List Char → Prop where
  | nil : Balanced []
  | other {c : Char} (opens : c ≠ '(') (closes : c ≠ ')') : Balanced [c]
  | enclosed {cs : List Char} (inside : Balanced cs) : Balanced ('(' :: (cs ++ [')']))
  | append {cs cs' : List Char} (front : Balanced cs) (back : Balanced cs') : Balanced (cs ++ cs')

/-- Whether a parenthesis that is opened in a text is not closed in it. -/
def LeavesOpen (cs : List Char) : Prop :=
  ∃ before behind, cs = before ++ '(' :: behind ∧ ∀ inside rest, behind = inside ++ ')' :: rest → ¬ Balanced inside

/-- Texts by how many of their parentheses are not closed. -/
inductive Opens : Nat → List Char → Prop where
  | nil : Opens 0 []
  | append {n : Nat} {cs cs' : List Char} (front : Opens n cs) (back : Balanced cs') : Opens n (cs ++ cs')
  | opening {n : Nat} {cs : List Char} (front : Opens n cs) : Opens (n + 1) (cs ++ ['('])
  /-- A parenthesis that closes nothing. -/
  | stray {cs : List Char} (front : Opens 0 cs) : Opens 0 (cs ++ [')'])

/-- How many parentheses a reader counts as open behind a text. One that closes nothing is not counted. -/
def level (cs : List Char) : Nat :=
  cs.foldl (fun n c => if c = '(' then n + 1 else if c = ')' then n - 1 else n) 0

section Levels

variable {cs cs' before : List Char} {n : Nat}

theorem level_concat (cs : List Char) (c : Char) :
    level (cs ++ [c]) = if c = '(' then level cs + 1 else if c = ')' then level cs - 1 else level cs :=
  List.foldl_concat _ _ _ _

theorem Balanced.count_eq (h : Balanced cs) : cs.count '(' = cs.count ')' := by
  induction h with
  | nil => rfl
  | other opens closes => simp [opens, closes]
  | enclosed _ ih => simp [ih]
  | append _ _ ih ih' => simp [ih, ih']

/-- In a balanced text a parenthesis closes one that stands before it. -/
theorem Balanced.count_le (h : Balanced cs) (hp : before <+: cs) : before.count ')' ≤ before.count '(' := by
  induction h generalizing before with
  | nil => simp [List.prefix_nil.1 hp]
  | other opens closes =>
    rcases List.prefix_cons_iff.1 hp with rfl | ⟨rest, rfl, nothing⟩
    · exact Nat.le_refl 0
    · simp [List.prefix_nil.1 nothing, closes]
  | @enclosed cs inside ih =>
    rcases List.prefix_cons_iff.1 hp with rfl | ⟨rest, rfl, hr⟩
    · exact Nat.le_refl 0
    · rcases List.prefix_concat_iff.1 hr with rfl | within
      · simp [inside.count_eq]
      · have inner : rest.count ')' ≤ rest.count '(' := ih within
        simp
        omega
  | @append cs cs' front back ih ih' =>
    rcases List.prefix_or_prefix_of_prefix hp (List.prefix_append cs cs') with within | ⟨rest, rfl⟩
    · exact ih within
    · have more : rest.count ')' ≤ rest.count '(' := ih' ((List.prefix_append_right_inj cs).1 hp)
      rw [List.count_append, List.count_append, front.count_eq]
      omega

/-- The last parenthesis that is not closed has a balanced text behind it. -/
theorem Opens.exists_last (h : Opens n cs) (hn : n ≠ 0) :
    ∃ m front back, n = m + 1 ∧ cs = front ++ '(' :: back ∧ Opens m front ∧ Balanced back := by
  induction h with
  | nil => exact absurd rfl hn
  | stray => exact absurd rfl hn
  | append _ more ih =>
    obtain ⟨m, front, back, rfl, rfl, opens, balanced⟩ := ih hn
    exact ⟨m, front, back ++ _, rfl, by simp, opens, balanced.append more⟩
  | @opening n cs front => exact ⟨n, cs, [], rfl, rfl, front, .nil⟩

theorem opens_level (cs : List Char) : Opens (level cs) cs := by
  induction cs using List.reverseRecOn with
  | nil => exact .nil
  | append_singleton cs c ih =>
    rw [level_concat]
    split_ifs with opens closes
    · exact opens ▸ ih.opening
    · subst closes
      by_cases zero : level cs = 0
      · rw [zero] at ih ⊢
        exact ih.stray
      · obtain ⟨m, front, back, counted, rfl, outer, balanced⟩ := ih.exists_last zero
        have closed := outer.append balanced.enclosed
        rw [counted]
        simpa using closed
    · exact ih.append (.other opens closes)

theorem LeavesOpen.of_append (h : LeavesOpen (cs ++ cs')) : LeavesOpen cs ∨ LeavesOpen cs' := by
  obtain ⟨before, behind, split, unclosed⟩ := h
  rcases List.append_eq_append_iff.1 split with ⟨more, rfl, back⟩ | ⟨more, front, back⟩
  · exact .inr ⟨more, behind, back, unclosed⟩
  · cases more with
    | nil => exact .inr ⟨[], behind, back.symm, unclosed⟩
    | cons c more =>
      obtain ⟨rfl, rfl⟩ := List.cons.inj back
      refine .inl ⟨before, more, front, ?_⟩
      rintro inside rest rfl
      exact unclosed inside (rest ++ cs') (by simp)

theorem Balanced.not_leavesOpen (h : Balanced cs) : ¬ LeavesOpen cs := by
  induction h with
  | nil => rintro ⟨before, behind, split, -⟩; simp at split
  | other opens _ =>
    rintro ⟨before, behind, split, -⟩
    cases before with
    | nil => exact opens (List.cons.inj split).1
    | cons => simp at split
  | @enclosed cs inside ih =>
    intro leavesOpen
    obtain ⟨before, behind, split, unclosed⟩ := leavesOpen
    cases before with
    | nil => exact unclosed cs [] (List.cons.inj split).2.symm inside
    | cons c before =>
      have rest : LeavesOpen (cs ++ [')']) := ⟨before, behind, (List.cons.inj split).2, unclosed⟩
      rcases rest.of_append with within | ⟨before, behind, split, -⟩
      · exact ih within
      · cases before <;> simp at split
  | append _ _ ih ih' =>
    intro leavesOpen
    rcases leavesOpen.of_append with front | back
    · exact ih front
    · exact ih' back

theorem Opens.not_leavesOpen (h : Opens 0 cs) : ¬ LeavesOpen cs := by
  generalize hn : 0 = n at h
  induction h with
  | nil => exact Balanced.nil.not_leavesOpen
  | append _ back ih =>
    intro leavesOpen
    rcases leavesOpen.of_append with before | behind
    · exact ih hn before
    · exact back.not_leavesOpen behind
  | opening => cases hn
  | stray _ ih =>
    intro leavesOpen
    rcases leavesOpen.of_append with before | ⟨before, behind, split, -⟩
    · exact ih rfl before
    · cases before <;> simp at split

theorem Opens.leavesOpen (h : Opens n cs) (hn : n ≠ 0) : LeavesOpen cs := by
  obtain ⟨m, front, back, -, rfl, -, balanced⟩ := h.exists_last hn
  refine ⟨front, back, rfl, ?_⟩
  rintro inside rest rfl closed
  -- What is closed would be closed by a parenthesis that closes nothing behind the last one that is open.
  have counted : (inside ++ [')']).count ')' ≤ (inside ++ [')']).count '(' := balanced.count_le ⟨rest, by simp⟩
  have equal := closed.count_eq
  simp at counted
  omega

/-- A reader counts no parenthesis as open exactly if each that is opened is closed. -/
theorem level_eq_zero_iff : level cs = 0 ↔ ¬ LeavesOpen cs := by
  constructor
  · intro zero
    have opens := opens_level cs
    rw [zero] at opens
    exact opens.not_leavesOpen
  · intro closed
    by_contra nonzero
    exact closed ((opens_level cs).leavesOpen nonzero)

theorem count_le_level_add (cs : List Char) : cs.count '(' ≤ level cs + cs.count ')' := by
  induction cs using List.reverseRecOn with
  | nil => exact Nat.le_refl 0
  | append_singleton cs c ih =>
    rw [level_concat, List.count_append, List.count_append]
    split_ifs with opens closes
    · simp [opens]
      omega
    · simp [closes]
      omega
    · simp [opens, closes]
      omega

end Levels

/-! ## Outside quotes -/

/-- A text in which all quotes are closed, and its characters that stand outside quotes. -/
inductive Outside : List Char → List Char → Prop where
  | nil : Outside [] []
  | plain {cs outside : List Char} {c : Char} (front : Outside cs outside)
    (opens : Quoting.quotesAndBrackets.closing? c = none) : Outside (cs ++ [c]) (outside ++ [c])
  | quoted {cs outside inside : List Char} {c close : Char} (front : Outside cs outside)
    (opens : Quoting.quotesAndBrackets.closing? c = some close) (quoted : close ∉ inside) :
    Outside (cs ++ c :: (inside ++ [close])) outside

section Quotes

variable {c close : Char} {cs outside inside : List Char}

theorem Nesting.after_nil (q : Quoting) (s : Nesting) : s.after q [] = s := rfl

theorem Nesting.after_cons (q : Quoting) (s : Nesting) (c : Char) (cs : List Char) :
    s.after q (c :: cs) = (s.next q c).after q cs := rfl

theorem Nesting.next_of_closing? {q : Quoting} {d : Nat} (h : q.closing? c = some close) :
    (Nesting.mk none d).next q c = ⟨some close, d⟩ := by
  simp [Nesting.next, h]

/-- Behind a text whose quotes are closed, a reader has counted the parentheses outside quotes. -/
theorem Outside.after (h : Outside cs outside) : Nesting.top.after .quotesAndBrackets cs = ⟨none, level outside⟩ := by
  induction h with
  | nil => rfl
  | plain _ opens ih =>
    rw [after_append, ih, level_concat, Nesting.after_cons, Nesting.after_nil]
    simp only [Nesting.next, opens]
    split_ifs <;> rfl
  | @quoted cs outside inside c close _ opens quoted ih =>
    have leaves : (Nesting.mk (some close) (level outside)).next .quotesAndBrackets close = ⟨none, level outside⟩ := by
      simp [Nesting.next]
    rw [after_append, ih, Nesting.after_cons, Nesting.next_of_closing? opens, after_append, after_of_not_mem quoted,
      Nesting.after_cons, leaves, Nesting.after_nil]

/-- Either all quotes of a text are closed, or the last ones are not. -/
theorem outside_or_quoted (cs : List Char) :
    (∃ outside, Outside cs outside) ∨
      ∃ front outside c close inside, cs = front ++ c :: inside ∧ Outside front outside ∧
        Quoting.quotesAndBrackets.closing? c = some close ∧ close ∉ inside := by
  induction cs using List.reverseRecOn with
  | nil => exact .inl ⟨[], .nil⟩
  | append_singleton cs c ih =>
    rcases ih with ⟨outside, front⟩ | ⟨front, outside, c', close, inside, rfl, before, opens, quoted⟩
    · cases hc : Quoting.quotesAndBrackets.closing? c with
      | none => exact .inl ⟨outside ++ [c], front.plain hc⟩
      | some close => exact .inr ⟨cs, outside, c, close, [], rfl, front, hc, List.not_mem_nil⟩
    · by_cases closes : c = close
      · subst closes
        refine .inl ⟨outside, ?_⟩
        rw [List.append_assoc, List.cons_append]
        exact before.quoted opens quoted
      · refine .inr ⟨front, outside, c', close, inside ++ [c], by simp, before, opens, ?_⟩
        simp [quoted, Ne.symm closes]

/-- A reader stands outside everything exactly if the quotes before are closed, and the parentheses outside quotes
too. -/
theorem isTop_after_iff :
    (Nesting.top.after .quotesAndBrackets cs).isTop = true ↔ ∃ outside, Outside cs outside ∧ ¬ LeavesOpen outside := by
  constructor
  · intro top
    rcases outside_or_quoted cs with ⟨outside, front⟩ | ⟨front, outside, c, close, inside, rfl, before, opens, quoted⟩
    · rw [front.after] at top
      exact ⟨outside, front, level_eq_zero_iff.1 (by simpa [Nesting.isTop] using top)⟩
    · have enclosed : Nesting.top.after .quotesAndBrackets (front ++ c :: inside) = ⟨some close, level outside⟩ := by
        rw [after_append, before.after, Nesting.after_cons, Nesting.next_of_closing? opens, after_of_not_mem quoted]
      rw [enclosed] at top
      cases top
  · rintro ⟨outside, front, closed⟩
    rw [front.after, level_eq_zero_iff.2 closed]
    rfl

end Quotes

/-! ## The first parenthesis that closes nothing -/

/-- Whether a text goes on, behind a beginning, with a parenthesis outside quotes that closes none of those before
it. -/
def ClosesBehind (cs before : List Char) : Prop :=
  before ++ [')'] <+: cs ∧ ∃ outside, Outside before outside ∧ ¬ LeavesOpen outside

/-- Whether the parentheses outside quotes never close more than have been opened before. -/
def NeverBelowZero (cs : List Char) : Prop :=
  ∀ before outside, before <+: cs → Outside before outside → outside.count ')' ≤ outside.count '('

section Closing

variable {stop : Char} {s s' : Nesting} {cs before inside behind outside : List Char}

/-- A text passes if the character does not stand outside of everything in it. -/
theorem passes_iff :
    Passes stop s cs s' ↔ s.after .quotesAndBrackets cs = s' ∧
      ∀ before, before ++ [stop] <+: cs → (s.after .quotesAndBrackets before).isTop = false := by
  induction cs generalizing s with
  | nil => simp [passes_nil_iff, Nesting.after_nil]
  | cons c cs ih =>
    rw [passes_cons_iff, ih, Nesting.after_cons]
    constructor
    · rintro ⟨free, place, rest⟩
      refine ⟨place, fun before hb => ?_⟩
      cases before with
      | nil =>
        obtain ⟨same, -⟩ := List.cons_prefix_cons.1 hb
        simpa [same, Nesting.after_nil] using free
      | cons c' before =>
        obtain ⟨rfl, further⟩ := List.cons_prefix_cons.1 hb
        exact rest before further
    · rintro ⟨place, free⟩
      refine ⟨?_, place, fun before hb => free (c :: before) (List.cons_prefix_cons.2 ⟨rfl, hb⟩)⟩
      by_cases same : c = stop
      · subst same
        have here : s.isTop = false := free [] (List.cons_prefix_cons.2 ⟨rfl, List.nil_prefix⟩)
        simp [here]
      · simp [same]

theorem closesBehind_iff :
    ClosesBehind cs before ↔
      before ++ [')'] <+: cs ∧ (Nesting.top.after .quotesAndBrackets before).isTop = true := by
  rw [ClosesBehind, isTop_after_iff]

theorem Nesting.isTop_iff : s.isTop = true ↔ s = .top := by
  obtain ⟨closing, depth⟩ := s
  simp [Nesting.isTop, Nesting.top]

/-- A text is cut at its first parenthesis outside quotes that closes nothing. -/
theorem splitClosing_iff :
    splitClosing .top cs = some (inside, behind) ↔
      cs = inside ++ ')' :: behind ∧ ClosesBehind cs inside ∧ ∀ before, ClosesBehind cs before → inside <+: before := by
  rw [splitClosing_eq_some_iff, passes_iff]
  constructor
  · rintro ⟨rfl, place, free⟩
    refine ⟨rfl, closesBehind_iff.2 ⟨⟨behind, by simp⟩, Nesting.isTop_iff.2 place⟩, ?_⟩
    intro before closes
    obtain ⟨hb, top⟩ := closesBehind_iff.1 closes
    have front : before <+: inside ++ ')' :: behind := (List.prefix_append before [')']).trans hb
    rcases List.prefix_or_prefix_of_prefix (List.prefix_append inside _) front with further | ⟨more, rfl⟩
    · exact further
    · cases more with
      | nil => simp
      | cons c more =>
        -- The parenthesis would stand in the text that passes.
        have next : [')'] <+: c :: (more ++ ')' :: behind) := by simpa using hb
        obtain ⟨rfl, -⟩ := List.cons_prefix_cons.1 next
        rw [free before ⟨more, by simp⟩] at top
        cases top
  · rintro ⟨rfl, closes, first⟩
    obtain ⟨-, top⟩ := closesBehind_iff.1 closes
    refine ⟨rfl, Nesting.isTop_iff.1 top, ?_⟩
    intro before hb
    by_contra here
    have whole : before ++ [')'] <+: inside ++ ')' :: behind := hb.trans (List.prefix_append inside _)
    have further := (first before (closesBehind_iff.2 ⟨whole, by simpa using here⟩)).length_le
    have shorter := hb.length_le
    rw [List.length_append, List.length_singleton] at shorter
    omega

theorem splitClosing_eq_none_iff :
    splitClosing s cs = none ↔ Passes ')' s cs (s.after .quotesAndBrackets cs) := by
  induction cs generalizing s with
  | nil => simp [splitClosing, passes_nil_iff, Nesting.after_nil]
  | cons c cs ih =>
    rw [passes_cons_iff, Nesting.after_cons, ← ih, splitClosing]
    by_cases closes : (s.isTop && c == ')') = true
    · simp [closes]
    · rw [if_neg closes, Option.map_eq_none_iff]
      simp [closes]

/-- While no parenthesis closes nothing, a reader counts those that have been opened more often than closed. -/
theorem Outside.level_add_count (h : Outside before outside) (hb : before <+: cs)
    (never : ∀ before, ¬ ClosesBehind cs before) : level outside + outside.count ')' = outside.count '(' := by
  induction h with
  | nil => rfl
  | @plain before outside c front opens ih =>
    have counted := ih ((List.prefix_append before [c]).trans hb)
    have stillOpen : c = ')' → level outside ≠ 0 := by
      rintro rfl zero
      exact never before ⟨hb, outside, front, level_eq_zero_iff.1 zero⟩
    rw [level_concat, List.count_append, List.count_append]
    split_ifs with opens closes
    · simp [opens]
      omega
    · have positive : level outside ≠ 0 := stillOpen closes
      simp [closes]
      omega
    · simp [opens, closes]
      omega
  | quoted front _ _ ih => exact ih ((List.prefix_append _ _).trans hb)

/-- Parentheses never close more than have been opened exactly if none closes nothing. -/
theorem neverBelowZero_iff : NeverBelowZero cs ↔ ∀ before, ¬ ClosesBehind cs before := by
  constructor
  · rintro never before ⟨hb, outside, front, closed⟩
    have closing : Outside (before ++ [')']) (outside ++ [')']) := front.plain (by decide)
    have counted := never _ _ hb closing
    have opened := count_le_level_add outside
    rw [level_eq_zero_iff.2 closed] at opened
    simp at counted
    omega
  · intro never before outside hb front
    have counted := front.level_add_count hb never
    omega

/-- A text is not cut exactly if its parentheses never close more than have been opened. -/
theorem splitClosing_eq_none_iff_neverBelowZero : splitClosing .top cs = none ↔ NeverBelowZero cs := by
  rw [splitClosing_eq_none_iff, passes_iff, neverBelowZero_iff]
  simp [closesBehind_iff]

/-- While parentheses never close more than have been opened, a reader is outside everything if those outside quotes are
as many of either kind. -/
theorem NeverBelowZero.isTop_after_iff (h : NeverBelowZero cs) (hb : before <+: cs) :
    (Nesting.top.after .quotesAndBrackets before).isTop = true ↔
      ∃ outside, Outside before outside ∧ outside.count '(' = outside.count ')' := by
  rw [Schema.isTop_after_iff]
  refine exists_congr fun outside => and_congr_right fun front => ?_
  have counted := front.level_add_count hb (neverBelowZero_iff.1 h)
  rw [← level_eq_zero_iff]
  omega

/-- The text inside a parenthesis closes none that it does not open. -/
theorem neverBelowZero_of_splitClosing (h : splitClosing .top cs = some (inside, behind)) : NeverBelowZero inside := by
  obtain ⟨rfl, -, first⟩ := splitClosing_iff.1 h
  refine neverBelowZero_iff.2 ?_
  rintro before ⟨hb, closed⟩
  have further := (first before ⟨hb.trans (List.prefix_append inside _), closed⟩).length_le
  have shorter := hb.length_le
  rw [List.length_append, List.length_singleton] at shorter
  omega

end Closing

/-! ## The pieces between separators -/

/-- The parts of a text between separators outside quotes and parentheses, without those that are blank. -/
def partsBetween (separator : Char) (cs : List Char) : List (List Char) :=
  (cutAt separator .top cs).filter (fun part => !part.all isBlank)

/-- The characters that enclose text: quotes, brackets and parentheses. -/
def enclosing : List Char := ['\'', '"', '\x60', '[', ']', '(', ')']

/-- Whether some pieces, but not all of them, and the separators between them make a text. -/
def EndsPiece (separator : Char) (pieces : List (List Char)) (before : List Char) : Prop :=
  ∃ left right, left ≠ [] ∧ right ≠ [] ∧ pieces = left ++ right ∧ before = [separator].intercalate left

/-- What it means that a text is cut into pieces at every separator outside quotes that has as many parentheses opened
as closed before it, and nowhere else. -/
structure CutsAt (separator : Char) (cs : List Char) (pieces : List (List Char)) : Prop where
  nonempty : pieces ≠ []
  /-- No character is lost. -/
  joined : [separator].intercalate pieces = cs
  /-- A piece ends at each place, and only there. -/
  places : ∀ before, before ++ [separator] <+: cs →
    ((∃ outside, Outside before outside ∧ outside.count '(' = outside.count ')') ↔ EndsPiece separator pieces before)

/-- The items of a list are its parts between commas. -/
theorem listItems_eq (cs : List Char) : listItems cs = partsBetween ',' cs := rfl

section Pieces

variable {separator c : Char} {s : Nesting} {cs before part : List Char} {parts pieces : List (List Char)}

theorem not_endsPiece_singleton : ¬ EndsPiece separator [part] before := by
  rintro ⟨left, right, hl, hr, cut, -⟩
  obtain ⟨p, left, rfl⟩ := List.exists_cons_of_ne_nil hl
  obtain ⟨p', right, rfl⟩ := List.exists_cons_of_ne_nil hr
  simp at cut

theorem endsPiece_cons (hp : parts ≠ []) :
    EndsPiece separator (part :: parts) before ↔
      before = part ∨ ∃ before', before = part ++ separator :: before' ∧ EndsPiece separator parts before' := by
  constructor
  · rintro ⟨left, right, hl, hr, cut, rfl⟩
    obtain ⟨first, left, rfl⟩ := List.exists_cons_of_ne_nil hl
    obtain ⟨rfl, rfl⟩ := List.cons.inj cut
    cases left with
    | nil => exact .inl (List.intercalate_singleton)
    | cons second left =>
      refine .inr ⟨_, ?_, second :: left, right, List.cons_ne_nil _ _, hr, rfl, rfl⟩
      simp [List.intercalate_cons_cons]
  · rintro (rfl | ⟨before', rfl, left, right, hl, hr, rfl, rfl⟩)
    · exact ⟨[before], parts, List.cons_ne_nil _ _, hp, rfl, List.intercalate_singleton.symm⟩
    · refine ⟨part :: left, right, List.cons_ne_nil _ _, hr, rfl, ?_⟩
      obtain ⟨second, left, rfl⟩ := List.exists_cons_of_ne_nil hl
      simp [List.intercalate_cons_cons]

theorem endsPiece_cons_cons :
    EndsPiece separator ((c :: part) :: parts) before ↔
      ∃ before', before = c :: before' ∧ EndsPiece separator (part :: parts) before' := by
  cases parts with
  | nil => simp [not_endsPiece_singleton]
  | cons next parts =>
    rw [endsPiece_cons (List.cons_ne_nil _ _)]
    simp only [endsPiece_cons (List.cons_ne_nil next parts)]
    constructor
    · rintro (rfl | ⟨before', rfl, ends⟩)
      · exact ⟨part, rfl, .inl rfl⟩
      · exact ⟨part ++ separator :: before', rfl, .inr ⟨before', rfl, ends⟩⟩
    · rintro ⟨before, rfl, rfl | ⟨before', rfl, ends⟩⟩
      · exact .inl rfl
      · exact .inr ⟨before', rfl, ends⟩

theorem Nesting.next_top (h : separator ∉ enclosing) : Nesting.top.next .quotesAndBrackets separator = .top := by
  simp only [enclosing, List.mem_cons, List.not_mem_nil, or_false, not_or] at h
  simp [Nesting.next, Nesting.top, Quoting.closing?, h]

/-- A piece of a text ends where a separator stands outside of everything, and nowhere else. -/
theorem endsPiece_cutAt (h : separator ∉ enclosing) (hb : before ++ [separator] <+: cs) :
    EndsPiece separator (cutAt separator s cs) before ↔ (s.after .quotesAndBrackets before).isTop = true := by
  induction cs generalizing s before with
  | nil => simp at hb
  | cons c cs ih =>
    rw [cutAt]
    split
    · next cuts =>
      rw [Bool.and_eq_true, beq_iff_eq, Nesting.isTop_iff] at cuts
      obtain ⟨rfl, rfl⟩ := cuts
      rw [endsPiece_cons (cutAt_ne_nil _ _ _)]
      cases before with
      | nil => simp [Nesting.after_nil, Nesting.isTop_iff]
      | cons c' before =>
        obtain ⟨rfl, further⟩ := List.cons_prefix_cons.1 hb
        rw [Nesting.after_cons, Nesting.next_top h, ← ih further]
        simp
    · next goesOn =>
      split
      · next none => exact absurd none (cutAt_ne_nil _ _ _)
      · next part parts some =>
        rw [endsPiece_cons_cons, ← some]
        cases before with
        | nil =>
          obtain ⟨rfl, -⟩ := List.cons_prefix_cons.1 hb
          simpa [Nesting.after_nil] using goesOn
        | cons c' before =>
          obtain ⟨rfl, further⟩ := List.cons_prefix_cons.1 hb
          rw [Nesting.after_cons, ← ih further]
          simp

/-- Pieces that end where a separator stands outside of everything, and nowhere else, are those the text is cut into. -/
theorem eq_cutAt (h : separator ∉ enclosing) (nonempty : pieces ≠ [])
    (places : ∀ before, before ++ [separator] <+: [separator].intercalate pieces →
      ((s.after .quotesAndBrackets before).isTop = true ↔ EndsPiece separator pieces before)) :
    pieces = cutAt separator s ([separator].intercalate pieces) := by
  induction pieces generalizing s with
  | nil => exact absurd rfl nonempty
  | cons part pieces ih =>
    cases pieces with
    | nil =>
      have free : Passes separator s part (s.after .quotesAndBrackets part) := by
        refine passes_iff.2 ⟨rfl, fun before hb => ?_⟩
        rw [List.intercalate_singleton] at places
        simpa [not_endsPiece_singleton] using places before hb
      rw [List.intercalate_singleton, cutAt_last free]
    | cons next pieces =>
      have cut : [separator].intercalate (part :: next :: pieces)
          = part ++ separator :: [separator].intercalate (next :: pieces) := by
        simp [List.intercalate_cons_cons]
      rw [cut] at places ⊢
      simp only [endsPiece_cons (List.cons_ne_nil next pieces)] at places
      have top : s.after .quotesAndBrackets part = .top :=
        Nesting.isTop_iff.1 ((places part ⟨[separator].intercalate (next :: pieces), by simp⟩).2 (.inl rfl))
      have free : Passes separator s part .top := by
        refine passes_iff.2 ⟨top, fun before hb => ?_⟩
        have shorter := hb.length_le
        by_contra here
        rcases (places before (hb.trans (List.prefix_append part _))).1 (by simpa using here) with rfl | ⟨more, rfl, -⟩
        · simp at shorter
        · simp at shorter
      rw [cutAt_of_passes free, ← ih (List.cons_ne_nil _ _)]
      intro before hb
      have whole : (part ++ separator :: before) ++ [separator]
          <+: part ++ separator :: [separator].intercalate (next :: pieces) := by
        rw [List.append_assoc, List.prefix_append_right_inj]
        exact List.cons_prefix_cons.2 ⟨rfl, hb⟩
      have place := places _ whole
      rw [after_append, top, Nesting.after_cons, Nesting.next_top h] at place
      simpa using place

/-- There is one way to cut a text at every separator outside quotes and parentheses. -/
theorem cutsAt_iff (h : separator ∉ enclosing) (never : NeverBelowZero cs) :
    CutsAt separator cs pieces ↔ pieces = cutAt separator .top cs := by
  have place : ∀ before, before ++ [separator] <+: cs →
      ((Nesting.top.after .quotesAndBrackets before).isTop = true ↔
        ∃ outside, Outside before outside ∧ outside.count '(' = outside.count ')') :=
    fun before hb => never.isTop_after_iff ((List.prefix_append before [separator]).trans hb)
  constructor
  · rintro ⟨nonempty, rfl, places⟩
    exact eq_cutAt h nonempty fun before hb => (place before hb).trans (places before hb)
  · rintro rfl
    refine ⟨cutAt_ne_nil _ _ _, intercalate_cutAt _ _ _, fun before hb => ?_⟩
    rw [← place before hb, endsPiece_cutAt h hb]

/-- What a reader of a table goes through are the pieces of the text in parentheses, except for those that are blank. -/
theorem listItems_of_splitClosing {inside behind : List Char} (h : splitClosing .top cs = some (inside, behind)) :
    ∃ pieces, CutsAt ',' inside pieces ∧ listItems inside = pieces.filter (fun piece => !piece.all isBlank) := by
  have never : NeverBelowZero inside := neverBelowZero_of_splitClosing h
  exact ⟨cutAt ',' .top inside, (cutsAt_iff (by decide) never).2 rfl, listItems_eq inside⟩

end Pieces

/-- The offset found for a parenthesis is the least at which one stands outside quotes that closes nothing. -/
theorem closingOffset?_eq_some_iff {cs : List Char} {i : Nat} :
    closingOffset? .top 0 cs = some i ↔ IsLeast {n | ∃ before, ClosesBehind cs before ∧ utf8Len before = n} i := by
  have found : ∀ i, closingOffset? .top 0 cs = some i →
      IsLeast {n | ∃ before, ClosesBehind cs before ∧ utf8Len before = n} i := by
    intro i offset
    rw [closingOffset?_eq] at offset
    obtain ⟨⟨inside, behind⟩, cut, rfl⟩ := Option.map_eq_some_iff.1 offset
    obtain ⟨-, closes, first⟩ := splitClosing_iff.1 cut
    refine ⟨⟨inside, closes, (Nat.zero_add _).symm⟩, ?_⟩
    rintro n ⟨before, closes', rfl⟩
    obtain ⟨more, rfl⟩ := first before closes'
    rw [String.utf8Len_append, Nat.zero_add]
    exact Nat.le_add_right _ _
  constructor
  · exact found i
  · intro least
    cases offset : closingOffset? .top 0 cs with
    | none =>
      obtain ⟨before, closes, -⟩ := least.1
      rw [closingOffset?_eq, Option.map_eq_none_iff, splitClosing_eq_none_iff_neverBelowZero] at offset
      exact absurd closes (neverBelowZero_iff.1 offset before)
    | some n => rw [(found n offset).unique least]

/-- The offset found for a parenthesis is the least at which one stands outside quotes that closes nothing, and none is
found exactly if there is no such parenthesis. The text is cut there, and what stands inside never closes more than has
been opened. The parts of such a text are the pieces, in order and whole, that it is cut into at every separator outside
quotes and parentheses, except for those that are blank. -/
theorem closing_and_parts_spec (cs : List Char) (separator : Char) (h : separator ∉ enclosing) :
    (∀ i, closingOffset? .top 0 cs = some i ↔ IsLeast {n | ∃ before, ClosesBehind cs before ∧ utf8Len before = n} i) ∧
      (closingOffset? .top 0 cs = none ↔ ∀ before, ¬ ClosesBehind cs before) ∧
      (splitClosing .top cs).map (fun r => utf8Len r.1) = closingOffset? .top 0 cs ∧
      (∀ inside behind, splitClosing .top cs = some (inside, behind) →
        cs = inside ++ ')' :: behind ∧ NeverBelowZero inside) ∧
      (NeverBelowZero cs → ∃ pieces, (∀ pieces', CutsAt separator cs pieces' ↔ pieces' = pieces) ∧
        partsBetween separator cs = pieces.filter (fun piece => !piece.all isBlank)) := by
  refine ⟨fun i => closingOffset?_eq_some_iff, ?_, ?_, ?_, ?_⟩
  · rw [closingOffset?_eq, Option.map_eq_none_iff, splitClosing_eq_none_iff_neverBelowZero, neverBelowZero_iff]
  · simp [closingOffset?_eq]
  · intro inside behind cut
    exact ⟨(splitClosing_iff.1 cut).1, neverBelowZero_of_splitClosing cut⟩
  · intro never
    exact ⟨cutAt separator .top cs, fun pieces' => cutsAt_iff h never, rfl⟩

/-! ## Quotes that are not closed -/

namespace OpenQuotes

def list : List Char := ",a 'it''s, (', f(b, [c)]), ,\"d, (".toList

/-- The separators at the ends and beside each other leave blank pieces, and the last one stands between quotes. -/
theorem list_parts :
    ',' ∉ enclosing ∧ NeverBelowZero list ∧
      CutsAt ',' list ["".toList, "a 'it''s, ('".toList, " f(b, [c)])".toList, " ".toList, "\"d, (".toList] ∧
      partsBetween ',' list = ["a 'it''s, ('".toList, " f(b, [c)])".toList, "\"d, (".toList] := by
  obtain ⟨-, none, -, -, cut⟩ := closing_and_parts_spec list ',' (by decide)
  have never : NeverBelowZero list := neverBelowZero_iff.2 (none.1 (by decide +kernel))
  obtain ⟨pieces, only, parts⟩ := cut never
  have read := (cutsAt_iff (by decide) never).1 ((only pieces).2 rfl)
  refine ⟨by decide, never, (only _).2 ?_, ?_⟩
  · rw [read]
    decide +kernel
  · rw [parts, read]
    decide +kernel

end OpenQuotes

end SqlDialects.Schema
