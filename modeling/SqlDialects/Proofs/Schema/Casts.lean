import SqlDialects.Proofs.Schema.Keywords
import SqlDialects.Proofs.Schema.Targets
import SqlDialects.Schema.Declaration

/-!
# Which expressions are casts

An expression is a cast if it is one call: `CAST` and a parenthesis, an argument that leaves no quote and no parenthesis
open, the last `AS` that a type follows, the type, and the parenthesis that closes the first one (`IsCast`). The reader
of a select list asks for less. It does not follow quotes and parentheses, and takes the last `AS` behind which a type
reaches to the parenthesis at the end of the expression, whichever parenthesis that closes.

So what it takes for a cast is one exactly if the last character of the expression closes the parenthesis behind `CAST`,
and then the type of the column is that of the cast (`viewColumn_cast_iff`). Only words, blanks and a whole pair of
parentheses stand between that `AS` and the end, so nothing that is open before it could be closed behind it.
-/

set_option autoImplicit false

namespace SqlDialects.Schema

open Text

/-! ## What is a cast -/

/-- The text behind the parenthesis that opens the argument of a cast. -/
def castBody? (cs : List Char) : Option (List Char) :=
  match (dropKeyword "cast" cs).map trimStart with
  | some ('(' :: body) => some body
  | _ => none

/-- Whether `AS` begins the second of two parts of a text, and behind it a type reaches up to the parenthesis that ends
the text. -/
def CastsTo (target : CastTarget) (before behind : List Char) : Prop :=
  endsInWord isWordChar false before = false ∧
    ∃ type, dropWord "as" behind = some (type ++ [')']) ∧ Spells target type

/-- Whether an expression is one cast: of an argument that leaves nothing open, to the type behind the last `AS`. -/
def IsCast (expression argument : List Char) (target : CastTarget) : Prop :=
  ∃ behind, castBody? expression = some (argument ++ behind) ∧ Passes ')' .top argument .top ∧
    CastsTo target argument behind ∧
    ∀ before behind', argument ++ behind = before ++ behind' → argument.length < before.length →
      ∀ target', ¬ CastsTo target' before behind'

/-- Whether the last character of an expression closes the parenthesis behind `CAST` at its start. -/
def closesCast (expression : List Char) : Bool :=
  ((castBody? expression).bind (splitClosing .top)).any fun r => r.2.isEmpty

/-- The words that are operators behind an expression. -/
def postfixWords : List String := ["ISNULL", "NOTNULL"]

/-- The expression of a select list item. `ISNULL` and `NOTNULL` are no aliases: they belong to the expression. -/
def itemExpression (item : List Char) : List Char :=
  match splitAtAlias item with
  | some (_, asName) => if isWordOf postfixWords asName then item else (splitAlias item).1
  | none => (splitAlias item).1

variable {cs rest argument item : List Char} {target : CastTarget} {isInsideWord : Bool}

/-! ## The last `AS` -/

theorem castFromAs?_of_lastCastTarget?_eq_none (h : lastCastTarget? isInsideWord cs = none)
    (before behind : List Char) (hcs : cs = before ++ behind)
    (apart : endsInWord isWordChar isInsideWord before = false) : castFromAs? behind = none := by
  induction cs generalizing isInsideWord before with
  | nil =>
    obtain ⟨rfl, rfl⟩ := List.append_eq_nil_iff.1 hcs.symm
    rfl
  | cons c cs ih =>
    rw [lastCastTarget?] at h
    split at h
    · cases h
    · next later =>
      cases before with
      | nil =>
        rw [List.nil_append] at hcs
        rw [if_neg (by simpa [endsInWord] using apart), hcs] at h
        exact h
      | cons a before =>
        obtain ⟨rfl, same⟩ := List.cons.inj hcs
        exact ih later before same apart

theorem lastCastTarget?_spec (h : lastCastTarget? isInsideWord cs = some target) :
    ∃ before behind, cs = before ++ behind ∧ endsInWord isWordChar isInsideWord before = false ∧
      castFromAs? behind = some target ∧
      ∀ before' behind', cs = before' ++ behind' → before.length < before'.length →
        endsInWord isWordChar isInsideWord before' = false → castFromAs? behind' = none := by
  induction cs generalizing isInsideWord with
  | nil => cases h
  | cons c cs ih =>
    rw [lastCastTarget?] at h
    split at h
    · next later =>
      cases h
      obtain ⟨before, behind, rfl, apart, reads, last⟩ := ih later
      refine ⟨c :: before, behind, rfl, apart, reads, fun before' behind' hcs longer apart' => ?_⟩
      cases before' with
      | nil => cases longer
      | cons a before' =>
        obtain ⟨rfl, same⟩ := List.cons.inj hcs
        exact last before' behind' same (Nat.lt_of_succ_lt_succ longer) apart'
    · next later =>
      split at h
      · cases h
      · next outside =>
        refine ⟨[], c :: cs, rfl, by simpa [endsInWord] using outside, h, fun before' behind' hcs longer apart' => ?_⟩
        cases before' with
        | nil => cases longer
        | cons a before' =>
          obtain ⟨rfl, same⟩ := List.cons.inj hcs
          exact castFromAs?_of_lastCastTarget?_eq_none later before' behind' same apart'

theorem castsTo_iff {before behind : List Char} :
    CastsTo target before behind ↔
      endsInWord isWordChar false before = false ∧ castFromAs? behind = some target := by
  rw [CastsTo, castFromAs?_eq_some_iff]

/-- The target of a cast is the type behind the last `AS` that a type follows. -/
theorem lastCastTarget?_eq_some_iff :
    lastCastTarget? false cs = some target ↔
      ∃ before behind, cs = before ++ behind ∧ CastsTo target before behind ∧
        ∀ before' behind', cs = before' ++ behind' → before.length < before'.length →
          ∀ target', ¬ CastsTo target' before' behind' := by
  simp only [castsTo_iff]
  constructor
  · intro h
    obtain ⟨before, behind, hcs, apart, reads, last⟩ := lastCastTarget?_spec h
    refine ⟨before, behind, hcs, ⟨apart, reads⟩, fun before' behind' hcs' longer target' ⟨apart', reads'⟩ => ?_⟩
    rw [last before' behind' hcs' longer apart'] at reads'
    cases reads'
  · rintro ⟨before, behind, hcs, ⟨apart, reads⟩, last⟩
    cases found : lastCastTarget? false cs with
    | none =>
      rw [castFromAs?_of_lastCastTarget?_eq_none found before behind hcs apart] at reads
      cases reads
    | some target' =>
      obtain ⟨before', behind', hcs', apart', reads', last'⟩ := lastCastTarget?_spec found
      rcases Nat.lt_trichotomy before.length before'.length with longer | same | shorter
      · exact absurd ⟨apart', reads'⟩ (last before' behind' hcs' longer target')
      · obtain ⟨rfl, rfl⟩ := List.append_inj (hcs.symm.trans hcs') same
        exact reads'.symm.trans reads
      · rw [last' before behind hcs shorter apart] at reads
        cases reads

/-! ## What encloses nothing -/

/-- The characters that quotes are written with. -/
def quoteChars : List Char := ['\'', '"', '\x60', '[', ']']

/-- Whether a text encloses nothing beyond its end and closes nothing that is open before it. -/
structure IsNeutral (cs : List Char) : Prop where
  passes : ∀ d, Passes ')' ⟨none, d⟩ cs ⟨none, d⟩
  unquoted : ∀ c ∈ cs, c ∉ quoteChars

section Neutral

variable {c q : Char} {cs' : List Char} {s s' : Nesting} {d : Nat} {stop : Char}

theorem IsNeutral.append (h : IsNeutral cs) (h' : IsNeutral cs') : IsNeutral (cs ++ cs') where
  passes d := (h.passes d).append (h'.passes d)
  unquoted c hc := (List.mem_append.1 hc).elim (h.unquoted c) (h'.unquoted c)

theorem IsNeutral.enclosed (h : IsNeutral cs) : IsNeutral ('(' :: (cs ++ [')'])) where
  passes d := passes_enclosed (.inl rfl) (h.passes (d + 1))
  unquoted c hc := by
    rcases List.mem_cons.1 hc with rfl | hc
    · decide
    · rcases List.mem_append.1 hc with hc | hc
      · exact h.unquoted c hc
      · rw [List.mem_singleton.1 hc]
        decide

/-- A text is neutral if none of its characters quotes or is a parenthesis. -/
theorem isNeutral_of_forall {p : Char → Bool} (hp : ('(' :: ')' :: quoteChars).any p = false)
    (h : ∀ c ∈ cs, p c = true) : IsNeutral cs := by
  have other : ∀ c, p c = true → c ∉ '(' :: ')' :: quoteChars := by
    intro c hc hm
    exact List.any_eq_false.1 hp c hm hc
  refine ⟨fun d => ?_, fun c hc hm => other c (h c hc) (by simp [hm])⟩
  induction cs with
  | nil => exact .nil _
  | cons c cs ih =>
    have hc := other c (h c List.mem_cons_self)
    simp only [quoteChars, List.mem_cons, List.not_mem_nil, or_false, not_or] at hc
    refine .cons (by simp [hc]) ?_
    rw [show (Nesting.mk none d).next .quotesAndBrackets c = ⟨none, d⟩ by simp [Nesting.next, Quoting.closing?, hc]]
    exact ih fun a ha => h a (List.mem_cons_of_mem c ha)

theorem closing_next (hs : ∀ q ∈ s.closing, q ∈ quoteChars) (c : Char) :
    ∀ q ∈ (s.next .quotesAndBrackets c).closing, q ∈ quoteChars := by
  unfold Nesting.next
  split
  · split
    · exact nofun
    · exact hs
  · split
    · next close opens =>
      rintro _ ⟨⟩
      unfold Quoting.closing? at opens
      split at opens
      · next quote =>
        cases opens
        rcases quote with rfl | rfl | rfl <;> decide
      · split at opens
        · cases opens
          decide
        · cases opens
    · split
      · exact hs
      · split <;> exact hs

/-- Quotes are closed by what quotes are written with. -/
theorem closing_mem_of_passes (h : Passes stop s cs s') (hs : ∀ q ∈ s.closing, q ∈ quoteChars) :
    ∀ q ∈ s'.closing, q ∈ quoteChars := by
  induction h with
  | nil => exact hs
  | cons _ _ ih => exact ih (closing_next hs _)

theorem after_of_not_mem (h : q ∉ cs) :
    (Nesting.mk (some q) d).after .quotesAndBrackets cs = ⟨some q, d⟩ := by
  induction cs with
  | nil => rfl
  | cons c cs ih =>
    rw [List.mem_cons, not_or] at h
    obtain ⟨hc, hcs⟩ := h
    have stays : (Nesting.mk (some q) d).next .quotesAndBrackets c = ⟨some q, d⟩ := if_neg fun same => hc same.symm
    show ((Nesting.mk (some q) d).next .quotesAndBrackets c).after .quotesAndBrackets cs = _
    rw [stays, ih hcs]

/-- Outside everything behind a neutral text is outside everything before it. -/
theorem IsNeutral.eq_top (h : IsNeutral cs) (hs : ∀ q ∈ s.closing, q ∈ quoteChars) (hp : Passes ')' s cs .top) :
    s = .top := by
  obtain ⟨closing, d⟩ := s
  cases closing with
  | none => exact (h.passes d).after.symm.trans hp.after
  | some q =>
    have stays := (after_of_not_mem fun hq => h.unquoted q hq (hs q rfl)).symm.trans hp.after
    cases stays

end Neutral

/-! ## What stands behind the last `AS` -/

section Neutral

variable {ks word padded : List Char} {c k : Char} {m : Option Measure} {keyword : String}

theorem isWordChar_of_isReadAs (hk : isPlainWordChar k = true) (h : isReadAs k c = true) : isWordChar c = true := by
  rw [isReadAs, Bool.or_eq_true, Bool.or_eq_true, Bool.and_eq_true, Bool.and_eq_true, beq_iff_eq, beq_iff_eq,
    beq_iff_eq, beq_iff_eq, beq_iff_eq] at h
  rcases h with (rfl | ⟨-, rfl⟩) | ⟨-, rfl⟩
  · exact isWordChar_of_isPlainWordChar (isPlainWordChar_of_lowerChar hk)
  · decide +kernel
  · decide +kernel

theorem exists_of_dropLetters (h : dropLetters ks cs = some rest) :
    ∃ word, cs = word ++ rest ∧ ∀ c ∈ word, ∃ k ∈ ks, isReadAs k c = true := by
  induction ks generalizing cs with
  | nil =>
    cases h
    exact ⟨[], rfl, nofun⟩
  | cons k ks ih =>
    cases cs with
    | nil => cases h
    | cons c cs =>
      rw [dropLetters] at h
      split at h
      · next reads =>
        obtain ⟨word, rfl, hw⟩ := ih h
        refine ⟨c :: word, rfl, List.forall_mem_cons.2 ⟨⟨k, List.mem_cons_self, reads⟩, fun a ha => ?_⟩⟩
        obtain ⟨k', hk', reads'⟩ := hw a ha
        exact ⟨k', List.mem_cons_of_mem k hk', reads'⟩
      · cases h

theorem exists_of_dropWord (plain : keyword.toList.all isPlainWordChar = true)
    (h : dropWord keyword cs = some rest) :
    ∃ word, cs = word ++ rest ∧ ∀ c ∈ word, (isWordChar c || isBlank c) = true := by
  obtain ⟨left, letters, blanks⟩ := Option.bind_eq_some_iff.1 h
  obtain ⟨word, rfl, read⟩ := exists_of_dropLetters letters
  have words : ∀ c ∈ word, (isWordChar c || isBlank c) = true := by
    intro c hc
    obtain ⟨k, hk, reads⟩ := read c hc
    rw [isWordChar_of_isReadAs (List.all_eq_true.1 plain k hk) reads, Bool.true_or]
  cases left with
  | nil => cases blanks
  | cons c left =>
    rw [dropBlanks] at blanks
    split at blanks
    · next hc =>
      obtain ⟨before, rfl, blank, -⟩ := trimStart_eq_iff.1 (Option.some.inj blanks)
      refine ⟨word ++ c :: before, by simp, fun a ha => ?_⟩
      rcases List.mem_append.1 ha with ha | ha
      · exact words a ha
      · have blank' : isBlank a = true := (List.mem_cons.1 ha).elim (· ▸ hc) (List.all_eq_true.1 blank a)
        rw [blank', Bool.or_true]
    · cases blanks

theorem isNeutral_of_isPadded (h : IsPadded cs padded) : IsNeutral padded := by
  obtain ⟨blank, -, decimal, blank'⟩ := h
  have before := isNeutral_of_forall (by decide) (List.all_eq_true.1 blank)
  have digits := isNeutral_of_forall (by decide) (List.all_eq_true.1 decimal)
  have behind := isNeutral_of_forall (by decide) (List.all_eq_true.1 blank')
  exact before.append (digits.append behind)

theorem isNeutral_of_isMeasure (h : IsMeasure m cs) : IsNeutral cs := by
  cases h with
  | none => exact ⟨fun d => .nil _, nofun⟩
  | precision hp => exact (isNeutral_of_isPadded hp).enclosed
  | @scale p s cs cs' hp hs =>
    have comma : IsNeutral [','] := isNeutral_of_forall (by decide) (List.forall_mem_singleton.2 (beq_self_eq_true ','))
    have inside := ((isNeutral_of_isPadded hp).append (comma.append (isNeutral_of_isPadded hs))).enclosed
    simpa using inside

theorem isNeutral_of_spells (h : Spells target cs) : IsNeutral cs := by
  obtain @⟨c, name, _, m, begins, words, @⟨before, measure, behind, blank, hm, blank'⟩⟩ := h
  have word : ∀ a ∈ c :: name, (isWordChar a || isBlank a) = true := by
    refine List.forall_mem_cons.2 ⟨by rw [isWordChar_of_beginsWord begins, Bool.true_or], fun a ha => ?_⟩
    rcases words.words a ha with word | rfl
    · rw [word, Bool.true_or]
    · decide
  have before := isNeutral_of_forall (by decide) (List.all_eq_true.1 blank)
  have behind := isNeutral_of_forall (by decide) (List.all_eq_true.1 blank')
  exact (isNeutral_of_forall (by decide) word).append (before.append ((isNeutral_of_isMeasure hm).append behind))

/-- From the last `AS` on, a cast encloses nothing. -/
theorem CastsTo.isNeutral {before behind : List Char} (h : CastsTo target before behind) :
    ∃ text, behind = text ++ [')'] ∧ IsNeutral text := by
  obtain ⟨-, type, as, spells⟩ := h
  obtain ⟨word, rfl, words⟩ := exists_of_dropWord (by decide) as
  refine ⟨word ++ type, by rw [List.append_assoc], ?_⟩
  exact (isNeutral_of_forall (by decide) words).append (isNeutral_of_spells spells)

end Neutral

/-! ## Casts -/

theorem castTarget?_eq (cs : List Char) : castTarget? cs = (castBody? cs).bind (lastCastTarget? false) := by
  fun_cases castBody? cs with
  | case1 body opens =>
    rw [castTarget?, opens]
    rfl
  | case2 other =>
    unfold castTarget?
    split
    · next body opens => exact absurd opens (other body)
    · rfl

theorem closesCast_iff :
    closesCast cs = true ↔ ∃ inside, castBody? cs = some (inside ++ [')']) ∧ Passes ')' .top inside .top := by
  constructor
  · intro h
    obtain ⟨⟨inside, left⟩, read, none⟩ := (Option.any_eq_true _ _).1 h
    obtain ⟨body, opens, split⟩ := Option.bind_eq_some_iff.1 read
    obtain ⟨rfl, passes⟩ := splitClosing_eq_some_iff.1 split
    obtain rfl : left = [] := List.isEmpty_iff.1 none
    exact ⟨inside, opens, passes⟩
  · rintro ⟨inside, opens, passes⟩
    rw [closesCast, opens, Option.bind_some, splitClosing_of_passes passes]
    rfl

/-- What is one cast is read as one. -/
theorem castTarget?_of_isCast (h : IsCast cs argument target) : castTarget? cs = some target := by
  obtain ⟨behind, body, -, casts, last⟩ := h
  rw [castTarget?_eq, body]
  exact lastCastTarget?_eq_some_iff.2 ⟨argument, behind, rfl, casts, last⟩

theorem closesCast_of_isCast (h : IsCast cs argument target) : closesCast cs = true := by
  obtain ⟨behind, body, passes, casts, -⟩ := h
  obtain ⟨text, rfl, neutral⟩ := casts.isNeutral
  exact closesCast_iff.2 ⟨argument ++ text, by rw [body, List.append_assoc], passes.append (neutral.passes 0)⟩

theorem not_isCast (h : closesCast cs = false) : ¬ ∃ argument target, IsCast cs argument target := by
  rintro ⟨argument, target, cast⟩
  rw [closesCast_of_isCast cast] at h
  cases h

/-- What is read as a cast is one if the last character closes its parenthesis. -/
theorem exists_isCast (h : castTarget? cs = some target) (closes : closesCast cs = true) :
    ∃ argument, IsCast cs argument target := by
  obtain ⟨inside, body, passes⟩ := closesCast_iff.1 closes
  rw [castTarget?_eq, body] at h
  obtain ⟨argument, behind, cut, casts, last⟩ := lastCastTarget?_eq_some_iff.1 h
  obtain ⟨text, rfl, neutral⟩ := casts.isNeutral
  have whole : inside = argument ++ text := by
    rw [← List.append_assoc] at cut
    exact List.append_cancel_right cut
  rw [whole] at passes
  obtain ⟨s, front, back⟩ := passes_append_iff.1 passes
  obtain rfl := neutral.eq_top (closing_mem_of_passes front nofun) back
  exact ⟨argument, text ++ [')'], by rw [body, cut], front, casts, fun before behind' => cut ▸ last before behind'⟩

/-! ## Aliases -/

theorem suffix_of_aliasOf? {asName : List Char} (h : aliasOf? cs = some asName) : asName <:+ cs := by
  unfold aliasOf? at h
  split at h
  · next behind =>
    cases h
    obtain ⟨word, hcs, -⟩ := exists_of_dropWord (by decide) (Option.filter_eq_some_iff.1 behind).1
    exact ⟨word, hcs.symm⟩
  · split at h
    · cases h
      exact List.suffix_refl cs
    · cases h

theorem suffix_of_splitAtAlias {before asName : List Char} (h : splitAtAlias cs = some (before, asName)) :
    asName <:+ cs := by
  induction cs generalizing before with
  | nil => cases h
  | cons c cs ih =>
    unfold splitAtAlias at h
    cases found : if isBlank c then aliasOf? (trimStart cs) else none with
    | some asName' =>
      rw [found] at h
      obtain ⟨-, rfl⟩ := Prod.mk.inj (Option.some.inj h)
      have trimmed : trimStart cs <:+ cs := List.dropWhile_suffix isBlank
      obtain ⟨-, found⟩ := Option.ite_none_right_eq_some.1 found
      exact ((suffix_of_aliasOf? found).trans trimmed).trans (List.suffix_cons c cs)
    | none =>
      rw [found] at h
      obtain ⟨⟨front, asName⟩, found, same⟩ := Option.map_eq_some_iff.1 h
      obtain ⟨-, rfl⟩ := Prod.mk.inj same
      exact (ih found).trans (List.suffix_cons c cs)

theorem suffix_of_castBody? (h : castBody? cs = some rest) : rest <:+ cs := by
  unfold castBody? at h
  split at h
  · next opens =>
    cases h
    obtain ⟨left, letters, trimmed⟩ := Option.map_eq_some_iff.1 opens
    obtain ⟨word, hcs, -⟩ := exists_of_dropLetters letters
    have behind : rest <:+ trimStart left := trimmed ▸ List.suffix_cons '(' rest
    have whole : left <:+ cs := ⟨word, hcs.symm⟩
    exact (behind.trans (List.dropWhile_suffix isBlank)).trans whole
  · cases h

/-- What ends with a word does not end with a parenthesis. -/
theorem closesCast_eq_false {word : List Char} (full : word ≠ []) (plain : ∀ c ∈ word, isPlainWordChar c = true)
    (h : word <:+ cs) : closesCast cs = false := by
  by_contra closes
  obtain ⟨inside, opens, -⟩ := closesCast_iff.1 (by simpa using closes)
  obtain ⟨before, c, rfl⟩ := (List.eq_nil_or_concat' word).resolve_left full
  have last : cs.getLast? = some c := by
    obtain ⟨front, rfl⟩ := h
    rw [← List.append_assoc, List.getLast?_concat]
  have closing : cs.getLast? = some ')' := by
    obtain ⟨front, rfl⟩ := suffix_of_castBody? opens
    rw [← List.append_assoc, List.getLast?_concat]
  obtain rfl : c = ')' := Option.some.inj (last.symm.trans closing)
  exact absurd (plain ')' (by simp)) (by decide)

/-! ## Columns of views -/

/-- Whether a column is given a type. -/
def DeclaredColumn.IsTyped (c : DeclaredColumn) : Prop :=
  c.typeName ≠ "" ∨ c.precision.isSome = true ∨ c.scale.isSome = true

/-- Whether a column has the type that a cast casts to. A number that does not fit 32 bits is left out. -/
def DeclaredColumn.HasType (c : DeclaredColumn) (target : CastTarget) : Prop :=
  c.typeName = String.ofList target.name ∧ c.precision = Measure.precision? target.measure ∧
    c.scale = Measure.scale? target.measure

section Views

variable {given : Option (List Char)}

theorem typeName_viewColumn : (viewColumn item given).typeName
    = String.ofList (((castTarget? (splitAlias item).1).map fun t => trimChars t.name).getD []) := rfl

theorem precision_viewColumn : (viewColumn item given).precision
    = Measure.precision? ((castTarget? (splitAlias item).1).bind CastTarget.measure) := rfl

theorem scale_viewColumn : (viewColumn item given).scale
    = Measure.scale? ((castTarget? (splitAlias item).1).bind CastTarget.measure) := rfl

theorem exists_castTarget?_of_isTyped (h : (viewColumn item given).IsTyped) :
    ∃ target, castTarget? (splitAlias item).1 = some target := by
  rw [DeclaredColumn.IsTyped, typeName_viewColumn, precision_viewColumn, scale_viewColumn] at h
  cases found : castTarget? (splitAlias item).1 with
  | some target => exact ⟨target, rfl⟩
  | none =>
    rw [found] at h
    rcases h with name | precision | scale
    · exact absurd rfl name
    · cases precision
    · cases scale

theorem hasType_of_castTarget? (h : castTarget? (splitAlias item).1 = some target) :
    (viewColumn item given).HasType target := by
  have trimmed : trimChars target.name = target.name := by
    rw [castTarget?_eq] at h
    obtain ⟨body, -, found⟩ := Option.bind_eq_some_iff.1 h
    obtain ⟨_, _, -, ⟨-, _, -, spells⟩, -⟩ := lastCastTarget?_eq_some_iff.1 found
    exact spells.trimChars_name
  rw [DeclaredColumn.HasType, typeName_viewColumn, precision_viewColumn, scale_viewColumn, h, Option.map_some,
    Option.getD_some, trimmed]
  exact ⟨rfl, rfl, rfl⟩

/-- The expression of a column that is given a type is one cast exactly if its last character closes the parenthesis
behind `CAST`, and then the type of the column is that of the cast. -/
theorem viewColumn_cast_iff (typed : (viewColumn item given).IsTyped) :
    ((∃ argument target, IsCast (itemExpression item) argument target) ↔ closesCast (itemExpression item) = true) ∧
      ∀ argument target, IsCast (itemExpression item) argument target → (viewColumn item given).HasType target := by
  have split : itemExpression item = (splitAlias item).1 ∨ closesCast (itemExpression item) = false := by
    unfold itemExpression
    split
    · next before asName found =>
      split
      · next operator =>
        obtain ⟨full, plain⟩ := isPlainWordChar_of_isWordOf (by decide) operator
        exact .inr (closesCast_eq_false full plain (suffix_of_splitAtAlias found))
      · exact .inl rfl
    · exact .inl rfl
  rcases split with same | open'
  · obtain ⟨target, read⟩ := exists_castTarget?_of_isTyped typed
    rw [same]
    refine ⟨⟨fun ⟨_, _, cast⟩ => closesCast_of_isCast cast, fun closes => ?_⟩, fun _ _ cast => ?_⟩
    · obtain ⟨argument, cast⟩ := exists_isCast read closes
      exact ⟨argument, target, cast⟩
    · exact hasType_of_castTarget? (castTarget?_of_isCast cast)
  · have none := not_isCast open'
    exact ⟨iff_of_false none (by simp [open']), fun argument target cast => absurd ⟨argument, target, cast⟩ none⟩

end Views

/-! ## Casts inside and beside casts -/

namespace CastItems

def nested : List Char := "CAST(f('AS INT)', CAST([x AS y] AS TEXT)) AS DECIMAL (12, 2)) AS total".toList

def sum : List Char := "CAST(a AS INT) + CAST(b AS TEXT) AS s".toList

def test : List Char := "CAST(a AS INT) ISNULL".toList

/-- What stands in the argument of a cast does not matter for its type. -/
theorem nested_typed :
    (viewColumn nested none).typeName = "DECIMAL" ∧ (viewColumn nested none).precision = some 12 ∧
      (viewColumn nested none).scale = some 2 ∧ (viewColumn nested none).IsTyped ∧
      ∃ argument target, IsCast (itemExpression nested) argument target ∧
        (viewColumn nested none).HasType target := by
  have name : (viewColumn nested none).typeName = "DECIMAL" := by decide +kernel
  have typed : (viewColumn nested none).IsTyped := .inl (by rw [name]; decide)
  obtain ⟨argument, target, cast⟩ := (viewColumn_cast_iff typed).1.2 (by decide +kernel)
  exact ⟨name, by decide +kernel, by decide +kernel, typed, argument, target, cast,
    (viewColumn_cast_iff typed).2 argument target cast⟩

/-- A sum of two casts is given the type of the second one, and a test of a cast the type of the cast. -/
theorem others_typed :
    DeclaredObject.ofStatement
          "CREATE VIEW v AS SELECT CAST(a AS INT) + CAST(b AS TEXT) AS s, CAST(a AS INT) ISNULL FROM t"
        = .ok ⟨"v", .view,
          [⟨"s", "TEXT", none, none, "CAST(a AS INT) + CAST(b AS TEXT) AS s"⟩,
            ⟨"ISNULL", "INT", none, none, "CAST(a AS INT) ISNULL"⟩], false⟩ ∧
      (¬ ∃ argument target, IsCast (itemExpression sum) argument target) ∧
      ¬ ∃ argument target, IsCast (itemExpression test) argument target :=
  ⟨by decide +kernel, not_isCast (by decide +kernel), not_isCast (by decide +kernel)⟩

end CastItems

end SqlDialects.Schema
