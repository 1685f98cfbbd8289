import SqlDialects.Proofs.Grammar.Token
import SqlDialects.Proofs.Text.Words
import SqlDialects.Render.Piece

/-!
# Reading a text part by part

Which tokens a text is read as, put together from its parts. A part begins and ends at an **edge**: between
two tokens, or anywhere but inside a quoted one. A word is read as itself from a gap on, and whatever begins
with a blank, a parenthesis or a comma ends the word before it; so parts that meet at such characters are read
one by one (`Lexer.Reads.append`).
-/

set_option autoImplicit false

namespace SqlDialects

namespace Lexer

/-- Where the reading of a part may begin or end. -/
inductive Edge where
  /-- Between two tokens. -/
  | gap
  /-- The same, or behind a sign, which would go on with another sign only. -/
  | sign
  /-- Behind a name. -/
  | name
  /-- Anywhere but inside a quoted token or a comment. -/
  | joint

def Pending.Closed : Pending → Prop
  | .name _ false | .text _ _ false | .comment => False
  | _ => True

def State.At (st : State) : Edge → Prop
  | .gap => st.pending = .nothing
  | .sign => st.pending = .nothing ∨ st.pending = .symbol '-'
  | .name => (∃ cs, st.pending = .word cs) ∨ ∃ cs, st.pending = .name cs true
  | .joint => st.pending.Closed

/-- The characters that end any token before them and begin none that goes on. -/
def breaks : List Char := [' ', '\n', '(', ')', ',']

def run (d : Dialect) (st : State) (cs : List Char) : State := cs.foldl (step d) st

theorem run_append (d : Dialect) (st : State) (cs cs' : List Char) :
    run d st (cs ++ cs') = run d (run d st cs) cs' :=
  List.foldl_append

theorem State.At.joint {st : State} {a : Edge} (h : st.At a) : st.At .joint := by
  show st.pending.Closed
  cases a with
  | gap =>
    rw [show st.pending = .nothing from h]
    trivial
  | sign => rcases h with h | h <;> rw [h] <;> trivial
  | name => rcases h with ⟨cs, h⟩ | ⟨cs, h⟩ <;> rw [h] <;> trivial
  | joint => exact h

theorem State.settle_of_gap {st : State} (h : st.At .gap) : st.settle = st := by
  unfold State.settle
  rw [show st.pending = .nothing from h]

theorem State.pending_take (st : State) : st.take.pending = .nothing := by
  unfold State.take
  split <;> rfl

theorem State.settle_gap (st : State) : st.settle.At .gap := by
  show st.settle.pending = .nothing
  unfold State.settle
  split
  · assumption
  all_goals try rfl
  split
  · exact st.pending_take
  · rfl

theorem identifierQuote_eq (d : Dialect) : d.identifierQuote = '\x60' ∨ d.identifierQuote = '"' := by
  unfold Dialect.identifierQuote
  split
  · exact .inl rfl
  · exact .inl rfl
  · exact .inr rfl

theorem ne_identifierQuote {d : Dialect} {c : Char} (h : c ≠ '\x60') (h' : c ≠ '"') : c ≠ d.identifierQuote := by
  rcases identifierQuote_eq d with hd | hd <;> rw [hd]
  · exact h
  · exact h'

theorem ne_identifierQuote_of_mem {d : Dialect} {c : Char} {cs : List Char} (h : '\x60' ∉ cs) (h' : '"' ∉ cs)
    (hc : c ∈ cs) : c ≠ d.identifierQuote :=
  ne_identifierQuote (ne_of_mem_of_not_mem hc h) (ne_of_mem_of_not_mem hc h')

theorem step_break {d : Dialect} {st : State} (h : st.At .joint) {c : Char} (hc : c ∈ breaks) :
    step d st c = begin d st.settle c := by
  have hq : c ≠ d.identifierQuote := ne_identifierQuote_of_mem (by decide) (by decide) hc
  have hw : Text.isPlainWordChar c = false := by
    simpa using List.all_eq_true.1 (by decide : breaks.all (!Text.isPlainWordChar ·) = true) c hc
  have hd : Text.isAsciiDigit c = false := by
    simpa using List.all_eq_true.1 (by decide : breaks.all (!Text.isAsciiDigit ·) = true) c hc
  have ha : c ≠ '\'' := ne_of_mem_of_not_mem hc (by decide)
  have hp : (c == '.') = false := beq_false_of_ne (ne_of_mem_of_not_mem hc (by decide))
  have hm : c ≠ '-' := ne_of_mem_of_not_mem hc (by decide)
  have hs : ∀ a, pairs.contains (a, c) = false := by
    intro a
    simp only [breaks, List.mem_cons, List.not_mem_nil, or_false] at hc
    rcases hc with rfl | rfl | rfl | rfl | rfl <;> simp [pairs]
  have hst : st.pending.Closed := h
  unfold step
  split
  · next hn => rw [State.settle_of_gap hn]
  · simp [hw, ha]
  · simp [hw, hp]
  · simp [hd]
  · next hn => rw [hn] at hst; exact absurd hst id
  · simp [hq]
  · next hn => rw [hn] at hst; exact absurd hst id
  · simp [ha]
  · rw [if_neg (by simp [hm]), if_neg (by rw [hs]; simp)]
  · next hn => rw [hn] at hst; exact absurd hst id

/-- Behind a sign, anything but a sign begins a token. -/
theorem step_sign {d : Dialect} {st : State} (h : st.At .sign) {c : Char} (hc : c ≠ '-') :
    step d st c = begin d st.settle c := by
  have hp : pairs.contains ('-', c) = false := by simp [pairs]
  rcases h with h | h
  · rw [State.settle_of_gap h]
    unfold step
    rw [h]
  · unfold step
    rw [h]
    simp only [hp, hc, decide_false, Bool.and_false, Bool.false_eq_true, if_false]

/-! ## Parts of a text -/

/-- The state with further tokens read. -/
def State.extend (st : State) (ts : List Token) : State := { st with tokens := st.tokens ++ ts }

theorem State.emit_of_gap {st : State} (h : st.At .gap) (t : Token) : st.emit t = st.extend [t] := by
  obtain ⟨tokens, pending, values, number⟩ := st
  cases (show pending = .nothing from h)
  rfl

theorem State.extend_nil (st : State) : st.extend [] = st := by
  unfold State.extend
  rw [List.append_nil]

theorem State.extend_append (st : State) (ts ts' : List Token) : (st.extend ts).extend ts' = st.extend (ts ++ ts') := by
  unfold State.extend
  rw [List.append_assoc]

/-- A text that is read as tokens from one kind of edge to another. -/
def Reads (d : Dialect) (a b : Edge) (cs : List Char) (ts : List Token) : Prop :=
  ∀ st : State, st.At a → (run d st cs).At b ∧ (run d st cs).settle = st.settle.extend ts

variable {d : Dialect} {a b c : Edge} {cs cs' : List Char} {ts ts' : List Token}

theorem Reads.append (h : Reads d a b cs ts) (h' : Reads d b c cs' ts') : Reads d a c (cs ++ cs') (ts ++ ts') := by
  intro st ha
  obtain ⟨hb, hs⟩ := h st ha
  obtain ⟨hc, hs'⟩ := h' _ hb
  rw [run_append]
  refine ⟨hc, ?_⟩
  rw [hs', hs, State.extend_append]

theorem Reads.nil : Reads d a a [] [] := by
  intro st ha
  refine ⟨ha, ?_⟩
  rw [State.extend_nil]
  rfl

theorem Reads.toJoint (h : Reads d a b cs ts) : Reads d a .joint cs ts :=
  fun st ha => ⟨(h st ha).1.joint, (h st ha).2⟩

theorem Reads.ofJoint (h : Reads d .joint b cs ts) : Reads d a b cs ts :=
  fun st ha => h st ha.joint

theorem Reads.ofSign (h : Reads d .sign b cs ts) : Reads d .gap b cs ts :=
  fun st ha => h st (.inl ha)

/-- A blank or a line break. -/
theorem reads_white {c : Char} (hc : c ∈ [' ', '\n']) : Reads d .joint .gap [c] [] := by
  intro st h
  have hb : run d st [c] = st.settle := by
    have hq : c ≠ d.identifierQuote := ne_identifierQuote_of_mem (by decide) (by decide) hc
    have hm : c ∈ breaks := by
      rcases List.mem_cons.1 hc with rfl | hc
      · decide
      · rw [List.mem_singleton.1 hc]
        decide
    show step d st c = _
    rw [step_break h hm]
    simp only [List.mem_cons, List.not_mem_nil, or_false] at hc
    rcases hc with rfl | rfl <;> simp +decide [begin, hq]
  rw [hb, State.extend_nil]
  exact ⟨st.settle_gap, State.settle_of_gap st.settle_gap⟩

theorem reads_blank : Reads d .joint .gap [' '] [] := reads_white (by decide)

/-- A parenthesis or a comma. -/
theorem reads_mark {c : Char} (hc : c ∈ ['(', ')', ',']) : Reads d .joint .gap [c] [.symbol (.ofList [c])] := by
  intro st h
  have hb : run d st [c] = st.settle.emit (.symbol (.ofList [c])) := by
    have hq : c ≠ d.identifierQuote := ne_identifierQuote_of_mem (by decide) (by decide) hc
    show step d st c = _
    rw [step_break h (List.mem_cons_of_mem ' ' (List.mem_cons_of_mem '\n' hc))]
    simp only [List.mem_cons, List.not_mem_nil, or_false] at hc
    rcases hc with rfl | rfl | rfl <;> simp +decide [begin, hq]
  rw [hb]
  exact ⟨rfl, State.emit_of_gap st.settle_gap _⟩

/-! ## Words and numbers -/

theorem run_word {st : State} {read : List Char} (h : cs.all Text.isPlainWordChar = true) :
    run d { st with pending := .word read } cs = { st with pending := .word (read ++ cs) } := by
  induction cs generalizing read with
  | nil => simp [run]
  | cons c cs ih =>
    rw [List.all_cons, Bool.and_eq_true] at h
    have hs : step d { st with pending := .word read } c = { st with pending := .word (read ++ [c]) } := by
      simp only [step, h.1, if_true]
    show run d (step d _ c) cs = _
    rw [hs, ih h.2, List.append_assoc, List.singleton_append]

/-- A plain name is one word. -/
theorem reads_word {w : String} (h : isPlainName w = true) : Reads d .sign .name w.toList [.word w] := by
  intro st hst
  unfold isPlainName at h
  split at h
  · cases h
  · next c cs hw =>
    rw [Bool.and_eq_true] at h
    have hc : c ≠ '-' := by
      rintro rfl
      simp +decide at h
    have hb : run d st w.toList = { st.settle with pending := .word (c :: cs) } := by
      rw [hw]
      show run d (step d st c) cs = _
      have hs : step d st c = { st.settle with pending := .word [c] } := by
        rw [step_sign hst hc]
        simp only [begin, h.1, if_true]
      rw [hs, run_word h.2, List.singleton_append]
    rw [hb]
    refine ⟨.inl ⟨_, rfl⟩, ?_⟩
    show st.settle.emit (.word (.ofList (c :: cs))) = _
    rw [← hw, String.ofList_toList, State.emit_of_gap st.settle_gap]

/-- Words with a blank before each. -/
theorem reads_spaced {ws : List String} (h : ∀ w ∈ ws, isPlainName w = true) :
    Reads d .joint .joint (ws.flatMap fun w => ' ' :: w.toList) (ws.map .word) := by
  induction ws with
  | nil => exact .nil
  | cons w ws ih =>
    have hw : Reads d .joint .joint ([' '] ++ w.toList) ([] ++ [.word w]) :=
      reads_blank.append (reads_word (h w (by simp))).ofSign.toJoint
    exact hw.append (ih fun w' hw' => h w' (by simp [hw']))

/-- Words between blanks. -/
theorem reads_padded {ws : List String} (h : ∀ w ∈ ws, isPlainName w = true) :
    Reads d .joint .gap ((ws.flatMap fun w => ' ' :: w.toList) ++ [' ']) (ws.map .word) := by
  have padded := (reads_spaced (d := d) h).append reads_blank
  rwa [List.append_nil] at padded

/-- Words with a blank behind each. -/
theorem reads_words {ws : List String} (h : ∀ w ∈ ws, isPlainName w = true) :
    Reads d .gap .gap (ws.flatMap fun w => w.toList ++ [' ']) (ws.map .word) := by
  induction ws with
  | nil => exact .nil
  | cons w ws ih =>
    have hw : Reads d .gap .gap (w.toList ++ [' ']) ([.word w] ++ []) :=
      (reads_word (h w (by simp))).ofSign.toJoint.append reads_blank
    exact hw.append (ih fun w' hw' => h w' (by simp [hw']))

/-- The characters of a number: what stands in a plain word, and a point. -/
def isNumberChar (c : Char) : Bool := Text.isPlainWordChar c || c == '.'

theorem run_number {st : State} {read : List Char} (h : cs.all isNumberChar = true) :
    run d { st with pending := .number read } cs = { st with pending := .number (read ++ cs) } := by
  induction cs generalizing read with
  | nil => simp [run]
  | cons c cs ih =>
    rw [List.all_cons, Bool.and_eq_true] at h
    have hc : (Text.isPlainWordChar c || c == '.') = true := h.1
    have hs : step d { st with pending := .number read } c = { st with pending := .number (read ++ [c]) } := by
      simp only [step, hc, if_true]
    show run d (step d _ c) cs = _
    rw [hs, ih h.2, List.append_assoc, List.singleton_append]

theorem not_letter_of_digit {c : Char} (h : Text.isAsciiDigit c = true) :
    (Text.isAsciiLetter c || c == '_') = false := by
  simp only [Text.isAsciiDigit, Text.isAsciiLetter, Bool.and_eq_true, decide_eq_true_eq, Char.le_def,
    UInt32.le_iff_toNat_le, Bool.or_eq_false_iff, Bool.and_eq_false_iff, decide_eq_false_iff_not,
    beq_eq_false_iff_ne, ne_eq] at h ⊢
  refine ⟨⟨.inl ?_, .inl ?_⟩, ?_⟩
  · simp at h ⊢
    omega
  · simp at h ⊢
    omega
  · rintro rfl
    simp +decide at h

/-- A text that begins with a digit is one number. -/
theorem reads_number {c : Char} (hc : Text.isAsciiDigit c = true) (h : cs.all isNumberChar = true) :
    Reads d .sign .joint (c :: cs) [.number (.ofList (c :: cs))] := by
  intro st hst
  have hm : c ≠ '-' := by
    rintro rfl
    simp +decide at hc
  have hb : run d st (c :: cs) = { st.settle with pending := .number (c :: cs) } := by
    show run d (step d st c) cs = _
    have hs : step d st c = { st.settle with pending := .number [c] } := by
      rw [step_sign hst hm]
      simp [begin, hc, not_letter_of_digit hc]
    rw [hs, run_number h, List.singleton_append]
  rw [hb]
  exact ⟨trivial, State.emit_of_gap st.settle_gap _⟩

/-! ## Quoted tokens -/

theorem run_name {st : State} {read : List Char} (cs : List Char) :
    run d { st with pending := .name read false } (Text.doubling d.identifierQuote cs)
      = { st with pending := .name (read ++ cs) false } := by
  induction cs generalizing read with
  | nil => simp [run, Text.doubling]
  | cons c cs ih =>
    have hs : run d { st with pending := .name (read ++ [c]) false } (Text.doubling d.identifierQuote cs)
        = { st with pending := .name (read ++ c :: cs) false } := by
      rw [ih, List.append_assoc, List.singleton_append]
    by_cases hc : c = d.identifierQuote
    · -- The first of the two quotes may be the end, and the second shows that it is not.
      rw [Text.doubling, if_pos hc, ← hs, hc]
      simp [run, step]
    · rw [Text.doubling, if_neg hc, ← hs]
      simp [run, step, hc]

/-- A quoted name is read without its quotes. -/
theorem reads_quoted (n : String) : Reads d .sign .name (d.quoteIdentifier n).toList [.name n] := by
  intro st hst
  have hq : d.identifierQuote ≠ '-' := by
    rcases identifierQuote_eq d with hd | hd <;> rw [hd] <;> decide
  have ho : step d st d.identifierQuote = { st.settle with pending := .name [] false } := by
    rw [step_sign hst hq]
    unfold begin
    rcases identifierQuote_eq d with hd | hd <;> rw [hd] <;> simp +decide
  have hb : run d st (d.quoteIdentifier n).toList = { st.settle with pending := .name n.toList true } := by
    rw [Dialect.quoteIdentifier, Text.quoted, String.toList_ofList, List.cons_append]
    show run d (step d st d.identifierQuote) _ = _
    rw [ho, run_append, run_name, List.nil_append]
    simp [run, step]
  rw [hb]
  refine ⟨.inr ⟨_, rfl⟩, ?_⟩
  show st.settle.emit (.name (.ofList n.toList)) = _
  rw [String.ofList_toList, State.emit_of_gap st.settle_gap]

theorem run_text {st : State} {tag read : List Char} (cs : List Char) :
    run d { st with pending := .text tag read false } (Text.doubling '\'' cs)
      = { st with pending := .text tag (read ++ cs) false } := by
  induction cs generalizing read with
  | nil => simp [run, Text.doubling]
  | cons c cs ih =>
    have hs : run d { st with pending := .text tag (read ++ [c]) false } (Text.doubling '\'' cs)
        = { st with pending := .text tag (read ++ c :: cs) false } := by
      rw [ih, List.append_assoc, List.singleton_append]
    by_cases hc : c = '\''
    · rw [Text.doubling, if_pos hc, ← hs, hc]
      simp [run, step]
    · rw [Text.doubling, if_neg hc, ← hs]
      simp [run, step, hc]

theorem run_quoted {st : State} (h : st.At .sign) (s : String) :
    run d st (Text.quoted '\'' s).toList = { st.settle with pending := .text [] s.toList true } := by
  have hq : '\'' ≠ d.identifierQuote := ne_identifierQuote (by decide) (by decide)
  have ho : step d st '\'' = { st.settle with pending := .text [] [] false } := by
    rw [step_sign h (by decide)]
    simp +decide [begin, hq]
  rw [Text.quoted, String.toList_ofList, List.cons_append]
  show run d (step d st '\'') _ = _
  rw [ho, run_append, run_text, List.nil_append]
  simp [run, step]

/-- A quoted text is read without its quotes. -/
theorem reads_text (s : String) : Reads d .sign .joint (Text.quoted '\'' s).toList [.text "" s] := by
  intro st hst
  rw [run_quoted hst]
  refine ⟨trivial, ?_⟩
  show st.settle.emit (.text (.ofList []) (.ofList s.toList)) = _
  rw [String.ofList_toList, State.emit_of_gap st.settle_gap]

/-- A quoted text with a type behind it. -/
theorem reads_typed (s : String) {w : String} (hw : isPlainName w = true) :
    Reads d .sign .joint ((Text.quoted '\'' s).toList ++ ([':', ':'] ++ w.toList))
      [.text "" s, .symbol "::", .word w] := by
  intro st hst
  have hq : ':' ≠ d.identifierQuote := ne_identifierQuote (by decide) (by decide)
  have hc : run d (run d st (Text.quoted '\'' s).toList) [':', ':']
      = (st.settle.extend [.text "" s]).extend [.symbol "::"] := by
    have hs := (reads_text (d := d) s st hst).2
    rw [run_quoted hst] at hs ⊢
    have hp : step d { st.settle with pending := .text [] s.toList true } ':'
        = { st.settle.extend [.text "" s] with pending := .symbol ':' } := by
      rw [← hs]
      simp +decide [step, begin, hq]
    show step d (step d _ ':') ':' = _
    rw [hp]
    simp +decide [step, State.emit, State.extend]
    exact st.settle_gap.symm
  have gap : ((st.settle.extend [.text "" s]).extend [.symbol "::"]).At .gap := st.settle_gap
  obtain ⟨hn, hs⟩ := reads_word (d := d) hw _ (.inl gap)
  rw [run_append, run_append, hc]
  refine ⟨hn.joint, ?_⟩
  rw [hs, State.settle_of_gap gap, State.extend_append, State.extend_append]
  rfl

theorem doubling_of_not_mem {q : Char} (h : q ∉ cs) : Text.doubling q cs = cs := by
  induction cs with
  | nil => rfl
  | cons c cs ih =>
    rw [List.mem_cons, not_or] at h
    rw [Text.doubling, if_neg (Ne.symm h.1), ih h.2]

/-- A text without quotes in it, behind a letter. -/
theorem reads_tagged (h : '\'' ∉ cs) :
    Reads d .sign .joint ('X' :: '\'' :: (cs ++ ['\''])) [.text "X" (.ofList cs)] := by
  intro st hst
  have hx : step d st 'X' = { st.settle with pending := .word ['X'] } := by
    rw [step_sign hst (by decide)]
    simp +decide [begin]
  have hb : run d st ('X' :: '\'' :: (cs ++ ['\''])) = { st.settle with pending := .text ['X'] cs true } := by
    show run d (step d (step d st 'X') '\'') (cs ++ ['\'']) = _
    have ht : step d (step d st 'X') '\'' = { st.settle with pending := .text ['X'] [] false } := by
      rw [hx]
      simp +decide [step]
    have hr := @run_text d st.settle ['X'] [] cs
    rw [doubling_of_not_mem h] at hr
    rw [ht, run_append, hr]
    simp [run, step]
  rw [hb]
  exact ⟨trivial, State.emit_of_gap st.settle_gap _⟩

/-! ## Operators -/

theorem step_gap {st : State} (h : st.At .gap) (c : Char) : step d st c = begin d st c := by
  unfold step
  rw [show st.pending = .nothing from h]

/-- The operators of one character that none of two begins with. -/
theorem reads_single {c : Char} (hc : c ∈ ['+', '*', '/', '%', '&', '=', '~']) :
    Reads d .sign .gap [c] [.symbol (.ofList [c])] := by
  intro st hst
  have hb : run d st [c] = st.settle.emit (.symbol (.ofList [c])) := by
    have hq : c ≠ d.identifierQuote := ne_identifierQuote_of_mem (by decide) (by decide) hc
    show step d st c = _
    rw [step_sign hst (ne_of_mem_of_not_mem hc (by decide))]
    simp only [List.mem_cons, List.not_mem_nil, or_false] at hc
    rcases hc with rfl | rfl | rfl | rfl | rfl | rfl | rfl <;> simp +decide [begin, hq]
  rw [hb]
  exact ⟨rfl, State.emit_of_gap st.settle_gap _⟩

theorem step_opening {st : State} (h : st.At .gap) {c : Char} (hc : c ∈ ['-', '|', '<', '>']) :
    step d st c = { st with pending := .symbol c } := by
  have hq : c ≠ d.identifierQuote := ne_identifierQuote_of_mem (by decide) (by decide) hc
  rw [step_gap h]
  simp only [List.mem_cons, List.not_mem_nil, or_false] at hc
  rcases hc with rfl | rfl | rfl | rfl <;> simp +decide [begin, hq]

/-- An operator of one character with which others begin. -/
theorem reads_opening {c : Char} (hc : c ∈ ['-', '|', '<', '>']) : Reads d .gap .joint [c] [.symbol (.ofList [c])] := by
  intro st hst
  have hb : run d st [c] = { st with pending := .symbol c } := step_opening hst hc
  rw [hb, State.settle_of_gap hst]
  exact ⟨trivial, State.emit_of_gap hst _⟩

/-- A sign before an operand. -/
theorem reads_minus : Reads d .gap .sign ['-'] [.symbol "-"] := by
  intro st hst
  have hb : run d st ['-'] = { st with pending := .symbol '-' } := step_opening hst (by decide)
  rw [hb, State.settle_of_gap hst]
  exact ⟨.inr rfl, State.emit_of_gap hst _⟩

/-- An operator of two characters. -/
theorem reads_pair {c c' : Char} (hc : c ∈ ['-', '|', '<', '>']) (hp : (c, c') ∈ pairs) :
    Reads d .gap .gap [c, c'] [.symbol (.ofList [c, c'])] := by
  intro st hst
  have hs : pairs.contains (c, c') = true := by simpa using hp
  have hm : c ≠ '-' := by
    rintro rfl
    simp [pairs] at hp
  have hb : run d st [c, c'] = st.emit (.symbol (.ofList [c, c'])) := by
    show step d (step d st c) c' = _
    rw [step_opening hst hc]
    simp only [step, hm, hs, decide_false, Bool.false_and, Bool.false_eq_true, if_false, if_true]
    rfl
  rw [hb, State.settle_of_gap hst, State.emit_of_gap hst]
  exact ⟨hst, State.settle_of_gap hst⟩

/-- The point between a name and what it qualifies. -/
theorem reads_point : Reads d .name .gap ['.'] [.symbol "."] := by
  intro st hst
  have hq : '.' ≠ d.identifierQuote := ne_identifierQuote (by decide) (by decide)
  have hb : run d st ['.'] = st.settle.emit (.symbol ".") := by
    show step d st '.' = _
    have hs : step d st '.' = begin d st.settle '.' := by
      unfold step
      rcases hst with ⟨cs, h⟩ | ⟨cs, h⟩ <;> rw [h] <;> simp +decide [hq]
    rw [hs]
    simp +decide [begin, hq]
  rw [hb]
  exact ⟨rfl, State.emit_of_gap st.settle_gap _⟩

end Lexer

end SqlDialects
