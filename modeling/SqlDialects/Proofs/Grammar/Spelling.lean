import SqlDialects.Proofs.Grammar.Lexing
import SqlDialects.Proofs.Render.Placeholders

/-!
# Reading what pieces spell

The text of a pass is read piece by piece. A bind is read as the value that its placeholder stands for,
wherever in the text it stands: the reading counts the binds as the pass does. So what pieces are read as does
not depend on how many binds stand before them (`Lexer.Spells`), and the tokens of a rendered text are those
that its pieces spell (`Rendered.tokens?_of_spells`).
-/

set_option autoImplicit false

namespace SqlDialects

/-- The values that pieces bind. -/
def Settings.bound (s : Settings) (ps : List Piece) : List Value :=
  match s.paramType with
  | .indexed => ps.filterMap fun p => match p with | .bind v => some v | _ => none
  | .inlined => []

/-- The characters of a piece whose bind has a number. -/
def Piece.chars (d : Dialect) (s : Settings) (number : Nat) (p : Piece) : List Char :=
  match p, s.paramType with
  | .bind _, .indexed => (d.placeholder number).toList
  | p, _ => (p.spell d s).toList

/-- The characters of pieces whose binds are counted from a number. -/
def Piece.allChars (d : Dialect) (s : Settings) (number : Nat) : List Piece → List Char
  | [] => []
  | p :: ps => p.chars d s number ++ allChars d s (number + (s.bound [p]).length) ps

theorem Settings.bound_append (s : Settings) (ps qs : List Piece) : s.bound (ps ++ qs) = s.bound ps ++ s.bound qs := by
  unfold bound
  cases s.paramType <;> simp

theorem Settings.bound_text (s : Settings) {p : Piece} (hp : ∀ v, p ≠ .bind v) : s.bound [p] = [] := by
  unfold bound
  cases s.paramType with
  | inlined => rfl
  | indexed =>
    cases p with
    | bind v => exact absurd rfl (hp v)
    | _ => rfl

theorem Piece.chars_text (d : Dialect) (s : Settings) (number : Nat) {p : Piece} (hp : ∀ v, p ≠ .bind v) :
    p.chars d s number = (p.spell d s).toList := by
  cases p with
  | bind v => exact absurd rfl (hp v)
  | _ => rfl

theorem Piece.allChars_append (d : Dialect) (s : Settings) (number : Nat) (ps qs : List Piece) :
    allChars d s number (ps ++ qs) = allChars d s number ps ++ allChars d s (number + (s.bound ps).length) qs := by
  induction ps generalizing number with
  | nil =>
    have hb : s.bound [] = [] := by
      unfold Settings.bound
      cases s.paramType <;> rfl
    simp [allChars, hb]
  | cons p ps ih =>
    have hb : (s.bound (p :: ps)).length = (s.bound [p]).length + (s.bound ps).length := by
      rw [← List.singleton_append, s.bound_append, List.length_append]
    rw [List.cons_append, allChars, allChars, ih, hb, List.append_assoc, Nat.add_assoc]

theorem Settings.indexed_eq {s : Settings} (h : s.paramType = .indexed) : s.indexed = s := by
  cases s
  cases h
  rfl

namespace Weave

variable {d : Dialect} {s : Settings}

/-- Pieces behind a weave have their characters behind its text, with the binds counted on. -/
theorem spell_writeAll (hs : s.paramType = .indexed) (ps : List Piece) (w : Weave) :
    ((ps.foldl (write d s) w).spell fun i _ => d.placeholder i).toList
      = (w.spell fun i _ => d.placeholder i).toList ++ Piece.allChars d s (1 + w.before.length) ps := by
  induction ps generalizing w with
  | nil => simp [Piece.allChars]
  | cons p ps ih =>
    rw [List.foldl_cons, ih]
    by_cases hp : ∃ v, p = .bind v
    · obtain ⟨v, rfl⟩ := hp
      have hb : s.bound [.bind v] = [v] := by simp [Settings.bound, hs]
      have hc : Piece.chars d s (1 + w.before.length) (.bind v) = (d.placeholder (1 + w.before.length)).toList := by
        simp [Piece.chars, hs]
      rw [Piece.allChars, hb, hc]
      simp [write, spell, spellFrom_snoc, Nat.add_assoc]
    · have hp' : ∀ v, p ≠ .bind v := fun v h => hp ⟨v, h⟩
      rw [write_text hp', Piece.allChars, s.bound_text hp', p.chars_text d s _ hp']
      simp [spell, spellFrom_append]

theorem values_writeAll (hs : s.paramType = .indexed) (ps : List Piece) (w : Weave) :
    (ps.foldl (write d s) w).values = w.values ++ s.bound ps := by
  induction ps generalizing w with
  | nil => simp [Settings.bound, hs]
  | cons p ps ih =>
    rw [List.foldl_cons, ih, ← List.singleton_append, s.bound_append, ← List.append_assoc]
    congr 1
    cases p with
    | bind v => simp [write, values, Settings.bound, hs]
    | _ => simp [write, values, Settings.bound, hs]

theorem output_writeAll (hs : s.paramType = .indexed) (ps : List Piece) (w : Weave) :
    (w.output d).writeAll d s ps = (ps.foldl (write d s) w).output d := by
  induction ps generalizing w with
  | nil => rfl
  | cons p ps ih =>
    have hp := ih (w.write d s p)
    rw [output_write, Settings.indexed_eq hs] at hp
    exact hp

theorem output_empty (d : Dialect) : Weave.empty.output d = Output.empty := by
  unfold output
  cases d.placeholderStyle <;> rfl

end Weave

theorem Output.writeAll_inlined {d : Dialect} {s : Settings} (hs : s.paramType = .inlined) (ps : List Piece)
    (o : Output) (number : Nat) : o.writeAll d s ps = o.append (String.ofList (Piece.allChars d s number ps)) := by
  induction ps generalizing o with
  | nil => simp [writeAll, Piece.allChars, append]
  | cons p ps ih =>
    have hb : s.bound [p] = [] := by simp [Settings.bound, hs]
    have hw : o.write d s p = o.append (p.spell d s) := by
      unfold write
      rw [hs]
      cases p <;> rfl
    have hc : p.chars d s number = (p.spell d s).toList := by
      unfold Piece.chars
      rw [hs]
      cases p <;> rfl
    show (o.write d s p).writeAll d s ps = _
    rw [ih, hw, Piece.allChars, hb, hc, List.length_nil, Nat.add_zero, String.ofList_append, String.ofList_toList]
    simp [append, String.append_assoc]

/-- A pass ends in the characters of its pieces, and in the values that they bind. -/
theorem Output.finish_writeAll (d : Dialect) (s : Settings) (ps : List Piece) :
    (Output.empty.writeAll d s ps).finish = ⟨String.ofList (Piece.allChars d s 1 ps), s.bound ps⟩ := by
  cases hs : s.paramType with
  | indexed =>
    have text := Weave.spell_writeAll (d := d) hs ps .empty
    have values := Weave.values_writeAll (d := d) hs ps .empty
    have sql : ((ps.foldl (Weave.write d s) .empty).spell fun i _ => d.placeholder i)
        = String.ofList (Piece.allChars d s 1 ps) := by
      rw [← String.toList_inj, text, String.toList_ofList]
      rfl
    rw [← Weave.output_empty d, Weave.output_writeAll hs, Weave.finish_output, values, sql]
    rfl
  | inlined =>
    have hb : s.bound ps = [] := by simp [Settings.bound, hs]
    have whole := Weave.slice_append "" (String.ofList (Piece.allChars d s 1 ps)) ""
    rw [writeAll_inlined hs ps .empty 1, hb]
    simpa [finish, number, append, empty] using whole

namespace Lexer

/-- The state with further tokens read and further values resolved. -/
def State.advance (st : State) (ts : List Token) (count : Nat) (rest : List Value) : State :=
  { st with tokens := st.tokens ++ ts, values := rest, number := st.number + count }

/-- Pieces that are read as tokens from one kind of edge to another, however many binds stand before. -/
def Spells (d : Dialect) (s : Settings) (a b : Edge) (ps : List Piece) (ts : List Token) : Prop :=
  ∀ (st : State) (rest : List Value), st.At a → st.settle.values = s.bound ps ++ rest →
    (run d st (Piece.allChars d s st.settle.number ps)).At b ∧
      (run d st (Piece.allChars d s st.settle.number ps)).settle = st.settle.advance ts (s.bound ps).length rest

variable {d : Dialect} {s : Settings} {a b c : Edge} {ps qs : List Piece} {ts ts' : List Token}

theorem Spells.append (h : Spells d s a b ps ts) (h' : Spells d s b c qs ts') :
    Spells d s a c (ps ++ qs) (ts ++ ts') := by
  intro st rest ha hv
  rw [s.bound_append, List.append_assoc] at hv
  obtain ⟨hb, hs⟩ := h st _ ha hv
  obtain ⟨hc, hs'⟩ := h' _ rest hb (by rw [hs]; rfl)
  rw [hs] at hc hs'
  rw [Piece.allChars_append, run_append]
  refine ⟨hc, ?_⟩
  rw [s.bound_append, List.length_append]
  refine hs'.trans ?_
  simp [State.advance, Nat.add_assoc]

theorem Spells.nil : Spells d s a a [] [] := by
  intro st rest ha hv
  have hb : s.bound [] = [] := by
    unfold Settings.bound
    cases s.paramType <;> rfl
  rw [hb, List.nil_append] at hv
  rw [hb, ← hv]
  refine ⟨ha, ?_⟩
  show st.settle = _
  simp [State.advance]

theorem Spells.toJoint (h : Spells d s a b ps ts) : Spells d s a .joint ps ts :=
  fun st rest ha hv => ⟨(h st rest ha hv).1.joint, (h st rest ha hv).2⟩

theorem Spells.ofJoint (h : Spells d s .joint b ps ts) : Spells d s a b ps ts :=
  fun st rest ha hv => h st rest ha.joint hv

theorem Spells.ofSign (h : Spells d s .sign b ps ts) : Spells d s .gap b ps ts :=
  fun st rest ha hv => h st rest (.inl ha) hv

/-- A piece that is no bind is read as its text is. -/
theorem Reads.spells {p : Piece} (hp : ∀ v, p ≠ .bind v) (h : Reads d a b (p.spell d s).toList ts) :
    Spells d s a b [p] ts := by
  intro st rest ha hv
  rw [s.bound_text hp, List.nil_append] at hv
  rw [Piece.allChars, Piece.allChars, List.append_nil, p.chars_text d s _ hp, s.bound_text hp]
  obtain ⟨hb, hs⟩ := h st ha
  refine ⟨hb, hs.trans ?_⟩
  simp [State.extend, State.advance, ← hv]

/-- An inlined bind is read as its literal. -/
theorem Reads.spellsInlined {v : Value} (hs : s.paramType = .inlined) (h : Reads d a b (v.literal d).toList ts) :
    Spells d s a b [.bind v] ts := by
  intro st rest ha hv
  have hb : s.bound [.bind v] = [] := by rw [Settings.bound, hs]
  have hc : Piece.chars d s st.settle.number (.bind v) = (v.literal d).toList := by
    simp [Piece.chars, hs, Piece.spell]
  rw [hb, List.nil_append] at hv
  rw [Piece.allChars, Piece.allChars, List.append_nil, hc, hb]
  obtain ⟨hj, hs⟩ := h st ha
  refine ⟨hj, hs.trans ?_⟩
  simp [State.extend, State.advance, ← hv]

theorem run_dollar {st : State} {read cs : List Char} (h : cs.all Text.isAsciiDigit = true) :
    run d { st with pending := .dollar read } cs = { st with pending := .dollar (read ++ cs) } := by
  induction cs generalizing read with
  | nil => simp [run]
  | cons c cs ih =>
    rw [List.all_cons, Bool.and_eq_true] at h
    have hs : step d { st with pending := .dollar read } c = { st with pending := .dollar (read ++ [c]) } := by
      simp only [step, h.1, if_true]
    show run d (step d _ c) cs = _
    rw [hs, ih h.2, List.append_assoc, List.singleton_append]

/-- A placeholder is read as the value that it stands for. -/
theorem spells_bind (hs : s.paramType = .indexed) (v : Value) : Spells d s .sign .joint [.bind v] [.bind v] := by
  intro st rest ha hv
  have hb : s.bound [.bind v] = [v] := by
    rw [Settings.bound, hs]
    rfl
  have hc : Piece.chars d s st.settle.number (.bind v) = (d.placeholder st.settle.number).toList := by
    simp [Piece.chars, hs]
  rw [hb, List.singleton_append] at hv
  rw [Piece.allChars, Piece.allChars, List.append_nil, hc, hb]
  have taken : st.settle.take = st.settle.advance [.bind v] [v].length rest := by
    have gap := st.settle_gap
    generalize st.settle = σ at hv gap
    obtain ⟨tokens, pending, values, number⟩ := σ
    cases (show pending = .nothing from gap)
    cases (show values = v :: rest from hv)
    rfl
  unfold Dialect.placeholder
  cases hp : d.placeholderStyle with
  | question =>
    have hq : '?' ≠ d.identifierQuote := ne_identifierQuote (by decide) (by decide)
    have hb : run d st "?".toList = st.settle.take := by
      show step d st '?' = _
      rw [step_sign ha (by decide)]
      simp +decide [begin, hq]
    rw [hb]
    have gap : st.settle.take.At .gap := st.settle.pending_take
    exact ⟨gap.joint, (State.settle_of_gap gap).trans taken⟩
  | dollar =>
    have hq : '$' ≠ d.identifierQuote := ne_identifierQuote (by decide) (by decide)
    have hd := Text.all_digits st.settle.number
    have hb : run d st ("$" ++ Decimal.digits st.settle.number).toList
        = { st.settle with pending := .dollar (Nat.toDigits 10 st.settle.number) } := by
      have ho : step d st '$' = { st.settle with pending := .dollar [] } := by
        rw [step_sign ha (by decide)]
        simp +decide [begin, hq]
      have ht : ("$" ++ Decimal.digits st.settle.number).toList = '$' :: Nat.toDigits 10 st.settle.number := by
        simp [Decimal.digits]
      rw [ht]
      show run d (step d st '$') _ = _
      rw [ho, run_dollar hd, List.nil_append]
    rw [hb]
    refine ⟨trivial, ?_⟩
    have settled : State.settle { st.settle with pending := .dollar (Nat.toDigits 10 st.settle.number) }
        = st.settle.take := by
      have hn : String.ofList (Nat.toDigits 10 st.settle.number) = Decimal.digits st.settle.number := rfl
      refine (if_pos hn).trans ?_
      unfold State.take
      cases st.settle.values <;> rfl
    rw [settled, taken]

end Lexer

/-- A rendered text whose pieces spell tokens has these tokens. -/
theorem Rendered.tokens?_of_spells {d : Dialect} {s : Settings} {b : Lexer.Edge} {ps : List Piece} {ts : List Token}
    (h : Lexer.Spells d s .gap b ps ts) : (Output.empty.writeAll d s ps).finish.tokens? d = some ts := by
  obtain ⟨_, hs⟩ := h (.start (s.bound ps)) [] rfl (by rw [List.append_nil]; rfl)
  have hst : (Lexer.State.start (s.bound ps)).settle = .start (s.bound ps) := rfl
  rw [hst] at hs
  rw [Output.finish_writeAll, Rendered.tokens?, Lexer.read, String.toList_ofList]
  show (if (Lexer.run d (.start (s.bound ps)) (Piece.allChars d s 1 ps)).settle.values.isEmpty then
    some (Lexer.run d (.start (s.bound ps)) (Piece.allChars d s 1 ps)).settle.tokens else none) = some ts
  rw [show (1 : Nat) = (Lexer.State.start (s.bound ps)).number from rfl, hs]
  rfl

end SqlDialects
