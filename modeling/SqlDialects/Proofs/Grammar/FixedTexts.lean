import SqlDialects.Proofs.Grammar.Lexing

/-!
# Texts that are always the same

What the writers put around the parts of a node, keywords, operators and parentheses, is the same text wherever it is
written. What such a text is read as can be computed: reading does not look back at the tokens before
(`Lexer.run_behind`), and neither the dialect nor the values matter to a text without quotes of names and placeholders.
So it is read as it would be by itself (`Lexer.reads_fixed`).
-/

set_option autoImplicit false

namespace SqlDialects

namespace Lexer

/-- Whether a character means the same in every dialect and whatever values there are. -/
def isFixed (c : Char) : Bool := !(['\x60', '"', '?', '$'].contains c)

/-- Whether a token is being read that ends in the same way in every dialect. -/
def Pending.isFixed : Pending → Bool
  | .dollar _ | .name _ _ => false
  | _ => true

/-- A state with the tokens and the values of another one before its own. -/
def State.behind (before st : State) : State :=
  { before with tokens := before.tokens ++ st.tokens, pending := st.pending }

variable {d : Dialect} {st before : State} {c : Char} {cs : List Char}

theorem State.behind_of_gap (h : before.At .gap) (values : List Value) : before.behind (.start values) = before := by
  obtain ⟨tokens, pending, values, number⟩ := before
  cases (show pending = .nothing from h)
  simp [behind, start]

theorem State.settle_behind (h : st.pending.isFixed = true) : (before.behind st).settle = before.behind st.settle := by
  obtain ⟨tokens, pending, values, number⟩ := st
  cases pending with
  | dollar _ | name _ _ => cases h
  | _ => simp [settle, behind, emit]

theorem State.isFixed_settle : st.settle.pending.isFixed = true := by
  rw [show st.settle.pending = .nothing from st.settle_gap]
  rfl

theorem begin_behind (hc : isFixed c = true) (h : st.pending.isFixed = true) :
    begin d (before.behind st) c = before.behind (begin .default st c)
      ∧ (begin .default st c).pending.isFixed = true := by
  simp only [isFixed, List.contains_eq_mem, List.mem_cons, List.not_mem_nil, or_false, Bool.not_eq_true',
    decide_eq_false_iff_not, not_or] at hc
  obtain ⟨backquote, quote, question, dollar⟩ := hc
  have hd : ∀ d : Dialect, c ≠ d.identifierQuote := fun d => ne_identifierQuote backquote quote
  unfold begin
  simp only [hd, question, dollar, if_false]
  repeat' split
  all_goals first
    | exact ⟨rfl, rfl⟩
    | exact ⟨rfl, h⟩
    | exact ⟨by simp [State.behind, State.emit], rfl⟩

/-- Reading does not look back at the tokens before. -/
theorem step_behind (hc : isFixed c = true) (h : st.pending.isFixed = true) :
    step d (before.behind st) c = before.behind (step .default st c) ∧ (step .default st c).pending.isFixed = true := by
  have starts : begin d (before.behind st) c = before.behind (begin .default st c) ∧ _ := begin_behind hc h
  have settled : begin d (before.behind st.settle) c = before.behind (begin .default st.settle c) ∧ _ :=
    begin_behind hc st.isFixed_settle
  rw [← State.settle_behind h] at settled
  obtain ⟨tokens, pending, values, number⟩ := st
  unfold step
  cases pending with
  | nothing => exact starts
  | word cs =>
    dsimp only [State.behind] at settled ⊢
    repeat' split
    all_goals first
      | exact settled
      | exact ⟨rfl, rfl⟩
  | number cs =>
    dsimp only [State.behind] at settled ⊢
    split
    · exact ⟨rfl, rfl⟩
    · exact settled
  | text tag cs closed =>
    cases closed
    · dsimp only [State.behind]
      split <;> exact ⟨rfl, rfl⟩
    · dsimp only [State.behind] at settled ⊢
      split
      · exact ⟨rfl, rfl⟩
      · exact settled
  | symbol a =>
    dsimp only [State.behind] at settled ⊢
    repeat' split
    all_goals first
      | exact settled
      | exact ⟨by simp [State.emit], rfl⟩
  | comment =>
    dsimp only [State.behind]
    split <;> exact ⟨rfl, rfl⟩
  | dollar _ | name _ _ => cases h

theorem run_behind (hcs : cs.all isFixed = true) (h : st.pending.isFixed = true) :
    run d (before.behind st) cs = before.behind (run .default st cs) ∧ (run .default st cs).pending.isFixed = true := by
  induction cs generalizing st with
  | nil => exact ⟨rfl, h⟩
  | cons c cs ih =>
    rw [List.all_cons, Bool.and_eq_true] at hcs
    obtain ⟨hs, hp⟩ : step d (before.behind st) c = before.behind (step .default st c) ∧ _ := step_behind hcs.1 h
    show run d (step d _ c) cs = before.behind (run .default (step .default st c) cs) ∧ _
    rw [hs]
    exact ih hcs.2 hp

/-! ## Where a text may stand -/

/-- Whether a text may stand behind an edge: what begins it ends the token before. -/
def Edge.allows : Edge → List Char → Bool
  | .gap, _ => true
  | .sign, cs => cs.head?.any (· != '-')
  | .name, cs | .joint, cs => cs.head?.any breaks.contains

/-- The edge that a reading ends at. -/
def Pending.edge? : Pending → Option Edge
  | .nothing => some .gap
  | .symbol c => some (if c = '-' then .sign else .joint)
  | .word _ => some .name
  | .number _ => some .joint
  | .text _ _ closed => if closed then some .joint else none
  | .dollar _ | .name _ _ | .comment => none

deriving instance DecidableEq for Edge

/-- The tokens that a text by itself is read as, and the edge that its reading ends at. -/
def skim? (text : String) : Option (Edge × List Token) :=
  let st := run .default (.start []) text.toList
  st.pending.edge?.map fun b => (b, st.settle.tokens)

theorem State.at_of_edge? {b : Edge} (h : st.pending.edge? = some b) : st.At b := by
  obtain ⟨tokens, pending, values, number⟩ := st
  cases pending with
  | nothing =>
    cases h
    rfl
  | word cs =>
    cases h
    exact .inl ⟨cs, rfl⟩
  | number cs =>
    cases h
    trivial
  | text tag cs closed =>
    cases closed <;> cases h
    trivial
  | symbol c =>
    cases h
    split
    · next hc =>
      subst hc
      exact .inr rfl
    · trivial
  | dollar _ | name _ _ | comment => cases h

/-- A token that ends before a text is as if it had ended already. -/
theorem Reads.behind {a b : Edge} {ts : List Token} (ha : a.allows cs = true) (h : Reads d .gap b cs ts) :
    Reads d a b cs ts := by
  have settled : ∀ st : State, (∀ c, cs.head? = some c → step d st c = begin d st.settle c) → cs ≠ [] →
      (run d st cs).At b ∧ (run d st cs).settle = st.settle.extend ts := by
    intro st hs full
    cases cs with
    | nil => exact absurd rfl full
    | cons c cs =>
      have same : run d st (c :: cs) = run d st.settle (c :: cs) := by
        show run d (step d st c) cs = run d (step d st.settle c) cs
        rw [hs c rfl, step_gap st.settle_gap]
      rw [same]
      have read := h st.settle st.settle_gap
      rwa [State.settle_of_gap st.settle_gap] at read
  intro st hst
  cases cs with
  | nil =>
    cases a with
    | gap => exact h st hst
    | _ => cases ha
  | cons c cs =>
    refine settled st ?_ (List.cons_ne_nil c cs)
    rintro _ ⟨⟩
    cases a with
    | gap => rw [State.settle_of_gap hst, step_gap hst]
    | sign => exact step_sign hst (by simpa [Edge.allows] using ha)
    | name => exact step_break hst.joint (by simpa [Edge.allows] using ha)
    | joint => exact step_break hst (by simpa [Edge.allows] using ha)

/-- A text without quotes of names and placeholders is read as by itself. -/
theorem reads_fixed {a b : Edge} {text : String} {ts : List Token} (hf : text.toList.all isFixed = true)
    (ha : a.allows text.toList = true) (h : skim? text = some (b, ts)) : Reads d a b text.toList ts := by
  refine Reads.behind ha fun st hst => ?_
  obtain ⟨hb, ht⟩ : (run .default (.start []) text.toList).pending.edge? = some b
      ∧ (run .default (.start []) text.toList).settle.tokens = ts := by
    unfold skim? at h
    obtain ⟨b', hb', pair⟩ := Option.map_eq_some_iff.1 h
    cases pair
    exact ⟨hb', rfl⟩
  obtain ⟨hr, fixed⟩ :
      run d (st.behind (.start [])) text.toList = st.behind (run .default (.start []) text.toList) ∧ _ :=
    run_behind hf rfl
  rw [State.behind_of_gap hst] at hr
  rw [hr, State.settle_behind fixed]
  refine ⟨State.at_of_edge? hb, ?_⟩
  rw [State.settle_of_gap hst, ← ht]
  obtain ⟨tokens, pending, values, number⟩ := st
  cases (show pending = .nothing from hst)
  rw [State.behind, State.extend, show (State.settle _).pending = .nothing from State.settle_gap _]

end Lexer

end SqlDialects
