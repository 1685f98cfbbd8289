import SqlDialects.Proofs.Grammar.Lexing

/-!
# Two dashes

Two dashes in a row begin a comment, unless they stand in a quoted token. So a text that is read as tokens
without comments and without dashes in them has no two dashes in a row (`Rendered.not_two_dashes`): once a dash
is part of a token it stays in it, and a comment is noted as it begins.
-/

set_option autoImplicit false

namespace SqlDialects

/-- Whether a token is a comment, or has a dash in it. An operator has none: two dashes are no operator. -/
def Token.Dashed : Token → Prop
  | comment => True
  | word s | name s | number s | stray s => '-' ∈ s.toList
  | text tag s => '-' ∈ tag.toList ∨ '-' ∈ s.toList
  | bind _ | symbol _ => False

namespace Lexer

/-! ## Two dashes -/

/-- Whether a token with a dash in it, or a comment, has been read or is being read. -/
def State.Dashed (st : State) : Prop :=
  (∃ t ∈ st.tokens, t.Dashed) ∨
    match st.pending with
    | .word cs | .number cs | .name cs _ => '-' ∈ cs
    | .text tag cs _ => '-' ∈ tag ∨ '-' ∈ cs
    | .nothing | .dollar _ | .symbol _ | .comment => False

variable {d : Dialect} {st : State} {t : Token}

theorem mem_emit (h : t ∈ st.tokens) (u : Token) : t ∈ (st.emit u).tokens :=
  List.mem_append_left _ h

theorem mem_take (h : t ∈ st.tokens) : t ∈ st.take.tokens := by
  unfold State.take
  split
  · exact mem_emit h _
  · exact mem_emit h _

theorem mem_settle (h : t ∈ st.tokens) : t ∈ st.settle.tokens := by
  unfold State.settle
  split
  · exact h
  · exact mem_emit h _
  · exact mem_emit h _
  · split
    · exact mem_take h
    · exact mem_emit h _
  · exact mem_emit h _
  · exact mem_emit h _
  · exact mem_emit h _
  · exact h

theorem mem_begin (h : t ∈ st.tokens) (c : Char) : t ∈ (begin d st c).tokens := by
  unfold begin
  repeat' split
  · exact h
  · exact h
  · exact h
  · exact h
  · exact mem_take h
  · exact h
  · exact h
  · exact h
  · exact mem_emit h _

theorem mem_step (h : t ∈ st.tokens) (c : Char) : t ∈ (step d st c).tokens := by
  unfold step
  repeat' split
  all_goals first
    | exact h
    | exact mem_emit h _
    | exact mem_begin h c
    | exact mem_begin (mem_settle h) c
    | exact mem_settle h

/-- What is being read becomes a token with its dash. -/
theorem State.Dashed.settle (h : st.Dashed) : ∃ t ∈ st.settle.tokens, t.Dashed := by
  rcases h with ⟨t, ht, hd⟩ | h
  · exact ⟨t, mem_settle ht, hd⟩
  · obtain ⟨tokens, pending, values, number⟩ := st
    cases pending with
    | word cs | number cs =>
      refine ⟨_, List.mem_append_right _ (.head _), ?_⟩
      simpa [Token.Dashed] using h
    | name cs closed =>
      refine ⟨_, List.mem_append_right _ (.head _), ?_⟩
      cases closed <;> simpa [Token.Dashed] using h
    | text tag cs closed =>
      refine ⟨_, List.mem_append_right _ (.head _), ?_⟩
      cases closed <;> simpa [Token.Dashed] using h
    | nothing | dollar _ | symbol _ | comment => exact absurd h id

theorem State.Dashed.step (h : st.Dashed) (c : Char) : (step d st c).Dashed := by
  -- The token with the dash goes on, or it ends and is kept.
  have begun : (begin d st.settle c).Dashed := by
    obtain ⟨t, ht, hd⟩ := h.settle
    exact .inl ⟨t, mem_begin ht c, hd⟩
  rcases h with ⟨t, ht, hd⟩ | h
  · exact .inl ⟨t, mem_step ht c, hd⟩
  · obtain ⟨tokens, pending, values, number⟩ := st
    cases pending with
    | word cs =>
      simp only [Lexer.step]
      split
      · exact .inr (List.mem_append_left _ h)
      · split
        · exact .inr (.inl h)
        · exact begun
    | number cs =>
      simp only [Lexer.step]
      split
      · exact .inr (List.mem_append_left _ h)
      · exact begun
    | name cs closed =>
      cases closed
      · simp only [Lexer.step]
        split
        · exact .inr h
        · exact .inr (List.mem_append_left _ h)
      · simp only [Lexer.step]
        split
        · exact .inr (List.mem_append_left _ h)
        · exact begun
    | text tag cs closed =>
      have longer : '-' ∈ tag ∨ '-' ∈ cs ++ [c] := h.imp_right (List.mem_append_left _)
      cases closed
      · simp only [Lexer.step]
        split
        · exact .inr h
        · exact .inr longer
      · simp only [Lexer.step]
        split
        · exact .inr longer
        · exact begun
    | nothing | dollar _ | symbol _ | comment => exact absurd h id

theorem State.Dashed.run (h : st.Dashed) (cs : List Char) : (run d st cs).Dashed := by
  induction cs generalizing st with
  | nil => exact h
  | cons c cs ih => exact ih (h.step c)

theorem begin_dash (h : st.At .gap) : begin d st '-' = { st with pending := .symbol '-' } := by
  rw [← step_gap h]
  exact step_opening h (by decide)

theorem begin_ne_comment (h : st.At .gap) (c : Char) : (begin d st c).pending ≠ .comment := by
  have hn : st.pending ≠ .comment := by
    rw [show st.pending = .nothing from h]
    rintro ⟨⟩
  unfold begin
  repeat' split
  all_goals first
    | exact hn
    | rw [State.pending_take]; rintro ⟨⟩
    | rintro ⟨⟩

/-- A comment is noted as it begins. -/
theorem comment_mem_step {c : Char} (h : st.pending = .comment → .comment ∈ st.tokens)
    (hc : (step d st c).pending = .comment) : .comment ∈ (step d st c).tokens := by
  have begun : (begin d st.settle c).pending ≠ .comment := begin_ne_comment st.settle_gap c
  by_cases hp : st.pending = .comment
  · exact mem_step (h hp) c
  · revert hc
    unfold step
    split
    · next hn => exact fun hc => absurd hc (begin_ne_comment hn c)
    · repeat' split
      · rintro ⟨⟩
      · rintro ⟨⟩
      · exact fun hc => absurd hc begun
    · split
      · rintro ⟨⟩
      · exact fun hc => absurd hc begun
    · split
      · rintro ⟨⟩
      · exact fun hc => absurd hc begun
    · dsimp only
      split <;> rintro ⟨⟩
    · split
      · rintro ⟨⟩
      · exact fun hc => absurd hc begun
    · dsimp only
      split <;> rintro ⟨⟩
    · split
      · rintro ⟨⟩
      · exact fun hc => absurd hc begun
    · repeat' split
      · exact fun _ => List.mem_append_right _ (.head _)
      · rintro ⟨⟩
      · exact fun hc => absurd hc begun
    · next hn => exact absurd hn hp

theorem comment_mem_run {cs : List Char} (h : st.pending = .comment → .comment ∈ st.tokens) :
    (run d st cs).pending = .comment → .comment ∈ (run d st cs).tokens := by
  induction cs generalizing st with
  | nil => exact h
  | cons c cs ih => exact ih (comment_mem_step h)

/-- Behind a dash there is a sign, or the dash is in a token that has begun. -/
theorem dash_cases (hc : st.pending ≠ .comment) :
    (step d st '-').Dashed ∨ (step d st '-').pending = .symbol '-' := by
  have hq : '-' ≠ d.identifierQuote := ne_identifierQuote (by decide) (by decide)
  have hb : (begin d st.settle '-').pending = .symbol '-' := by rw [begin_dash st.settle_gap]
  unfold step
  split
  · next hn => exact .inr (by rw [begin_dash hn])
  · exact .inr hb
  · exact .inr hb
  · exact .inr hb
  · exact .inl (.inr (by simp [hq]))
  · rw [if_neg hq]
    exact .inr hb
  · exact .inl (.inr (by simp))
  · exact .inr hb
  · next a hn =>
    split
    · exact .inl (.inl ⟨.comment, by simp [State.emit], trivial⟩)
    · have hp : pairs.contains (a, '-') = false := by simp [pairs]
      rw [hp]
      exact .inr hb
  · next hn => exact absurd hn hc

/-- A text with two dashes in a row has a comment, or a token with a dash in it. -/
theorem exists_dashed {cs : List Char} (h : ['-', '-'] <:+: cs) (vs : List Value) :
    ∃ t ∈ (run d (.start vs) cs).settle.tokens, t.Dashed := by
  obtain ⟨before, behind, rfl⟩ := h
  rw [run_append, run_append]
  have noted : (run d (.start vs) before).pending = .comment → .comment ∈ (run d (.start vs) before).tokens :=
    comment_mem_run (by rintro ⟨⟩)
  generalize run d (.start vs) before = st at noted
  have two : (run d st ['-', '-']).Dashed := by
    show (step d (step d st '-') '-').Dashed
    by_cases hc : st.pending = .comment
    · exact .inl ⟨.comment, mem_step (mem_step (noted hc) _) _, trivial⟩
    · rcases dash_cases (d := d) hc with hd | hs
      · exact hd.step '-'
      · generalize step d st '-' = σ at hs
        refine .inl ⟨.comment, ?_, trivial⟩
        simp [step, hs, State.emit]
  exact (two.run behind).settle

end Lexer

/-- A rendered text whose tokens are no comments and have no dashes in them has no two dashes in a row. -/
theorem Rendered.not_two_dashes {r : Rendered} {d : Dialect} {ts : List Token} (h : r.tokens? d = some ts)
    (hd : ∀ t ∈ ts, ¬ t.Dashed) : ¬ ['-', '-'] <:+: r.sql.toList := by
  intro two
  obtain ⟨t, ht, hdash⟩ := Lexer.exists_dashed two r.binds
  unfold tokens? Lexer.read at h
  dsimp only at h
  split at h
  · cases h
    exact hd t ht hdash
  · cases h

end SqlDialects
