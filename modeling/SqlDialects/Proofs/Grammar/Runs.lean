import SqlDialects.Proofs.Grammar.Truth

/-!
# Runs of a connective

A run that is the last member of a run of the same connective is written without parentheses, and is read as part
of it: connectives associate to the left. The tree that is read has the same truth, since the connectives are
associative (`Expression.graft`).
-/

set_option autoImplicit false

namespace SqlDialects

def Connective.binary : Connective → Binary
  | and => .and
  | or => .or

theorem Connective.level_le (g : Grammar) (op : Connective) : g.level op.binary ≤ 3 := by
  cases op <;> simp [binary, Grammar.level]

namespace Expression

/-- An expression joined with another one from the left. What it is a run of already becomes one run with it, as
it is read. -/
def graft (op : Binary) (l : Expression) : Expression → Expression
  | binary op' x y => if op' = op then binary op (graft op l x) y else binary op l (binary op' x y)
  | r => binary op l r

theorem exists_graft_eq (op : Binary) (l r : Expression) : ∃ x y, graft op l r = binary op x y := by
  cases r with
  | binary op' x y =>
    rw [graft]
    split
    · exact ⟨_, _, rfl⟩
    · exact ⟨_, _, rfl⟩
  | _ => exact ⟨_, _, rfl⟩

theorem tokens_graft (op : Binary) (l r : Expression) : (graft op l r).tokens = l.tokens ++ op.tokens ++ r.tokens := by
  fun_induction graft op l r with
  | case1 x y ih => simp [tokens, ih]
  | case2 op' x y h => rfl
  | case3 r h => rfl

theorem level_graft (g : Grammar) (op : Binary) (l r : Expression) : (graft op l r).level g = g.level op := by
  obtain ⟨x, y, h⟩ := exists_graft_eq op l r
  rw [h]
  rfl

/-- What holds together as tightly as a connective and is no run of it holds together more tightly. -/
theorem level_lt {g : Grammar} {op : Connective} {r : Expression} (h : g.level op.binary ≤ r.level g)
    (hr : ∀ x y, r ≠ binary op.binary x y) : g.level op.binary < r.level g := by
  have low := Connective.level_le g op
  cases r with
  | binary op' x y =>
    have other : op' ≠ op.binary := by
      rintro rfl
      exact hr x y rfl
    refine Nat.lt_of_le_of_ne h fun same => other ?_
    cases op <;> cases op' <;> simp_all [Connective.binary, Grammar.level, level] <;> omega
  | unary op' x => cases op' <;> simp [level, Unary.level] <;> omega
  | _ => simp only [level]; omega

theorem wellFormed_graft {g : Grammar} {op : Connective} {l r : Expression} (hc : g.conditions = true)
    (hl : l.WellFormed g) (hr : r.WellFormed g) (left : g.level op.binary ≤ l.level g)
    (right : g.level op.binary ≤ r.level g) : (graft op.binary l r).WellFormed g := by
  have joined : ∀ {r : Expression}, r.WellFormed g → g.level op.binary < r.level g →
      (binary op.binary l r).WellFormed g := by
    intro r hr h
    refine .binary ?_ (fun _ => hc) hl hr left h
    cases op <;> rintro ⟨⟩
  fun_induction graft op.binary l r with
  | case1 x y ih =>
    cases hr with
    | binary ho hc hx hy hleft hright =>
      refine .binary ho hc (ih hx hleft) hy ?_ hright
      rw [level_graft]
  | case2 op' x y h =>
    refine joined hr (level_lt right ?_)
    rintro x' y' ⟨⟩
    exact h rfl
  | case3 r h => exact joined hr (level_lt right fun x y hx => h _ x y hx)

theorem truth_graft {d : Dialect} {V : Type} (I : Interpretation d V) (op : Connective) (l r : Expression) :
    (graft op.binary l r).truth I = op.join (l.truth I) (r.truth I) := by
  have joined : ∀ l r : Expression, (binary op.binary l r).truth I = op.join (l.truth I) (r.truth I) := by
    intro l r
    cases op <;> simp [Connective.binary, truth, Connective.join]
  fun_induction graft op.binary l r with
  | case1 x y ih =>
    rw [joined, ih, joined]
    cases op
    · exact Truth.and_assoc _ _ _
    · exact Truth.or_assoc _ _ _
  | case2 op' x y h => exact joined _ _
  | case3 r h => exact joined _ _

end Expression

end SqlDialects
