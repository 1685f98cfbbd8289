import SqlDialects.Proofs.Query.Absence

/-!
# What building makes of tests

The functions that build conditions leave a shape behind: every run has two members at least, and no member of a run
is absent (`Condition.Assembled.proper`). What a condition is made of in the end are its tests, and what is asked of
them is a parameter of the shape.
-/

set_option autoImplicit false

namespace SqlDialects

namespace Condition

mutual

/-- The tests that a condition is made of. -/
def tests : Condition → List Condition
  | none => []
  | combined _ cs => testsAll cs
  | xor l r => l.tests ++ r.tests
  | not c => c.tests
  | c => [c]

def testsAll : List Condition → List Condition
  | [] => []
  | c :: cs => c.tests ++ testsAll cs

end

/-- The conditions over tests of a kind in which every run has two members at least, none of them absent. -/
inductive Proper (P : Condition → Prop) : Condition → Prop where
  | none : Proper P none
  | test {c : Condition} (h : c.isTest = true) (hc : P c) : Proper P c
  | combined {op : Connective} {cs : List Condition} (two : 2 ≤ cs.length) (there : ∀ c ∈ cs, c ≠ Condition.none)
      (h : ∀ c ∈ cs, Proper P c) : Proper P (combined op cs)
  | xor {l r : Condition} (hl : Proper P l) (hr : Proper P r) : Proper P (xor l r)
  | not {c : Condition} (h : Proper P c) : Proper P (not c)

variable {P Q : Condition → Prop}

theorem Proper.of_combined {op : Connective} {cs : List Condition} (h : (Condition.combined op cs).Proper P) :
    2 ≤ cs.length ∧ (∀ c ∈ cs, c ≠ Condition.none) ∧ ∀ c ∈ cs, c.Proper P := by
  cases h with
  | test h => cases h
  | combined two there members => exact ⟨two, there, members⟩

theorem Proper.of_xor {l r : Condition} (h : (Condition.xor l r).Proper P) : l.Proper P ∧ r.Proper P := by
  cases h with
  | test h => cases h
  | xor hl hr => exact ⟨hl, hr⟩

theorem Proper.of_not {c : Condition} (h : (Condition.not c).Proper P) : c.Proper P := by
  cases h with
  | test h => cases h
  | not h => exact h

theorem join_none (op : Connective) (c : Condition) : join op c none = c := by
  cases c <;> rfl

theorem Proper.join {l r : Condition} (op : Connective) (hl : l.Proper P) (hr : r.Proper P) :
    (l.join op r).Proper P := by
  by_cases there : l = Condition.none
  · subst there
    exact hr
  by_cases there' : r = Condition.none
  · subst there'
    rw [join_none]
    exact hl
  refine join_cases op hl hr (.combined (Nat.le_refl 2) (by simp [there, there']) (by simp [hl, hr]))
    fun cs longer => ?_
  subst longer
  obtain ⟨two, members, h⟩ := hl.of_combined
  refine .combined (by simp; omega) ?_ ?_ <;> rw [List.forall_mem_append]
  · exact ⟨members, by simp [there']⟩
  · exact ⟨h, by simp [hr]⟩

/-- What is built has no run of fewer than two conditions, and none with an absent one. -/
theorem Assembled.proper {c : Condition} (h : c.Assembled) : c.Proper fun _ => True := by
  induction h with
  | none => exact .none
  | test h => exact .test h trivial
  | and _ _ ihl ihr => exact ihl.join .and ihr
  | or _ _ ihl ihr => exact ihl.join .or ihr
  | all _ ih => exact foldl_join_closed (fun _ _ => .join .and) ih .none
  | any _ ih => exact foldl_join_closed (fun _ _ => .join .or) ih .none
  | xor _ _ ihl ihr => exact .xor ihl ihr
  | @negate c _ ih =>
    unfold Condition.negate
    split
    · exact .none
    · exact .not ih

theorem mem_testsAll {t c : Condition} {cs : List Condition} (hc : c ∈ cs) (ht : t ∈ c.tests) : t ∈ testsAll cs := by
  induction cs with
  | nil => cases hc
  | cons c' cs ih =>
    rw [testsAll, List.mem_append]
    rcases List.mem_cons.1 hc with rfl | hc
    · exact .inl ht
    · exact .inr (ih hc)

/-- A proper condition is one over tests of any kind that all its tests are of. -/
theorem Proper.of_tests {c : Condition} (h : c.Proper P) (ht : ∀ t ∈ c.tests, Q t) : c.Proper Q := by
  induction h with
  | none => exact .none
  | @test c h _ =>
    have self : c.tests = [c] := by cases c <;> first | rfl | cases h
    exact .test h (ht c (by simp [self]))
  | combined two there _ ih =>
    exact .combined two there fun c hc => ih c hc fun t h => ht t (mem_testsAll hc h)
  | xor _ _ ihl ihr =>
    exact .xor (ihl fun t h => ht t (List.mem_append_left _ h)) (ihr fun t h => ht t (List.mem_append_right _ h))
  | not _ ih => exact .not (ih ht)

end Condition

end SqlDialects
