import SqlDialects.Proofs.Render.Function
import SqlDialects.Proofs.Render.Splice

/-!
# Fields and conditions under a simulation

The writers of fields and conditions, visited node by visited node. Of the templates it is the segment by
segment form that is compared (`Visitor.template_eq_splices`): which substitutes have been rendered before
plays no part in it.
-/

set_option autoImplicit false

namespace SqlDialects

/-- A select with its columns renamed is the one that `Select.rename?` plans, under some alias. -/
theorem Visitor.renamed_returns {s q : Select} {names : List String} {construct : String}
    {c c' : Context} (h : Visitor.renamed s names construct c = .ok q c') :
    ∃ plan asName, s.rename? names = some plan ∧ q = plan.toSelect asName := by
  unfold Visitor.renamed at h
  cases hp : s.rename? names with
  | none =>
    rw [hp] at h
    exact absurd h (by intro hf; cases hf)
  | some plan =>
    rw [hp] at h
    by_cases ha : plan.needsAlias
    · simp only [ha, if_true] at h
      injection h with hq _
      exact ⟨plan, _, rfl, hq.symm⟩
    · simp only [ha] at h
      injection h with hq _
      exact ⟨plan, _, rfl, hq.symm⟩

namespace Simulation.Step

variable {ι : Type} {declaring : ι → Prop} {S : Simulation ι declaring} {i : ι} {visit visit' : Visitor}

/-! ## Fields -/

theorem operand (parent : ArithmeticOp) (onRight : Bool) {x : Field}
    (h : S.Same visit visit' (.field x)) :
    S.Step i (visit.operand parent onRight x) (visit'.operand parent onRight x) := by
  unfold Visitor.operand
  split
  · exact .parenthesized (h i)
  · exact h i

theorem arithmetic (op : ArithmeticOp) {left right : Field} (hl : S.Same visit visit' (.field left))
    (hr : S.Same visit visit' (.field right)) :
    S.Step i (visit.arithmetic op left right) (visit'.arithmetic op left right) := by
  refine .bind .dialect fun d => ?_
  cases op.operation d with
  | operator symbol =>
    exact .bind (.operand op false hl) fun _ => .bind (.sql _) fun _ => .bind (.sql _) fun _ =>
      .bind (.sql _) fun _ => .operand op true hr
  | function function =>
    refine .call function fun f hf => ?_
    rcases (by simpa using hf : f = left ∨ f = right) with rfl | rfl
    · exact hl
    · exact hr
  | unsupported => exact .unsupported _

theorem column (c : ColumnRef) : S.Step i (Visitor.column c) (Visitor.column c) :=
  .bind (.onSome fun _ _ => .bind (.name _) fun _ => .sql _) fun _ => .name _

theorem cast {x : Field} (type : SqlType) (h : S.Same visit visit' (.field x)) :
    S.Step i (visit.cast x type) (visit'.cast x type) :=
  .bind .dialect fun _ => .bind (.sql _) fun _ => .bind (h i) fun _ => .bind (.sql _) fun _ =>
    .bind (.sql _) fun _ => .sql _

theorem conditionField {c : Condition} (h : S.Same visit visit' (.condition c))
    (he : ∀ m ∈ Node.fieldChildren c.asCase, S.Same visit visit' m) :
    S.Step i (visit.conditionField c) (visit'.conditionField c) := by
  refine .bind .dialect fun d => ?_
  cases Capability.conditionAsField d with
  | native => exact h i
  | caseExpansion => exact .expansion he

theorem aliased {x : Field} (asName : String) (h : S.Same visit visit' (.field x)) :
    S.Step i (visit.aliased x asName) (visit'.aliased x asName) :=
  .bind .flags fun _ => .bind (.when fun _ => .bind (.withFlags _ nofun fun j _ => h j) fun _ => .sql _)
    fun _ => .name _

theorem splice {m m' : Render Unit} (hm : ∀ j, S.Step j m m') :
    S.Step i (Render.splice m) (Render.splice m') := by
  intro c c' hc
  obtain ⟨j, hj, back⟩ := S.detach hc
  rw [Render.splice_apply, Render.splice_apply]
  rcases (hm j hj).cases with ⟨a, k, k', hr, hr', hk⟩ | ⟨e, k, k', hr, hr', hk⟩
  · rw [hr, hr']
    exact ⟨rfl, back k k' hk⟩
  · rw [hr, hr']
    exact ⟨rfl, S.fail hc⟩

theorem template {t : Template} (h : ∀ f ∈ t.substitutes, S.Same visit visit' (.field f)) :
    S.Step i (visit.template t) (visit'.template t) := by
  rw [Visitor.template_eq_splices, Visitor.template_eq_splices]
  split
  · exact .sql _
  · refine .forM fun s _ => ?_
    cases s with
    | text text => exact .sql _
    | substitute index =>
      cases hx : t.substitutes[index]? with
      | none =>
        rw [visit.spliced_missing hx, visit'.spliced_missing hx]
        exact .throw _
      | some x =>
        rw [visit.spliced_some hx, visit'.spliced_some hx]
        exact .splice fun j => h x (List.mem_of_getElem? hx) j

/-! ## Conditions -/

theorem comparand {x : Field} (h : S.Same visit visit' (.field x)) :
    S.Step i (visit.comparand x) (visit'.comparand x) := by
  unfold Visitor.comparand
  split
  · exact .parenthesized (h i)
  · exact h i

theorem compare (op : ComparisonOp) {left right : Field} (hl : S.Same visit visit' (.field left))
    (hr : S.Same visit visit' (.field right)) :
    S.Step i (visit.compare op left right) (visit'.compare op left right) :=
  .bind (.comparand hl) fun _ => .bind (.sql _) fun _ => .bind (.sql _) fun _ =>
    .bind (.sql _) fun _ => .comparand hr

theorem inList {x : Field} {candidates : List Field} (negated : Bool)
    (hx : S.Same visit visit' (.field x)) (h : ∀ f ∈ candidates, S.Same visit visit' (.field f)) :
    S.Step i (visit.inList x candidates negated) (visit'.inList x candidates negated) := by
  unfold Visitor.inList
  split
  · exact .sql _
  · exact .bind (.comparand hx) fun _ => .bind (.sql _) fun _ => .bind (.fields h) fun _ => .sql _

theorem conjunct (op : Connective) {c : Condition} (h : S.Same visit visit' (.condition c)) :
    S.Step i (visit.conjunct op c) (visit'.conjunct op c) := by
  unfold Visitor.conjunct
  split
  · split
    · exact h i
    · exact .parenthesized (h i)
  · exact h i

theorem combined (op : Connective) {cs : List Condition}
    (h : ∀ c ∈ cs, S.Same visit visit' (.condition c)) :
    S.Step i (visit.combined op cs) (visit'.combined op cs) := by
  match cs with
  | [] => exact .sql _
  | [c] => exact h c (by simp) i
  | first :: second :: rest => exact .separated _ fun c hc => .conjunct op (h c hc)

theorem xor {left right : Condition} (hl : S.Same visit visit' (.condition left))
    (hr : S.Same visit visit' (.condition right)) :
    S.Step i (visit.xor left right) (visit'.xor left right) :=
  .bind .dialect fun _ => .bind (.parenthesized (hl i)) fun _ => .bind (.sql _) fun _ =>
    .parenthesized (hr i)

theorem xmlExists (xpath : String) {document : Field} (passing : Option XmlPassing)
    (h : S.Same visit visit' (.field document)) :
    S.Step i (visit.xmlExists xpath document passing) (visit'.xmlExists xpath document passing) :=
  .bind .dialect fun _ => .bind (.demand _ _) fun _ => .bind (.sql _) fun _ => .bind (.literal _) fun _ =>
    .bind (.sql _) fun _ => .bind (.onSome fun _ _ => .sql _) fun _ => .bind (h i) fun _ => .sql _

theorem truthTest {x : Field} (h : S.Same visit visit' (.field x)) :
    S.Step i (visit.truthTest x) (visit'.truthTest x) :=
  .bind (.comparand h) fun _ => .bind .dialect fun _ => .when fun _ => .sql _

theorem renamed (s : Select) (names : List String) (construct : String) :
    S.Step i (Visitor.renamed s names construct) (Visitor.renamed s names construct) := by
  unfold Visitor.renamed
  cases s.rename? names with
  | none => exact .unsupported construct
  | some plan =>
    dsimp only
    split
    · exact .bind (.freshAlias _) fun _ => .pure _
    · exact .bind (.pure _) fun _ => .pure _

theorem countTest {s : Select} (negated : Bool)
    (h₁ : S.Same visit visit' (.field (.literal (.int 1))))
    (h : ∀ plan a b, s.rename? (Select.testColumns s.flattened.length) = some plan →
      S.Same visit visit' (.field (.subquery (Select.countPassing (plan.toSelect a)
        (Select.testColumns s.flattened.length) b negated)))) :
    S.Step i (visit.countTest s negated) (visit'.countTest s negated) := by
  -- Only renamed selects come back, and those are the ones that the visitors are known to agree on.
  refine .bindReturned (.renamed _ _ _) fun inner hi => .bind (.freshAlias _) fun asName => ?_
  obtain ⟨c, k, hr⟩ := hi
  obtain ⟨plan, a, hp, rfl⟩ := Visitor.renamed_returns hr
  exact .compare _ h₁ (h plan a asName hp)

theorem selectIsNull {s : Select} (negated : Bool) (hs : S.Same visit visit' (.select s))
    (h₁ : S.Same visit visit' (.field (.literal (.int 1))))
    (h : ∀ plan a b, s.rename? (Select.testColumns s.flattened.length) = some plan →
      S.Same visit visit' (.field (.subquery (Select.countPassing (plan.toSelect a)
        (Select.testColumns s.flattened.length) b negated)))) :
    S.Step i (visit.selectIsNull s negated) (visit'.selectIsNull s negated) := by
  refine .bind .dialect fun d => ?_
  cases Capability.selectIsNull d s.flattened.length with
  | standard => exact .bind (.subquery hs) fun _ => .sql _
  | countTest => exact .countTest negated h₁ h

end Simulation.Step

end SqlDialects
