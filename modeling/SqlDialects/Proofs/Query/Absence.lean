import SqlDialects.Proofs.Query.Evaluation
import SqlDialects.Query.Transform

/-!
# Absent conditions in transformed trees

Where conditions are built the absent one leaves no trace: it is neutral under both connectives and under negation.
A transformation keeps the shape of the tree instead. Where its step leaves nothing of an operand, the absent condition
stands in its place, and is true there. That is neutral under `AND`, but it makes a run of `OR` true and a negation
false. A transformed tree means what is left of it when it is put together again, if no operand that vanishes is in a
run of `OR` with one that does not, and none is under a negation (`Condition.transform_neutral`).
-/

set_option autoImplicit false

namespace SqlDialects

namespace Condition

/-- Whether a condition is a test of its own, and neither absent nor made of conditions. -/
def isTest : Condition → Bool
  | none | combined _ _ | xor _ _ | not _ => false
  | _ => true

/-- The conditions that the functions which build conditions make of tests. -/
inductive Assembled : Condition → Prop where
  | none : Assembled none
  | test {c : Condition} (h : c.isTest = true) : Assembled c
  | and {l r : Condition} (hl : Assembled l) (hr : Assembled r) : Assembled (l.and r)
  | or {l r : Condition} (hl : Assembled l) (hr : Assembled r) : Assembled (l.or r)
  | all {cs : List Condition} (h : ∀ c ∈ cs, Assembled c) : Assembled (all cs)
  | any {cs : List Condition} (h : ∀ c ∈ cs, Assembled c) : Assembled (any cs)
  | xor {l r : Condition} (hl : Assembled l) (hr : Assembled r) : Assembled (xor l r)
  | negate {c : Condition} (h : Assembled c) : Assembled c.negate

/-- The conditions in which every run has a member. -/
inductive Populated : Condition → Prop where
  | none : Populated none
  | test {c : Condition} (h : c.isTest = true) : Populated c
  | combined {op : Connective} {cs : List Condition} (nonempty : cs ≠ []) (h : ∀ c ∈ cs, Populated c) :
      Populated (combined op cs)
  | xor {l r : Condition} (hl : Populated l) (hr : Populated r) : Populated (xor l r)
  | not {c : Condition} (h : Populated c) : Populated (not c)

mutual

/-- A condition put together again by the functions that build conditions. -/
def rejoin : Condition → Condition
  | combined .and cs => all (rejoinAll cs)
  | combined .or cs => any (rejoinAll cs)
  | xor l r => xor l.rejoin r.rejoin
  | not c => c.rejoin.negate
  | c => c

def rejoinAll : List Condition → List Condition
  | [] => []
  | c :: cs => c.rejoin :: rejoinAll cs

end

/-- The conditions in which operands that vanish when the condition is put together again do no harm: they are in
runs of `AND`, or all that is in a run vanishes. -/
inductive Neutral : Condition → Prop where
  | none : Neutral none
  | test {c : Condition} (h : c.isTest = true) : Neutral c
  | conjunction {cs : List Condition} (h : ∀ c ∈ cs, Neutral c) : Neutral (combined .and cs)
  | disjunction {cs : List Condition} (h : ∀ c ∈ cs, Neutral c)
      (alike : (∀ c ∈ cs, c.rejoin ≠ Condition.none) ∨ ∀ c ∈ cs, c.rejoin = Condition.none) : Neutral (combined .or cs)
  | xor {l r : Condition} (hl : Neutral l) (hr : Neutral r) : Neutral (xor l r)
  | not {c : Condition} (h : Neutral c) (there : c.rejoin ≠ Condition.none) : Neutral (not c)

/-- A reading of conditions under which connectives, exclusive or and negation mean what they do in the logic of three
values. What the tests mean is left open. -/
structure Compositional (value : Condition → Truth) : Prop extends JoinsTruths value where
  xor_eq : ∀ l r, value (xor l r) = (value l).xor (value r)
  not_eq : ∀ c, value (not c) = (value c).not

/-! ## Conditions that are built -/

theorem Populated.of_combined {op : Connective} {cs : List Condition} (h : (Condition.combined op cs).Populated) :
    cs ≠ [] ∧ ∀ c ∈ cs, c.Populated := by
  cases h with
  | test h => cases h
  | combined nonempty members => exact ⟨nonempty, members⟩

theorem Populated.of_xor {l r : Condition} (h : (Condition.xor l r).Populated) : l.Populated ∧ r.Populated := by
  cases h with
  | test h => cases h
  | xor hl hr => exact ⟨hl, hr⟩

theorem Populated.of_not {c : Condition} (h : (Condition.not c).Populated) : c.Populated := by
  cases h with
  | test h => cases h
  | not h => exact h

theorem Populated.join {l r : Condition} (op : Connective) (hl : l.Populated) (hr : r.Populated) :
    (l.join op r).Populated := by
  refine join_cases op hl hr (.combined (List.cons_ne_nil _ _) (by simp [hl, hr])) fun cs longer => ?_
  subst longer
  refine .combined (by simp) fun c hc => ?_
  rcases List.mem_append.1 hc with hc | hc
  · exact hl.of_combined.2 c hc
  · exact List.mem_singleton.1 hc ▸ hr

theorem Assembled.populated {c : Condition} (h : c.Assembled) : c.Populated := by
  induction h with
  | none => exact .none
  | test h => exact .test h
  | and _ _ ihl ihr => exact ihl.join .and ihr
  | or _ _ ihl ihr => exact ihl.join .or ihr
  | all _ ih => exact foldl_join_closed (fun _ _ => .join .and) ih .none
  | any _ ih => exact foldl_join_closed (fun _ _ => .join .or) ih .none
  | xor _ _ ihl ihr => exact .xor ihl ihr
  | @negate c _ ih =>
    unfold Condition.negate
    split
    · exact .none
    · exact .not ih

/-! ## Transformations that leave something out -/

section Transform

variable {σ : Type} {step : Condition → StateM σ Condition}

/-- The condition that a transformation comes to. -/
def transformed (step : Condition → StateM σ Condition) (st : σ) (c : Condition) : Condition :=
  ((c.transform step).run st).1

/-- The members of a run are transformed one after the other, and each leaves a condition in its place. -/
theorem transformAll_forall {P : Condition → Prop} {cs : List Condition} (h : ∀ c ∈ cs, ∀ st, P (c.transformed step st))
    (st : σ) :
    ((transformAll step cs).run st).1.length = cs.length ∧ ∀ c ∈ ((transformAll step cs).run st).1, P c := by
  induction cs generalizing st with
  | nil => exact ⟨rfl, fun _ hc => by cases hc⟩
  | cons c cs ih =>
    obtain ⟨same, rest⟩ := ih (fun k hk => h k (.tail c hk)) ((c.transform step).run st).2
    exact ⟨congrArg (· + 1) same, List.forall_mem_cons.2 ⟨h c (.head cs) st, rest⟩⟩

/-- A step that leaves out some conditions and no others keeps runs from getting empty. -/
theorem Populated.transformed (drops : ∀ c st, ((step c).run st).1 = c ∨ ((step c).run st).1 = Condition.none)
    {c : Condition} (h : c.Populated) (st : σ) : (c.transformed step st).Populated := by
  have kept : ∀ {c : Condition} (st : σ), c.Populated → ((step c).run st).1.Populated := by
    intro c st hc
    rcases drops c st with same | gone
    · rw [same]
      exact hc
    · rw [gone]
      exact .none
  induction h generalizing st with
  | none => exact kept st .none
  | @test c h =>
    have leaf : c.transformed step st = ((step c).run st).1 := by
      cases c <;> first | rfl | cases h
    rw [leaf]
    exact kept st (.test h)
  | @combined op cs nonempty _ ih =>
    obtain ⟨same, members⟩ := transformAll_forall ih st
    have nonempty : 0 < ((transformAll step cs).run st).1.length := by
      rw [same]
      exact List.length_pos_iff.2 nonempty
    exact kept _ (.combined (List.ne_nil_of_length_pos nonempty) members)
  | xor _ _ ihl ihr => exact kept _ (.xor (ihl _) (ihr _))
  | not _ ih => exact kept _ (.not (ih _))

end Transform

/-! ## What is left when absent conditions are left out -/

section Neutral

variable {value : Condition → Truth} {c : Condition} {cs : List Condition}

theorem rejoinAll_eq_map (cs : List Condition) : rejoinAll cs = cs.map rejoin := by
  induction cs with
  | nil => rfl
  | cons c cs ih => rw [rejoinAll, ih, List.map_cons]

theorem rejoin_test (h : c.isTest = true) : c.rejoin = c := by
  cases c <;> first | rfl | cases h

theorem join_ne_none {op : Connective} {l r : Condition} (hl : l ≠ none) (hr : r ≠ none) : join op l r ≠ none :=
  join_cases (P := fun c => c ≠ none) op hl hr Condition.noConfusion fun _ _ => Condition.noConfusion

theorem negate_eq_not (h : c ≠ none) : c.negate = not c := by
  cases c <;> first | rfl | exact absurd rfl h

theorem any_eq_none (h : ∀ c ∈ cs, c = none) : any cs = none := by
  refine foldl_join_closed (P := fun c => c = none) ?_ h rfl
  rintro l r rfl rfl
  rfl

/-- Conditions that are there mean under a connective what they do when they are joined one by one. -/
theorem JoinsTruths.foldl_join (h : JoinsTruths value) {op : Connective} (there : ∀ c ∈ cs, c ≠ Condition.none)
    (hc : c ≠ Condition.none) :
    value (cs.foldl (Condition.join op) c) = op.join (value c) (value (combined op cs)) := by
  induction cs generalizing c with
  | nil =>
    rw [h.combined_eq]
    exact (op.join_unit _).symm
  | cons c' cs ih =>
    have hc' : c' ≠ Condition.none := there c' (.head cs)
    rw [List.foldl_cons, ih (fun k hk => there k (.tail c' hk)) (join_ne_none hc hc'), h.join hc hc', op.join_assoc,
      h.combined_eq, h.combined_eq]
    rfl

/-- Any of some conditions that are there means what a run of them does. -/
theorem JoinsTruths.any (h : JoinsTruths value) (nonempty : cs ≠ []) (there : ∀ c ∈ cs, c ≠ Condition.none) :
    value (any cs) = value (combined .or cs) := by
  obtain ⟨c, cs, rfl⟩ := List.exists_cons_of_ne_nil nonempty
  have rest : value (Condition.any (c :: cs)) = (value c).or (value (combined .or cs)) :=
    h.foldl_join (fun k hk => there k (.tail c hk)) (there c (.head cs))
  rw [rest, h.combined_eq, h.combined_eq]
  rfl

/-- In a run of `OR` one true condition is all that counts. -/
theorem JoinsTruths.or_of_mem (h : JoinsTruths value) (hc : c ∈ cs) (holds : value c = .true) :
    value (combined .or cs) = .true := by
  rw [h.combined_eq]
  induction cs with
  | nil => cases hc
  | cons c' cs ih =>
    rw [List.map_cons, List.foldr_cons]
    rcases List.mem_cons.1 hc with rfl | hc
    · rw [holds]
      rfl
    · rw [ih hc]
      cases value c' <;> rfl

/-- A run means what the run of what is left of its members does, if each of them does. -/
theorem JoinsTruths.combined_rejoin (h : JoinsTruths value) (op : Connective)
    (same : ∀ c ∈ cs, value c = value c.rejoin) : value (combined op cs) = value (combined op (rejoinAll cs)) := by
  rw [h.combined_eq, h.combined_eq, rejoinAll_eq_map, List.map_map]
  exact congrArg _ (List.map_congr_left same)

/-- Where operands vanish without harm, a condition means what is left of it. -/
theorem Neutral.value_eq (h : c.Neutral) (populated : c.Populated) (hv : Compositional value) :
    value c = value c.rejoin := by
  induction h with
  | none => rfl
  | test h => rw [rejoin_test h]
  | conjunction _ ih =>
    obtain ⟨-, members⟩ := populated.of_combined
    rw [hv.combined_rejoin .and fun c hc => ih c hc (members c hc), rejoin, hv.all]
  | @disjunction cs _ alike ih =>
    obtain ⟨nonempty, members⟩ := populated.of_combined
    have same : ∀ c ∈ cs, value c = value c.rejoin := fun c hc => ih c hc (members c hc)
    rw [rejoin]
    rcases alike with there | gone
    · rw [hv.combined_rejoin .or same, hv.any] <;> rw [rejoinAll_eq_map]
      · simpa using nonempty
      · simpa using there
    · -- A run of absent conditions is absent, and each of its members is true.
      obtain ⟨c, hc⟩ := List.exists_mem_of_ne_nil cs nonempty
      have holds : value c = .true := by rw [same c hc, gone c hc, hv.none_eq]
      rw [any_eq_none (by simpa [rejoinAll_eq_map] using gone), hv.none_eq, hv.or_of_mem hc holds]
  | xor _ _ ihl ihr =>
    obtain ⟨hl, hr⟩ := populated.of_xor
    rw [rejoin, hv.xor_eq, hv.xor_eq, ihl hl, ihr hr]
  | not _ there ih => rw [rejoin, negate_eq_not there, hv.not_eq, hv.not_eq, ih populated.of_not]

/-- An operand that vanishes is true where it stands. -/
theorem Neutral.value_of_vanishes (h : c.Neutral) (populated : c.Populated) (hv : Compositional value)
    (gone : c.rejoin = Condition.none) : value c = .true := by
  rw [h.value_eq populated hv, gone, hv.none_eq]

end Neutral

/-- A transformation that leaves out some conditions of a tree that was built, and keeps the others, comes to a tree that
means what is left of it when it is put together again, if what was left out does no harm. It does harm first where one
of a run of `OR` vanishes, and the run is true whatever the others are, or under a negation, which is false. -/
theorem transform_neutral {σ : Type} {step : Condition → StateM σ Condition}
    (drops : ∀ c st, ((step c).run st).1 = c ∨ ((step c).run st).1 = none) {c : Condition} (assembled : c.Assembled)
    (st : σ) {value : Condition → Truth} (hv : Compositional value) :
    let t := c.transformed step st
    (t.Neutral → value t = value t.rejoin) ∧
    (∀ cs, t = combined .or cs → (∀ k ∈ cs, k.Neutral) → (∃ k ∈ cs, k.rejoin = none) → value t = .true) ∧
    ∀ k, t = not k → k.Neutral → k.rejoin = none → value t = .false := by
  intro t
  have populated : t.Populated := assembled.populated.transformed drops st
  refine ⟨fun neutral => neutral.value_eq populated hv, ?_, ?_⟩
  · rintro cs ht neutral ⟨k, hk, gone⟩
    rw [ht] at populated ⊢
    exact hv.or_of_mem hk ((neutral k hk).value_of_vanishes (populated.of_combined.2 k hk) hv gone)
  · intro k ht neutral gone
    rw [ht] at populated ⊢
    rw [hv.not_eq, neutral.value_of_vanishes populated.of_not hv gone]
    rfl

/-- The truth of conditions over columns and values reads them so. -/
theorem compositional_truth {d : Dialect} {V : Type} (I : Interpretation d V) (s : Settings) :
    Compositional fun c => c.truth I s where
  none_eq := by rw [truth]
  combined_eq op cs := by
    rw [truth]
    induction cs with
    | nil => rw [truths, List.map_nil, List.foldr_nil]
    | cons c cs ih => rw [truths, ih, List.map_cons, List.foldr_cons]
  xor_eq l r := by rw [truth]
  not_eq c := by rw [truth]

end Condition

/-! ## Null tests that are left out -/

namespace NoNullTests

open Condition

/-- Leaves out null tests, and counts them. -/
def step (c : Condition) : StateM Nat Condition :=
  match c with
  | .isNull _ _ => do
    modify (· + 1)
    return .none
  | c => return c

theorem drops (c : Condition) (n : Nat) : ((step c).run n).1 = c ∨ ((step c).run n).1 = .none := by
  cases c <;> first | exact .inl rfl | exact .inr rfl

/-- `a = 1` -/
def equal : Condition := .compare .eq (.col "a") (.literal (.int 1))

def missing (name : String) : Condition := (Field.col name).nullTest false

/-- Nothing is null, and only what is one and the same is equal. -/
def interpretation : Interpretation .default (List Token) where
  value := Expression.tokens
  compare _ v w := .ofBool (decide (v = w))
  isNull _ := false
  holds _ := .true
  rows _ := true
  one_eq_one := by decide
  one_ne_zero := by decide
  numeric h := by cases h

def reading (c : Condition) : Truth := c.truth interpretation .default

theorem compositional_reading : Compositional reading := compositional_truth interpretation .default

/-- `NOT a = 1 AND (b IS NULL OR c IS NULL)` -/
def conjunction : Condition := equal.negate.and ((missing "b").or (missing "c"))

/-- A run of null tests vanishes from a conjunction. -/
theorem transform_neutral_conjunction :
    conjunction.transformed step 0 = .combined .and [equal.negate, .combined .or [.none, .none]] ∧
    (conjunction.transformed step 0).rejoin = equal.negate ∧
    reading (conjunction.transformed step 0) = reading equal.negate := by
  have assembled : conjunction.Assembled :=
    .and (.negate (.test rfl)) (.or (.test rfl) (.test rfl))
  have left : conjunction.transformed step 0 = .combined .and [equal.negate, .combined .or [.none, .none]] := rfl
  have neutral : (conjunction.transformed step 0).Neutral := by
    rw [left]
    refine .conjunction fun c hc => ?_
    rcases (by simpa using hc : c = equal.negate ∨ c = .combined .or [.none, .none]) with rfl | rfl
    · exact .not (.test rfl) Condition.noConfusion
    · exact .disjunction (by simp [Neutral.none]) (.inr (by simp [rejoin]))
  exact ⟨left, rfl, (transform_neutral drops assembled 0 compositional_reading).1 neutral⟩

/-- `a = 1 OR b IS NULL` -/
def disjunction : Condition := equal.or (missing "b")

/-- `a = 1 AND NOT b IS NULL` -/
def exclusion : Condition := equal.and (missing "b").negate

theorem render_disjunction :
    (Node.condition (disjunction.transformed step 0)).render .default .default = .ok ⟨"a = 1 OR 1 = 1", []⟩ := by
  have left : disjunction.transformed step 0 = .combined .or [equal, .none] := rfl
  have reach : (Node.condition (.combined .or [equal, .none])).reach = 3 := by
    simp [Node.reach_eq, Node.weight, Node.children, Node.conditionChildren, Node.fieldChildren, equal, Field.col,
      Field.literal]
  unfold Node.render Node.write
  rw [left, reach]
  decide +kernel

theorem render_equal : (Node.condition equal).render .default .default = .ok ⟨"a = 1", []⟩ := by
  have reach : (Node.condition equal).reach = 2 := by
    simp [Node.reach_eq, Node.weight, Node.children, Node.conditionChildren, Node.fieldChildren, equal, Field.col,
      Field.literal]
  unfold Node.render Node.write
  rw [reach]
  decide +kernel

/-- What is left of both without the null test is the comparison, which is not true. The disjunction is true under every
reading with an absent condition in its place, and the other one false. -/
theorem transform_not_neutral : disjunction.Assembled ∧ exclusion.Assembled ∧
    (disjunction.transformed step 0).rejoin = equal ∧ (exclusion.transformed step 0).rejoin = equal ∧
    reading equal = .false ∧ reading (disjunction.transformed step 0) = .true ∧
    (Node.condition (disjunction.transformed step 0)).render .default .default = .ok ⟨"a = 1 OR 1 = 1", []⟩ ∧
    (Node.condition equal).render .default .default = .ok ⟨"a = 1", []⟩ ∧
    ∀ value, Compositional value →
      value (disjunction.transformed step 0) = .true ∧ value (exclusion.transformed step 0) = .false := by
  have always : ∀ value, Compositional value → value (disjunction.transformed step 0) = .true := fun value hv =>
    hv.or_of_mem (show Condition.none ∈ [equal, .none] by simp) hv.none_eq
  refine ⟨.or (.test rfl) (.test rfl), .and (.test rfl) (.negate (.test rfl)), rfl, rfl, by decide +kernel,
    always _ compositional_reading, render_disjunction, render_equal, fun value hv => ⟨always value hv, ?_⟩⟩
  have left : exclusion.transformed step 0 = .combined .and [equal, .not .none] := rfl
  rw [left, hv.combined_eq, List.map_cons, List.map_cons, List.map_nil, hv.not_eq, hv.none_eq]
  cases value equal <;> rfl

end NoNullTests

end SqlDialects
