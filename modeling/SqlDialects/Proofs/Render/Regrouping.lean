import SqlDialects.Proofs.Query.Assembly
import SqlDialects.Proofs.Grammar.Conditions

/-!
# Grouping leaves no trace

Joining conditions makes a run longer only at its right end, so one sequence of conditions can be joined to
several trees: `a AND (b AND c)` holds a run as a member, and `(a AND b) AND c` is one run of three. A member that
is a run of the connective around it is written without parentheses, and the trees are written alike.

What is written, and what is collected for the outermost statement, depends on the members of a run alone, runs of the
same connective in it taken apart (`Condition.members`). Joining puts members one behind the other, whatever
the grouping (`Condition.members_join`), and so does adding conditions to a clause of a select.
-/

set_option autoImplicit false

namespace SqlDialects

namespace Condition

/-! ## Members -/

mutual

/-- The members of a condition as a run of a connective. Members that are runs of the connective themselves are
taken apart, and an absent condition has none. -/
def members (op : Connective) : Condition → List Condition
  | none => []
  | combined op' cs => if op' = op then membersAll op cs else [combined op' cs]
  | c => [c]

def membersAll (op : Connective) : List Condition → List Condition
  | [] => []
  | c :: cs => c.members op ++ membersAll op cs

end

theorem membersAll_eq (op : Connective) (cs : List Condition) : membersAll op cs = cs.flatMap (members op) := by
  induction cs with
  | nil => rfl
  | cons c cs ih => rw [membersAll, ih, List.flatMap_cons]

theorem members_same (op : Connective) (cs : List Condition) :
    (combined op cs).members op = cs.flatMap (members op) := by
  rw [members, if_pos rfl, membersAll_eq]

theorem members_other {op op' : Connective} (h : op' ≠ op) (cs : List Condition) :
    (combined op' cs).members op = [combined op' cs] := by
  rw [members, if_neg h]

/-- Whatever two conditions are, joining them puts the members of the one behind those of the other. -/
theorem members_join (op : Connective) (l r : Condition) : (join op l r).members op = l.members op ++ r.members op := by
  unfold join
  split
  · rfl
  · simp [members]
  · split
    · next same =>
      subst same
      simp [members_same]
    · simp [members_same]
  · simp [members_same]

theorem members_foldl_join (op : Connective) (cs : List Condition) (c : Condition) :
    (cs.foldl (join op) c).members op = c.members op ++ cs.flatMap (members op) := by
  induction cs generalizing c with
  | nil => simp
  | cons c' cs ih => rw [List.foldl_cons, ih, members_join, List.flatMap_cons, List.append_assoc]

theorem Proper.members_ne_nil {P : Condition → Prop} {c : Condition} (h : c.Proper P) (hc : c ≠ Condition.none)
    (op : Connective) : c.members op ≠ [] := by
  induction h with
  | none => exact absurd rfl hc
  | @test c h _ => cases c <;> first | exact List.cons_ne_nil _ _ | cases h
  | @combined op' cs two there _ ih =>
    by_cases same : op' = op
    · subst same
      obtain ⟨c, cs, rfl⟩ := List.exists_cons_of_length_pos (Nat.lt_of_lt_of_le Nat.zero_lt_two two)
      rw [members_same, List.flatMap_cons]
      exact List.append_ne_nil_of_left_ne_nil (ih c (.head cs) (there c (.head cs))) _
    · rw [members_other same]
      exact List.cons_ne_nil _ _
  | xor => exact List.cons_ne_nil _ _
  | not => exact List.cons_ne_nil _ _

/-- A proper condition without members is absent. -/
theorem Proper.eq_none_iff {P : Condition → Prop} {c : Condition} (h : c.Proper P) (op : Connective) :
    c = Condition.none ↔ c.members op = [] := by
  refine ⟨?_, fun empty => by_contra fun there => h.members_ne_nil there op empty⟩
  rintro rfl
  rfl

theorem Proper.two_le_length_members {P : Condition → Prop} {op : Connective} {cs : List Condition}
    (h : (Condition.combined op cs).Proper P) : 2 ≤ ((Condition.combined op cs).members op).length := by
  obtain ⟨two, there, h⟩ := h.of_combined
  match cs, two with
  | c :: c' :: cs, _ =>
    have hc := List.length_pos_iff.2 ((h c (by simp)).members_ne_nil (there c (by simp)) op)
    have hc' := List.length_pos_iff.2 ((h c' (by simp)).members_ne_nil (there c' (by simp)) op)
    rw [members_same, List.flatMap_cons, List.flatMap_cons, List.length_append, List.length_append]
    omega

end Condition

/-! ## Writing -/

namespace Render

theorem separated_cons (between : String) (step : Render Unit) {steps : List (Render Unit)} (h : steps ≠ []) :
    separated between (step :: steps) = (do
      step
      sql between
      separated between steps) := by
  cases steps with
  | nil => exact absurd rfl h
  | cons step' steps => rfl

theorem separated_append (between : String) {steps steps' : List (Render Unit)} (h : steps ≠ [])
    (h' : steps' ≠ []) :
    separated between (steps ++ steps') = (do
      separated between steps
      sql between
      separated between steps') := by
  induction steps with
  | nil => exact absurd rfl h
  | cons step steps ih =>
    cases steps with
    | nil => exact separated_cons between step h'
    | cons step' steps =>
      have ih := ih (List.cons_ne_nil _ _)
      rw [List.cons_append, separated_cons between step (by simp), ih, separated_cons between step (by simp)]
      simp only [bind_assoc]

/-- Groups of steps with the same text between them and inside them. -/
theorem separated_flatten (between : String) {groups : List (List (Render Unit))}
    (h : ∀ steps ∈ groups, steps ≠ []) :
    separated between (groups.map (separated between)) = separated between groups.flatten := by
  induction groups with
  | nil => rfl
  | cons steps groups ih =>
    have ih := ih fun steps' hs => h steps' (.tail _ hs)
    cases groups with
    | nil => simp [separated]
    | cons steps' groups =>
      have rest : (steps' :: groups).flatten ≠ [] := by
        rw [List.flatten_cons]
        exact List.append_ne_nil_of_left_ne_nil (h steps' (.tail _ (.head _))) _
      rw [List.map_cons, separated_cons between _ (by simp), ih, List.flatten_cons (l := steps),
        separated_append between (h steps (.head _)) rest]

end Render

namespace Condition

open Render

/-- A member of a run is written as its own members are, one after the other. -/
theorem Proper.conjunct_eq {P : Condition → Prop} {c : Condition} (h : c.Proper P) (hc : c ≠ Condition.none)
    (op : Connective) : Visitor.conjunct Node.write op c =
      separated op.keyword ((c.members op).map (Visitor.conjunct Node.write op)) := by
  induction h with
  | none => exact absurd rfl hc
  | @test c h _ => cases c <;> first | rfl | cases h
  | @combined op' cs two there proper ih =>
    by_cases same : op' = op
    · subst same
      have whole : Visitor.conjunct Node.write op' (Condition.combined op' cs) =
          Visitor.combined Node.write op' cs := by
        rw [Visitor.conjunct, if_pos rfl]
        exact Node.write_eq_parts _
      have groups : cs.map (Visitor.conjunct Node.write op') =
          (cs.map fun c => (c.members op').map (Visitor.conjunct Node.write op')).map (separated op'.keyword) := by
        rw [List.map_map]
        exact List.map_congr_left fun c hc => ih c hc (there c hc)
      have nonempty : ∀ steps ∈ cs.map fun c => (c.members op').map (Visitor.conjunct Node.write op'),
          steps ≠ [] := by
        intro steps hs
        obtain ⟨c, hc, rfl⟩ := List.mem_map.1 hs
        simpa using (proper c hc).members_ne_nil (there c hc) op'
      rw [whole, combined_eq_separated op' two, groups, separated_flatten _ nonempty, members_same, List.map_flatMap,
        List.flatMap_def]
    · rw [members_other same]
      rfl
  | xor => rfl
  | not => rfl

/-- A condition that is there is written as a run of its members. -/
theorem Proper.write_eq {P : Condition → Prop} {c : Condition} (h : c.Proper P) (hc : c ≠ Condition.none)
    (op : Connective) : (Node.condition c).write = Visitor.combined Node.write op (c.members op) := by
  cases c with
  | none => exact absurd rfl hc
  | combined op' cs =>
    by_cases same : op' = op
    · subst same
      have whole : Visitor.conjunct Node.write op' (Condition.combined op' cs) =
          (Node.condition (Condition.combined op' cs)).write := by
        rw [Visitor.conjunct, if_pos rfl]
        rfl
      rw [← whole, h.conjunct_eq hc op', combined_eq_separated op' h.two_le_length_members]
    · rw [members_other same]
      rfl
  | _ => rfl

/-- Conditions that differ in their grouping under a connective at most. -/
structure Regrouped (op : Connective) (c c' : Condition) : Prop where
  left : c.Proper fun _ => True
  right : c'.Proper fun _ => True
  members : c.members op = c'.members op

theorem Regrouped.eq_none_iff {op : Connective} {c c' : Condition} (h : Regrouped op c c') :
    c = none ↔ c' = none := by
  rw [h.left.eq_none_iff op, h.right.eq_none_iff op, h.members]

theorem Regrouped.write_eq {op : Connective} {c c' : Condition} (h : Regrouped op c c') :
    (Node.condition c).write = (Node.condition c').write := by
  by_cases there : c = none
  · rw [there, h.eq_none_iff.1 there]
  · rw [h.left.write_eq there op, h.right.write_eq (fun gone => there (h.eq_none_iff.2 gone)) op, h.members]

/-! ## Collecting common tables -/

theorem collect_condition (d : Dialect) (c : Condition) (h : Hoisting) :
    (Node.condition c).collect d h = Hoisting.collectAll d (Node.conditionChildren c) h := by
  rw [Hoisting.collect_eq]
  exact bind_pure _

theorem collectAll_flatMap {d : Dialect} {op : Connective} {cs : List Condition}
    (same : ∀ c ∈ cs, ∀ h, (Node.condition c).collect d h =
      Hoisting.collectAll d ((c.members op).map .condition) h)
    (h : Hoisting) : Hoisting.collectAll d (cs.map .condition) h =
      Hoisting.collectAll d ((cs.flatMap (members op)).map .condition) h := by
  unfold Hoisting.collectAll at same ⊢
  induction cs generalizing h with
  | nil => rfl
  | cons c cs ih =>
    rw [List.map_cons, List.foldlM_cons, List.flatMap_cons, List.map_append, List.foldlM_append, same c (.head _)]
    exact bind_congr fun h => ih (fun c' hc => same c' (.tail _ hc)) h

/-- What is collected in a condition is collected in its members, one after the other. -/
theorem collect_members (d : Dialect) (op : Connective) (c : Condition) (h : Hoisting) :
    (Node.condition c).collect d h = Hoisting.collectAll d ((c.members op).map .condition) h := by
  have alone : Hoisting.collectAll d [.condition c] h = (Node.condition c).collect d h := bind_pure _
  cases c with
  | none => exact collect_condition d none h
  | combined op' cs =>
    by_cases same : op' = op
    · subst same
      rw [members_same, collect_condition]
      exact collectAll_flatMap (fun c _ => collect_members d op' c) h
    · rw [members_other same]
      exact alone.symm
  | _ => exact alone.symm
termination_by sizeOf c
decreasing_by
  have := List.sizeOf_lt_of_mem ‹_›
  simp_wf
  omega

theorem Regrouped.collect_eq {op : Connective} {c c' : Condition} (h : Regrouped op c c') (d : Dialect) (k : Hoisting) :
    (Node.condition c).collect d k = (Node.condition c').collect d k := by
  rw [collect_members d op c, collect_members d op c', h.members]

end Condition

/-! ## Clauses of a select -/

namespace Select

open Condition

/-- Selects that differ in the grouping of their conditions at most. -/
structure Regrouped (q q' : Select) : Prop where
  condition : Condition.Regrouped .and q.condition q'.condition
  having : Condition.Regrouped .and q.having q'.having
  rest : { q with condition := q'.condition, having := q'.having } = q'

theorem conditionClause_congr {c c' : Condition} (h : Condition.Regrouped .and c c') (keyword : String) :
    Visitor.conditionClause Node.write keyword c = Visitor.conditionClause Node.write keyword c' := by
  have empty : c.isEmpty = c'.isEmpty := by
    have same := h.eq_none_iff
    cases c <;> cases c' <;> simp at same <;> rfl
  have visit : Visitor.condition Node.write c = Visitor.condition Node.write c' := h.write_eq
  rw [Visitor.conditionClause, Visitor.conditionClause, empty, visit]

theorem Regrouped.clauses_eq {q q' : Select} (h : Regrouped q q') :
    Visitor.clauses Node.write q = Visitor.clauses Node.write q' := by
  have condition := conditionClause_congr h.condition
  have having' := conditionClause_congr h.having
  rw [← h.rest]
  unfold Visitor.clauses
  simp only [condition, having']
  rfl

theorem Regrouped.hoisted_eq {q q' : Select} (h : Regrouped q q') (d : Dialect) : q.hoisted d = q'.hoisted d := by
  have condition := h.condition.collect_eq d
  have having' := h.having.collect_eq d
  have children : Hoisting.collectAll d (Node.select q).children = Hoisting.collectAll d (Node.select q').children := by
    funext k
    rw [← h.rest]
    simp only [Hoisting.collectAll, Node.children, Node.clauseChildren, List.foldlM_append, List.foldlM_cons,
      List.foldlM_nil, condition, having']
    rfl
  have enter : ∀ k : Hoisting, k.enter d (.select q) = k.enter d (.select q') := by
    intro k
    rw [← h.rest]
    rfl
  rw [Select.hoisted, Select.hoisted, Hoisting.collect_eq, Hoisting.collect_eq, children, enter]
  rfl

/-- Selects that differ in the grouping of their conditions are written alike. -/
theorem Regrouped.write_eq {q q' : Select} (h : Regrouped q q') :
    (Node.select q).write = (Node.select q').write := by
  have withClause : q.withClause = q'.withClause := by rw [← h.rest]
  rw [Node.write_eq_parts, Node.write_eq_parts (.select q')]
  unfold Visitor.parts Visitor.select Visitor.selectOnLevel Visitor.hoistedSelect Visitor.selectUnder
  simp only [h.clauses_eq, h.hoisted_eq, withClause]

/-! ## Conditions added to a select -/

/-- A select with conditions added to its `WHERE` clause, one after the other. -/
def filterAll (q : Select) (cs : List Condition) : Select := cs.foldl filter q

/-- A select with conditions added to its `HAVING` clause, one after the other. -/
def filterGroupsAll (q : Select) (cs : List Condition) : Select := cs.foldl filterGroups q

theorem filterAll_eq (q : Select) (cs : List Condition) :
    q.filterAll cs = { q with condition := cs.foldl Condition.and q.condition } := by
  unfold filterAll
  induction cs generalizing q with
  | nil =>
    cases q
    rfl
  | cons c cs ih => rw [List.foldl_cons, ih, List.foldl_cons, filter]

theorem filterGroupsAll_eq (q : Select) (cs : List Condition) :
    q.filterGroupsAll cs = { q with having := cs.foldl Condition.and q.having } := by
  unfold filterGroupsAll
  induction cs generalizing q with
  | nil =>
    cases q
    rfl
  | cons c cs ih => rw [List.foldl_cons, ih, List.foldl_cons, filterGroups]

end Select

/-- Conjuncts on their way into a clause: one alone, or grouped with `AND` two at a time or a list at a time. -/
inductive Conjuncts where
  | one (condition : Condition)
  | and (left right : Conjuncts)
  | all (groups : List Conjuncts)

namespace Conjuncts

mutual

/-- The condition that is added. -/
def condition : Conjuncts → Condition
  | one c => c
  | and l r => l.condition.and r.condition
  | all gs => Condition.all (conditions gs)

def conditions : List Conjuncts → List Condition
  | [] => []
  | g :: gs => g.condition :: conditions gs

end

mutual

/-- The conjuncts in their order. -/
def sequence : Conjuncts → List Condition
  | one c => [c]
  | and l r => l.sequence ++ r.sequence
  | all gs => sequences gs

def sequences : List Conjuncts → List Condition
  | [] => []
  | g :: gs => g.sequence ++ sequences gs

end

mutual

/-- The members of what is added are those of the conjuncts, however they are grouped. -/
theorem members_condition : (g : Conjuncts) → g.condition.members .and = g.sequence.flatMap (Condition.members .and)
  | one c => by simp [condition, sequence]
  | and l r => by
    rw [condition, Condition.and, Condition.members_join, members_condition l, members_condition r, sequence,
      List.flatMap_append]
  | all gs => by
    rw [condition, Condition.all, sequence, ← members_conditions gs]
    exact Condition.members_foldl_join .and _ _

theorem members_conditions : (gs : List Conjuncts) →
    (conditions gs).flatMap (Condition.members .and) = (sequences gs).flatMap (Condition.members .and)
  | [] => rfl
  | g :: gs => by
    rw [conditions, sequences, List.flatMap_cons, List.flatMap_append, members_condition g, members_conditions gs]

end

mutual

theorem assembled_condition : (g : Conjuncts) → (∀ c ∈ g.sequence, c.Assembled) → g.condition.Assembled
  | one c, h => h c (by simp [sequence])
  | and l r, h => by
    rw [sequence, List.forall_mem_append] at h
    exact .and (assembled_condition l h.1) (assembled_condition r h.2)
  | all gs, h => .all (assembled_conditions gs h)

theorem assembled_conditions : (gs : List Conjuncts) → (∀ c ∈ sequences gs, c.Assembled) →
    ∀ c ∈ conditions gs, c.Assembled
  | [], _ => fun _ hc => by cases hc
  | g :: gs, h => by
    rw [sequences, List.forall_mem_append] at h
    rw [conditions, List.forall_mem_cons]
    exact ⟨assembled_condition g h.1, assembled_conditions gs h.2⟩

end

/-- One sequence of conjuncts, added in two groupings to conditions. -/
theorem regrouped_foldl {c : Condition} (hc : c.Assembled) {gs gs' : List Conjuncts}
    (h : ∀ c ∈ sequences gs, c.Assembled) (same : sequences gs = sequences gs') :
    Condition.Regrouped .and ((conditions gs).foldl Condition.and c) ((conditions gs').foldl Condition.and c) where
  left := (foldl_assembled hc h).proper
  right := (foldl_assembled hc (same ▸ h)).proper
  members := by
    show (List.foldl (Condition.join .and) c (conditions gs)).members .and =
      (List.foldl (Condition.join .and) c (conditions gs')).members .and
    rw [Condition.members_foldl_join, Condition.members_foldl_join, members_conditions, members_conditions, same]
where
  foldl_assembled {c : Condition} (hc : c.Assembled) {gs : List Conjuncts} (h : ∀ c ∈ sequences gs, c.Assembled) :
      ((conditions gs).foldl Condition.and c).Assembled :=
    Condition.foldl_join_closed (fun _ _ => .and) (assembled_conditions gs h) hc

end Conjuncts

/-! ## Grouping -/

theorem Node.render_congr {n m : Node} (h : n.write = m.write) (d : Dialect) (s : Settings) :
    n.render d s = m.render d s := by
  rw [Node.render, Node.render, h]

namespace Condition

/-- Joining is associative as far as can be seen. -/
theorem regrouped_join (op : Connective) {a b c : Condition} (ha : a.Assembled) (hb : b.Assembled)
    (hc : c.Assembled) : Regrouped op (join op a (join op b c)) (join op (join op a b) c) where
  left := ha.proper.join op (hb.proper.join op hc.proper)
  right := (ha.proper.join op hb.proper).join op hc.proper
  members := by rw [members_join, members_join, members_join, members_join, List.append_assoc]

end Condition

/-- How conditions that were built are grouped under one connective cannot be seen in the text, nor in an error: joining
them is associative, and the absent condition is neutral on both sides. So a select is written the same, wherever it
stands, if the same conjuncts were added to its `WHERE` and to its `HAVING` clause in the same order. -/
theorem render_regrouped (d : Dialect) (s : Settings) {a b c : Condition} (ha : a.Assembled) (hb : b.Assembled)
    (hc : c.Assembled) {q : Select} (hw : q.condition.Assembled) (hh : q.having.Assembled)
    {ws ws' hs hs' : List Conjuncts} (hws : ∀ c ∈ Conjuncts.sequences ws, c.Assembled)
    (hhs : ∀ c ∈ Conjuncts.sequences hs, c.Assembled) (sameWhere : Conjuncts.sequences ws = Conjuncts.sequences ws')
    (sameHaving : Conjuncts.sequences hs = Conjuncts.sequences hs') :
    (Node.condition (a.and (b.and c))).render d s = (Node.condition ((a.and b).and c)).render d s ∧
    (Node.condition (a.or (b.or c))).render d s = (Node.condition ((a.or b).or c)).render d s ∧
    (Condition.none.and a = a ∧ a.and .none = a) ∧ (Condition.none.or a = a ∧ a.or .none = a) ∧
    (Node.select ((q.filterAll (Conjuncts.conditions ws)).filterGroupsAll (Conjuncts.conditions hs))).write =
      (Node.select ((q.filterAll (Conjuncts.conditions ws')).filterGroupsAll (Conjuncts.conditions hs'))).write := by
  have same (op : Connective) := Node.render_congr (Condition.regrouped_join op ha hb hc).write_eq d s
  refine ⟨same .and, same .or, ⟨rfl, Condition.join_none .and a⟩, ⟨rfl, Condition.join_none .or a⟩, ?_⟩
  simp only [Select.filterAll_eq, Select.filterGroupsAll_eq]
  exact Select.Regrouped.write_eq ⟨Conjuncts.regrouped_foldl hw hws sameWhere,
    Conjuncts.regrouped_foldl hh hhs sameHaving, rfl⟩

namespace ThreeConjuncts

def a : Condition := BareXor.equals "a" 1

def b : Condition := BareXor.equals "b" 2

def c : Condition := BareXor.equals "c" 3

/-- `SELECT * FROM t` -/
def everything : Select := { Select.ofFields [] with tables := [.named none "t" none] }

def separate : List Conjuncts := [.one a, .one b, .one c]

def grouped : List Conjuncts := [.one a, .all [.and (.one b) (.one c)]]

theorem assembled : ∀ x ∈ [a, b, c], x.Assembled := by
  simp only [List.forall_mem_cons]
  exact ⟨.test rfl, .test rfl, .test rfl, fun _ h => by cases h⟩

theorem render_separate :
    (Node.select (everything.filterAll (Conjuncts.conditions separate))).render .default .default =
      .ok ⟨"SELECT * FROM t WHERE a = 1 AND b = 2 AND c = 3", []⟩ := by
  have reach : (Node.select (everything.filterAll (Conjuncts.conditions separate))).reach = 4 := by
    simp [Node.reach_eq, Node.weight, Node.children, Node.clauseChildren, Node.conditionChildren, Node.fieldChildren,
      Node.tableChildren, Select.commonTables, Select.filterAll, Select.filter, Select.ofFields, Conjuncts.conditions,
      Conjuncts.condition, Condition.and, Condition.join, everything, separate, a, b, c, BareXor.equals, Field.col,
      Field.literal]
  unfold Node.render Node.write
  rw [reach]
  decide +kernel

/-- Three conjuncts one by one, and the last two in a group of one. -/
theorem render_regrouped_three :
    (Node.condition (a.and (b.and c))).render .default .default =
      (Node.condition ((a.and b).and c)).render .default .default ∧
    (Node.select (everything.filterAll (Conjuncts.conditions grouped))).render .default .default =
      .ok ⟨"SELECT * FROM t WHERE a = 1 AND b = 2 AND c = 3", []⟩ := by
  obtain ⟨same, -, -, -, select⟩ := render_regrouped .default .default (assembled a (by simp))
    (assembled b (by simp)) (assembled c (by simp)) (q := everything) .none .none
    (show ∀ x ∈ Conjuncts.sequences grouped, x.Assembled from assembled)
    (show ∀ x ∈ Conjuncts.sequences [], x.Assembled from fun _ h => by cases h)
    (show Conjuncts.sequences grouped = Conjuncts.sequences separate from rfl) rfl
  refine ⟨same, ?_⟩
  rw [← render_separate]
  exact Node.render_congr select _ _

end ThreeConjuncts

end SqlDialects
