import SqlDialects.Proofs.Query.Evaluation
import SqlDialects.Proofs.Render.Levels
import SqlDialects.Proofs.Render.Nested
import Mathlib.Data.List.MinMax

/-!
# `GREATEST` and `LEAST` as cases

Where there is no function for the greatest or least of some values, a case is written that compares the first two
arguments and goes on with the winner and the rest. Expanded to the end it is one tree of cases
(`Extremum.expanded`), which is written as the function is (`Extremum.write_expanded`) and which picks the first of the
arguments that no other beats, or null if one of them is null (`Extremum.eval_expanded`).
-/

set_option autoImplicit false

namespace SqlDialects

/-! ## Writing in one dialect -/

/-- A pass in a dialect beside itself. -/
def Simulation.inDialect (d : Dialect) : Simulation Unit := Lockstep.simulation {
  rel _ c c' := c = c' ∧ c.dialect = d
  failed _ c c' := c = c'
  fail h := h.1
  alike := by
    rintro _ c _ ⟨rfl, _⟩
    exact ⟨rfl, rfl, rfl, rfl⟩
  write := by
    rintro _ c _ p ⟨rfl, h⟩
    exact ⟨rfl, h⟩
  declare := by
    rintro _ c _ n e ⟨rfl, h⟩
    exact ⟨rfl, h⟩
  deeper := by
    rintro _ c _ ⟨rfl, h⟩
    exact ⟨(), ⟨rfl, h⟩, fun k _ hk => ⟨by rw [hk.1], hk.2⟩, fun _ _ hk => hk⟩
  underFlags := by
    rintro _ c _ flags ⟨rfl, h⟩
    exact ⟨(), ⟨rfl, h⟩, fun k _ hk => ⟨by rw [hk.1], hk.2⟩, fun k _ hk => by rw [hk]⟩
  level := by
    rintro _ c _ ⟨rfl, h⟩
    exact ⟨(), ⟨rfl, h⟩, fun k _ hk => ⟨by rw [hk.1], hk.2⟩, fun k _ hk => by rw [hk]⟩
  detach := by
    rintro _ c _ ⟨rfl, h⟩
    exact ⟨(), ⟨rfl, h⟩, fun k _ hk => ⟨by rw [hk.1], h⟩⟩ }

theorem Simulation.inDialect_eq {d : Dialect} {α : Type} {m m' : Render α}
    (h : (Simulation.inDialect d).Step () m m') {c : Context} (hd : c.dialect = d) : m c = m' c := by
  have ho := h (show (Simulation.inDialect d).rel () c c from ⟨rfl, hd⟩)
  rcases ho.cases with ⟨a, k, k', hr, hr', hk⟩ | ⟨e, k, k', hr, hr', hk⟩
  · rw [hr, hr', hk.1]
  · rw [hr, hr', show k = k' from hk]

namespace Extremum

/-- The case that is left of the function once no part of it is a function any more. -/
def expanded (which : Extremum) : List Field → Field
  | [] => .null .other
  | [x] => x
  | first :: second :: rest =>
    .searchedCase
      [((first.nullTest false).or (second.nullTest false), .null (Field.firstKnown [first.type, second.type])),
        (.compare which.comparison first second, which.expanded (first :: rest))]
      (some (which.expanded (second :: rest)))
termination_by args => args.length

theorem strategy_derby (which : Extremum) : which.strategy .derby = .caseExpansion := by
  cases which <;> rfl

/-- Cases are written alike whose results are. -/
theorem step_searchedCase {d : Dialect} {test test' : Condition} {n x x' y y' : Field}
    (hx : (Simulation.inDialect d).Step () (Node.field x).write (Node.field x').write)
    (hy : (Simulation.inDialect d).Step () (Node.field y).write (Node.field y').write) :
    (Simulation.inDialect d).Step () (Visitor.searchedCase Node.write [(test, n), (test', x)] (some y))
      (Visitor.searchedCase Node.write [(test, n), (test', x')] (some y')) := by
  have same : ∀ m : Node, (Simulation.inDialect d).Step () m.write m.write := fun m => .node _ m
  have branches : (Simulation.inDialect d).Step () (Visitor.branches Node.write (Visitor.condition Node.write)
      [(test, n), (test', x)]) (Visitor.branches Node.write (Visitor.condition Node.write) [(test, n), (test', x')]) :=
    .bind (.sql _) fun _ => .bind (same _) fun _ => .bind (.sql _) fun _ => .bind (same _) fun _ =>
      .bind (.sql _) fun _ => .bind (same _) fun _ => .bind (.sql _) fun _ => .bind hx fun _ => .pure ()
  exact .bind (.sql _) fun _ => .bind branches fun _ => .bind (.bind (.sql _) fun _ => hy) fun _ => .sql _

/-- In the dialect that has no function for it, the tree of cases is what is written. -/
theorem write_expanded (which : Extremum) (args : List Field) {c : Context} (hd : c.dialect = .derby) :
    (Node.field (.extremum which args)).write c = (Node.field (which.expanded args)).write c := by
  refine Simulation.inDialect_eq ?_ hd
  clear hd c
  fun_induction expanded which args with
  | case1 =>
    rw [Node.write_eq_parts (.field (.extremum which [])), Node.write_eq_parts (.field (.null .other))]
    exact .literal _
  | case2 x =>
    rw [Node.write_eq_parts (.field (.extremum which [x]))]
    exact .node _ _
  | case3 first second rest ih₁ ih₂ =>
    rw [Node.write_eq_parts (.field (.extremum which (first :: second :: rest))),
      Node.write_eq_parts (.field (.searchedCase _ _))]
    rintro c _ ⟨rfl, hd⟩
    have picked : Visitor.extremum Node.write which (first :: second :: rest) c
        = Visitor.expansion Node.write (which.expand which.comparison first second rest) c := by
      rw [Visitor.extremum, Render.dialect_bind, hd, strategy_derby]
    show (Simulation.inDialect .derby).Outcome () (Visitor.extremum Node.write which (first :: second :: rest) c) _
    rw [picked]
    exact step_searchedCase ih₁ ih₂ ⟨rfl, hd⟩

/-! ## The value -/

section

variable {V K : Type} [LinearOrder K] {key : V → K} {D : Database V} {env : Columns V}

/-- Whether a value is not beaten by another one. -/
def Wins (which : Extremum) (a b : K) : Prop :=
  match which with
  | greatest => b ≤ a
  | least => a ≤ b

instance (which : Extremum) (a b : K) : Decidable (which.Wins a b) :=
  match which with
  | greatest => inferInstanceAs (Decidable (b ≤ a))
  | least => inferInstanceAs (Decidable (a ≤ b))

/-- The first of some values that none of them beats. -/
def best (which : Extremum) (key : V → K) : List V → Option V :=
  match which with
  | greatest => List.argmax key
  | least => List.argmin key

theorem foldl_argAux_cons (r : V → V → Prop) [DecidableRel r] (v w : V) (vs : List V) :
    (w :: vs).foldl (List.argAux r) (some v)
      = if r w v then vs.foldl (List.argAux r) (some w) else vs.foldl (List.argAux r) (some v) := by
  rw [List.foldl_cons]
  show vs.foldl (List.argAux r) (if r w v then some w else some v) = _
  split <;> rfl

/-- The loser of the first two plays no part. -/
theorem best_cons_cons (which : Extremum) (v w : V) (vs : List V) :
    which.best key (v :: w :: vs)
      = if which.Wins (key v) (key w) then which.best key (v :: vs) else which.best key (w :: vs) := by
  cases which with
  | greatest =>
    refine (foldl_argAux_cons (fun b c => key c < key b) v w vs).trans ?_
    rw [← ite_not]
    simp only [not_lt]
    rfl
  | least =>
    refine (foldl_argAux_cons (fun b c => key b < key c) v w vs).trans ?_
    rw [← ite_not]
    simp only [not_lt]
    rfl

/-- The tree of cases is null if one of the arguments is, and otherwise the first of them that no other beats. -/
theorem eval_expanded (which : Extremum)
    (compared : ∀ v w, D.compare which.comparison v w = decide (which.Wins (key v) (key w))) (args : List Field)
    (simple : ∀ x ∈ args, x.nullTest false = .isNull x false) :
    (which.expanded args).eval D env = (args.mapM (Field.eval D env)).bind (which.best key) := by
  fun_induction expanded which args with
  | case1 => cases which <;> rfl
  | case2 x =>
    have single : ∀ v : V, which.best key [v] = some v := by
      intro v
      cases which <;> rfl
    cases hx : x.eval D env with
    | none => simp [hx]
    | some v => simp [hx, single]
  | case3 first second rest ih₁ ih₂ =>
    have anyNull : ((first.nullTest false).or (second.nullTest false)).eval D env = .true
        ↔ first.eval D env = none ∨ second.eval D env = none := by
      rw [simple first (by simp), simple second (by simp), Condition.or,
        Condition.joinsTruths_eval.join (by simp) (by simp)]
      refine (Truth.or_eq_true_iff _ _).trans (or_congr ?_ ?_)
      · exact (Truth.nullTest_eq_true_iff _ _).trans (by simp)
      · exact (Truth.nullTest_eq_true_iff _ _).trans (by simp)
    have wins : (Condition.compare which.comparison first second).eval D env
        = D.comparison which.comparison (first.eval D env) (second.eval D env) := rfl
    rw [Field.eval, Field.taken?, Field.taken?, Field.taken?, Field.evalElse, wins,
      ih₁ fun x hx => simple x (by grind), ih₂ fun x hx => simple x (by grind)]
    -- A null among the first two decides; otherwise the rest of the arguments does not see the loser.
    by_cases hn : first.eval D env = none ∨ second.eval D env = none
    · rw [if_pos (anyNull.2 hn)]
      have none : (first :: second :: rest).mapM (Field.eval D env) = none := by
        rcases hn with h | h <;> simp [h]
      rw [none]
      rfl
    · rw [if_neg (mt anyNull.1 hn)]
      obtain ⟨v, hv⟩ := Option.ne_none_iff_exists'.1 (mt Or.inl hn)
      obtain ⟨w, hw⟩ := Option.ne_none_iff_exists'.1 (mt Or.inr hn)
      have decided : D.comparison which.comparison (some v) (some w) = .true ↔ which.Wins (key v) (key w) := by
        rw [Database.comparison, compared]
        exact (Truth.ofBool_eq_true_iff _).trans decide_eq_true_iff
      simp only [List.mapM_cons, hv, hw, decided]
      cases rest.mapM (Field.eval D env) with
      | none => split <;> rfl
      | some vs =>
        show _ = which.best key (v :: w :: vs)
        rw [best_cons_cons]
        split <;> rfl

end

/-- For columns Derby is given a tree of cases in the place of the function. Its value is null if one of the columns
is, and otherwise the first of the values that are greatest, or least. -/
theorem expansion_of_columns {V K : Type} [LinearOrder K] (key : V → K) (D : Database V) (which : Extremum)
    (compared : ∀ v w, D.compare which.comparison v w = decide (which.Wins (key v) (key w)))
    (columns : List ColumnRef) :
    (∀ c : Context, c.dialect = .derby →
      (Node.field (.extremum which (columns.map .column))).write c
        = (Node.field (which.expanded (columns.map .column))).write c) ∧
    ∀ env, (which.expanded (columns.map .column)).eval D env = (columns.mapM env).bind (which.best key) := by
  refine ⟨fun c hd => which.write_expanded _ hd, fun env => ?_⟩
  have simple : ∀ x ∈ columns.map Field.column, x.nullTest false = .isNull x false := by
    intro x hx
    obtain ⟨c, -, rfl⟩ := List.mem_map.1 hx
    rfl
  rw [which.eval_expanded compared _ simple, List.mapM_map]
  rfl

/-- Numbers that are told apart although they are equal. -/
def tagged : Database (Int × String) where
  constant _ := (0, "")
  compare op v w :=
    match op with
    | .gtEq => decide (w.1 ≤ v.1)
    | _ => decide (v.1 ≤ w.1)
  field _ _ := none
  condition _ _ := .unknown
  rows _ _ := []

/-- The first of two that are greatest wins. -/
theorem expansion_of_tie :
    ∃ env : Columns (Int × String),
      (greatest.expanded ([⟨none, "a", .other⟩, ⟨none, "b", .other⟩, ⟨none, "c", .other⟩].map .column)).eval tagged env
        = some (2, "b") := by
  refine ⟨fun c => some (if c.name = "a" then 1 else 2, c.name), ?_⟩
  rw [(expansion_of_columns Prod.fst tagged greatest (fun _ _ => rfl) _).2]
  rfl

end Extremum

end SqlDialects
