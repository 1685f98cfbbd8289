import SqlDialects.Proofs.Grammar.Operands
import SqlDialects.Query.Build

/-!
# Conditions as they are built

The constructors of conditions allow runs of any length, and a run of one condition is written without a trace of
its connective. The functions that build conditions make no such run: joining two conditions makes a run of two,
makes one longer, or leaves a condition as it is. So every run in a condition that is built has two members at
least (`Condition.Built.grouped`).
-/

set_option autoImplicit false

namespace SqlDialects

open Render (Place)

variable {d : Dialect} {s : Settings}

/-- A subquery that is written as one group. -/
def Select.Legible (π : Place d s) (q : Select) : Prop :=
  ∃ ts, Token.balanced 0 ts = true ∧
    Render.Writes π .gap .gap (Node.field (.subquery q)).write (.symbol "(" :: ts ++ [.symbol ")"])

/-- The conditions that are built over columns and values. -/
inductive Condition.Built (π : Place d s) : Condition → Prop where
  | none : Built π none
  | compare {l r : Field} (op : ComparisonOp) (hl : l.Operand s) (hr : r.Operand s) : Built π (compare op l r)
  | nullTest {x : Field} (hx : x.Operand s) (negated : Bool) : Built π (x.nullTest negated)
  | between {x low high : Field} (hx : x.Operand s) (hl : low.Operand s) (hh : high.Operand s) (negated : Bool) :
      Built π (between x low high negated)
  | inList {x : Field} {xs : List Field} (hx : x.Operand s) (hxs : ∀ y ∈ xs, y.Operand s) (negated : Bool) :
      Built π (inList x xs negated)
  | existence {q : Select} (hq : q.Legible π) (negated : Bool) : Built π (existence q negated)
  | field {x : Field} (hx : x.Operand s) : Built π (field x)
  | and {l r : Condition} (hl : Built π l) (hr : Built π r) : Built π (l.and r)
  | or {l r : Condition} (hl : Built π l) (hr : Built π r) : Built π (l.or r)
  | all {cs : List Condition} (h : ∀ c ∈ cs, Built π c) : Built π (all cs)
  | any {cs : List Condition} (h : ∀ c ∈ cs, Built π c) : Built π (any cs)
  | xor {l r : Condition} (hl : Built π l) (hr : Built π r) : Built π (xor l r)
  | negate {c : Condition} (h : Built π c) : Built π c.negate

/-- The conditions over columns and values in which every run has members to join. -/
inductive Condition.Grouped (π : Place d s) : Condition → Prop where
  | none : Grouped π none
  | compare {l r : Field} (op : ComparisonOp) (hl : l.Operand s) (hr : r.Operand s) : Grouped π (compare op l r)
  | isNull {x : Field} (hx : x.Operand s) (negated : Bool) : Grouped π (isNull x negated)
  | between {x low high : Field} (hx : x.Operand s) (hl : low.Operand s) (hh : high.Operand s) (negated : Bool) :
      Grouped π (between x low high negated)
  | inList {x : Field} {xs : List Field} (hx : x.Operand s) (hxs : ∀ y ∈ xs, y.Operand s) (negated : Bool) :
      Grouped π (inList x xs negated)
  | existence {q : Select} (hq : q.Legible π) (negated : Bool) : Grouped π (existence q negated)
  | field {x : Field} (hx : x.Operand s) : Grouped π (field x)
  | combined {op : Connective} {cs : List Condition} (two : 2 ≤ cs.length) (h : ∀ c ∈ cs, Grouped π c) :
      Grouped π (combined op cs)
  | xor {l r : Condition} (hl : Grouped π l) (hr : Grouped π r) : Grouped π (xor l r)
  | not {c : Condition} (h : Grouped π c) : Grouped π (not c)

namespace Condition

variable {π : Place d s}

theorem Grouped.pair {l r : Condition} (op : Connective) (hl : l.Grouped π) (hr : r.Grouped π) :
    (Condition.combined op [l, r]).Grouped π :=
  .combined (Nat.le_refl 2) fun c hc => by
    rcases (by simpa using hc : c = l ∨ c = r) with rfl | rfl
    · exact hl
    · exact hr

/-- Joining two conditions makes a run of two, makes one longer, or leaves a condition as it is. -/
theorem Grouped.join {l r : Condition} (op : Connective) (hl : l.Grouped π) (hr : r.Grouped π) :
    (l.join op r).Grouped π := by
  refine join_cases op hl hr (.pair op hl hr) fun cs longer => ?_
  subst longer
  cases hl with
  | combined two h =>
    refine .combined (by simp; omega) fun c hc => ?_
    rcases List.mem_append.1 hc with hc | hc
    · exact h c hc
    · rw [List.mem_singleton.1 hc]
      exact hr

theorem Grouped.negate {c : Condition} (h : c.Grouped π) : c.negate.Grouped π := by
  cases h with
  | none => exact .none
  | _ => exact .not (by constructor <;> assumption)

/-- What is built has no run of fewer than two conditions. -/
theorem Built.grouped {c : Condition} (h : c.Built π) : c.Grouped π := by
  induction h with
  | none => exact .none
  | compare op hl hr => exact .compare op hl hr
  | nullTest hx negated => cases hx <;> exact .isNull (by constructor <;> assumption) negated
  | between hx hl hh negated => exact .between hx hl hh negated
  | inList hx hxs negated => exact .inList hx hxs negated
  | existence hq negated => exact .existence hq negated
  | field hx => exact .field hx
  | and _ _ ihl ihr => exact ihl.join .and ihr
  | or _ _ ihl ihr => exact ihl.join .or ihr
  | all _ ih => exact foldl_join_closed (fun _ _ => .join .and) ih .none
  | any _ ih => exact foldl_join_closed (fun _ _ => .join .or) ih .none
  | xor _ _ ihl ihr => exact .xor ihl ihr
  | negate _ ih => exact ih.negate

end Condition

end SqlDialects
