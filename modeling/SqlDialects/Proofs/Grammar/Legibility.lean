import SqlDialects.Proofs.Grammar.Conditions
import SqlDialects.Proofs.Grammar.PlainQueries

/-!
# Plain parts are legible

What is read back of conditions and of joins is read as far as their parts are **legible**: the subqueries of conditions
as groups (`Select.Legible`), the tables of joins as operands and their conditions as phrases (`Table.Legible`). Plain
parts are. A node that is written on its own is written the same behind any output, and one that is refused is refused
behind any, so outside of queries it is always the same tokens that are written (`Render.Adds.exists_writes`).

So plain conditions over columns and values and plain joins of tables are read back whenever they are rendered
(`Condition.plain_read_back`, `Table.IsJoinTree.plain_read_back`).
-/

set_option autoImplicit false

namespace SqlDialects

open Render (Adds Phrase Place Writes)

variable {d : Dialect} {s : Settings}

/-- What a node adds to one output it adds to every output, if it is written at all. -/
theorem Render.Adds.exists_writes {n : Node} {a b : Lexer.Edge} {P : List Token → Prop} (h : Adds d s a b P n.write)
    (possible : ∃ ts, P ts) : ∃ ts, P ts ∧ Writes (.outside d s True) a b n.write ts := by
  cases hr : n.write (Context.new d s) with
  | ok _ k =>
    obtain ⟨-, -, ps, ts, ho, spells, hP⟩ := h _ _ _ rfl rfl hr
    refine ⟨ts, hP, ?_⟩
    rintro _ ⟨o, rfl⟩
    refine .inl ⟨_, ps, Node.write_after hr o, ⟨_, rfl⟩, ?_, spells⟩
    show o.absorb k.output = o.writeAll d s ps
    rw [ho]
    show o.absorb (Output.empty.writeAll d s ps) = _
    rw [Output.absorb_writeAll, Output.absorb_empty]
  | error e k =>
    obtain ⟨ts, hP⟩ := possible
    refine ⟨ts, hP, ?_⟩
    rintro _ ⟨o, rfl⟩
    rcases n.behind_cases d s o with ⟨k', -, hk⟩ | ⟨e', k', -, he, -⟩
    · rw [hr] at hk
      cases hk
    · exact .inr ⟨trivial, e', k', he⟩

theorem Render.Writes.congr {π : Place d s} {a b : Lexer.Edge} {m m' : Render Unit} {ts : List Token}
    (same : ∀ c, π.here c → m c = m' c) (h : Writes π a b m' ts) : Writes π a b m ts := by
  intro c hc
  rw [same c hc]
  exact h c hc

/-! ## Subqueries and conditions -/

/-- What a subquery adds is one group. -/
theorem Node.Plain.adds_subquery {q : Select} (hq : (Node.select q).Plain s) (hi : s.Indents) :
    Adds d s .gap .gap (fun ts => ∃ us, Token.balanced 0 us = true ∧ ts = .symbol "(" :: us ++ [.symbol ")"])
      (Node.field (.subquery q)).write := by
  rw [Node.write_eq_parts]
  exact Render.Moves.group hi (hq.moves_write hi)

/-- A plain subquery is written as one group, if it is written at all. -/
theorem Node.Plain.legible_select {q : Select} (hq : (Node.select q).Plain s) (hi : s.Indents) :
    q.Legible (.outside d s True) := by
  obtain ⟨_, ⟨us, balanced, rfl⟩, written⟩ := (hq.adds_subquery hi).exists_writes ⟨_, [], rfl, rfl⟩
  exact ⟨us, balanced, written⟩

theorem Node.Plain.legible_on {c : Condition} (hc : (Node.condition c).Plain s) (hi : s.Indents) :
    (JoinCondition.on c).Legible (.outside d s True) := by
  have phrase : Phrase d s .gap (Node.condition c).write := hc.moves_write hi
  obtain ⟨ts, leads, written⟩ := phrase.exists_writes ⟨[], rfl⟩
  exact .on (Token.isPhrase_of_leads leads) written

/-! ## Conditions over columns and values -/

/-- Whether a field is a column or a value. -/
def Field.isOperand : Field → Bool
  | column _ | value _ | inline _ => true
  | _ => false

theorem Field.operand_of_plain {x : Field} (hx : x.isOperand = true) (hp : (Node.field x).Plain s) : x.Operand s := by
  cases x with
  | column c =>
    obtain ⟨hn, ht⟩ : s.Spells c.name ∧ ∀ t ∈ c.table, s.Spells t := hp.own
    exact .column hn ht
  | value v => exact .value v
  | inline l => exact .inline l
  | _ => cases hx

namespace Condition

mutual

/-- Whether a condition is one over columns and values in which every run has members to join. -/
def isOverOperands : Condition → Bool
  | none | existence _ _ => true
  | compare _ l r => l.isOperand && r.isOperand
  | isNull x _ | field x => x.isOperand
  | between x low high _ => x.isOperand && low.isOperand && high.isOperand
  | inList x xs _ => x.isOperand && xs.all Field.isOperand
  | combined _ cs => decide (2 ≤ cs.length) && areOverOperands cs
  | xor l r => l.isOverOperands && r.isOverOperands
  | not c => c.isOverOperands
  | selectIsNull _ _ | xmlExists _ _ _ | raw _ => false

def areOverOperands : List Condition → Bool
  | [] => true
  | c :: cs => c.isOverOperands && areOverOperands cs

end

theorem of_areOverOperands {cs : List Condition} (h : areOverOperands cs = true) :
    ∀ c ∈ cs, c.isOverOperands = true := by
  induction cs with
  | nil => exact List.forall_mem_nil _
  | cons c cs ih =>
    obtain ⟨hc, hcs⟩ := Bool.and_eq_true_iff.1 h
    exact List.forall_mem_cons.2 ⟨hc, ih hcs⟩

/-- The subqueries of a plain condition are legible. -/
theorem grouped_of_plain {c : Condition} (hc : c.isOverOperands = true) (hp : (Node.condition c).Plain s)
    (hi : s.Indents) : c.Grouped (.outside d s True) := by
  generalize hn : Node.condition c = n at hp
  induction hp generalizing c with
  | intro own parts ih =>
    subst hn
    have operand : ∀ {x : Field}, x.isOperand = true → Node.field x ∈ (Node.condition c).children → x.Operand s :=
      fun hx hm => Field.operand_of_plain hx (parts _ hm)
    cases c with
    | none => exact .none
    | compare op l r =>
      obtain ⟨hl, hr⟩ := Bool.and_eq_true_iff.1 hc
      exact .compare op (operand hl (.head _)) (operand hr (.tail _ (.head _)))
    | isNull x negated => exact .isNull (operand hc (.head _)) negated
    | field x => exact .field (operand hc (.head _))
    | between x low high negated =>
      obtain ⟨h, hh⟩ := Bool.and_eq_true_iff.1 hc
      obtain ⟨hx, hl⟩ := Bool.and_eq_true_iff.1 h
      exact .between (operand hx (.head _)) (operand hl (.tail _ (.head _)))
        (operand hh (.tail _ (.tail _ (.head _)))) negated
    | inList x xs negated =>
      obtain ⟨hx, hxs⟩ := Bool.and_eq_true_iff.1 hc
      refine .inList (operand hx (.head _)) (fun y hy => ?_) negated
      exact operand (List.all_eq_true.1 hxs y hy) (.tail _ (List.mem_map_of_mem hy))
    | existence q negated => exact .existence ((parts _ (.head _)).legible_select hi) negated
    | combined op cs =>
      obtain ⟨two, hcs⟩ := Bool.and_eq_true_iff.1 hc
      refine .combined (of_decide_eq_true two) fun c hm => ?_
      exact ih _ (List.mem_map_of_mem hm) (of_areOverOperands hcs c hm) rfl
    | xor l r =>
      obtain ⟨hl, hr⟩ := Bool.and_eq_true_iff.1 hc
      exact .xor (ih _ (.head _) hl rfl) (ih _ (.tail _ (.head _)) hr rfl)
    | not c => exact .not (ih _ (.head _) hc rfl)
    | selectIsNull | xmlExists | raw => cases hc

/-- A plain condition over columns and values that is rendered is read back: its tokens hold together, none of them is a
comment, and they are read as an expression that is true whenever the condition is. -/
theorem plain_read_back {c : Condition} (hc : c.isOverOperands = true) (hp : (Node.condition c).Plain s)
    (hi : s.Indents) (hb : Capability.xor d = .native → c.bareXor = false) {r : Rendered}
    (hr : (Node.condition c).render d s = .ok r) :
    ∃ ts e, r.tokens? d = some ts ∧ Token.isPhrase 0 ts = true ∧ (∀ u ∈ ts, u.isClean = true)
      ∧ r.expression? d (.logic d) = some e ∧ ∀ {V : Type} (I : Interpretation d V), e.truth I = c.truth I s := by
  obtain ⟨ts, tokens, -, clean, phrase⟩ := hp.exists_tokens hi hr
  obtain ⟨e, read, truth⟩ := (grouped_of_plain (d := d) hc hp hi).rendered_read_back hb hr
  exact ⟨ts, e, tokens, phrase rfl, clean, read, truth⟩

end Condition

/-! ## Tables -/

/-- Outside of queries no names are visible, so the alias of a renamed select is the first of the candidates. -/
theorem Table.derivedGroup_outside {q : Select} {columns : List String} {plan : Select.Renaming}
    (list : (columns.isEmpty || Capability.derivedColumnList d) = false) (hp : q.rename? columns = some plan)
    (o : Output) : derivedGroup d q columns (.after d s o)
      = (Node.field (.subquery (plan.toSelect "q"))).write (.after d s o) := by
  have renamed : Visitor.renamed q columns "derived column list" (.after d s o)
      = .ok (plan.toSelect "q") (.after d s o) := by
    unfold Visitor.renamed
    rw [hp]
    cases plan <;> rfl
  unfold derivedGroup
  rw [list, if_neg (by simp), Render.bind_ok renamed, Node.write_eq_parts (.field _)]
  rfl

theorem Node.Plain.legible_derived {q : Select} {asName : String} {columns : List String}
    (ht : (Node.table (.derived q asName columns)).Plain s) (hi : s.Indents) :
    (Table.derived q asName columns).Legible (.outside d s True) := by
  obtain ⟨ha, hc⟩ : s.Spells asName ∧ ∀ c ∈ columns, s.Spells c := ht.own
  have hq : (Node.select q).Plain s := ht.child (.head _)
  have group : ∃ us, Token.balanced 0 us = true
      ∧ Writes (.outside d s True) .gap .gap (Table.derivedGroup d q columns) (.symbol "(" :: us ++ [.symbol ")"]) := by
    cases list : columns.isEmpty || Capability.derivedColumnList d with
    | true =>
      obtain ⟨us, balanced, h⟩ := hq.legible_select (d := d) hi
      refine ⟨us, balanced, ?_⟩
      rw [Node.write_eq_parts] at h
      rwa [Table.derivedGroup, list, if_pos rfl]
    | false =>
      cases hp : q.rename? columns with
      | none =>
        refine ⟨[], rfl, ?_⟩
        unfold Table.derivedGroup Visitor.renamed
        rw [list, if_neg (by simp), hp]
        rintro _ ⟨o, rfl⟩
        exact .inr ⟨trivial, _, _, rfl⟩
      | some plan =>
        have spelled : s.Spells "q" := fun _ => by decide
        obtain ⟨us, balanced, h⟩ := (hq.toSelect hc spelled hp).legible_select (d := d) hi
        refine ⟨us, balanced, h.congr ?_⟩
        rintro _ ⟨o, rfl⟩
        exact Table.derivedGroup_outside list hp o
  obtain ⟨us, balanced, h⟩ := group
  exact .derived balanced h ha hc

theorem Table.IsLeaf.legible_of_plain {t : Table} (h : t.IsLeaf) (ht : (Node.table t).Plain s) (hi : s.Indents) :
    t.Legible (.outside d s True) := by
  induction h with
  | named schema n asName =>
    obtain ⟨hs, hn, ha⟩ : (∀ q ∈ schema, s.Spells q) ∧ s.Spells n ∧ ∀ a ∈ asName, s.Spells a := ht.own
    exact .named hs hn ha
  | derived q asName columns => exact ht.legible_derived hi
  | @hinted t _ hint ih =>
    have hinted : (Node.hint hint).Plain s := ht.child (.tail _ (.head _))
    exact .hinted (ih (ht.child (.head _))) hinted.own

/-- A tree of joins of plain tables is legible. -/
theorem Table.IsJoinTree.legible_of_plain {t : Table} (h : t.IsJoinTree) (ht : (Node.table t).Plain s)
    (hi : s.Indents) : t.Legible (.outside d s True) := by
  induction h with
  | leaf h => exact h.legible_of_plain ht hi
  | @join type left right matching _ _ _ ihl ihr =>
    have parts := fun m hm => ht.child (m := m) hm
    refine .join (ihl (parts _ ?_)) (ihr (parts _ ?_)) fun _ => ?_
    · cases matching <;> exact .head _
    · cases matching <;> exact .tail _ (.head _)
    · cases matching with
      | none => exact .none
      | on c => exact Node.Plain.legible_on (parts _ (.tail _ (.tail _ (.head _)))) hi
      | «using» columns => exact .using ht.own

/-- Joins of plain tables that are rendered are read back: the tokens of the text close what they open, none of them is
a comment, and they are read as the same tree of joins. -/
theorem Table.IsJoinTree.plain_read_back {t : Table} (h : t.IsJoinTree) (ht : (Node.table t).Plain s) (hi : s.Indents)
    {r : Rendered} (hr : (Node.table t).render d s = .ok r) :
    ∃ ts e, r.tokens? d = some ts ∧ Token.balanced 0 ts = true ∧ (∀ u ∈ ts, u.isClean = true)
      ∧ Token.joins? ts = some e ∧ t.joins.Spelled (.outside d s True) e := by
  obtain ⟨ts, tokens, balanced, clean, -⟩ := ht.exists_tokens hi hr
  obtain ⟨us, e, written, read, spelled⟩ := h.exists_joins (h.legible_of_plain (d := d) ht hi)
  cases tokens.symm.trans (written.tokens? hr)
  exact ⟨_, e, tokens, balanced, clean, read, spelled⟩

end SqlDialects
