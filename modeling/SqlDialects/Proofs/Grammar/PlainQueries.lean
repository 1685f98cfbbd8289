import SqlDialects.Proofs.Grammar.PlainFields
import SqlDialects.Proofs.Render.Levels

/-!
# Plain queries are written as balanced tokens

The writers of conditions, tables and selects, as those of fields before. With them every writer is one that writes
plain nodes as what they are, if its visitor does (`Visitor.WritesPlain.parts`). So it is at every level of nesting
(`Render.writesPlain_node`), and what a plain node is rendered as is read as tokens that close what they open, none of
them a comment and none left open (`Node.Plain.exists_tokens`).
-/

set_option autoImplicit false

namespace SqlDialects

open Render (Moves Phrase Closed)

namespace Visitor.WritesPlain

variable {d : Dialect} {s : Settings} {visit : Visitor} {a : Lexer.Edge}

/-! ## Conditions -/

theorem comparand (h : visit.WritesPlain d s) {x : Field} (hx : (Node.field x).Plain s) :
    Phrase d s .gap (visit.comparand x) :=
  .ite (fun _ => .parenthesized (h.field hx).anywhere) fun _ => h.field hx

theorem compare (h : visit.WritesPlain d s) {op : ComparisonOp} {x y : Field} (hx : (Node.field x).Plain s)
    (hy : (Node.field y).Plain s) : Phrase d s .gap (visit.compare op x y) := by
  have symbol : Phrase d s .gap (Render.sql op.symbol) := .sql ⟨.joint, 0⟩ (by cases op <;> decide)
  exact .bind (h.comparand hx) fun _ => .bind (.sql ⟨.gap, 0⟩ rfl) fun _ => .bind symbol fun _ =>
    .bind (.sql ⟨.gap, 0⟩ rfl) fun _ => h.comparand hy

theorem identity (op : Connective) : Phrase d s .gap (Render.sql op.identity) :=
  .sql ⟨.joint, 0⟩ (by cases op <;> decide)

theorem inList (h : visit.WritesPlain d s) {x : Field} {xs : List Field} {negated : Bool}
    (hx : (Node.field x).Plain s) (hxs : ∀ y ∈ xs, (Node.field y).Plain s) :
    Phrase d s .gap (visit.inList x xs negated) := by
  refine .ite (fun _ => identity _) fun _ => .bind (h.comparand hx) fun _ => ?_
  have opening : Moves d s true ⟨.joint, 0⟩ ⟨.gap, 1⟩ (Render.sql (if negated then " NOT IN (" else " IN (")) :=
    .sql _ (by cases negated <;> decide)
  exact .bind opening fun _ => .bind (h.fields hxs).anywhere fun _ => .sql ⟨.joint, 0⟩ rfl

theorem conjunct (h : visit.WritesPlain d s) {op : Connective} {c : Condition} (hc : (Node.condition c).Plain s) :
    Phrase d s .gap (visit.conjunct op c) := by
  cases c with
  | combined op' cs => exact .ite (fun _ => h.condition hc) fun _ => .parenthesized (h.condition hc).anywhere
  | _ => exact h.condition hc

theorem combined (h : visit.WritesPlain d s) {op : Connective} {cs : List Condition}
    (hcs : ∀ c ∈ cs, (Node.condition c).Plain s) : Phrase d s .gap (visit.combined op cs) := by
  match cs with
  | [] => exact identity op
  | [c] => exact h.condition (hcs c (by simp))
  | first :: second :: rest =>
    exact .separated (by cases op <;> rfl) fun c hc => h.conjunct (hcs c hc)

theorem xor (h : visit.WritesPlain d s) {l r : Condition} (hl : (Node.condition l).Plain s)
    (hr : (Node.condition r).Plain s) : Phrase d s .gap (visit.xor l r) := by
  refine .dialect (.bind (.parenthesized (h.condition hl).anywhere) fun _ => .bind (.sql ⟨.gap, 0⟩ ?_) fun _ =>
    .parenthesized (h.condition hr).anywhere)
  cases Capability.xor d <;> decide

theorem xmlExists (h : visit.WritesPlain d s) {xpath : String} {x : Field} {passing : Option XmlPassing}
    (hx : (Node.field x).Plain s) : Phrase d s .gap (visit.xmlExists xpath x passing) := by
  have keyword : ∀ p ∈ passing, Moves d s true ⟨.gap, 1⟩ ⟨.gap, 1⟩ (Render.sql p.keyword) := fun p _ =>
    .sql _ (by cases p <;> decide)
  exact .dialect (.bind (.demand _ _) fun _ => .bind (.sql ⟨.gap, 1⟩ rfl) fun _ => .bind (.literal _) fun _ =>
    .bind (.sql ⟨.gap, 1⟩ rfl) fun _ => .bind (.onSome keyword) fun _ => .bind (h.field hx).anywhere fun _ =>
    .sql ⟨.joint, 0⟩ rfl)

theorem truthTest (h : visit.WritesPlain d s) {x : Field} (hx : (Node.field x).Plain s) :
    Phrase d s .gap (visit.truthTest x) :=
  .bind (h.comparand hx) fun _ => .dialect (.when fun _ => .sql ⟨.joint, 0⟩ rfl)

theorem nullPredicate (negated : Bool) : Phrase d s .joint (Render.sql (nullPredicate negated)) :=
  .sql ⟨.joint, 0⟩ (by cases negated <;> decide)

theorem renamed {q : Select} {names : List String} {construct : String} {p r : Spot} {apart : Bool}
    {f : Select → Render Unit} (hq : (Node.select q).Plain s) (hn : ∀ n ∈ names, s.Spells n)
    (hf : ∀ inner, (Node.select inner).Plain s → Moves d s apart p r (f inner)) :
    Moves d s apart p r (Visitor.renamed q names construct >>= f) := by
  have quiet : Moves d s apart p p (Visitor.renamed q names construct) := by
    unfold Visitor.renamed
    cases q.rename? names with
    | none => exact .unsupported construct
    | some plan =>
      exact .ite (fun _ => .bind (.freshAlias _) fun _ => .pure _) fun _ => .bind (.pure _) fun _ => .pure _
  refine .bindReturned quiet fun inner returned => hf inner ?_
  obtain ⟨c, k, hr⟩ := returned
  obtain ⟨plan, i, hp, rfl⟩ := renamed_returns_candidate hr
  exact hq.toSelect hn (s.spells_aliasCandidate (by decide) i) hp

theorem countTest (h : visit.WritesPlain d s) {q : Select} {negated : Bool} (hq : (Node.select q).Plain s) :
    Phrase d s .gap (visit.countTest q negated) := by
  refine renamed hq s.spells_testColumns fun inner hi => .bindReturned (.freshAlias _) fun outer returned => ?_
  obtain ⟨c, k, hr⟩ := returned
  obtain ⟨i, hk⟩ := c.exists_freshAlias_eq "t"
  have spells : s.Spells outer := by
    cases hr
    rw [hk]
    exact s.spells_aliasCandidate (by decide) i
  refine h.compare (.literal _) (.intro trivial (List.forall_mem_singleton.2 ?_))
  exact hi.countPassing s.spells_testColumns spells negated

theorem selectIsNull (h : visit.WritesPlain d s) (hi : s.Indents) {q : Select} {negated : Bool}
    (hq : (Node.select q).Plain s) : Phrase d s .gap (visit.selectIsNull q negated) := by
  refine .dialect ?_
  cases Capability.selectIsNull d q.flattened.length with
  | standard => exact .bind (h.subquery hi hq) fun _ => nullPredicate negated
  | countTest => exact h.countTest hq

theorem conditionParts (h : visit.WritesPlain d s) (hi : s.Indents) {c : Condition} (hc : (Node.condition c).Plain s) :
    Phrase d s .gap (visit.conditionParts c) := by
  have parts := fun m hm => hc.child (m := m) hm
  cases c with
  | none => exact identity .and
  | compare op l r => exact h.compare (parts _ (.head _)) (parts _ (.tail _ (.head _)))
  | isNull x negated => exact .bind (h.comparand (parts _ (.head _))) fun _ => nullPredicate negated
  | between x low high negated =>
    have keyword : Moves d s true ⟨.joint, 0⟩ ⟨.gap, 0⟩
        (Render.sql (if negated then " NOT BETWEEN " else " BETWEEN ")) := .sql _ (by cases negated <;> decide)
    exact .bind (h.comparand (parts _ (.head _))) fun _ => .bind keyword fun _ =>
      .bind (h.comparand (parts _ (.tail _ (.head _)))) fun _ => .bind (.sql ⟨.gap, 0⟩ rfl) fun _ =>
      h.comparand (parts _ (.tail _ (.tail _ (.head _))))
  | inList x xs negated =>
    exact h.inList (parts _ (.head _)) fun y hy => parts _ (List.mem_cons_of_mem _ (List.mem_map_of_mem hy))
  | existence q negated =>
    have keyword : Moves d s true ⟨.gap, 0⟩ ⟨.gap, 0⟩ (Render.sql (if negated then "NOT EXISTS " else "EXISTS ")) :=
      .sql _ (by cases negated <;> decide)
    exact .bind keyword fun _ => h.subquery hi (parts _ (.head _))
  | selectIsNull q negated => exact h.selectIsNull hi (parts _ (.head _))
  | combined op cs => exact h.combined fun c hm => parts _ (List.mem_map_of_mem hm)
  | xor l r => exact h.xor (parts _ (.head _)) (parts _ (.tail _ (.head _)))
  | not c =>
    have inside : Phrase d s .gap (visit.condition c) := h.condition (parts _ (.head _))
    exact .bind (.sql ⟨.gap, 0⟩ rfl) fun _ => .parenthesized inside.anywhere
  | xmlExists xpath x passing => exact h.xmlExists (parts _ (.head _))
  | field x => exact h.truthTest (parts _ (.head _))
  | raw t => exact hc.own.elim

/-! ## Tables -/

theorem hint {n : IndexHint} (hn : (Node.hint n).Plain s) : Phrase d s .gap (Visitor.hint n) := by
  have keyword : Moves d s true ⟨.gap, 0⟩ ⟨.gap, 0⟩ (Render.sql n.kind.keyword) := .sql _ (by cases n.kind <;> decide)
  exact .bind keyword fun _ => .nameList hn.own

/-- An alias behind what it names. -/
theorem behindAs {n : String} (hn : s.Spells n) : Phrase d s .joint (do Render.sql " AS "; Render.name n) :=
  .bind (.sql ⟨.gap, 0⟩ rfl) fun _ => (Moves.name hn).ofSign.toJoint

theorem derived (h : visit.WritesPlain d s) (hi : s.Indents) {q : Select} {n : String} {columns : List String}
    (ht : (Node.table (.derived q n columns)).Plain s) : Phrase d s .gap (visit.derived q n columns) := by
  obtain ⟨hn, hc⟩ : s.Spells n ∧ ∀ c ∈ columns, s.Spells c := ht.own
  have hq : (Node.select q).Plain s := ht.child (.head _)
  have name : Moves d s true ⟨.gap, 0⟩ ⟨.joint, 0⟩ (Render.name n) := (Moves.name hn).ofSign.toJoint
  refine .dialect (.ite (fun _ => ?_) fun _ => renamed hq hc fun inner hq' => ?_)
  · exact .bind (h.subquery hi hq) fun _ => .bind (.sql ⟨.gap, 0⟩ rfl) fun _ => .bind name fun _ =>
      .when fun _ => .nameList hc
  · exact .bind (h.subquery hi hq') fun _ => behindAs hn

theorem joinCondition (h : visit.WritesPlain d s) {matching : JoinCondition}
    (hc : ∀ c, matching = .on c → (Node.condition c).Plain s)
    (hu : ∀ columns, matching = .using columns → ∀ c ∈ columns, s.Spells c) :
    Moves d s false ⟨.joint, 0⟩ ⟨.joint, 0⟩ (visit.joinCondition matching) := by
  cases matching with
  | none => exact .pure ()
  | on c => exact .bind (.sql ⟨.gap, 0⟩ rfl) fun _ => (h.condition (hc c rfl)).anywhere
  | «using» columns =>
    have names : Phrase d s .gap (Render.nameList columns) := .nameList (hu columns rfl)
    exact .bind (.sql ⟨.gap, 0⟩ rfl) fun _ => names.anywhere

theorem table (h : visit.WritesPlain d s) {t : Table} (ht : (Node.table t).Plain s) :
    Closed d s (visit (.table t)) :=
  h _ ht

theorem join (h : visit.WritesPlain d s) (type : JoinType) {l r : Table} {matching : JoinCondition}
    (ht : (Node.table (.join type l r matching)).Plain s) :
    Closed d s (visit.tableParts (.join type l r matching)) := by
  have parts := fun m hm => ht.child (m := m) hm
  have left : Closed d s (visit (.table l)) := h.table (parts _ (by cases matching <;> exact .head _))
  have right : Closed d s (visit (.table r)) := h.table (parts _ (by cases matching <;> exact .tail _ (.head _)))
  have matched : Moves d s false ⟨.joint, 0⟩ ⟨.joint, 0⟩ (visit.joinCondition matching) := by
    refine h.joinCondition ?_ ?_
    · rintro c rfl
      exact parts _ (.tail _ (.tail _ (.head _)))
    · rintro columns rfl
      exact ht.own
  have keyword : Moves d s false ⟨.gap, 0⟩ ⟨.joint, 0⟩ (Render.sql type.keyword) := .sql _ (by cases type <;> decide)
  have inner : Closed d s (Render.parenthesized (visit (.table r))) := (Moves.parenthesized right).anywhere
  exact .bind left fun _ => .bind (.sql ⟨.gap, 0⟩ rfl) fun _ => .bind keyword fun _ =>
    .bind (.sql ⟨.gap, 0⟩ rfl) fun _ => .ite (fun _ => .bind inner fun _ => .when fun _ => matched)
    fun _ => .bind right fun _ => .when fun _ => matched

theorem tableParts (h : visit.WritesPlain d s) (hi : s.Indents) {t : Table} (ht : (Node.table t).Plain s) :
    Closed d s (visit.tableParts t) := by
  have parts := fun m hm => ht.child (m := m) hm
  cases t with
  | named schema n asName =>
    obtain ⟨hs, hn, ha⟩ : (∀ q ∈ schema, s.Spells q) ∧ s.Spells n ∧ ∀ a ∈ asName, s.Spells a := ht.own
    have behind : ∀ a ∈ asName, Phrase d s .joint (do Render.sql " AS "; Render.name a) := fun a hm =>
      behindAs (ha a hm)
    exact Moves.ofSign (.bind (qualifier hs).anywhere fun _ => .bind (Moves.name hn).toJoint fun _ =>
      .onSome fun a hm => (behind a hm).anywhere)
  | derived q n columns => exact (h.derived hi ht).anywhere
  | lateral t =>
    have inner : Closed d s (visit (.table t)) := h.table (parts _ (.head _))
    exact .dialect (.bind (.demand _ _) fun _ => .bind (.sql ⟨.gap, 0⟩ rfl) fun _ => inner)
  | join type l r matching => exact h.join type ht
  | hinted t n =>
    have inner : Closed d s (visit (.table t)) := h.table (parts _ (.head _))
    have hinted : Phrase d s .gap (visit (.hint n)) := h (.hint n) (parts _ (.tail _ (.head _)))
    exact .bind inner fun _ => .dialect (.when fun _ => .bind (.sql ⟨.gap, 0⟩ rfl) fun _ => hinted.anywhere)

/-! ## Selects -/

theorem node (h : visit.WritesPlain d s) {n : Node} (hn : n.Plain s) :
    Moves d s n.isApart ⟨.gap, 0⟩ ⟨.joint, 0⟩ (visit n) := by
  have written := h n hn
  cases n with
  | field x => exact ofFront written
  | _ => exact written

theorem closed (h : visit.WritesPlain d s) {n : Node} (hn : n.Plain s) : Closed d s (visit n) := by
  have written := h.node hn
  cases apart : n.isApart with
  | true =>
    rw [apart] at written
    exact written.anywhere
  | false => rwa [apart] at written

theorem expansion (h : visit.WritesPlain d s) {x : Field} (hx : (Node.field x).Plain s) :
    Phrase d s .gap (visit.expansion x) := by
  cases x with
  | searchedCase bs otherwise => exact ofFront (h.searchedCase hx)
  | _ => exact h.field hx

theorem sortField (h : visit.WritesPlain d s) {e : SortField} (he : (Node.sortField e).Plain s) :
    Phrase d s .gap (visit.sortField e) := by
  have hx : (Node.field e.field).Plain s := he.child (.head _)
  have key : ∀ nulls ∈ e.nulls, Moves d s true ⟨.gap, 0⟩ ⟨.gap, 0⟩ (do
      visit.expansion (SortField.nullKey e.field nulls)
      Render.sql ", ") :=
    fun nulls _ => .bind (h.expansion (hx.nullKey nulls)) fun _ => .sql ⟨.gap, 0⟩ rfl
  have order : ∀ order ∈ e.order, Phrase d s .joint (Render.sql order.keyword) := fun order _ =>
    .sql ⟨.joint, 0⟩ (by cases order <;> decide)
  have nulls : ∀ nulls ∈ e.nulls, Phrase d s .joint (Render.sql nulls.keyword) := fun nulls _ =>
    .sql ⟨.joint, 0⟩ (by cases nulls <;> decide)
  exact .dialect (.bind (.when fun _ => .onSome key) fun _ => .bind (h.field hx) fun _ => .bind (.onSome order) fun _ =>
    .when fun _ => .onSome nulls)

theorem commonTable (h : visit.WritesPlain d s) (hi : s.Indents) {t : CommonTable}
    (ht : (Node.commonTable t).Plain s) : Closed d s (visit.commonTable t) := by
  obtain ⟨hn, hc⟩ : s.Spells t.name ∧ ∀ c ∈ t.columns, s.Spells c := ht.own
  have name : Phrase d s .gap (Render.name t.name) := (Moves.name hn).ofSign.toJoint
  exact .bind name.anywhere fun _ => .bind (.when fun _ => (Moves.nameList hc).anywhere) fun _ =>
    .bind (.sql ⟨.gap, 0⟩ rfl) fun _ => (h.subquery hi (ht.child (.head _))).anywhere

theorem commonTables (h : visit.WritesPlain d s) {isFirst : Bool} {ts : List CommonTable}
    (ht : ∀ t ∈ ts, (Node.commonTable t).Plain s) :
    Moves d s false ⟨if isFirst then .gap else .joint, 0⟩ ⟨.joint, 0⟩ (visit.commonTables isFirst ts) := by
  induction ts generalizing isFirst with
  | nil => exact .toJoint (.pure ())
  | cons t ts ih =>
    obtain ⟨hd, tl⟩ := List.forall_mem_cons.1 ht
    have rest : Moves d s false ⟨.joint, 0⟩ ⟨.joint, 0⟩ (visit.commonTables false ts) := ih tl
    have between : Moves d s false ⟨if isFirst then .gap else .joint, 0⟩ ⟨.gap, 0⟩
        (Render.when (!isFirst) (Render.sql ", ")) := by
      cases isFirst with
      | true => exact .pure ()
      | false => exact .sql ⟨.gap, 0⟩ rfl
    exact .scopes fun _ => .bind (.when fun _ => .throw _) fun _ => .bind (.declare _ _) fun _ =>
      .bind between fun _ => .bind (h.closed hd) fun _ => rest

theorem withClause (h : visit.WritesPlain d s) (hi : s.Indents) {w : With}
    (hw : ∀ t ∈ w.tables, (Node.commonTable t).Plain s) :
    Moves d s false ⟨.gap, 0⟩ ⟨.gap, 0⟩ (visit.withClause w) := by
  have keyword : Moves d s false ⟨.gap, 0⟩ ⟨.gap, 0⟩
      (Render.sql (if w.recursive then "WITH RECURSIVE " else "WITH ")) :=
    .sql _ (by cases w.recursive <;> decide)
  exact .bind keyword fun _ => .bind (h.commonTables hw) fun _ => .gap hi

theorem selectList (h : visit.WritesPlain d s) {xs : List Field} (hxs : ∀ x ∈ xs, (Node.field x).Plain s) :
    Phrase d s .gap (visit.selectList xs) :=
  .ite (fun _ => .sql ⟨.joint, 0⟩ rfl) fun _ => .flags fun _ => .separated rfl fun x hx =>
    .withFlags _ (h.field (hxs x hx))

theorem listClause (h : visit.WritesPlain d s) (hi : s.Indents) {keyword : String} {nodes : List Node}
    (hk : Spot.reaches false keyword ⟨.gap, 0⟩ ⟨.gap, 0⟩ = true) (hn : ∀ n ∈ nodes, n.Plain s) :
    Moves d s false ⟨.joint, 0⟩ ⟨.joint, 0⟩ (visit.listClause keyword nodes) :=
  .when fun _ => .bind (.gap hi) fun _ => .bind (.sql _ hk) fun _ =>
    .separated rfl fun n hm => h.closed (hn n hm)

theorem conditionClause (h : visit.WritesPlain d s) (hi : s.Indents) {keyword : String} {c : Condition}
    (hk : Spot.reaches false keyword ⟨.gap, 0⟩ ⟨.gap, 0⟩ = true) (hc : (Node.condition c).Plain s) :
    Moves d s false ⟨.joint, 0⟩ ⟨.joint, 0⟩ (visit.conditionClause keyword c) :=
  .when fun _ => .bind (.gap hi) fun _ => .bind (.sql _ hk) fun _ => (h.condition hc).anywhere

theorem limitClause (hi : s.Indents) (limit offset : Option Nat) :
    Moves d s false ⟨.joint, 0⟩ ⟨.joint, 0⟩ (limitClause limit offset) := by
  have counted : ∀ {a : Lexer.Edge} {before : String} (n : Nat), Spot.reaches false before ⟨a, 0⟩ ⟨.sign, 0⟩ = true →
      Lexer.Passes d false ⟨a, 0⟩ ⟨.joint, 0⟩ (before ++ Decimal.digits n) := fun n hb =>
    (Lexer.Passes.fixed hb).append (.digits n)
  have unbounded : ∀ u ∈ Capability.unboundedLimit d,
      Moves d s false ⟨.gap, 0⟩ ⟨.gap, 0⟩ (Render.sql ("LIMIT " ++ u ++ " ")) := by
    intro u hu
    unfold Capability.unboundedLimit at hu
    generalize d.family = family at hu
    cases family <;> cases hu <;> exact .sql _ (by decide)
  have behind : ∀ {before after : String} (n : Nat), Spot.reaches false before ⟨.gap, 0⟩ ⟨.sign, 0⟩ = true →
      Spot.reaches false after ⟨.joint, 0⟩ ⟨.joint, 0⟩ = true →
      Moves d s false ⟨.gap, 0⟩ ⟨.joint, 0⟩ (Render.sql (before ++ Decimal.digits n ++ after)) := fun n hb ha =>
    .text ((counted n hb).append (.fixed ha))
  refine .dialect ?_
  cases Capability.limit d with
  | limitOffset =>
    match limit, offset with
    | some n, offset =>
      exact .bind (.gap hi) fun _ => .bind (.text (counted n (by decide))) fun _ =>
        .onSome fun m _ => .text (counted m (by decide))
    | none, some m =>
      exact .bind (.gap hi) fun _ => .bind (.onSome unbounded) fun _ => .text (counted m (by decide))
    | none, none => exact .pure ()
  | offsetFetch =>
    refine .bind (.onSome fun m _ => .bind (.gap hi) fun _ => behind m (by decide) (by decide)) fun _ =>
      .onSome fun n _ => .bind (.gap hi) fun _ => behind n ?_ (by decide)
    split <;> decide

theorem clauses (h : visit.WritesPlain d s) (hi : s.Indents) {q : Select} (hq : (Node.select q).Plain s) :
    Closed d s (visit.clauses q) := by
  obtain ⟨-, -, tables, condition, groupBy, having, orderBy⟩ := Node.Plain.select_iff.1 hq
  exact .bind (.sql ⟨.gap, 0⟩ rfl) fun _ => .bind (.when fun _ => .sql ⟨.gap, 0⟩ rfl) fun _ =>
    .bind (.forM fun _ _ => .declare _ _) fun _ => .bind (h.selectList hq.flattened).anywhere fun _ =>
    .bind (h.listClause hi (by decide) (List.forall_mem_map.2 tables)) fun _ =>
    .bind (h.conditionClause hi (by decide) condition) fun _ =>
    .bind (h.listClause hi (by decide) (List.forall_mem_map.2 groupBy)) fun _ =>
    .bind (h.conditionClause hi (by decide) having) fun _ =>
    .bind (h.listClause hi (by decide) (List.forall_mem_map.2 orderBy)) fun _ => limitClause hi q.limit q.offset

theorem selectUnder (h : visit.WritesPlain d s) (hi : s.Indents) {w : With} {q : Select}
    (hw : ∀ t ∈ w.tables, (Node.commonTable t).Plain s) (hq : (Node.select q).Plain s) :
    Closed d s (visit.selectUnder w q) :=
  .bind (.when fun _ => h.withClause hi hw) fun _ => .flags fun _ => .withFlags _ (h.clauses hi hq)

theorem selectOnLevel (h : visit.WritesPlain d s) (hi : s.Indents) {q : Select} {outermost : Bool}
    (hq : (Node.select q).Plain s) : Closed d s (visit.selectOnLevel q outermost) := by
  have clauses : Closed d s (visit.clauses q) := h.clauses hi hq
  have hoisted : Closed d s (visit.hoistedSelect q) := by
    refine .dialect ?_
    cases hw : q.hoisted d with
    | error e => exact .throw e
    | ok w => exact h.selectUnder hi (hq.hoisted hw) hq
  have own : ∀ w ∈ q.withClause, Moves d s false ⟨.gap, 0⟩ ⟨.gap, 0⟩ (visit.withClause w) := by
    intro w hw
    refine h.withClause hi fun t ht => (Node.Plain.select_iff.1 hq).1 t ?_
    rwa [Select.commonTables, Option.mem_def.1 hw]
  refine .dialect ?_
  cases Capability.withClause d with
  | native => exact .bind (.onSome own) fun _ => clauses
  | unsupported => exact .bind (.demand _ _) fun _ => clauses
  | hoistToTopLevel => exact .flags fun _ => .ite (fun _ => hoisted) fun _ => clauses

/-! ## Whole nodes -/

theorem parts (h : visit.WritesPlain d s) (hi : s.Indents) : Visitor.WritesPlain d s visit.parts := by
  intro n hn
  cases n with
  | field x => exact h.fieldParts hi hn
  | condition c => exact h.conditionParts hi hn
  | table t => exact h.tableParts hi hn
  | select q => exact .scopes fun _ => .onQueryLevel (h.selectOnLevel hi hn)
  | sortField e => exact h.sortField hn
  | commonTable t => exact h.commonTable hi hn
  | window w => exact h.window hn
  | hint n => exact hint hn

end Visitor.WritesPlain

variable {d : Dialect} {s : Settings}

/-- At every level of nesting plain nodes are written as what they are. -/
theorem Render.writesPlain_node (hi : s.Indents) (levels : Nat) : Visitor.WritesPlain d s (Render.node levels) := by
  induction levels with
  | zero => exact fun n _ => .throw _
  | succ levels ih => exact ih.parts hi

theorem Node.Plain.moves_write {n : Node} (hn : n.Plain s) (hi : s.Indents) :
    Moves d s n.isApart ⟨.gap, 0⟩ ⟨.joint, 0⟩ n.write :=
  (Render.writesPlain_node hi n.reach).node hn

/-- A plain node is rendered as tokens that close what they open. None of them is a comment, and none is left open. If
the node is not made of tables, no word of a join stands outside of parentheses. -/
theorem Node.Plain.exists_tokens {n : Node} (hn : n.Plain s) (hi : s.Indents) {r : Rendered}
    (hr : n.render d s = .ok r) : ∃ ts, r.tokens? d = some ts ∧ Token.balanced 0 ts = true
      ∧ (∀ t ∈ ts, t.isClean = true) ∧ (n.isApart = true → Token.isPhrase 0 ts = true) := by
  unfold Node.render at hr
  split at hr
  · next k hk =>
    cases hr
    obtain ⟨-, -, ps, ts, ho, spells, leads⟩ := hn.moves_write hi _ _ _ rfl rfl hk
    have read : k.finish.tokens? d = some ts := by
      rw [Context.finish, ho]
      exact Rendered.tokens?_of_spells spells
    refine ⟨ts, read, Token.balanced_of_leads leads, Token.isClean_of_leads leads, fun apart => ?_⟩
    rw [apart] at leads
    exact Token.isPhrase_of_leads leads
  · cases hr

/-- Quotes and dashes in a name and in a value are no obstacle. -/
example : (Node.condition (.compare .eq (.col "\" --") (.literal (.text "' --")))).Plain .default := by
  have column : (Node.field (.col "\" --")).Plain .default := .leaf ⟨by rintro ⟨⟩, by rintro _ ⟨⟩⟩ rfl
  exact .intro trivial (List.forall_mem_cons.2 ⟨column, List.forall_mem_singleton.2 (.literal _)⟩)

end SqlDialects
