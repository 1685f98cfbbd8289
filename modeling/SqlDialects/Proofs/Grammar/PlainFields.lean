import SqlDialects.Proofs.Grammar.Arithmetic
import SqlDialects.Proofs.Grammar.Moves
import SqlDialects.Proofs.Grammar.Plain

/-!
# Plain fields and conditions are written as phrases

Writer by writer: with a visitor that writes plain nodes as what they are (`Visitor.WritesPlain`), what a writer makes
of plain parts is a phrase. These follow the `do` blocks of the writers, with the spot that is reached behind each fixed
text.

A field may be written behind a minus sign if it is atomic, unless it is written as one of its parts. For it to be
written there its writer has to begin at a sign.
-/

set_option autoImplicit false

namespace SqlDialects

open Render (Moves Phrase Closed)

/-! ## What a node is written as -/

namespace Node

/-- The edge that a node may be written behind. -/
def front : Node → Lexer.Edge
  | field x => x.front
  | _ => .gap

/-- Whether a node is written without the words of joins. -/
def isApart : Node → Bool
  | table _ | select _ | commonTable _ => false
  | _ => true

end Node

/-- A visitor that writes every plain node as tokens that close what they open, and as a phrase unless it is made of
tables. -/
def Visitor.WritesPlain (d : Dialect) (s : Settings) (visit : Visitor) : Prop :=
  ∀ n : Node, n.Plain s → Moves d s n.isApart ⟨n.front, 0⟩ ⟨.joint, 0⟩ (visit n)

/-! ## Names of functions -/

theorem isFunctionName_builtin : ∀ f ∈ ["GREATEST", "LEAST", "MAXVALUE", "MINVALUE", "MAX", "MIN", "MOD", "CONCAT",
    "BIN_NOT", "BITNOT", "bitwise_not", "BIN_AND", "BITAND", "bitwise_and", "BIN_OR", "BITOR", "bitwise_or", "COUNT",
    "SUM", "AVG", "BIT_AND", "BIT_AND_AGG", "bitwise_and_agg", "BIT_OR", "BIT_OR_AGG", "bitwise_or_agg", "BIT_NAND_AGG",
    "BIT_NOR_AGG", "JSON_ARRAY", "json_build_array", "COALESCE"], IsFunctionName f := by
  unfold IsFunctionName
  decide +kernel

section Names

variable {d : Dialect} {f : String}

theorem Extremum.isFunctionName_of_strategy {which : Extremum} (h : which.strategy d = .substitute f) :
    IsFunctionName f := by
  refine isFunctionName_builtin f ?_
  unfold strategy Capability.least Capability.greatest at h
  generalize d.family = family at h
  cases which <;> cases family <;> cases h <;> simp

theorem Capability.isFunctionName_of_bitNot (h : Capability.bitNot d = .function f) : IsFunctionName f := by
  refine isFunctionName_builtin f ?_
  unfold Capability.bitNot at h
  generalize d.family = family at h
  cases family <;> cases h <;> simp

theorem ArithmeticOp.isFunctionName_of_operation {op : ArithmeticOp} (h : op.operation d = .function f) :
    IsFunctionName f := by
  refine isFunctionName_builtin f ?_
  unfold operation Capability.modulo Capability.concat Capability.bitAnd Capability.bitOr at h
  generalize d.family = family at h
  cases op <;> cases family <;> cases h <;> simp

theorem AggregateKind.isFunctionName_of_name {kind : AggregateKind} (h : kind.name d = .ok f) : IsFunctionName f := by
  refine isFunctionName_builtin f ?_
  unfold name Capability.bitAndAggregate Capability.bitOrAggregate at h
  generalize d.family = family at h
  cases kind <;> cases family <;> cases h <;> simp

end Names

/-! ## Names of types -/

namespace SqlType

variable {d : Dialect}

theorem castTarget_cases (t : SqlType) (d : Dialect) :
    t.castTarget d = t.toSql ∨ t.castTarget d ∈ ["SIGNED", "CHAR", "DOUBLE", "REAL", "BYTEA", "JSONB"] := by
  unfold castTarget
  split <;> simp

theorem passes_sized {name : String} {length : Option Nat} (h : Spot.reaches true name ⟨.gap, 0⟩ ⟨.joint, 0⟩ = true)
    (ho : Spot.reaches true (name ++ "(") ⟨.gap, 0⟩ ⟨.sign, 1⟩ = true) :
    Lexer.Passes d true ⟨.gap, 0⟩ ⟨.joint, 0⟩ (sized name length) := by
  cases length with
  | none => exact .fixed h
  | some n => exact ((Lexer.Passes.fixed ho).append (.digits n)).append (.fixed (by decide))

theorem passes_toSql {t : SqlType} (h : t.IsPlain) : Lexer.Passes d true ⟨.gap, 0⟩ ⟨.joint, 0⟩ t.toSql := by
  cases t with
  | custom name => exact .fixed h
  | char length | varchar length => exact passes_sized (by decide) (by decide)
  | decimal precision scale =>
    have sized : ∀ length, Lexer.Passes d true ⟨.gap, 0⟩ ⟨.joint, 0⟩ (sized "DECIMAL" length) := fun _ =>
      passes_sized (by decide) (by decide)
    match precision, scale with
    | some p, some q =>
      have opening : Lexer.Passes d true ⟨.gap, 0⟩ ⟨.sign, 1⟩ "DECIMAL(" := .fixed (by decide)
      have between : Lexer.Passes d true ⟨.joint, 1⟩ ⟨.sign, 1⟩ ", " := .fixed (by decide)
      exact (((opening.append (.digits p)).append between).append (.digits q)).append (.fixed (by decide))
    | some p, none => exact sized (some p)
    | none, scale => exact sized none
  | _ => exact .fixed (by decide)

theorem passes_castTarget {t : SqlType} (h : t.IsPlain) :
    Lexer.Passes d true ⟨.gap, 0⟩ ⟨.joint, 0⟩ (t.castTarget d) := by
  have fixed : ∀ name ∈ ["SIGNED", "CHAR", "DOUBLE", "REAL", "BYTEA", "JSONB"],
      Spot.reaches true name ⟨.gap, 0⟩ ⟨.joint, 0⟩ = true := by
    decide
  rcases t.castTarget_cases d with same | other
  · rw [same]
    exact passes_toSql h
  · exact .fixed (fixed _ other)

end SqlType

/-! ## Functions -/

namespace Visitor.WritesPlain

variable {d : Dialect} {s : Settings} {visit : Visitor} {x y : Field} {xs : List Field}

theorem ofFront {m : Render Unit} (h : Phrase d s x.front m) : Phrase d s .gap m := by
  unfold Field.front at h
  split at h
  · exact h.ofSign
  · exact h

theorem field (h : visit.WritesPlain d s) (hx : (Node.field x).Plain s) : Phrase d s .gap (visit.field x) :=
  ofFront (h _ hx)

theorem fieldBehindSign (h : visit.WritesPlain d s) (hx : (Node.field x).Plain s) (atomic : x.isAtomic = true)
    (whole : x.isBare = false) : Phrase d s .sign (visit.field x) := by
  have written : Phrase d s x.front (visit.field x) := h _ hx
  rwa [Field.front, atomic, whole] at written

theorem condition (h : visit.WritesPlain d s) {c : Condition} (hc : (Node.condition c).Plain s) :
    Phrase d s .gap (visit.condition c) :=
  h _ hc

theorem select (h : visit.WritesPlain d s) {q : Select} (hq : (Node.select q).Plain s) :
    Closed d s (visit (.select q)) :=
  h _ hq

theorem fields (h : visit.WritesPlain d s) (hxs : ∀ x ∈ xs, (Node.field x).Plain s) :
    Phrase d s .gap (visit.fields xs) :=
  .separated rfl fun x hx => h.field (hxs x hx)

theorem call (h : visit.WritesPlain d s) {f : String} (hf : IsFunctionName f)
    (hxs : ∀ x ∈ xs, (Node.field x).Plain s) : Phrase d s .sign (visit.call f xs) :=
  .applied hf (h.fields hxs).anywhere

theorem branches (h : visit.WritesPlain d s) {α : Type} {test : α → Render Unit} {bs : List (α × Field)}
    (ht : ∀ b ∈ bs, Phrase d s .gap (test b.1)) (hr : ∀ b ∈ bs, (Node.field b.2).Plain s) :
    Phrase d s .joint (visit.branches test bs) := by
  induction bs with
  | nil => exact .pure ()
  | cons b bs ih =>
    have hbs := ih (fun c hc => ht c (by simp [hc])) (fun c hc => hr c (by simp [hc]))
    exact .bind (.sql ⟨.gap, 0⟩ rfl) fun _ => .bind (ht b (by simp)) fun _ => .bind (.sql ⟨.gap, 0⟩ rfl) fun _ =>
      .bind (h.field (hr b (by simp))) fun _ => hbs

theorem caseOf (h : visit.WritesPlain d s) {α : Type} {head : Render Unit} {test : α → Render Unit}
    {bs : List (α × Field)} {otherwise : Option Field} (hh : Phrase d s .sign head)
    (ht : ∀ b ∈ bs, Phrase d s .gap (test b.1)) (hr : ∀ b ∈ bs, (Node.field b.2).Plain s)
    (he : ∀ f ∈ otherwise, (Node.field f).Plain s) :
    Phrase d s (if bs.isEmpty then .gap else .sign) (visit.caseOf head test bs otherwise) := by
  have long : Phrase d s .sign (do
      head
      visit.branches test bs
      Render.onSome otherwise fun f => do
        Render.sql " ELSE "
        visit.field f
      Render.sql " END") :=
    .bind hh fun _ => .bind (h.branches ht hr) fun _ =>
      .bind (.onSome fun f hf => .bind (.sql ⟨.gap, 0⟩ rfl) fun _ => h.field (he f hf)) fun _ => .sql ⟨.joint, 0⟩ rfl
  -- Without branches only the result of `ELSE` is left.
  cases bs with
  | nil =>
    cases otherwise with
    | none => exact .literal _
    | some f => exact h.field (he f rfl)
  | cons b bs => exact long

theorem searchedCase (h : visit.WritesPlain d s) {bs : List (Condition × Field)} {otherwise : Option Field}
    (hx : (Node.field (.searchedCase bs otherwise)).Plain s) :
    Phrase d s (Field.searchedCase bs otherwise).front (visit.searchedCase bs otherwise) := by
  have parts := fun m hm => hx.child (m := m) hm
  have written : Phrase d s (if bs.isEmpty then .gap else .sign) (visit.searchedCase bs otherwise) := by
    refine h.caseOf (.sql ⟨.joint, 0⟩ rfl) (fun b hb => h.condition (parts _ ?_)) (fun b hb => parts _ ?_)
      fun f hf => parts _ ?_
    · exact List.mem_append_left _ (List.mem_flatMap.2 ⟨b, hb, by simp⟩)
    · exact List.mem_append_left _ (List.mem_flatMap.2 ⟨b, hb, by simp⟩)
    · exact List.mem_append_right _ (List.mem_map_of_mem (Option.mem_toList.2 hf))
  cases bs <;> exact written

theorem simpleCase (h : visit.WritesPlain d s) {subject : Field} {bs : List (Field × Field)} {otherwise : Option Field}
    (hx : (Node.field (.simpleCase subject bs otherwise)).Plain s) :
    Phrase d s (Field.simpleCase subject bs otherwise).front (visit.simpleCase subject bs otherwise) := by
  have parts := fun m hm => hx.child (m := m) (List.mem_cons_of_mem _ hm)
  have written : Phrase d s (if bs.isEmpty then .gap else .sign) (visit.simpleCase subject bs otherwise) := by
    refine h.caseOf (.bind (.sql ⟨.gap, 0⟩ rfl) fun _ => h.field (hx.child (.head _)))
      (fun b hb => h.field (parts _ ?_)) (fun b hb => parts _ ?_) fun f hf => parts _ ?_
    · exact List.mem_append_left _ (List.mem_flatMap.2 ⟨b, hb, by simp⟩)
    · exact List.mem_append_left _ (List.mem_flatMap.2 ⟨b, hb, by simp⟩)
    · exact List.mem_append_right _ (List.mem_map_of_mem (Option.mem_toList.2 hf))
  cases bs <;> exact written

theorem extremum (h : visit.WritesPlain d s) {which : Extremum} {args : List Field}
    (hx : (Node.field (.extremum which args)).Plain s) :
    Phrase d s (Field.extremum which args).front (visit.extremum which args) := by
  have hargs : ∀ x ∈ args, (Node.field x).Plain s := fun x hx' => hx.child (List.mem_map_of_mem hx')
  match args with
  | [] => exact .literal _
  | [x] => exact h.field (hargs x (by simp))
  | first :: second :: rest =>
    have front : (Field.extremum which (first :: second :: rest)).front = .sign := by
      simp [Field.front, Field.isAtomic, Field.isBare]
    rw [front]
    refine .dialect ?_
    cases hd : which.strategy d with
    | native => exact h.call (isFunctionName_builtin _ (by cases which <;> simp [Extremum.function])) hargs
    | substitute function => exact h.call (Extremum.isFunctionName_of_strategy hd) hargs
    | caseExpansion => exact h.searchedCase (hx.expand _)

theorem coalesce (h : visit.WritesPlain d s) {args : List Field} (hx : (Node.field (.coalesce args)).Plain s) :
    Phrase d s (Field.coalesce args).front (visit.coalesce args) := by
  have hargs : ∀ x ∈ args, (Node.field x).Plain s := fun x hx' => hx.child (List.mem_map_of_mem hx')
  match args with
  | [] => exact .literal _
  | [x] => exact h.field (hargs x (by simp))
  | first :: second :: rest =>
    have front : (Field.coalesce (first :: second :: rest)).front = .sign := by
      simp [Field.front, Field.isAtomic, Field.isBare]
    rw [front]
    refine .dialect (.applied (isFunctionName_builtin _ (by simp)) (.separated rfl fun x hx => ?_))
    have arg : Phrase d s .gap (visit.field x) := h.field (hargs x hx)
    exact .ite (fun _ => (Moves.parenthesized arg.anywhere).anywhere) fun _ => arg.anywhere

theorem prefixed (h : visit.WritesPlain d s) {a b : Lexer.Edge} {symbol : String}
    (hs : Spot.reaches true symbol ⟨a, 0⟩ ⟨b, 0⟩ = true) (hx : (Node.field x).Plain s)
    (atomic : x.isAtomic = true → Phrase d s b (visit.field x)) : Phrase d s a (visit.prefixed symbol x) :=
  .bind (.sql _ hs) fun _ => .ite atomic fun _ => .parenthesized (h.field hx).anywhere

theorem bitNot (h : visit.WritesPlain d s) (hx : (Node.field x).Plain s) : Phrase d s .sign (visit.bitNot x) := by
  refine .dialect ?_
  cases hd : Capability.bitNot d with
  | operator symbol =>
    have sound := Capability.bitNot_sound d
    rw [hd] at sound
    obtain rfl : symbol = "~" := sound
    exact h.prefixed (by decide) hx fun _ => h.field hx
  | function function => exact h.call (Capability.isFunctionName_of_bitNot hd) (List.forall_mem_singleton.2 hx)
  | unsupported => exact .unsupported _

theorem sortFields (h : visit.WritesPlain d s) {es : List SortField} (he : ∀ e ∈ es, (Node.sortField e).Plain s) :
    Phrase d s .gap (Render.separated ", " (es.map fun e => visit (.sortField e))) :=
  .separated rfl fun e hm => h _ (he e hm)

theorem window (h : visit.WritesPlain d s) {w : Window} (hw : (Node.window w).Plain s) :
    Phrase d s .gap (visit.window w) := by
  have partitions : Phrase d s .gap (visit.fields w.partitionBy) :=
    h.fields fun x hx => hw.child (List.mem_append_left _ (List.mem_map_of_mem hx))
  have order : Phrase d s .gap (Render.separated ", " (w.orderBy.map fun e => visit (.sortField e))) :=
    h.sortFields fun e he => hw.child (List.mem_append_right _ (List.mem_map_of_mem he))
  refine .dialect (.bind (.demand _ _) fun _ => .bind (.sql ⟨.gap, 1⟩ rfl) fun _ => ?_)
  have close : Moves d s true ⟨.joint, 1⟩ ⟨.joint, 0⟩ (Render.sql ")") := .sql ⟨.joint, 0⟩ rfl
  -- What stands before the order decides whether there is a blank.
  generalize (!w.partitionBy.isEmpty && (Capability.constantPartition d || !w.partitionBy.all Field.isConstant))
    = partitioned
  cases partitioned with
  | true =>
    refine .bind (.bind (.sql ⟨.gap, 1⟩ rfl) fun _ => partitions.anywhere) fun _ => .bind (.when fun _ => ?_) fun _ =>
      close
    exact .bind (.sql ⟨.gap, 1⟩ rfl) fun _ => .bind (.sql ⟨.gap, 1⟩ rfl) fun _ => order.anywhere
  | false =>
    refine .bind (.pure ()) fun _ => .bind (.ite (fun _ => ?_) fun _ => .toJoint (.pure ())) fun _ => close
    exact .bind (.pure ()) fun _ => .bind (.sql ⟨.gap, 1⟩ rfl) fun _ => order.anywhere

theorem plainAggregate (h : visit.WritesPlain d s) {a : Aggregate} (hx : (Node.field (.aggregate a)).Plain s) :
    Phrase d s .sign (visit.plainAggregate a) := by
  refine .dialect ?_
  cases hn : a.kind.name d with
  | error construct => exact .unsupported construct
  | ok f =>
    have windowed : ∀ w ∈ a.window, Phrase d s .joint (do Render.sql " "; visit (.window w)) := by
      intro w hw
      refine .bind (.sql ⟨.gap, 0⟩ rfl) fun _ => h (.window w) (hx.child (List.mem_append_right _ ?_))
      exact List.mem_map_of_mem (Option.mem_toList.2 hw)
    refine .appliedBefore (AggregateKind.isFunctionName_of_name hn) ?_ (.onSome windowed)
    refine .bind (.when fun _ => .sql ⟨.gap, 0⟩ rfl) fun _ => ?_
    cases ha : a.value with
    | none => exact .sql ⟨.joint, 0⟩ rfl
    | some x =>
      refine (h.field (hx.child (List.mem_append_left _ (List.mem_map_of_mem ?_)))).anywhere
      rw [ha]
      exact .head _

theorem aggregate (h : visit.WritesPlain d s) {a : Aggregate} (hx : (Node.field (.aggregate a)).Plain s) :
    Phrase d s .sign (visit.aggregate a) := by
  refine .dialect ?_
  cases a.kind.complemented? with
  | none => exact h.plainAggregate hx
  | some plain =>
    cases Capability.negatedBitAggregate d with
    | complementOfAggregate => exact h.bitNot (hx.complement plain)
    | native => exact h.plainAggregate hx

/-! ## JSON -/

theorem jsonEntries (h : visit.WritesPlain d s) {before between : String} {entries : List (String × Field)}
    (hb : Spot.reaches true before ⟨.gap, 0⟩ ⟨.gap, 0⟩ = true)
    (hm : Spot.reaches true between ⟨.joint, 0⟩ ⟨.gap, 0⟩ = true) (he : ∀ e ∈ entries, (Node.field e.2).Plain s) :
    Phrase d s .gap (Render.separated ", " (entries.map (visit.jsonEntry before between))) :=
  .separated rfl fun e hm' => .bind (.sql ⟨.gap, 0⟩ hb) fun _ => .bind (.literal _) fun _ =>
    .bind (.sql ⟨.gap, 0⟩ hm) fun _ => h.field (he e hm')

/-- The members of a constructor and its clause on nulls, with a blank between them if there are any members. -/
theorem withNulls {β : Type} {members : List β} {f : β → Render Unit} (onNull : Option JsonOnNull)
    (hf : ∀ m ∈ members, Phrase d s .gap (f m)) : Moves d s true ⟨.gap, 1⟩ ⟨.joint, 0⟩ (do
      Render.separated ", " (members.map f)
      onNullClause onNull (!members.isEmpty)
      Render.sql ")") := by
  have clauses : ∀ n : JsonOnNull, Spot.reaches true n.clause ⟨.gap, 1⟩ ⟨.joint, 1⟩ = true := by
    intro n
    cases n <;> decide
  have close : Moves d s true ⟨.joint, 1⟩ ⟨.joint, 0⟩ (Render.sql ")") := .sql ⟨.joint, 0⟩ rfl
  cases members with
  | nil =>
    refine .bind (.pure ()) fun _ => .bind (.dialect ?_) fun _ => close
    cases onNull with
    | none => exact .toJoint (.pure ())
    | some n => exact .ite (fun _ => .bind (.pure ()) fun _ => .sql _ (clauses n)) fun _ => .toJoint (.pure ())
  | cons m ms =>
    have list : Phrase d s .gap (Render.separated ", " ((m :: ms).map f)) := .separated rfl hf
    refine .bind list.anywhere fun _ => .bind (.dialect (.onSome fun n _ => ?_)) fun _ => close
    exact .when fun _ => .bind (.sql ⟨.gap, 1⟩ rfl) fun _ => .sql _ (clauses n)

theorem jsonObject (h : visit.WritesPlain d s) {entries : List (String × Field)} {onNull : Option JsonOnNull}
    (hx : (Node.field (.jsonObject entries onNull)).Plain s) : Phrase d s .sign (visit.jsonObject entries onNull) := by
  have values : ∀ e ∈ entries, (Node.field e.2).Plain s := fun e he =>
    hx.child (List.mem_map_of_mem (f := fun e : String × Field => Node.field e.2) he)
  refine .dialect ?_
  cases Capability.jsonConstructor d with
  | standard =>
    refine .bind (.sql ⟨.gap, 1⟩ rfl) fun _ => withNulls onNull fun e he => ?_
    exact .bind (.sql ⟨.gap, 0⟩ rfl) fun _ => .bind (.literal _) fun _ => .bind (.sql ⟨.gap, 0⟩ rfl) fun _ =>
      h.field (values e he)
  | commaSeparated =>
    have pairs : Phrase d s .gap (Render.separated ", " (entries.map (visit.jsonEntry "" ", "))) :=
      h.jsonEntries (by decide) (by decide) values
    exact .bind (.sql ⟨.gap, 1⟩ rfl) fun _ => .bind pairs.anywhere fun _ => .sql ⟨.joint, 0⟩ rfl
  | buildFunction =>
    have pairs : Phrase d s .gap (Render.separated ", " (entries.map (visit.jsonEntry "" ", "))) :=
      h.jsonEntries (by decide) (by decide) values
    generalize (onNull == some .absent) = strip
    cases strip with
    | true =>
      exact .bind (.sql ⟨.gap, 1⟩ rfl) fun _ => .bind (.sql ⟨.gap, 2⟩ rfl) fun _ =>
        .bind pairs.anywhere fun _ => .bind (.sql ⟨.joint, 1⟩ rfl) fun _ => .sql ⟨.joint, 0⟩ rfl
    | false =>
      exact .bind (.pure ()) fun _ => .bind (.sql ⟨.gap, 1⟩ rfl) fun _ => .bind pairs.anywhere fun _ =>
        .bind (.sql ⟨.joint, 0⟩ rfl) fun _ => .pure ()
  | unsupported => exact .unsupported _

theorem jsonArray (h : visit.WritesPlain d s) {elements : List Field} {onNull : Option JsonOnNull}
    (hx : (Node.field (.jsonArray elements onNull)).Plain s) : Phrase d s .sign (visit.jsonArray elements onNull) := by
  have values : ∀ x ∈ elements, (Node.field x).Plain s := fun x he => hx.child (List.mem_map_of_mem he)
  refine .dialect ?_
  cases Capability.jsonConstructor d with
  | standard => exact .bind (.sql ⟨.gap, 1⟩ rfl) fun _ => withNulls onNull fun x he => h.field (values x he)
  | commaSeparated => exact h.call (isFunctionName_builtin _ (by simp)) values
  | buildFunction => exact .bind (.demand _ _) fun _ => h.call (isFunctionName_builtin _ (by simp)) values
  | unsupported => exact .unsupported _

theorem onEmptyClause (h : visit.WritesPlain d s) {e : JsonOnEmpty}
    (he : ∀ x, e = .default x → (Node.field x).Plain s) :
    Moves d s false ⟨.joint, 0⟩ ⟨.joint, 0⟩ (visit.onEmptyClause e) := by
  cases e with
  | null | error => exact .sql ⟨.joint, 0⟩ rfl
  | default x =>
    exact .bind (.sql ⟨.gap, 0⟩ rfl) fun _ => .bind (h.field (he x rfl)).anywhere fun _ => .sql ⟨.joint, 0⟩ rfl

theorem standardJsonValue (h : visit.WritesPlain d s) {path : String} {returning : Option SqlType}
    {onEmpty : Option JsonOnEmpty} (hx : (Node.field x).Plain s) (ht : ∀ t ∈ returning, t.IsPlain)
    (he : ∀ y, onEmpty = some (.default y) → (Node.field y).Plain s) :
    Phrase d s .sign (visit.standardJsonValue x path returning onEmpty) := by
  have target : ∀ t ∈ returning, Phrase d s .joint (do Render.sql " RETURNING "; Render.sql (t.castTarget d)) :=
    fun t hm => .bind (.sql ⟨.gap, 0⟩ rfl) fun _ => .text (SqlType.passes_castTarget (ht t hm))
  have empty : ∀ e ∈ onEmpty,
      Moves d s false ⟨.joint, 0⟩ ⟨.joint, 0⟩ (Render.when (Capability.jsonOnEmpty d) (visit.onEmptyClause e)) :=
    fun e hm => .when fun _ => h.onEmptyClause fun y hy => he y (hy ▸ hm)
  exact .dialect (.bind (.sql ⟨.gap, 1⟩ rfl) fun _ => .bind (h.field hx).anywhere fun _ =>
    .bind (.sql ⟨.gap, 1⟩ rfl) fun _ => .bind (.literal _) fun _ =>
    .bind (.onSome fun t hm => (target t hm).anywhere) fun _ => .bind (.onSome fun e hm => (empty e hm).inside) fun _ =>
    .sql ⟨.joint, 0⟩ rfl)

theorem extraction (h : visit.WritesPlain d s) {f path : String} (hf : Capability.jsonValue d = .substitute f)
    (hx : (Node.field x).Plain s) : Phrase d s .sign (visit.extraction f x path) := by
  have known : f = Capability.jsonPathQueryFirst ∨ f = "json_extract" := by
    unfold Capability.jsonValue at hf
    generalize d.family = family at hf
    cases family <;> cases hf <;> simp
  rcases known with rfl | rfl
  · exact .ite (fun _ => .bind (.sql ⟨.gap, 1⟩ rfl) fun _ => .bind (.sql ⟨.name, 1⟩ rfl) fun _ =>
      .bind (.sql ⟨.gap, 3⟩ rfl) fun _ => .bind (h.field hx).anywhere fun _ =>
      .bind (.sql ⟨.gap, 2⟩ rfl) fun _ => .bind (.literal _) fun _ => .sql ⟨.joint, 0⟩ rfl) fun ne => absurd rfl ne
  · exact .ite (fun eq => absurd eq (by decide)) fun _ => .bind (.sql ⟨.name, 0⟩ rfl) fun _ =>
      .bind (.sql ⟨.gap, 1⟩ rfl) fun _ => .bind (h.field hx).anywhere fun _ => .bind (.sql ⟨.gap, 1⟩ rfl) fun _ =>
      .bind (.literal _) fun _ => .sql ⟨.joint, 0⟩ rfl

theorem orDefault (h : visit.WritesPlain d s) {value : Render Unit} (hv : Phrase d s .sign value)
    (hy : (Node.field y).Plain s) : Phrase d s .sign (do
      Render.sql "COALESCE("
      value
      Render.sql ", "
      visit.field y
      Render.sql ")") :=
  .bind (.sql ⟨.gap, 1⟩ rfl) fun _ => .bind hv.ofSign.anywhere fun _ =>
    .bind (.sql ⟨.gap, 1⟩ rfl) fun _ => .bind (h.field hy).anywhere fun _ => .sql ⟨.joint, 0⟩ rfl

theorem substituteJsonValue (h : visit.WritesPlain d s) {f path : String} {returning : Option SqlType}
    {onEmpty : Option JsonOnEmpty} (hf : Capability.jsonValue d = .substitute f) (hx : (Node.field x).Plain s)
    (ht : ∀ t ∈ returning, t.IsPlain) (he : ∀ y, onEmpty = some (.default y) → (Node.field y).Plain s) :
    Phrase d s .sign (visit.substituteJsonValue f x path returning onEmpty) := by
  have bare : Phrase d s .sign (visit.extraction f x path) := h.extraction hf hx
  refine .dialect ?_
  cases returning with
  | none =>
    cases onEmpty with
    | none => exact bare
    | some e =>
      cases e with
      | null => exact bare
      | error => exact .unsupported _
      | default y => exact h.orDefault bare (he y rfl)
  | some t =>
    have target : Phrase d s .gap (Render.sql (t.castTarget d)) := .text (SqlType.passes_castTarget (ht t rfl))
    have converted : Phrase d s .sign (do
        Render.sql "CAST("
        visit.extraction f x path
        Render.sql " AS "
        Render.sql (t.castTarget d)
        Render.sql ")") :=
      .bind (.sql ⟨.gap, 1⟩ rfl) fun _ => .bind bare.ofSign.anywhere fun _ =>
        .bind (.sql ⟨.gap, 1⟩ rfl) fun _ => .bind target.anywhere fun _ => .sql ⟨.joint, 0⟩ rfl
    cases onEmpty with
    | none => exact converted
    | some e =>
      cases e with
      | null => exact converted
      | error => exact .unsupported _
      | default y => exact h.orDefault converted (he y rfl)

theorem jsonValue (h : visit.WritesPlain d s) {path : String} {returning : Option SqlType}
    {onEmpty : Option JsonOnEmpty} (hx : (Node.field (.jsonValue x path returning onEmpty)).Plain s) :
    Phrase d s .sign (visit.jsonValue x path returning onEmpty) := by
  have types : ∀ t ∈ returning, t.IsPlain := hx.own
  have document : (Node.field x).Plain s := by
    refine hx.child ?_
    rcases onEmpty with _ | _ | _ | y <;> exact .head _
  have default : ∀ y, onEmpty = some (.default y) → (Node.field y).Plain s := by
    rintro y rfl
    exact hx.child (.tail _ (.head _))
  refine .dialect ?_
  cases hf : Capability.jsonValue d with
  | standard => exact h.standardJsonValue document types default
  | substitute f => exact h.substituteJsonValue hf document types default
  | unsupported => exact .unsupported _

/-! ## Fields -/

theorem operand (h : visit.WritesPlain d s) {parent : ArithmeticOp} {onRight : Bool} (hx : (Node.field x).Plain s) :
    Phrase d s .gap (visit.operand parent onRight x) :=
  .ite (fun _ => .parenthesized (h.field hx).anywhere) fun _ => h.field hx

theorem arithmetic (h : visit.WritesPlain d s) {op : ArithmeticOp} (hx : (Node.field x).Plain s)
    (hy : (Node.field y).Plain s) : Phrase d s .gap (visit.arithmetic op x y) := by
  refine .dialect ?_
  cases hd : op.operation d with
  | operator symbol =>
    have sound := op.operation_sound d
    rw [hd] at sound
    obtain rfl : symbol = op.symbol := sound
    have written : Phrase d s .gap (Render.sql op.symbol) :=
      .text ⟨_, op.reads_symbol d, Token.leads_single rfl (by cases op <;> decide) (by cases op <;> decide)⟩
    exact .bind (h.operand hx) fun _ => .bind (.sql ⟨.gap, 0⟩ rfl) fun _ => .bind written fun _ =>
      .bind (.sql ⟨.gap, 0⟩ rfl) fun _ => h.operand hy
  | function f =>
    refine (h.call (ArithmeticOp.isFunctionName_of_operation hd) ?_).ofSign
    exact List.forall_mem_cons.2 ⟨hx, List.forall_mem_singleton.2 hy⟩
  | unsupported => exact .unsupported _

/-- What stands before a qualified name. -/
theorem qualifier {q : Option String} (hq : ∀ t ∈ q, s.Spells t) : Moves d s true ⟨.sign, 0⟩ ⟨.sign, 0⟩
    (Render.onSome q fun t => do
      Render.name t
      Render.sql ".") :=
  .onSome fun t hm => .bind (.name (hq t hm)) fun _ => .point

theorem column {c : ColumnRef} (hc : (Node.field (.column c)).Plain s) : Phrase d s .sign (Visitor.column c) := by
  obtain ⟨hn, ht⟩ : s.Spells c.name ∧ ∀ t ∈ c.table, s.Spells t := hc.own
  exact .bind (qualifier ht) fun _ => (Moves.name hn).toJoint

theorem cast (h : visit.WritesPlain d s) {t : SqlType} (hx : (Node.field (.cast x t)).Plain s) :
    Phrase d s .sign (visit.cast x t) := by
  have target : Phrase d s .gap (Render.sql (t.castTarget d)) := .text (SqlType.passes_castTarget hx.own)
  exact .dialect (.bind (.sql ⟨.gap, 1⟩ rfl) fun _ => .bind (h.field (hx.child (.head _))).anywhere fun _ =>
    .bind (.sql ⟨.gap, 1⟩ rfl) fun _ => .bind target.anywhere fun _ => .sql ⟨.joint, 0⟩ rfl)

theorem conditionField (h : visit.WritesPlain d s) {c : Condition} (hc : (Node.condition c).Plain s) :
    Phrase d s .gap (visit.conditionField c) := by
  refine .dialect ?_
  cases Capability.conditionAsField d with
  | native => exact h.condition hc
  | caseExpansion => exact ofFront (h.searchedCase hc.asCase)

theorem aliased (h : visit.WritesPlain d s) {a : String} (hx : (Node.field (.aliased x a)).Plain s) :
    Phrase d s .gap (visit.aliased x a) := by
  have declared : ∀ flags, Moves d s true ⟨.gap, 0⟩ ⟨.gap, 0⟩ (do
      Render.withFlags flags (visit.field x)
      Render.sql " AS ") :=
    fun flags => .bind (.withFlags flags (h.field (hx.child (.head _)))) fun _ => .sql ⟨.gap, 0⟩ rfl
  exact .flags fun flags => .bind (.when fun _ => declared _) fun _ => (Moves.name hx.own).ofSign.toJoint

theorem subquery (h : visit.WritesPlain d s) (hi : s.Indents) {a : Lexer.Edge} {q : Select}
    (hq : (Node.select q).Plain s) : Phrase d s a (Render.subquery (visit (.select q))) :=
  .subquery hi (h.select hq)

theorem fieldParts (h : visit.WritesPlain d s) (hi : s.Indents) (hx : (Node.field x).Plain s) :
    Phrase d s x.front (visit.fieldParts x) := by
  have parts := fun m hm => hx.child (m := m) hm
  cases x with
  | column c => exact column hx
  | value v => exact .value v
  | inline l => exact .literal l.value
  | arithmetic op l r => exact h.arithmetic (parts _ (.head _)) (parts _ (.tail _ (.head _)))
  | neg x =>
    exact h.prefixed (a := .gap) (b := .sign) (by decide) (parts _ (.head _)) fun atomic =>
      h.fieldBehindSign (parts _ (.head _)) atomic hx.own
  | bitNot x => exact Moves.ofSign (h.bitNot (parts _ (.head _)))
  | extremum which args => exact h.extremum hx
  | coalesce args => exact h.coalesce hx
  | call f args => exact h.call hx.own fun x hm => parts _ (List.mem_map_of_mem hm)
  | aggregate a => exact h.aggregate hx
  | searchedCase bs otherwise => exact h.searchedCase hx
  | simpleCase subject bs otherwise => exact h.simpleCase hx
  | cast x t => exact h.cast hx
  | subquery q => exact h.subquery hi (parts _ (.head _))
  | condition c => exact h.conditionField (parts _ (.head _))
  | jsonObject entries onNull => exact h.jsonObject hx
  | jsonArray elements onNull => exact h.jsonArray hx
  | jsonValue document path returning onEmpty => exact h.jsonValue hx
  | row members => exact .parenthesized (h.fields fun x hm => parts _ (List.mem_map_of_mem hm)).anywhere
  | aliased x a => exact h.aliased hx
  | raw t => exact hx.own.elim

end Visitor.WritesPlain

end SqlDialects
