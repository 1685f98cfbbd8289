import SqlDialects.Proofs.Render.FiniteParts
import SqlDialects.Proofs.Render.Levels

/-!
# Rendering ends

A writer may visit nodes that are no parts of what it writes: the expansion of an extremum over one argument fewer,
the `CASE` for a condition or for the nulls of a sort key, the complement of an aggregate, the count that stands for a
null test and the renamed selects under it. All that a node may visit reaches less far than the node, so visits cannot
be nested in each other without end. A writer visits finitely often, so by induction along the visits every node is
written by finitely many (`Node.Renders`), and the outcome is that of `Node.write`.
-/

set_option autoImplicit false

namespace SqlDialects

namespace VisitsFinitely

variable {allowed : Node → Prop}

/-! ## Tables -/

theorem hint (h : IndexHint) : VisitsFinitely allowed fun _ => Visitor.hint h :=
  .bind (.sql _) fun _ => .nameList _

theorem derived {s : Select} (asName : String) {columns : List String} (hs : allowed (.select s))
    (h : ∀ plan a, s.rename? columns = some plan → allowed (.select (plan.toSelect a))) :
    VisitsFinitely allowed fun visit => visit.derived s asName columns := by
  refine .bind .dialect fun d => .ite (fun _ => ?_) fun _ => ?_
  · exact .bind (.subquery (.visit hs)) fun _ => .bind (.sql _) fun _ => .bind (.name _) fun _ =>
      .when fun _ => .nameList _
  · refine .bindReturned (.renamed _ _ _) fun inner hi => ?_
    obtain ⟨_, c, k, hr⟩ := hi
    obtain ⟨plan, a, hp, rfl⟩ := Visitor.renamed_returns hr
    exact .bind (.subquery (.visit (h plan a hp))) fun _ => .bind (.sql _) fun _ => .name _

theorem joinCondition {matching : JoinCondition} (h : ∀ c, matching = .on c → allowed (.condition c)) :
    VisitsFinitely allowed fun visit => visit.joinCondition matching := by
  cases matching with
  | none => exact .pure ()
  | on c => exact .bind (.sql _) fun _ => .visit (h c rfl)
  | «using» columns => exact .bind (.sql _) fun _ => .nameList _

theorem join (type : JoinType) {left right : Table} {matching : JoinCondition} (hl : allowed (.table left))
    (hr : allowed (.table right)) (hm : ∀ c, matching = .on c → allowed (.condition c)) :
    VisitsFinitely allowed fun visit => visit.tableParts (.join type left right matching) := by
  have condition : VisitsFinitely allowed fun visit =>
      Render.when type.takesCondition (visit.joinCondition matching) := .when fun _ => .joinCondition hm
  refine .bind (.visit hl) fun _ => .bind (.sql _) fun _ => .bind (.sql _) fun _ => .bind (.sql _) fun _ => ?_
  by_cases hj : right.isJoin
  · simp only [hj, if_true]
    exact .bind (.parenthesized (.visit hr)) fun _ => condition
  · simp only [hj]
    exact .bind (.visit hr) fun _ => condition

theorem hinted {t : Table} {h : IndexHint} (ht : allowed (.table t)) (hh : allowed (.hint h)) :
    VisitsFinitely allowed fun visit => visit.tableParts (.hinted t h) :=
  .bind (.visit ht) fun _ => .bind .dialect fun _ => .when fun _ => .bind (.sql _) fun _ => .visit hh

/-! ## Clauses -/

theorem sortField {e : SortField} (hf : allowed (.field e.field))
    (hn : ∀ nulls, e.nulls = some nulls → ∀ m ∈ Node.fieldChildren (SortField.nullKey e.field nulls), allowed m) :
    VisitsFinitely allowed fun visit => visit.sortField e := by
  refine .bind .dialect fun _ => .bind (.when fun _ => .onSome fun nulls h => .bind ?_ fun _ => .sql _) fun _ =>
    .bind (.visit hf) fun _ => .bind (.onSome fun _ _ => .sql _) fun _ => .when fun _ => .onSome fun _ _ => .sql _
  have hk := hn nulls h
  cases nulls with
  | first => exact .searchedCase hk
  | last => exact .searchedCase hk

theorem commonTable {t : CommonTable} (h : allowed (.select t.select)) :
    VisitsFinitely allowed fun visit => visit.commonTable t :=
  .bind (.name _) fun _ => .bind (.when fun _ => .nameList _) fun _ => .bind (.sql _) fun _ => .subquery (.visit h)

theorem commonTables (isFirst : Bool) {ts : List CommonTable} (h : ∀ t ∈ ts, allowed (.commonTable t)) :
    VisitsFinitely allowed fun visit => visit.commonTables isFirst ts := by
  induction ts generalizing isFirst with
  | nil => exact .pure ()
  | cons t ts ih =>
    exact .bind .scopes fun _ => .bind (.when fun _ => .throw (by simp)) fun _ => .bind (.declare _ _) fun _ =>
      .bind (.when fun _ => .sql _) fun _ => .bind (.visit (h t (by simp))) fun _ =>
      ih false fun u hu => h u (by simp [hu])

theorem withClause {w : With} (h : ∀ t ∈ w.tables, allowed (.commonTable t)) :
    VisitsFinitely allowed fun visit => visit.withClause w :=
  .bind (.sql _) fun _ => .bind (.commonTables true h) fun _ => .gap

theorem selectList {fs : List Field} (h : ∀ f ∈ fs, allowed (.field f)) :
    VisitsFinitely allowed fun visit => visit.selectList fs :=
  .ite (fun _ => .sql _) fun _ => .bind .flags fun _ => .separated _ fun f hf => .withFlags _ (.visit (h f hf))

theorem listClause (keyword : String) {nodes : List Node} (h : ∀ m ∈ nodes, allowed m) :
    VisitsFinitely allowed fun visit => visit.listClause keyword nodes :=
  .when fun _ => .bind .gap fun _ => .bind (.sql _) fun _ => .separated _ fun m hm => .visit (h m hm)

theorem conditionClause (keyword : String) {c : Condition} (h : allowed (.condition c)) :
    VisitsFinitely allowed fun visit => visit.conditionClause keyword c :=
  .when fun _ => .bind .gap fun _ => .bind (.sql _) fun _ => .visit h

theorem limitClause (limit offset : Option Nat) : VisitsFinitely allowed fun _ => Visitor.limitClause limit offset := by
  refine .bind .dialect fun d => ?_
  cases Capability.limit d with
  | limitOffset =>
    match limit, offset with
    | some n, _ => exact .bind .gap fun _ => .bind (.sql _) fun _ => .onSome fun _ _ => .sql _
    | none, some m => exact .bind .gap fun _ => .bind (.onSome fun _ _ => .sql _) fun _ => .sql _
    | none, none => exact .pure ()
  | offsetFetch =>
    exact .bind (.onSome fun _ _ => .bind .gap fun _ => .sql _) fun _ =>
      .onSome fun _ _ => .bind .gap fun _ => .sql _

/-! ## Selects -/

section

variable {s : Select}

theorem clauses (hc : ∀ m ∈ Node.clauseChildren s, allowed m) (hf : ∀ f ∈ s.flattened, allowed (.field f)) :
    VisitsFinitely allowed fun visit => visit.clauses s := by
  have tables : ∀ m ∈ s.tables.map Node.table, allowed m :=
    fun m hm => hc m (by simp [Node.clauseChildren, List.mem_map.1 hm])
  have groups : ∀ m ∈ s.groupBy.map Node.field, allowed m :=
    fun m hm => hc m (by simp [Node.clauseChildren, List.mem_map.1 hm])
  have keys : ∀ m ∈ s.orderBy.map Node.sortField, allowed m :=
    fun m hm => hc m (by simp [Node.clauseChildren, List.mem_map.1 hm])
  have condition : allowed (.condition s.condition) := hc _ (by simp [Node.clauseChildren])
  have having : allowed (.condition s.having) := hc _ (by simp [Node.clauseChildren])
  exact .bind (.sql _) fun _ => .bind (.when fun _ => .sql _) fun _ =>
    .bind (.forM fun _ _ => .declare _ _) fun _ => .bind (.selectList hf) fun _ =>
    .bind (.listClause _ tables) fun _ => .bind (.conditionClause _ condition) fun _ =>
    .bind (.listClause _ groups) fun _ => .bind (.conditionClause _ having) fun _ =>
    .bind (.listClause _ keys) fun _ => .limitClause _ _

theorem selectUnder {w : With} (hw : ∀ t ∈ w.tables, allowed (.commonTable t))
    (hc : ∀ m ∈ Node.clauseChildren s, allowed m) (hf : ∀ f ∈ s.flattened, allowed (.field f)) :
    VisitsFinitely allowed fun visit => visit.selectUnder w s :=
  .bind (.when fun _ => .withClause hw) fun _ => .bind .flags fun _ => .withFlags _ (.clauses hc hf)

/-- Hoisting refuses a query for its common tables only. -/
theorem hoistedSelect (hw : ∀ d w, s.hoisted d = .ok w → ∀ t ∈ w.tables, allowed (.commonTable t))
    (hc : ∀ m ∈ Node.clauseChildren s, allowed m) (hf : ∀ f ∈ s.flattened, allowed (.field f)) :
    VisitsFinitely allowed fun visit => visit.hoistedSelect s := by
  refine .bind .dialect fun d => ?_
  cases h : s.hoisted d with
  | error e =>
    refine .throw fun he => ?_
    subst he
    rcases Except.bind_eq_error.1 h with h | ⟨_, _, h⟩
    · obtain ⟨_, h | h⟩ := Hoisting.refusal_collect h <;> cases h
    · cases h
  | ok w => exact .selectUnder (hw d w h) hc hf

theorem selectOnLevel (outermost : Bool) (ht : ∀ t ∈ s.commonTables, allowed (.commonTable t))
    (hw : ∀ d w, s.hoisted d = .ok w → ∀ t ∈ w.tables, allowed (.commonTable t))
    (hc : ∀ m ∈ Node.clauseChildren s, allowed m) (hf : ∀ f ∈ s.flattened, allowed (.field f)) :
    VisitsFinitely allowed fun visit => visit.selectOnLevel s outermost := by
  have plain : VisitsFinitely allowed fun visit => visit.clauses s := .clauses hc hf
  refine .bind .dialect fun d => ?_
  cases Capability.withClause d with
  | native =>
    refine .bind (.onSome fun w h => .withClause fun t hm => ht t ?_) fun _ => plain
    rw [Select.commonTables, h]
    exact hm
  | unsupported => exact .bind (.demand _ _) fun _ => plain
  | hoistToTopLevel => exact .bind .flags fun _ => .ite (fun _ => .hoistedSelect hw hc hf) fun _ => plain

theorem select (ht : ∀ t ∈ s.commonTables, allowed (.commonTable t))
    (hw : ∀ d w, s.hoisted d = .ok w → ∀ t ∈ w.tables, allowed (.commonTable t))
    (hc : ∀ m ∈ Node.clauseChildren s, allowed m) (hf : ∀ f ∈ s.flattened, allowed (.field f)) :
    VisitsFinitely allowed fun visit => visit.select s :=
  .bind .scopes fun _ => .onQueryLevel (.selectOnLevel _ ht hw hc hf)

end

/-! ## Whole nodes -/

theorem fieldParts {f : Field} (h : ∀ m, (Node.field f).Visits m → allowed m) :
    VisitsFinitely allowed fun visit => visit.fieldParts f := by
  have child : ∀ m ∈ Node.fieldChildren f, allowed m := fun m hm => h m (.child hm)
  cases f with
  | column c => exact .column c
  | value v => exact .write _
  | inline l => exact .literal _
  | arithmetic op l r => exact .arithmetic op (child _ (.head _)) (child _ (.tail _ (.head _)))
  | neg x => exact .prefixed _ (child _ (.head _))
  | bitNot x => exact .bitNot (child _ (.head _))
  | extremum w xs =>
    refine .extremum (fun x hx => child _ (List.mem_map_of_mem hx)) ?_
    intro first second rest hxs m hm
    subst hxs
    exact h m (.extremum hm)
  | coalesce xs => exact .coalesce fun x hx => child _ (List.mem_map_of_mem hx)
  | call g xs => exact .call g fun x hx => child _ (List.mem_map_of_mem hx)
  | aggregate a =>
    refine .aggregate (fun x hx => child _ ?_) (fun w hw => child _ ?_) fun plain hp => h _ (.complement hp)
    · exact List.mem_append_left _ (by simp [Option.mem_def.1 hx])
    · exact List.mem_append_right _ (by simp [Option.mem_def.1 hw])
  | searchedCase bs e => exact .searchedCase child
  | simpleCase x bs e => exact .simpleCase child
  | cast x t => exact .cast t (child _ (.head _))
  | subquery s => exact .subquery (.visit (child _ (.head _)))
  | condition c => exact .conditionField (child _ (.head _)) fun m hm => h m (.truthCase hm)
  | jsonObject es n => exact .jsonObject n fun e he => child _ (List.mem_map_of_mem (f := fun e => Node.field e.2) he)
  | jsonArray xs n => exact .jsonArray n fun x hx => child _ (List.mem_map_of_mem hx)
  | jsonValue x p r e =>
    refine .jsonValue p r (child _ ?_) fun y hy => child _ ?_
    · rcases e with _ | (_ | _ | _) <;> simp [Node.fieldChildren]
    · subst hy
      simp [Node.fieldChildren]
  | row xs => exact .parenthesized (.fields fun x hx => child _ (List.mem_map_of_mem hx))
  | aliased x a => exact .aliased a (child _ (.head _))
  | raw t => exact .template fun x hx => child _ (List.mem_map_of_mem hx)

theorem conditionParts {c : Condition} (h : ∀ m, (Node.condition c).Visits m → allowed m) :
    VisitsFinitely allowed fun visit => visit.conditionParts c := by
  have child : ∀ m ∈ Node.conditionChildren c, allowed m := fun m hm => h m (.child hm)
  cases c with
  | none => exact .sql _
  | compare op l r => exact .compare op (child _ (.head _)) (child _ (.tail _ (.head _)))
  | isNull x n => exact .bind (.comparand (child _ (.head _))) fun _ => .sql _
  | between x low high n =>
    exact .bind (.comparand (child _ (.head _))) fun _ => .bind (.sql _) fun _ =>
      .bind (.comparand (child _ (.tail _ (.head _)))) fun _ => .bind (.sql _) fun _ =>
      .comparand (child _ (.tail _ (.tail _ (.head _))))
  | inList x xs n =>
    exact .inList n (child _ (.head _)) fun y hy => child _ (List.mem_cons_of_mem _ (List.mem_map_of_mem hy))
  | existence s n => exact .bind (.sql _) fun _ => .subquery (.visit (child _ (.head _)))
  | selectIsNull s n => exact .selectIsNull n (child _ (.head _)) (h _ .one) fun _ a b hp => h _ (.count a b hp)
  | combined op cs => exact .combined op fun c hc => child _ (List.mem_map_of_mem hc)
  | xor l r => exact .xor (child _ (.head _)) (child _ (.tail _ (.head _)))
  | not c => exact .bind (.sql _) fun _ => .parenthesized (.visit (child _ (.head _)))
  | xmlExists p x by' => exact .xmlExists p by' (child _ (.head _))
  | field x => exact .truthTest (child _ (.head _))
  | raw t => exact .template fun x hx => child _ (List.mem_map_of_mem hx)

theorem tableParts {t : Table} (h : ∀ m, (Node.table t).Visits m → allowed m) :
    VisitsFinitely allowed fun visit => visit.tableParts t := by
  have child : ∀ m ∈ Node.tableChildren t, allowed m := fun m hm => h m (.child hm)
  cases t with
  | named schema n asName =>
    exact .bind (.onSome fun _ _ => .bind (.name _) fun _ => .sql _) fun _ => .bind (.name _) fun _ =>
      .onSome fun _ _ => .bind (.sql _) fun _ => .name _
  | derived s a columns => exact .derived a (child _ (.head _)) fun _ inner hp => h _ (.renamed inner hp)
  | lateral t =>
    exact .bind .dialect fun _ => .bind (.demand _ _) fun _ => .bind (.sql _) fun _ => .visit (child _ (.head _))
  | join type l r matching =>
    refine .join type (child _ ?_) (child _ ?_) fun c hc => child _ ?_
    · cases matching <;> simp [Node.tableChildren]
    · cases matching <;> simp [Node.tableChildren]
    · subst hc
      simp [Node.tableChildren]
  | hinted t hint => exact .hinted (child _ (.head _)) (child _ (.tail _ (.head _)))

/-- The writer of a node visits finitely often, and only what the node may visit. -/
theorem parts (n : Node) : VisitsFinitely n.Visits fun visit => visit.parts n := by
  cases n with
  | field f => exact .fieldParts fun _ h => h
  | condition c => exact .conditionParts fun _ h => h
  | table t => exact .tableParts fun _ h => h
  | select s =>
    refine .select (fun t ht => .child ?_) (fun d w hw t ht => .hoisted hw ht) (fun m hm => .child ?_)
      fun f hf => .entry hf
    · exact List.mem_append_left _ (List.mem_map_of_mem ht)
    · exact List.mem_append_right _ hm
  | sortField e => exact .sortField (.child (.head _)) fun _ hn m hm => .nullKey hn hm
  | commonTable t => exact .commonTable (.child (.head _))
  | window w =>
    refine .window (fun f hf => .child ?_) fun e he => .child ?_
    · exact List.mem_append_left _ (List.mem_map_of_mem hf)
    · exact List.mem_append_right _ (List.mem_map_of_mem he)
  | hint hint => exact .hint hint

end VisitsFinitely

/-! ## Visits nested in each other -/

mutual

/-- A node is written from a context with an outcome, in so many visits. Its writer is asked once, and each of the
visits that settle it is a writing of its own. -/
inductive Node.Renders : Node → Context → EStateM.Result RenderError Context Unit → Nat → Prop where
  | writer {n : Node} {c : Context} {visit : Visitor} {visits : List (Node × Context)} {count : Nat}
      (settled : Settles n.Visits (fun visit => visit.parts n) visit c visits)
      (answers : Node.Answers visit visits count) : Renders n c (visit.parts n c) (count + 1)

/-- A visitor answers some visits with what the nodes are written as, in so many visits together. -/
inductive Node.Answers : Visitor → List (Node × Context) → Nat → Prop where
  | nil {visit : Visitor} : Answers visit [] 0
  | cons {visit : Visitor} {n : Node} {c : Context} {visits : List (Node × Context)} {count count' : Nat}
      (head : Node.Renders n c (visit n c) count) (tail : Node.Answers visit visits count') :
      Answers visit ((n, c) :: visits) (count + count')

end

namespace Node

/-- There is no endless descent along visits. -/
theorem visits_wellFounded : WellFounded fun m n : Node => n.Visits m :=
  Subrelation.wf (fun h => h.reach_lt) (InvImage.wf reach Nat.lt_wfRel.wf)

theorem Answers.of_forall {visit : Visitor} {visits : List (Node × Context)}
    (h : ∀ v ∈ visits, ∃ count, v.1.Renders v.2 (visit v.1 v.2) count) : ∃ count, Answers visit visits count := by
  induction visits with
  | nil => exact ⟨0, .nil⟩
  | cons v visits ih =>
    obtain ⟨head, tail⟩ := List.forall_mem_cons.1 h
    obtain ⟨count, hv⟩ := head
    obtain ⟨count', hvs⟩ := ih tail
    exact ⟨count + count', .cons hv hvs⟩

/-- From every context a node is written in finitely many visits. -/
theorem exists_renders (n : Node) (c : Context) : ∃ count, n.Renders c (n.write c) count := by
  induction n using visits_wellFounded.induction generalizing c with
  | _ n ih =>
    obtain ⟨visits, settled⟩ := VisitsFinitely.parts n write c
    obtain ⟨count, answers⟩ := Answers.of_forall fun v hv => ih v.1 (settled.allowed v hv) v.2
    rw [write_eq_parts]
    exact ⟨count + 1, .writer settled answers⟩

mutual

/-- However a node is written, the outcome is the same. -/
theorem Renders.eq_write {n : Node} {c : Context} {r : EStateM.Result RenderError Context Unit} {count : Nat} :
    n.Renders c r count → r = n.write c
  | .writer settled answers => by
    rw [write_eq_parts]
    exact (settled.settled write fun v hv => (answers.eq_write v hv).symm).symm

theorem Answers.eq_write {visit : Visitor} {visits : List (Node × Context)} {count : Nat} :
    Answers visit visits count → ∀ v ∈ visits, visit v.1 v.2 = v.1.write v.2
  | .nil => List.forall_mem_nil _
  | .cons head tail => List.forall_mem_cons.2 ⟨head.eq_write, tail.eq_write⟩

end

theorem write_ne_nestingExceeded (n : Node) (c k : Context) : n.write c ≠ .error .nestingExceeded k := by
  induction n using visits_wellFounded.induction generalizing c k with
  | _ n ih =>
    intro h
    obtain ⟨visits, settled⟩ := VisitsFinitely.parts n write c
    rw [write_eq_parts] at h
    obtain ⟨v, hv, k', exceeded⟩ := settled.exceeds k h
    exact ih v.1 (settled.allowed v hv) v.2 k' exceeded

/-- A visitor that writes every node by its writer and itself is the one that there is. -/
theorem eq_write_of_parts {visit : Visitor} (h : ∀ n, visit n = visit.parts n) (n : Node) : visit n = n.write := by
  induction n using visits_wellFounded.induction with
  | _ n ih =>
    funext c
    obtain ⟨visits, settled⟩ := VisitsFinitely.parts n write c
    rw [h, write_eq_parts]
    exact settled.settled visit fun v hv => congrFun (ih v.1 (settled.allowed v hv)) v.2

/-- Rendering ends. No visits are nested in each other without end, a node is written from any context in finitely
many visits and with one outcome, which is never that the nesting is too deep, and the writers, each of which is given
all of them to visit with, have one solution. -/
theorem rendering_ends :
    (WellFounded fun m n : Node => n.Visits m)
    ∧ (∀ (n : Node) (c : Context), ∃ r count, n.Renders c r count)
    ∧ (∀ (n : Node) (c : Context) r count, n.Renders c r count → r = n.write c)
    ∧ (∀ (n : Node) (c k : Context), n.write c ≠ .error .nestingExceeded k)
    ∧ ∀ visit : Visitor, (∀ n, visit n = visit.parts n) ↔ visit = write := by
  refine ⟨visits_wellFounded, ?_, fun n c r count h => h.eq_write, write_ne_nestingExceeded, ?_⟩
  · intro n c
    obtain ⟨count, h⟩ := exists_renders n c
    exact ⟨n.write c, count, h⟩
  · intro visit
    constructor
    · intro h
      exact funext (eq_write_of_parts h)
    · rintro rfl n
      exact write_eq_parts n

end Node

end SqlDialects
