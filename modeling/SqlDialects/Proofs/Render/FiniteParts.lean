import SqlDialects.Proofs.Render.Finite

/-!
# What the writers of fields and conditions visit

Writer by writer: a writer visits finitely often, if it may visit what it is given. These follow the `do` blocks of
the writers step by step. The nodes that a writer makes itself are among those that it must be allowed to visit.
-/

set_option autoImplicit false

namespace SqlDialects.VisitsFinitely

variable {allowed : Node → Prop}

/-! ## Functions -/

theorem fields {fs : List Field} (h : ∀ f ∈ fs, allowed (.field f)) :
    VisitsFinitely allowed fun visit => visit.fields fs :=
  .separated _ fun f hf => .visit (h f hf)

theorem call (function : String) {args : List Field} (h : ∀ f ∈ args, allowed (.field f)) :
    VisitsFinitely allowed fun visit => visit.call function args :=
  .bind (.sql _) fun _ => .parenthesized (.fields h)

theorem branches {α : Type} {test : Visitor → α → Render Unit} {bs : List (α × Field)}
    (ht : ∀ b ∈ bs, VisitsFinitely allowed fun visit => test visit b.1) (hr : ∀ b ∈ bs, allowed (.field b.2)) :
    VisitsFinitely allowed fun visit => visit.branches (test visit) bs := by
  induction bs with
  | nil => exact .pure ()
  | cons b bs ih =>
    have hbs := ih (fun c hc => ht c (by simp [hc])) (fun c hc => hr c (by simp [hc]))
    exact .bind (.sql _) fun _ => .bind (ht b (by simp)) fun _ => .bind (.sql _) fun _ =>
      .bind (.visit (hr b (by simp))) fun _ => hbs

theorem caseOf {α : Type} {head : Visitor → Render Unit} {test : Visitor → α → Render Unit} {bs : List (α × Field)}
    {otherwise : Option Field} (hh : VisitsFinitely allowed head)
    (ht : ∀ b ∈ bs, VisitsFinitely allowed fun visit => test visit b.1) (hr : ∀ b ∈ bs, allowed (.field b.2))
    (he : ∀ f ∈ otherwise, allowed (.field f)) :
    VisitsFinitely allowed fun visit => visit.caseOf (head visit) (test visit) bs otherwise := by
  have long : VisitsFinitely allowed fun visit =>
      (do head visit; visit.branches (test visit) bs
          Render.onSome otherwise fun f => do Render.sql " ELSE "; visit.field f
          Render.sql " END") :=
    .bind hh fun _ => .bind (.branches ht hr) fun _ =>
      .bind (.onSome fun f hf => .bind (.sql _) fun _ => .visit (he f hf)) fun _ => .sql _
  -- Without branches only the result of `ELSE` is left.
  cases bs with
  | nil =>
    cases otherwise with
    | none => exact .literal _
    | some f => exact .visit (he f rfl)
  | cons b bs => exact long

theorem searchedCase {bs : List (Condition × Field)} {otherwise : Option Field}
    (h : ∀ m ∈ Node.fieldChildren (.searchedCase bs otherwise), allowed m) :
    VisitsFinitely allowed fun visit => visit.searchedCase bs otherwise := by
  refine .caseOf (.sql _) (fun b hb => .visit (h _ ?_)) (fun b hb => h _ ?_) fun f hf => h _ ?_
  · exact List.mem_append_left _ (List.mem_flatMap.2 ⟨b, hb, by simp⟩)
  · exact List.mem_append_left _ (List.mem_flatMap.2 ⟨b, hb, by simp⟩)
  · exact List.mem_append_right _ (by simp [Option.mem_def.1 hf])

theorem simpleCase {subject : Field} {bs : List (Field × Field)} {otherwise : Option Field}
    (h : ∀ m ∈ Node.fieldChildren (.simpleCase subject bs otherwise), allowed m) :
    VisitsFinitely allowed fun visit => visit.simpleCase subject bs otherwise := by
  refine .caseOf (.bind (.sql _) fun _ => .visit (h _ (.head _))) (fun b hb => .visit (h _ ?_)) (fun b hb => h _ ?_)
    fun f hf => h _ ?_
  · exact List.mem_cons_of_mem _ (List.mem_append_left _ (List.mem_flatMap.2 ⟨b, hb, by simp⟩))
  · exact List.mem_cons_of_mem _ (List.mem_append_left _ (List.mem_flatMap.2 ⟨b, hb, by simp⟩))
  · exact List.mem_cons_of_mem _ (List.mem_append_right _ (by simp [Option.mem_def.1 hf]))

theorem extremum {which : Extremum} {args : List Field} (h : ∀ f ∈ args, allowed (.field f))
    (he : ∀ first second rest, args = first :: second :: rest →
      ∀ m ∈ Node.fieldChildren (which.expand which.comparison first second rest), allowed m) :
    VisitsFinitely allowed fun visit => visit.extremum which args := by
  match args with
  | [] => exact .literal _
  | [x] => exact .visit (h x (by simp))
  | first :: second :: rest =>
    refine .bind .dialect fun d => ?_
    cases which.strategy d with
    | native => exact .call _ h
    | substitute function => exact .call _ h
    | caseExpansion => exact .searchedCase (he first second rest rfl)

theorem coalesce {args : List Field} (h : ∀ f ∈ args, allowed (.field f)) :
    VisitsFinitely allowed fun visit => visit.coalesce args := by
  match args with
  | [] => exact .literal _
  | [x] => exact .visit (h x (by simp))
  | first :: second :: rest =>
    exact .bind .dialect fun d => .bind (.sql _) fun _ => .parenthesized (.separated _ fun x hx =>
      .ite (fun _ => .parenthesized (.visit (h x hx))) fun _ => .visit (h x hx))

theorem prefixed (symbol : String) {operand : Field} (h : allowed (.field operand)) :
    VisitsFinitely allowed fun visit => visit.prefixed symbol operand :=
  .bind (.sql _) fun _ => .ite (fun _ => .visit h) fun _ => .parenthesized (.visit h)

theorem bitNot {operand : Field} (h : allowed (.field operand)) :
    VisitsFinitely allowed fun visit => visit.bitNot operand := by
  refine .bind .dialect fun d => ?_
  cases Capability.bitNot d with
  | operator symbol => exact .prefixed symbol h
  | function function => exact .call function (List.forall_mem_singleton.2 h)
  | unsupported => exact .unsupported _

theorem window {w : Window} (hp : ∀ f ∈ w.partitionBy, allowed (.field f))
    (ho : ∀ e ∈ w.orderBy, allowed (.sortField e)) : VisitsFinitely allowed fun visit => visit.window w :=
  .bind .dialect fun _ => .bind (.demand _ _) fun _ => .bind (.sql _) fun _ =>
    .bind (.when fun _ => .bind (.sql _) fun _ => .fields hp) fun _ =>
    .bind (.when fun _ => .bind (.when fun _ => .sql _) fun _ => .bind (.sql _) fun _ =>
      .separated _ fun e he => .visit (ho e he)) fun _ => .sql _

theorem plainAggregate {a : Aggregate} (hv : ∀ f ∈ a.value, allowed (.field f))
    (hw : ∀ w ∈ a.window, allowed (.window w)) : VisitsFinitely allowed fun visit => visit.plainAggregate a := by
  refine .bind .dialect fun d => ?_
  cases a.kind.name d with
  | error construct => exact .unsupported construct
  | ok function =>
    refine .bind (.sql _) fun _ =>
      .bind (.parenthesized (.bind (.when fun _ => .sql _) fun _ => ?_)) fun _ =>
      .onSome fun w h => .bind (.sql _) fun _ => .visit (hw w h)
    cases hx : a.value with
    | none => exact .sql _
    | some x => exact .visit (hv x hx)

theorem aggregate {a : Aggregate} (hv : ∀ f ∈ a.value, allowed (.field f))
    (hw : ∀ w ∈ a.window, allowed (.window w))
    (hc : ∀ plain, a.kind.complemented? = some plain → allowed (.field (.aggregate { a with kind := plain }))) :
    VisitsFinitely allowed fun visit => visit.aggregate a := by
  refine .bind .dialect fun d => ?_
  cases hk : a.kind.complemented? with
  | none => exact .plainAggregate hv hw
  | some plain =>
    cases Capability.negatedBitAggregate d with
    | complementOfAggregate => exact .bitNot (hc plain hk)
    | _ => exact .plainAggregate hv hw

/-! ## JSON -/

theorem jsonEntries (before between : String) {entries : List (String × Field)}
    (h : ∀ e ∈ entries, allowed (.field e.2)) :
    VisitsFinitely allowed fun visit => Render.separated ", " (entries.map (visit.jsonEntry before between)) :=
  .separated _ fun e he => .bind (.sql _) fun _ => .bind (.literal _) fun _ => .bind (.sql _) fun _ => .visit (h e he)

theorem onNullClause (onNull : Option JsonOnNull) (hasMembers : Bool) :
    VisitsFinitely allowed fun _ => Visitor.onNullClause onNull hasMembers :=
  .bind .dialect fun _ => .onSome fun _ _ => .when fun _ => .bind (.when fun _ => .sql _) fun _ => .sql _

theorem jsonObject {entries : List (String × Field)} (onNull : Option JsonOnNull)
    (h : ∀ e ∈ entries, allowed (.field e.2)) :
    VisitsFinitely allowed fun visit => visit.jsonObject entries onNull := by
  refine .bind .dialect fun d => ?_
  cases Capability.jsonConstructor d with
  | standard =>
    exact .bind (.sql _) fun _ => .bind (.jsonEntries _ _ h) fun _ => .bind (.onNullClause _ _) fun _ => .sql _
  | commaSeparated => exact .bind (.sql _) fun _ => .bind (.jsonEntries _ _ h) fun _ => .sql _
  | buildFunction =>
    exact .bind (.when fun _ => .sql _) fun _ => .bind (.sql _) fun _ =>
      .bind (.jsonEntries _ _ h) fun _ => .bind (.sql _) fun _ => .when fun _ => .sql _
  | unsupported => exact .unsupported _

theorem jsonArray {elements : List Field} (onNull : Option JsonOnNull) (h : ∀ f ∈ elements, allowed (.field f)) :
    VisitsFinitely allowed fun visit => visit.jsonArray elements onNull := by
  refine .bind .dialect fun d => ?_
  cases Capability.jsonConstructor d with
  | standard => exact .bind (.sql _) fun _ => .bind (.fields h) fun _ => .bind (.onNullClause _ _) fun _ => .sql _
  | commaSeparated => exact .call _ h
  | buildFunction => exact .bind (.demand _ _) fun _ => .call _ h
  | unsupported => exact .unsupported _

theorem onEmptyClause {e : JsonOnEmpty} (h : ∀ x, e = .default x → allowed (.field x)) :
    VisitsFinitely allowed fun visit => visit.onEmptyClause e := by
  cases e with
  | null => exact .sql _
  | error => exact .sql _
  | default x => exact .bind (.sql _) fun _ => .bind (.visit (h x rfl)) fun _ => .sql _

theorem standardJsonValue {document : Field} (path : String) (returning : Option SqlType)
    {onEmpty : Option JsonOnEmpty} (hd : allowed (.field document))
    (he : ∀ x, onEmpty = some (.default x) → allowed (.field x)) :
    VisitsFinitely allowed fun visit => visit.standardJsonValue document path returning onEmpty :=
  .bind .dialect fun _ => .bind (.sql _) fun _ => .bind (.visit hd) fun _ => .bind (.sql _) fun _ =>
    .bind (.literal _) fun _ => .bind (.onSome fun _ _ => .bind (.sql _) fun _ => .sql _) fun _ =>
    .bind (.onSome fun _ h => .when fun _ => .onEmptyClause fun x hx => he x (hx ▸ h)) fun _ => .sql _

theorem extraction (function : String) {document : Field} (path : String) (h : allowed (.field document)) :
    VisitsFinitely allowed fun visit => visit.extraction function document path := by
  refine .ite (fun _ => ?_) fun _ => ?_
  · exact .bind (.sql _) fun _ => .bind (.sql _) fun _ => .bind (.sql _) fun _ => .bind (.visit h) fun _ =>
      .bind (.sql _) fun _ => .bind (.literal _) fun _ => .sql _
  · exact .bind (.sql _) fun _ => .bind (.sql _) fun _ => .bind (.visit h) fun _ =>
      .bind (.sql _) fun _ => .bind (.literal _) fun _ => .sql _

theorem substituteJsonValue (function : String) {document : Field} (path : String) (returning : Option SqlType)
    {onEmpty : Option JsonOnEmpty} (hd : allowed (.field document))
    (he : ∀ x, onEmpty = some (.default x) → allowed (.field x)) :
    VisitsFinitely allowed fun visit => visit.substituteJsonValue function document path returning onEmpty := by
  have bare := extraction function path hd
  refine .bind .dialect fun d => ?_
  cases returning with
  | none =>
    match onEmpty with
    | none | some .null => exact bare
    | some .error => exact .unsupported _
    | some (.default x) =>
      exact .bind (.sql _) fun _ => .bind bare fun _ => .bind (.sql _) fun _ =>
        .bind (.visit (he x rfl)) fun _ => .sql _
  | some t =>
    have converted : VisitsFinitely allowed fun visit =>
        (do Render.sql "CAST("; visit.extraction function document path; Render.sql " AS "
            Render.sql (t.castTarget d); Render.sql ")") :=
      .bind (.sql _) fun _ => .bind bare fun _ => .bind (.sql _) fun _ => .bind (.sql _) fun _ => .sql _
    match onEmpty with
    | none | some .null => exact converted
    | some .error => exact .unsupported _
    | some (.default x) =>
      exact .bind (.sql _) fun _ => .bind converted fun _ => .bind (.sql _) fun _ =>
        .bind (.visit (he x rfl)) fun _ => .sql _

theorem jsonValue {document : Field} (path : String) (returning : Option SqlType) {onEmpty : Option JsonOnEmpty}
    (hd : allowed (.field document)) (he : ∀ x, onEmpty = some (.default x) → allowed (.field x)) :
    VisitsFinitely allowed fun visit => visit.jsonValue document path returning onEmpty := by
  refine .bind .dialect fun d => ?_
  cases Capability.jsonValue d with
  | standard => exact .standardJsonValue path returning hd he
  | substitute function => exact .substituteJsonValue function path returning hd he
  | unsupported => exact .unsupported _

/-! ## Fields -/

theorem operand (parent : ArithmeticOp) (onRight : Bool) {x : Field} (h : allowed (.field x)) :
    VisitsFinitely allowed fun visit => visit.operand parent onRight x :=
  .ite (fun _ => .parenthesized (.visit h)) fun _ => .visit h

theorem arithmetic (op : ArithmeticOp) {left right : Field} (hl : allowed (.field left))
    (hr : allowed (.field right)) : VisitsFinitely allowed fun visit => visit.arithmetic op left right := by
  refine .bind .dialect fun d => ?_
  cases op.operation d with
  | operator symbol =>
    exact .bind (.operand op false hl) fun _ => .bind (.sql _) fun _ => .bind (.sql _) fun _ =>
      .bind (.sql _) fun _ => .operand op true hr
  | function function => exact .call function (by simp [hl, hr])
  | unsupported => exact .unsupported _

theorem column (c : ColumnRef) : VisitsFinitely allowed fun _ => Visitor.column c :=
  .bind (.onSome fun _ _ => .bind (.name _) fun _ => .sql _) fun _ => .name _

theorem cast {x : Field} (type : SqlType) (h : allowed (.field x)) :
    VisitsFinitely allowed fun visit => visit.cast x type :=
  .bind .dialect fun _ => .bind (.sql _) fun _ => .bind (.visit h) fun _ => .bind (.sql _) fun _ =>
    .bind (.sql _) fun _ => .sql _

theorem conditionField {c : Condition} (h : allowed (.condition c))
    (he : ∀ m ∈ Node.fieldChildren c.asCase, allowed m) :
    VisitsFinitely allowed fun visit => visit.conditionField c := by
  refine .bind .dialect fun d => ?_
  cases Capability.conditionAsField d with
  | native => exact .visit h
  | caseExpansion => exact .searchedCase he

theorem aliased {x : Field} (asName : String) (h : allowed (.field x)) :
    VisitsFinitely allowed fun visit => visit.aliased x asName :=
  .bind .flags fun _ => .bind (.when fun _ => .bind (.withFlags _ (.visit h)) fun _ => .sql _) fun _ => .name _

theorem template {t : Template} (h : ∀ f ∈ t.substitutes, allowed (.field f)) :
    VisitsFinitely allowed fun visit => visit.template t := by
  simp only [Visitor.template_eq_splices]
  refine .ite (fun _ => .sql _) fun _ => .forM fun s _ => ?_
  cases s with
  | text text => exact .sql _
  | substitute index =>
    cases hx : t.substitutes[index]? with
    | none =>
      simp only [Visitor.spliced_missing _ hx]
      exact .throw (by simp)
    | some x =>
      simp only [Visitor.spliced_some _ hx]
      exact .splice (.visit (h x (List.mem_of_getElem? hx)))

/-! ## Conditions -/

theorem comparand {x : Field} (h : allowed (.field x)) : VisitsFinitely allowed fun visit => visit.comparand x :=
  .ite (fun _ => .parenthesized (.visit h)) fun _ => .visit h

theorem compare (op : ComparisonOp) {left right : Field} (hl : allowed (.field left)) (hr : allowed (.field right)) :
    VisitsFinitely allowed fun visit => visit.compare op left right :=
  .bind (.comparand hl) fun _ => .bind (.sql _) fun _ => .bind (.sql _) fun _ =>
    .bind (.sql _) fun _ => .comparand hr

theorem inList {x : Field} {candidates : List Field} (negated : Bool) (hx : allowed (.field x))
    (h : ∀ f ∈ candidates, allowed (.field f)) :
    VisitsFinitely allowed fun visit => visit.inList x candidates negated :=
  .ite (fun _ => .sql _) fun _ => .bind (.comparand hx) fun _ => .bind (.sql _) fun _ =>
    .bind (.fields h) fun _ => .sql _

theorem conjunct (op : Connective) {c : Condition} (h : allowed (.condition c)) :
    VisitsFinitely allowed fun visit => visit.conjunct op c := by
  cases c with
  | combined op' cs => exact .ite (fun _ => .visit h) fun _ => .parenthesized (.visit h)
  | _ => exact .visit h

theorem combined (op : Connective) {cs : List Condition} (h : ∀ c ∈ cs, allowed (.condition c)) :
    VisitsFinitely allowed fun visit => visit.combined op cs := by
  match cs with
  | [] => exact .sql _
  | [c] => exact .visit (h c (by simp))
  | first :: second :: rest => exact .separated _ fun c hc => .conjunct op (h c hc)

theorem xor {left right : Condition} (hl : allowed (.condition left)) (hr : allowed (.condition right)) :
    VisitsFinitely allowed fun visit => visit.xor left right :=
  .bind .dialect fun _ => .bind (.parenthesized (.visit hl)) fun _ => .bind (.sql _) fun _ =>
    .parenthesized (.visit hr)

theorem xmlExists (xpath : String) {document : Field} (passing : Option XmlPassing) (h : allowed (.field document)) :
    VisitsFinitely allowed fun visit => visit.xmlExists xpath document passing :=
  .bind .dialect fun _ => .bind (.demand _ _) fun _ => .bind (.sql _) fun _ => .bind (.literal _) fun _ =>
    .bind (.sql _) fun _ => .bind (.onSome fun _ _ => .sql _) fun _ => .bind (.visit h) fun _ => .sql _

theorem truthTest {x : Field} (h : allowed (.field x)) : VisitsFinitely allowed fun visit => visit.truthTest x :=
  .bind (.comparand h) fun _ => .bind .dialect fun _ => .when fun _ => .sql _

theorem renamed (s : Select) (names : List String) (construct : String) :
    VisitsFinitely allowed fun _ => Visitor.renamed s names construct := by
  unfold Visitor.renamed
  cases s.rename? names with
  | none => exact .unsupported construct
  | some plan =>
    by_cases ha : plan.needsAlias
    · simp only [ha, if_true]
      exact .bind (.freshAlias _) fun _ => .pure _
    · simp only [ha]
      exact .bind (.pure _) fun _ => .pure _

theorem countTest {s : Select} (negated : Bool) (h₁ : allowed (.field (.literal (.int 1))))
    (h : ∀ plan a b, s.rename? (Select.testColumns s.flattened.length) = some plan →
      allowed (.field (.subquery (Select.countPassing (plan.toSelect a)
        (Select.testColumns s.flattened.length) b negated)))) :
    VisitsFinitely allowed fun visit => visit.countTest s negated := by
  refine .bindReturned (.renamed _ _ _) fun inner hi => .bind (.freshAlias _) fun asName => ?_
  obtain ⟨_, c, k, hr⟩ := hi
  obtain ⟨plan, a, hp, rfl⟩ := Visitor.renamed_returns hr
  exact .compare _ h₁ (h plan a asName hp)

theorem selectIsNull {s : Select} (negated : Bool) (hs : allowed (.select s))
    (h₁ : allowed (.field (.literal (.int 1))))
    (h : ∀ plan a b, s.rename? (Select.testColumns s.flattened.length) = some plan →
      allowed (.field (.subquery (Select.countPassing (plan.toSelect a)
        (Select.testColumns s.flattened.length) b negated)))) :
    VisitsFinitely allowed fun visit => visit.selectIsNull s negated := by
  refine .bind .dialect fun d => ?_
  cases Capability.selectIsNull d s.flattened.length with
  | standard => exact .bind (.subquery (.visit hs)) fun _ => .sql _
  | countTest => exact .countTest negated h₁ h

end SqlDialects.VisitsFinitely
