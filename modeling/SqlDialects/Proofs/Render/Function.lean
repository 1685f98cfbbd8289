import SqlDialects.Proofs.Render.Simulation

/-!
# Functions under a simulation

A writer is given a visitor and visits nodes through it only. So when two visitors write alike whatever
nodes a writer visits, the writer does the same with either of them. The theorems here and in the modules
that follow say so writer by writer, each under the weakest assumption: that on exactly the nodes that are
visited. They follow the `do` blocks of the writers step by step.
-/

set_option autoImplicit false

namespace SqlDialects.Simulation.Step

variable {ι : Type} {declaring : ι → Prop} {S : Simulation ι declaring} {i : ι} {visit visit' : Visitor}

/-! ## Functions -/

theorem fields {fs : List Field} (h : ∀ f ∈ fs, S.Same visit visit' (.field f)) :
    S.Step i (visit.fields fs) (visit'.fields fs) :=
  .separated _ fun f hf => h f hf i

theorem call (function : String) {args : List Field} (h : ∀ f ∈ args, S.Same visit visit' (.field f)) :
    S.Step i (visit.call function args) (visit'.call function args) :=
  .bind (.sql _) fun _ => .parenthesized (.fields h)

theorem branches {α : Type} {test test' : α → Render Unit} {bs : List (α × Field)}
    (ht : ∀ b ∈ bs, S.Step i (test b.1) (test' b.1))
    (hr : ∀ b ∈ bs, S.Same visit visit' (.field b.2)) :
    S.Step i (visit.branches test bs) (visit'.branches test' bs) := by
  induction bs with
  | nil => exact .pure ()
  | cons b bs ih =>
    have hbs := ih (fun c hc => ht c (by simp [hc])) (fun c hc => hr c (by simp [hc]))
    exact .bind (.sql _) fun _ => .bind (ht b (by simp)) fun _ => .bind (.sql _) fun _ =>
      .bind (hr b (by simp) i) fun _ => hbs

theorem caseOf {α : Type} {head head' : Render Unit} {test test' : α → Render Unit}
    {bs : List (α × Field)} {otherwise : Option Field} (hh : S.Step i head head')
    (ht : ∀ b ∈ bs, S.Step i (test b.1) (test' b.1))
    (hr : ∀ b ∈ bs, S.Same visit visit' (.field b.2))
    (he : ∀ f ∈ otherwise, S.Same visit visit' (.field f)) :
    S.Step i (visit.caseOf head test bs otherwise) (visit'.caseOf head' test' bs otherwise) := by
  have long : S.Step i
      (do head; visit.branches test bs
          Render.onSome otherwise fun f => do Render.sql " ELSE "; visit.field f
          Render.sql " END")
      (do head'; visit'.branches test' bs
          Render.onSome otherwise fun f => do Render.sql " ELSE "; visit'.field f
          Render.sql " END") :=
    .bind hh fun _ => .bind (.branches ht hr) fun _ =>
      .bind (.onSome fun f hf => .bind (.sql _) fun _ => he f hf i) fun _ => .sql _
  -- Without branches only the result of `ELSE` is left.
  cases bs with
  | nil =>
    cases otherwise with
    | none => exact .literal _
    | some f => exact he f rfl i
  | cons b bs => exact long

theorem searchedCase {bs : List (Condition × Field)} {otherwise : Option Field}
    (ht : ∀ b ∈ bs, S.Same visit visit' (.condition b.1))
    (hr : ∀ b ∈ bs, S.Same visit visit' (.field b.2))
    (he : ∀ f ∈ otherwise, S.Same visit visit' (.field f)) :
    S.Step i (visit.searchedCase bs otherwise) (visit'.searchedCase bs otherwise) :=
  .caseOf (.sql _) (fun b hb => ht b hb i) hr he

theorem simpleCase {subject : Field} {bs : List (Field × Field)} {otherwise : Option Field}
    (hs : S.Same visit visit' (.field subject)) (ht : ∀ b ∈ bs, S.Same visit visit' (.field b.1))
    (hr : ∀ b ∈ bs, S.Same visit visit' (.field b.2))
    (he : ∀ f ∈ otherwise, S.Same visit visit' (.field f)) :
    S.Step i (visit.simpleCase subject bs otherwise) (visit'.simpleCase subject bs otherwise) :=
  .caseOf (.bind (.sql _) fun _ => hs i) (fun b hb => ht b hb i) hr he

/-- An expansion is a searched `CASE`, and its parts are visited. -/
theorem expansion {bs : List (Condition × Field)} {otherwise : Option Field}
    (h : ∀ m ∈ Node.fieldChildren (.searchedCase bs otherwise), S.Same visit visit' m) :
    S.Step i (visit.expansion (.searchedCase bs otherwise))
      (visit'.expansion (.searchedCase bs otherwise)) := by
  refine .searchedCase (fun b hb => h _ ?_) (fun b hb => h _ ?_) fun f hf => h _ ?_
  · exact List.mem_append_left _ (List.mem_flatMap.2 ⟨b, hb, by simp⟩)
  · exact List.mem_append_left _ (List.mem_flatMap.2 ⟨b, hb, by simp⟩)
  · exact List.mem_append_right _ (by simp [Option.mem_def.1 hf])

theorem extremum {which : Extremum} {args : List Field}
    (h : ∀ f ∈ args, S.Same visit visit' (.field f))
    (he : ∀ first second rest, args = first :: second :: rest →
      ∀ m ∈ Node.fieldChildren (which.expand which.comparison first second rest),
        S.Same visit visit' m) :
    S.Step i (visit.extremum which args) (visit'.extremum which args) := by
  match args with
  | [] => exact .literal _
  | [x] => exact h x (by simp) i
  | first :: second :: rest =>
    refine .bind .dialect fun d => ?_
    cases which.strategy d with
    | native => exact .call _ h
    | substitute function => exact .call _ h
    | caseExpansion => exact .expansion (he first second rest rfl)

theorem coalesce {args : List Field} (h : ∀ f ∈ args, S.Same visit visit' (.field f)) :
    S.Step i (visit.coalesce args) (visit'.coalesce args) := by
  match args with
  | [] => exact .literal _
  | [x] => exact h x (by simp) i
  | first :: second :: rest =>
    refine .bind .dialect fun d => .bind (.sql _) fun _ => .parenthesized (.separated _ fun x hx => ?_)
    split
    · exact .parenthesized (h x hx i)
    · exact h x hx i

theorem prefixed (symbol : String) {operand : Field} (h : S.Same visit visit' (.field operand)) :
    S.Step i (visit.prefixed symbol operand) (visit'.prefixed symbol operand) := by
  refine .bind (.sql _) fun _ => ?_
  split
  · exact h i
  · exact .parenthesized (h i)

theorem bitNot {operand : Field} (h : S.Same visit visit' (.field operand)) :
    S.Step i (visit.bitNot operand) (visit'.bitNot operand) := by
  refine .bind .dialect fun d => ?_
  cases Capability.bitNot d with
  | operator symbol => exact .prefixed symbol h
  | function function => exact .call function (by simpa using h)
  | unsupported => exact .unsupported _

theorem window {w : Window} (hp : ∀ f ∈ w.partitionBy, S.Same visit visit' (.field f))
    (ho : ∀ e ∈ w.orderBy, S.Same visit visit' (.sortField e)) :
    S.Step i (visit.window w) (visit'.window w) :=
  .bind .dialect fun _ => .bind (.demand _ _) fun _ => .bind (.sql _) fun _ =>
    .bind (.when fun _ => .bind (.sql _) fun _ => .fields hp) fun _ =>
    .bind (.when fun _ => .bind (.when fun _ => .sql _) fun _ => .bind (.sql _) fun _ =>
      .separated _ fun e he => ho e he i) fun _ => .sql _

theorem plainAggregate {a : Aggregate} (hv : ∀ f ∈ a.value, S.Same visit visit' (.field f))
    (hw : ∀ w ∈ a.window, S.Same visit visit' (.window w)) :
    S.Step i (visit.plainAggregate a) (visit'.plainAggregate a) := by
  refine .bind .dialect fun d => ?_
  cases a.kind.name d with
  | error construct => exact .unsupported construct
  | ok function =>
    refine .bind (.sql _) fun _ =>
      .bind (.parenthesized (.bind (.when fun _ => .sql _) fun _ => ?_)) fun _ =>
      .onSome fun w h => .bind (.sql _) fun _ => hw w h i
    cases hx : a.value with
    | none => exact .sql _
    | some x => exact hv x hx i

theorem aggregate {a : Aggregate} (hv : ∀ f ∈ a.value, S.Same visit visit' (.field f))
    (hw : ∀ w ∈ a.window, S.Same visit visit' (.window w))
    (hc : ∀ plain, a.kind.complemented? = some plain →
      S.Same visit visit' (.field (.aggregate { a with kind := plain }))) :
    S.Step i (visit.aggregate a) (visit'.aggregate a) := by
  refine .bind .dialect fun d => ?_
  split
  · next plain hk _ => exact .bitNot (hc plain hk)
  · exact .plainAggregate hv hw

/-! ## JSON -/

theorem jsonEntries (before between : String) {entries : List (String × Field)}
    (h : ∀ e ∈ entries, S.Same visit visit' (.field e.2)) :
    S.Step i (Render.separated ", " (entries.map (visit.jsonEntry before between)))
      (Render.separated ", " (entries.map (visit'.jsonEntry before between))) :=
  .separated _ fun e he =>
    .bind (.sql _) fun _ => .bind (.literal _) fun _ => .bind (.sql _) fun _ => h e he i

theorem onNullClause (onNull : Option JsonOnNull) (hasMembers : Bool) :
    S.Step i (Visitor.onNullClause onNull hasMembers) (Visitor.onNullClause onNull hasMembers) :=
  .bind .dialect fun _ => .onSome fun _ _ => .when fun _ =>
    .bind (.when fun _ => .sql _) fun _ => .sql _

theorem jsonObject {entries : List (String × Field)} (onNull : Option JsonOnNull)
    (h : ∀ e ∈ entries, S.Same visit visit' (.field e.2)) :
    S.Step i (visit.jsonObject entries onNull) (visit'.jsonObject entries onNull) := by
  refine .bind .dialect fun d => ?_
  cases Capability.jsonConstructor d with
  | standard =>
    exact .bind (.sql _) fun _ => .bind (.jsonEntries _ _ h) fun _ =>
      .bind (.onNullClause _ _) fun _ => .sql _
  | commaSeparated => exact .bind (.sql _) fun _ => .bind (.jsonEntries _ _ h) fun _ => .sql _
  | buildFunction =>
    exact .bind (.when fun _ => .sql _) fun _ => .bind (.sql _) fun _ =>
      .bind (.jsonEntries _ _ h) fun _ => .bind (.sql _) fun _ => .when fun _ => .sql _
  | unsupported => exact .unsupported _

theorem jsonArray {elements : List Field} (onNull : Option JsonOnNull)
    (h : ∀ f ∈ elements, S.Same visit visit' (.field f)) :
    S.Step i (visit.jsonArray elements onNull) (visit'.jsonArray elements onNull) := by
  refine .bind .dialect fun d => ?_
  cases Capability.jsonConstructor d with
  | standard =>
    exact .bind (.sql _) fun _ => .bind (.fields h) fun _ =>
      .bind (.onNullClause _ _) fun _ => .sql _
  | commaSeparated => exact .call _ h
  | buildFunction => exact .bind (.demand _ _) fun _ => .call _ h
  | unsupported => exact .unsupported _

theorem onEmptyClause {e : JsonOnEmpty} (h : ∀ x, e = .default x → S.Same visit visit' (.field x)) :
    S.Step i (visit.onEmptyClause e) (visit'.onEmptyClause e) := by
  cases e with
  | null => exact .sql _
  | error => exact .sql _
  | default x => exact .bind (.sql _) fun _ => .bind (h x rfl i) fun _ => .sql _

theorem standardJsonValue {document : Field} (path : String) (returning : Option SqlType)
    {onEmpty : Option JsonOnEmpty} (hd : S.Same visit visit' (.field document))
    (he : ∀ x, onEmpty = some (.default x) → S.Same visit visit' (.field x)) :
    S.Step i (visit.standardJsonValue document path returning onEmpty)
      (visit'.standardJsonValue document path returning onEmpty) :=
  .bind .dialect fun _ => .bind (.sql _) fun _ => .bind (hd i) fun _ => .bind (.sql _) fun _ =>
    .bind (.literal _) fun _ => .bind (.onSome fun _ _ => .bind (.sql _) fun _ => .sql _) fun _ =>
    .bind (.onSome fun _ h => .when fun _ => .onEmptyClause fun x hx => he x (hx ▸ h)) fun _ => .sql _

theorem extraction (function : String) {document : Field} (path : String)
    (h : S.Same visit visit' (.field document)) :
    S.Step i (visit.extraction function document path) (visit'.extraction function document path) := by
  unfold Visitor.extraction
  split
  · exact .bind (.sql _) fun _ => .bind (.sql _) fun _ => .bind (.sql _) fun _ => .bind (h i) fun _ =>
      .bind (.sql _) fun _ => .bind (.literal _) fun _ => .sql _
  · exact .bind (.sql _) fun _ => .bind (.sql _) fun _ => .bind (h i) fun _ =>
      .bind (.sql _) fun _ => .bind (.literal _) fun _ => .sql _

theorem substituteJsonValue (function : String) {document : Field} (path : String)
    (returning : Option SqlType) {onEmpty : Option JsonOnEmpty}
    (hd : S.Same visit visit' (.field document))
    (he : ∀ x, onEmpty = some (.default x) → S.Same visit visit' (.field x)) :
    S.Step i (visit.substituteJsonValue function document path returning onEmpty)
      (visit'.substituteJsonValue function document path returning onEmpty) := by
  have bare := extraction (i := i) function path hd
  refine .bind .dialect fun d => ?_
  cases returning with
  | none =>
    match onEmpty with
    | none | some .null => exact bare
    | some .error => exact .unsupported _
    | some (.default x) =>
      exact .bind (.sql _) fun _ => .bind bare fun _ => .bind (.sql _) fun _ =>
        .bind (he x rfl i) fun _ => .sql _
  | some t =>
    have converted : S.Step i
        (do Render.sql "CAST("; visit.extraction function document path; Render.sql " AS "
            Render.sql (t.castTarget d); Render.sql ")")
        (do Render.sql "CAST("; visit'.extraction function document path; Render.sql " AS "
            Render.sql (t.castTarget d); Render.sql ")") :=
      .bind (.sql _) fun _ => .bind bare fun _ => .bind (.sql _) fun _ => .bind (.sql _) fun _ => .sql _
    match onEmpty with
    | none | some .null => exact converted
    | some .error => exact .unsupported _
    | some (.default x) =>
      exact .bind (.sql _) fun _ => .bind converted fun _ => .bind (.sql _) fun _ =>
        .bind (he x rfl i) fun _ => .sql _

theorem jsonValue {document : Field} (path : String) (returning : Option SqlType)
    {onEmpty : Option JsonOnEmpty} (hd : S.Same visit visit' (.field document))
    (he : ∀ x, onEmpty = some (.default x) → S.Same visit visit' (.field x)) :
    S.Step i (visit.jsonValue document path returning onEmpty)
      (visit'.jsonValue document path returning onEmpty) := by
  refine .bind .dialect fun d => ?_
  cases Capability.jsonValue d with
  | standard => exact .standardJsonValue path returning hd he
  | substitute function => exact .substituteJsonValue function path returning hd he
  | unsupported => exact .unsupported _

end SqlDialects.Simulation.Step
