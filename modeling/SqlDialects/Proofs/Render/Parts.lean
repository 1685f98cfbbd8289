import SqlDialects.Proofs.Render.Select

/-!
# Whole nodes under a simulation

`Node.Visits` collects what the writers may visit: the children of a node, and the nodes that are made while
it is written. So two visitors that write alike all that a node visits write the node alike
(`Simulation.Step.parts`), and a visitor that is built up by levels of nesting needs one induction only.
-/

set_option autoImplicit false

namespace SqlDialects

open Node in
/-- The nodes that the writer of a node may visit. -/
inductive Node.Visits : Node → Node → Prop where
  | child {n m : Node} (h : m ∈ n.children) : Visits n m
  /-- Expansions are written without a visit of their own; it is their parts that are visited. -/
  | extremum {which : Extremum} {first second : Field} {rest : List Field} {m : Node}
      (h : m ∈ fieldChildren (which.expand which.comparison first second rest)) :
      Visits (field (.extremum which (first :: second :: rest))) m
  | truthCase {c : Condition} {m : Node} (h : m ∈ fieldChildren c.asCase) :
      Visits (field (.condition c)) m
  | nullKey {e : SortField} {nulls : NullOrdering} {m : Node} (hn : e.nulls = some nulls)
      (h : m ∈ fieldChildren (SortField.nullKey e.field nulls)) : Visits (sortField e) m
  | complement {a : Aggregate} {plain : AggregateKind} (h : a.kind.complemented? = some plain) :
      Visits (field (.aggregate a)) (field (.aggregate { a with kind := plain }))
  /-- The number that a count of rows is compared with. -/
  | one {s : Select} {negated : Bool} :
      Visits (condition (.selectIsNull s negated)) (field (.literal (.int 1)))
  | count {s : Select} {negated : Bool} {plan : Select.Renaming} (inner outer : String)
      (h : s.rename? (Select.testColumns s.flattened.length) = some plan) :
      Visits (condition (.selectIsNull s negated)) (field (.subquery (Select.countPassing
        (plan.toSelect inner) (Select.testColumns s.flattened.length) outer negated)))
  | renamed {s : Select} {asName : String} {columns : List String} {plan : Select.Renaming}
      (inner : String) (h : s.rename? columns = some plan) :
      Visits (table (.derived s asName columns)) (select (plan.toSelect inner))
  | hoisted {s : Select} {d : Dialect} {w : With} {t : CommonTable} (hw : s.hoisted d = .ok w)
      (h : t ∈ w.tables) : Visits (select s) (commonTable t)
  /-- The select list is written with its rows expanded. -/
  | entry {s : Select} {f : Field} (h : f ∈ s.flattened) : Visits (select s) (field f)

namespace Simulation.Step

variable {ι : Type} {declaring : ι → Prop} {S : Simulation ι declaring} {i : ι} {visit visit' : Visitor}

theorem fieldParts {f : Field} (h : ∀ m, (Node.field f).Visits m → S.Same visit visit' m) :
    S.Step i (visit.fieldParts f) (visit'.fieldParts f) := by
  have child : ∀ m ∈ Node.fieldChildren f, S.Same visit visit' m := fun m hm => h m (.child hm)
  cases f with
  | column c => exact .column c
  | value v => exact .write _
  | inline l => exact .literal _
  | arithmetic op l r => exact .arithmetic op (child _ (.head _)) (child _ (.tail _ (.head _)))
  | neg x => exact .prefixed _ (child _ (.head _))
  | bitNot x => exact .bitNot (child _ (.head _))
  | extremum w xs =>
    refine .extremum (fun x hx => child _ (List.mem_map_of_mem hx)) ?_
    intro first second rest hxs m hm
    subst hxs
    exact h m (.extremum hm)
  | coalesce xs => exact .coalesce fun x hx => child _ (List.mem_map_of_mem hx)
  | call g xs => exact .call g fun x hx => child _ (List.mem_map_of_mem hx)
  | aggregate a =>
    refine .aggregate (fun x hx => child _ ?_) (fun w hw => child _ ?_) fun plain hp => h _ (.complement hp)
    · exact List.mem_append_left _ (by simp [Option.mem_def.1 hx])
    · exact List.mem_append_right _ (by simp [Option.mem_def.1 hw])
  | searchedCase bs e =>
    refine .searchedCase (fun b hb => child _ ?_) (fun b hb => child _ ?_) fun x hx => child _ ?_
    · exact List.mem_append_left _ (List.mem_flatMap.2 ⟨b, hb, by simp⟩)
    · exact List.mem_append_left _ (List.mem_flatMap.2 ⟨b, hb, by simp⟩)
    · exact List.mem_append_right _ (by simp [Option.mem_def.1 hx])
  | simpleCase x bs e =>
    refine .simpleCase (child _ (.head _)) (fun b hb => child _ ?_)
      (fun b hb => child _ ?_) fun y hy => child _ ?_
    · exact List.mem_cons_of_mem _ (List.mem_append_left _ (List.mem_flatMap.2 ⟨b, hb, by simp⟩))
    · exact List.mem_cons_of_mem _ (List.mem_append_left _ (List.mem_flatMap.2 ⟨b, hb, by simp⟩))
    · exact List.mem_cons_of_mem _ (List.mem_append_right _ (by simp [Option.mem_def.1 hy]))
  | cast x t => exact .cast t (child _ (.head _))
  | subquery s => exact .subquery (child _ (.head _))
  | condition c =>
    exact .conditionField (child _ (.head _)) fun m hm => h m (.truthCase hm)
  | jsonObject es n =>
    exact .jsonObject n fun e he => child _ (List.mem_map_of_mem (f := fun e => Node.field e.2) he)
  | jsonArray xs n => exact .jsonArray n fun x hx => child _ (List.mem_map_of_mem hx)
  | jsonValue x p r e =>
    refine .jsonValue p r (child _ ?_) fun y hy => child _ ?_
    · rcases e with _ | (_ | _ | _) <;> simp [Node.fieldChildren]
    · subst hy
      simp [Node.fieldChildren]
  | row xs => exact .parenthesized (.fields fun x hx => child _ (List.mem_map_of_mem hx))
  | aliased x a => exact .aliased a (child _ (.head _))
  | raw t => exact .template fun x hx => child _ (List.mem_map_of_mem hx)

theorem conditionParts {c : Condition} (h : ∀ m, (Node.condition c).Visits m → S.Same visit visit' m) :
    S.Step i (visit.conditionParts c) (visit'.conditionParts c) := by
  have child : ∀ m ∈ Node.conditionChildren c, S.Same visit visit' m := fun m hm => h m (.child hm)
  cases c with
  | none => exact .sql _
  | compare op l r => exact .compare op (child _ (.head _)) (child _ (.tail _ (.head _)))
  | isNull x n => exact .bind (.comparand (child _ (.head _))) fun _ => .sql _
  | between x low high n =>
    exact .bind (.comparand (child _ (.head _))) fun _ => .bind (.sql _) fun _ =>
      .bind (.comparand (child _ (.tail _ (.head _)))) fun _ => .bind (.sql _) fun _ =>
      .comparand (child _ (.tail _ (.tail _ (.head _))))
  | inList x xs n =>
    exact .inList n (child _ (.head _)) fun y hy =>
      child _ (List.mem_cons_of_mem _ (List.mem_map_of_mem hy))
  | existence s n =>
    exact .bind (.sql _) fun _ => .subquery (child _ (.head _))
  | selectIsNull s n =>
    exact .selectIsNull n (child _ (.head _)) (h _ .one) fun _ a b hp =>
      h _ (.count a b hp)
  | combined op cs => exact .combined op fun c hc => child _ (List.mem_map_of_mem hc)
  | xor l r => exact .xor (child _ (.head _)) (child _ (.tail _ (.head _)))
  | not c => exact .bind (.sql _) fun _ => .parenthesized (child _ (.head _) i)
  | xmlExists p x by' => exact .xmlExists p by' (child _ (.head _))
  | field x => exact .truthTest (child _ (.head _))
  | raw t => exact .template fun x hx => child _ (List.mem_map_of_mem hx)

theorem tableParts {t : Table} (h : ∀ m, (Node.table t).Visits m → S.Same visit visit' m) :
    S.Step i (visit.tableParts t) (visit'.tableParts t) := by
  have child : ∀ m ∈ Node.tableChildren t, S.Same visit visit' m := fun m hm => h m (.child hm)
  cases t with
  | named schema n asName =>
    exact .bind (.onSome fun _ _ => .bind (.name _) fun _ => .sql _) fun _ => .bind (.name _) fun _ =>
      .onSome fun _ _ => .bind (.sql _) fun _ => .name _
  | derived s a columns =>
    exact .derived a (child _ (.head _)) fun _ inner hp => h _ (.renamed inner hp)
  | lateral t =>
    exact .bind .dialect fun _ => .bind (.demand _ _) fun _ => .bind (.sql _) fun _ =>
      child _ (.head _) i
  | join type l r matching =>
    refine .join type (child _ ?_) (child _ ?_) fun c hc => child _ ?_
    · cases matching <;> simp [Node.tableChildren]
    · cases matching <;> simp [Node.tableChildren]
    · subst hc
      simp [Node.tableChildren]
  | hinted t hint => exact .hinted (child _ (.head _)) (child _ (.tail _ (.head _)))

/-- Two visitors that write alike all that a node visits write the node alike, if they do so for a select. -/
theorem partsBy {n : Node} (hs : ∀ s, n = .select s → S.Step i (visit.select s) (visit'.select s))
    (h : ∀ m, n.Visits m → S.Same visit visit' m) : S.Step i (visit.parts n) (visit'.parts n) := by
  cases n with
  | field f => exact .fieldParts h
  | condition c => exact .conditionParts h
  | table t => exact .tableParts h
  | select s => exact hs s rfl
  | sortField e =>
    exact .sortField (h _ (.child (.head _))) fun _ hn m hm => h m (.nullKey hn hm)
  | commonTable t => exact .commonTable (h _ (.child (.head _)))
  | window w =>
    refine .window (fun f hf => h _ (.child ?_)) fun e he => h _ (.child ?_)
    · exact List.mem_append_left _ (List.mem_map_of_mem hf)
    · exact List.mem_append_right _ (List.mem_map_of_mem he)
  | hint hint => exact .hint hint

section

variable {S : Simulation ι} {i : ι}

/-- Two visitors that write alike all that a node visits write the node alike. -/
theorem parts {n : Node} (h : ∀ m, n.Visits m → S.Same visit visit' m) :
    S.Step i (visit.parts n) (visit'.parts n) := by
  refine .partsBy ?_ h
  rintro s rfl
  refine .select (fun t ht => h _ (.child ?_)) (fun d w hw t ht => h _ (.hoisted hw ht))
    (fun m hm => h m (.child ?_)) fun f hf => h _ (.entry hf)
  · exact List.mem_append_left _ (List.mem_map_of_mem ht)
  · exact List.mem_append_right _ hm

/-- Any two contexts that a simulation relates are written from alike, whatever the node. -/
theorem node (levels : Nat) (n : Node) : S.Step i (Render.node levels n) (Render.node levels n) := by
  induction levels generalizing i n with
  | zero => exact .throw _
  | succ levels ih => exact .parts fun m _ _ => ih m

end

end Simulation.Step

end SqlDialects
