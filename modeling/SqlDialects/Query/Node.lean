import SqlDialects.Query.Syntax

/-!
# Nodes: one view of all query trees

Every part of a query that can be rendered on its own is a **node**. A node is determined by its
**label**, by the **value** that it holds if it is one, and by its **children** in reading order.
Walks over a whole tree are written once over this view instead of once per type: equality here,
the hoisting of common tables and the bound on the depth of rendering elsewhere.

The children of a node are smaller than the node (`Node.sizeOf_lt_of_mem_children`), which is what
lets such a walk recurse.
-/

set_option autoImplicit false

namespace SqlDialects

/-- A part of a query that can be rendered on its own. -/
inductive Node where
  | field (field : Field)
  | condition (condition : Condition)
  | table (table : Table)
  | select (select : Select)
  | sortField (entry : SortField)
  | commonTable (table : CommonTable)
  | window (window : Window)
  | hint (hint : IndexHint)

instance : Inhabited Node := ⟨.condition .none⟩

/-- What the label keeps of an `ON EMPTY` clause. -/
inductive OnEmptyKind where
  | null
  | error
  | default
  deriving DecidableEq

/-- What the label keeps of a join's condition. -/
inductive JoinConditionKind where
  | none
  | on
  | using (columns : List String)
  deriving DecidableEq

/-- What a node holds besides its value and its children. Where a node has several lists of children, the
label keeps the lengths that tell them apart. -/
inductive Label where
  | column (column : ColumnRef)
  | value
  | inline (type : SqlType)
  | arithmetic (op : ArithmeticOp)
  | neg
  | bitNot
  | extremum (which : Extremum)
  | coalesce
  | call (function : String)
  | aggregate (kind : AggregateKind) (hasValue distinct hasWindow : Bool)
  | searchedCase (hasElse : Bool)
  | simpleCase (hasElse : Bool)
  | cast (type : SqlType)
  | subquery
  | condition
  | jsonObject (keys : List String) (onNull : Option JsonOnNull)
  | jsonArray (onNull : Option JsonOnNull)
  | jsonValue (path : String) (returning : Option SqlType) (onEmpty : Option OnEmptyKind)
  | row
  | aliased (asName : String)
  | raw (text : String) (verbatim : Bool)
  | noCondition
  | compare (op : ComparisonOp)
  | isNull (negated : Bool)
  | between (negated : Bool)
  | inList (negated : Bool)
  | existence (negated : Bool)
  | selectIsNull (negated : Bool)
  | combined (op : Connective)
  | xor
  | not
  | xmlExists (xpath : String) (passing : Option XmlPassing)
  | fieldCondition
  | rawCondition (text : String) (verbatim : Bool)
  | named (schema : Option String) (name : String) (asName : Option String)
  | derived (asName : String) (columns : List String)
  | lateral
  | join (type : JoinType) (matching : JoinConditionKind)
  | hinted
  | select (recursive : Option Bool) (distinct : Bool) (commonTables fields tables groupBy : Nat)
      (limit offset : Option Nat)
  | sortField (order : Option SortOrder) (nulls : Option NullOrdering)
  | commonTable (name : String) (columns : List String)
  | window (partitions : Nat)
  | hint (hint : IndexHint)
  deriving DecidableEq

/-- The common tables that a select declares itself. -/
def Select.commonTables (s : Select) : List CommonTable :=
  match s.withClause with
  | some w => w.tables
  | none => []

namespace Node

def fieldLabel : Field → Label
  | .column c => .column c
  | .value _ => .value
  | .inline l => .inline l.type
  | .arithmetic op _ _ => .arithmetic op
  | .neg _ => .neg
  | .bitNot _ => .bitNot
  | .extremum w _ => .extremum w
  | .coalesce _ => .coalesce
  | .call f _ => .call f
  | .aggregate a => .aggregate a.kind a.value.isSome a.distinct a.window.isSome
  | .searchedCase _ e => .searchedCase e.isSome
  | .simpleCase _ _ e => .simpleCase e.isSome
  | .cast _ t => .cast t
  | .subquery _ => .subquery
  | .condition _ => .condition
  | .jsonObject es n => .jsonObject (es.map Prod.fst) n
  | .jsonArray _ n => .jsonArray n
  | .jsonValue _ p r e =>
    .jsonValue p r (e.map fun
      | .null => .null
      | .error => .error
      | .default _ => .default)
  | .row _ => .row
  | .aliased _ a => .aliased a
  | .raw t => .raw t.text t.verbatim

def conditionLabel : Condition → Label
  | .none => .noCondition
  | .compare op _ _ => .compare op
  | .isNull _ n => .isNull n
  | .between _ _ _ n => .between n
  | .inList _ _ n => .inList n
  | .existence _ n => .existence n
  | .selectIsNull _ n => .selectIsNull n
  | .combined op _ => .combined op
  | .xor _ _ => .xor
  | .not _ => .not
  | .xmlExists x _ p => .xmlExists x p
  | .field _ => .fieldCondition
  | .raw t => .rawCondition t.text t.verbatim

def tableLabel : Table → Label
  | .named s n a => .named s n a
  | .derived _ a cs => .derived a cs
  | .lateral _ => .lateral
  | .join t _ _ matching =>
    .join t (match matching with
      | .none => .none
      | .on _ => .on
      | .using cs => .using cs)
  | .hinted _ _ => .hinted

/-- What a node holds besides its value and its children. -/
def label : Node → Label
  | field f => fieldLabel f
  | condition c => conditionLabel c
  | table t => tableLabel t
  | select s =>
    .select (s.withClause.map With.recursive) s.distinct s.commonTables.length s.fields.length
      s.tables.length s.groupBy.length s.limit s.offset
  | sortField e => .sortField e.order e.nulls
  | commonTable t => .commonTable t.name t.columns
  | window w => .window w.partitionBy.length
  | hint h => .hint h

def value? : Node → Option Value
  | field (.value v) => some v
  | field (.inline l) => some l.value
  | _ => none

def fieldChildren : Field → List Node
  | .column _ | .value _ | .inline _ => []
  | .arithmetic _ l r => [field l, field r]
  | .neg x | .bitNot x | .cast x _ | .aliased x _ => [field x]
  | .extremum _ xs | .coalesce xs | .call _ xs | .jsonArray xs _ | .row xs => xs.map field
  | .aggregate a => a.value.toList.map field ++ a.window.toList.map window
  | .searchedCase bs e => bs.flatMap (fun b => [condition b.1, field b.2]) ++ e.toList.map field
  | .simpleCase x bs e =>
    field x :: bs.flatMap (fun b => [field b.1, field b.2]) ++ e.toList.map field
  | .subquery s => [select s]
  | .condition c => [condition c]
  | .jsonObject es _ => es.map (fun e => field e.2)
  | .jsonValue x _ _ (some (.default d)) => [field x, field d]
  | .jsonValue x _ _ _ => [field x]
  | .raw t => t.substitutes.map field

def conditionChildren : Condition → List Node
  | .none => []
  | .compare _ l r => [field l, field r]
  | .isNull x _ | .field x | .xmlExists _ x _ => [field x]
  | .between x l h _ => [field x, field l, field h]
  | .inList x xs _ => field x :: xs.map field
  | .existence s _ | .selectIsNull s _ => [select s]
  | .combined _ cs => cs.map condition
  | .xor l r => [condition l, condition r]
  | .not c => [condition c]
  | .raw t => t.substitutes.map field

def tableChildren : Table → List Node
  | .named _ _ _ => []
  | .derived s _ _ => [select s]
  | .lateral t => [table t]
  | .join _ l r (.on c) => [table l, table r, condition c]
  | .join _ l r _ => [table l, table r]
  | .hinted t h => [table t, hint h]

/-- The children of a select that are not common tables, clause by clause. -/
def clauseChildren (s : Select) : List Node :=
  s.fields.map field ++ s.tables.map table ++ [condition s.condition] ++ s.groupBy.map field
    ++ [condition s.having] ++ s.orderBy.map sortField

/-- The parts of a node that are nodes themselves, in reading order. -/
def children : Node → List Node
  | field f => fieldChildren f
  | condition c => conditionChildren c
  | table t => tableChildren t
  | select s => s.commonTables.map commonTable ++ clauseChildren s
  | sortField e => [field e.field]
  | commonTable t => [select t.select]
  | window w => w.partitionBy.map field ++ w.orderBy.map sortField
  | hint _ => []

/-! ## Children are smaller -/

theorem sizeOf_fieldChildren {f : Field} {c : Node} (h : c ∈ fieldChildren f) :
    sizeOf c < 1 + sizeOf f := by
  have elem : ∀ {xs : List Field}, c ∈ xs.map field → sizeOf c < 1 + sizeOf xs := by
    intro xs hc
    obtain ⟨x, hx, rfl⟩ := List.mem_map.1 hc
    have := List.sizeOf_lt_of_mem hx
    simp; omega
  have opt : ∀ {x : Option Field}, c ∈ x.toList.map field → sizeOf c < 1 + sizeOf x := by
    intro x hc
    cases x with
    | none => simp at hc
    | some x => simp at hc; subst hc; simp
  cases f with
  | column | value | inline => simp [fieldChildren] at h
  | arithmetic | neg | bitNot | cast | aliased | subquery | condition =>
    simp [fieldChildren] at h
    rcases h with rfl | rfl <;> simp <;> omega
  | extremum | coalesce | call | jsonArray | row =>
    have := elem h
    simp; omega
  | raw t =>
    have := elem h
    cases t
    simp at this ⊢; omega
  | aggregate a =>
    cases a with
    | mk kind value distinct window =>
      rcases List.mem_append.1 h with h | h
      · have := opt h
        simp at this ⊢; omega
      · cases window with
        | none => simp at h
        | some w => simp at h; subst h; simp; omega
  | searchedCase bs e =>
    rcases List.mem_append.1 h with h | h
    · obtain ⟨⟨b, r⟩, hb, hc⟩ := List.mem_flatMap.1 h
      have := List.sizeOf_lt_of_mem hb
      simp at hc this
      rcases hc with rfl | rfl <;> simp <;> omega
    · have := opt h
      simp; omega
  | simpleCase x bs e =>
    rcases List.mem_cons.1 h with rfl | h
    · simp; omega
    rcases List.mem_append.1 h with h | h
    · obtain ⟨⟨b, r⟩, hb, hc⟩ := List.mem_flatMap.1 h
      have := List.sizeOf_lt_of_mem hb
      simp at hc this
      rcases hc with rfl | rfl <;> simp <;> omega
    · have := opt h
      simp; omega
  | jsonObject es n =>
    obtain ⟨⟨k, x⟩, hx, rfl⟩ := List.mem_map.1 h
    have := List.sizeOf_lt_of_mem hx
    simp at this ⊢; omega
  | jsonValue x p r e =>
    rcases e with _ | (_ | _ | d) <;> simp [fieldChildren] at h
    · subst h; simp; omega
    · subst h; simp; omega
    · subst h; simp; omega
    · rcases h with rfl | rfl <;> simp <;> omega

theorem sizeOf_conditionChildren {x : Condition} {c : Node} (h : c ∈ conditionChildren x) :
    sizeOf c < 1 + sizeOf x := by
  have elem : ∀ {xs : List Field}, c ∈ xs.map field → sizeOf c < 1 + sizeOf xs := by
    intro xs hc
    obtain ⟨x, hx, rfl⟩ := List.mem_map.1 hc
    have := List.sizeOf_lt_of_mem hx
    simp; omega
  cases x with
  | none => simp [conditionChildren] at h
  | compare | isNull | between | existence | selectIsNull | xor | not | xmlExists | field =>
    simp [conditionChildren] at h
    rcases h with rfl | rfl | rfl <;> simp <;> omega
  | inList x xs n =>
    rcases List.mem_cons.1 h with rfl | h
    · simp; omega
    · have := elem h
      simp; omega
  | combined op cs =>
    obtain ⟨x, hx, rfl⟩ := List.mem_map.1 h
    have := List.sizeOf_lt_of_mem hx
    simp; omega
  | raw t =>
    have := elem h
    cases t
    simp at this ⊢; omega

theorem sizeOf_tableChildren {t : Table} {c : Node} (h : c ∈ tableChildren t) :
    sizeOf c < 1 + sizeOf t := by
  cases t with
  | named => simp [tableChildren] at h
  | derived | lateral | hinted =>
    simp [tableChildren] at h
    rcases h with rfl | rfl <;> simp <;> omega
  | join ty l r on =>
    cases on <;> simp [tableChildren] at h <;> rcases h with rfl | rfl | rfl <;> simp <;> omega

theorem sizeOf_clauseChildren {s : Select} {c : Node} (h : c ∈ clauseChildren s) :
    sizeOf c < 1 + sizeOf s := by
  cases s
  simp only [clauseChildren, List.mem_append, List.mem_map, List.mem_singleton] at h
  rcases h with ((((⟨x, hx, rfl⟩ | ⟨x, hx, rfl⟩) | rfl) | ⟨x, hx, rfl⟩) | rfl) | ⟨x, hx, rfl⟩ <;>
    first
    | (have smaller := List.sizeOf_lt_of_mem hx; simp at smaller ⊢; omega)
    | (simp; omega)

theorem sizeOf_lt_of_mem_children {n c : Node} (h : c ∈ n.children) : sizeOf c < sizeOf n := by
  cases n with
  | field f => simpa using sizeOf_fieldChildren h
  | condition x => simpa using sizeOf_conditionChildren h
  | table t => simpa using sizeOf_tableChildren h
  | select s =>
    rcases List.mem_append.1 h with h | h
    · obtain ⟨t, ht, rfl⟩ := List.mem_map.1 h
      cases s with
      | mk w =>
        cases w with
        | none => simp [Select.commonTables] at ht
        | some w =>
          cases w
          have := List.sizeOf_lt_of_mem ht
          simp [Select.commonTables] at this ⊢; omega
    · simpa using sizeOf_clauseChildren h
  | sortField e =>
    cases e
    simp [children] at h
    subst h
    simp only [field.sizeOf_spec, sortField.sizeOf_spec, SortField.mk.sizeOf_spec]
    omega
  | commonTable t =>
    cases t
    simp [children] at h
    subst h
    simp only [select.sizeOf_spec, commonTable.sizeOf_spec, CommonTable.mk.sizeOf_spec]
    omega
  | window w =>
    cases w
    simp only [children, List.mem_append, List.mem_map] at h
    rcases h with ⟨x, hx, rfl⟩ | ⟨x, hx, rfl⟩ <;>
      (have smaller := List.sizeOf_lt_of_mem hx; simp at smaller ⊢; omega)
  | hint => simp [children] at h

/-- What holds of a node as soon as it holds of its children holds of every node. -/
theorem induction {motive : Node → Prop} (step : ∀ n, (∀ c ∈ n.children, motive c) → motive n) (n : Node) :
    motive n :=
  step n fun c _ => induction step c
termination_by sizeOf n
decreasing_by exact sizeOf_lt_of_mem_children ‹_›

/-! ## Structural equality -/

/-- Structural equality: equal labels over equal children. It follows `==` on values, so a tree that
holds a NaN differs from itself. -/
protected def beq (a b : Node) : Bool :=
  a.label == b.label && a.value? == b.value? && a.children.length == b.children.length
    && (a.children.attach.zip b.children).all (fun p => Node.beq p.1.1 p.2)
termination_by sizeOf a
decreasing_by exact sizeOf_lt_of_mem_children p.1.2

instance : BEq Node := ⟨Node.beq⟩

end Node

instance : BEq Field := ⟨fun a b => Node.field a == Node.field b⟩
instance : BEq Condition := ⟨fun a b => Node.condition a == Node.condition b⟩
instance : BEq SortField := ⟨fun a b => Node.sortField a == Node.sortField b⟩
instance : BEq CommonTable := ⟨fun a b => Node.commonTable a == Node.commonTable b⟩

end SqlDialects
