import SqlDialects.Proofs.Grammar.Passages
import SqlDialects.Proofs.Query.OutputNames
import SqlDialects.Proofs.Render.Hoisting

/-!
# Plain nodes

A node is **plain** if nothing in it is raw text and every name in it can be written (`Node.Plain`). What the caller
gives as text is plain if it holds together by itself: the name of a function before its parenthesis, and the name of a
type. A minus sign may not stand before a field that is written as one of its parts, since that part may begin with
another one.

Plainness is about the parts of a node, but a writer also visits nodes that are made while it writes. These are made of
the parts and of names that are always plain, so they are plain as well.
-/

set_option autoImplicit false

namespace SqlDialects

/-! ## Names that are made up -/

/-- No reserved word has a digit in it. -/
theorem needsQuoting_of_digit {n : String} {c : Char} (plain : isPlainName n = true) (hc : c ∈ n.toList)
    (digit : c.isDigit = true) : needsQuoting n = false := by
  have letters : ∀ w ∈ reservedWords, c ∉ w.toList.map Text.lowerChar := by
    have all : reservedWords.all (fun w => (w.toList.map Text.lowerChar).all (!Char.isDigit ·)) = true := by decide
    intro w hw hc
    have letter := List.all_eq_true.1 (List.all_eq_true.1 all w hw) c hc
    rw [digit] at letter
    cases letter
  rw [needsQuoting, plain, Bool.not_true, Bool.false_or, Text.isAnyOf, List.any_eq_false]
  intro w hw same
  have lowered : w.toList.map Text.lowerChar = n.toList.map Text.lowerChar := by
    simpa [Text.sameIgnoringCase] using same
  refine letters w hw ?_
  rw [lowered, ← Text.lowerChar_of_isDigit digit]
  exact List.mem_map_of_mem hc

namespace Settings

variable (s : Settings) {stem tail : String}

/-- A plain name that goes on with a number needs no quotes, whatever it ends in. -/
theorem spells_numbered (hs : isPlainName stem = true) (n : Nat)
    (ht : tail.toList.all Text.isPlainWordChar = true) : s.Spells (stem ++ Decimal.digits n ++ tail) := by
  intro _
  have digits : (Decimal.digits n).toList = Nat.toDigits 10 n := String.toList_ofList
  obtain ⟨c, hc⟩ : ∃ c, c ∈ (Decimal.digits n).toList := by
    rw [digits]
    exact List.exists_mem_of_ne_nil _ Nat.toDigits_ne_nil
  have digit : c.isDigit = true := Nat.isDigit_of_mem_toDigits (by decide) (by decide) (digits ▸ hc)
  refine needsQuoting_of_digit ?_ (c := c) (by simp [hc]) digit
  unfold isPlainName at hs ⊢
  split at hs
  · cases hs
  · next first rest hstem =>
    obtain ⟨hfirst, hrest⟩ := Bool.and_eq_true_iff.1 hs
    have number : (Decimal.digits n).toList.all Text.isPlainWordChar = true := by
      rw [digits, List.all_eq_true]
      intro c hc
      simp [Text.isPlainWordChar, List.all_eq_true.1 (Text.all_digits n) c hc]
    rw [String.toList_append, String.toList_append, hstem, List.append_assoc, List.cons_append]
    simp [hfirst, hrest, number, ht, List.all_append]

theorem spells_numbered_end (hs : isPlainName stem = true) (n : Nat) : s.Spells (stem ++ Decimal.digits n) := by
  have numbered : s.Spells (stem ++ Decimal.digits n ++ "") := s.spells_numbered hs n rfl
  rwa [String.append_empty] at numbered

theorem spells_aliasCandidate (hs : needsQuoting stem = false) (k : Nat) :
    s.Spells (Context.aliasCandidate stem k) := by
  cases k with
  | zero => exact fun _ => hs
  | succ k =>
    rw [needsQuoting, Bool.or_eq_false_iff, Bool.not_eq_false'] at hs
    exact s.spells_numbered_end hs.1 (k + 1)

theorem spells_generatedName (index tries : Nat) : s.Spells (Select.generatedName index tries) := by
  refine s.spells_numbered (by decide) (index + 1) ?_
  rw [String.toList_ofList, List.all_eq_true]
  intro c hc
  rw [List.eq_of_mem_replicate hc]
  decide

theorem spells_testColumns {count : Nat} : ∀ c ∈ Select.testColumns count, s.Spells c := by
  intro c hc
  obtain ⟨i, -, rfl⟩ := List.mem_map.1 hc
  exact s.spells_numbered_end (by decide) (i + 1)

end Settings

/-- An alias that is made up is one of the candidates. -/
theorem Context.exists_freshAlias_eq (c : Context) (stem : String) :
    ∃ k, c.freshAlias stem = aliasCandidate stem k := by
  obtain ⟨k, hk, -⟩ := Text.exists_firstFree (aliasCandidate_injective stem) c.visibleNames
  exact ⟨k, hk⟩

/-- The alias that a renamed select goes by is made up. -/
theorem Visitor.renamed_returns_candidate {s q : Select} {names : List String} {construct : String} {c c' : Context}
    (h : Visitor.renamed s names construct c = .ok q c') :
    ∃ plan k, s.rename? names = some plan ∧ q = plan.toSelect (Context.aliasCandidate "q" k) := by
  unfold Visitor.renamed at h
  cases hp : s.rename? names with
  | none =>
    rw [hp] at h
    cases h
  | some plan =>
    rw [hp] at h
    cases plan with
    | inPlace inner =>
      cases h
      exact ⟨_, 0, rfl, rfl⟩
    | projected inner columns =>
      cases h
      obtain ⟨k, hk⟩ := c.exists_freshAlias_eq "q"
      exact ⟨_, k, rfl, congrArg (Select.Renaming.toSelect · _) hk⟩

/-! ## Plain nodes -/

/-- Whether a field is written as a part of it, or as null. -/
def Field.isBare : Field → Bool
  | extremum _ args | coalesce args => args.length ≤ 1
  | searchedCase bs _ => bs.isEmpty
  | simpleCase _ bs _ => bs.isEmpty
  | _ => false

/-- The edge that a field may be written behind: a minus sign, or only a gap. -/
def Field.front (x : Field) : Lexer.Edge := if x.isAtomic && !x.isBare then .sign else .gap

/-- A name that may stand before the parenthesis of its arguments. -/
def IsFunctionName (f : String) : Prop := Spot.reaches true (f ++ "(") ⟨.sign, 0⟩ ⟨.gap, 1⟩ = true

/-- A type whose name, if it is one of the caller's, holds together by itself. -/
def SqlType.IsPlain : SqlType → Prop
  | custom name => Spot.reaches true name ⟨.gap, 0⟩ ⟨.joint, 0⟩ = true
  | _ => True

namespace Node

/-- What a node says besides its parts can be written. -/
def OwnPlain (s : Settings) : Node → Prop
  | field (.column c) => s.Spells c.name ∧ ∀ t ∈ c.table, s.Spells t
  | field (.neg x) => x.isBare = false
  | field (.call f _) => IsFunctionName f
  | field (.cast _ t) => t.IsPlain
  | field (.jsonValue _ _ returning _) => ∀ t ∈ returning, t.IsPlain
  | field (.aliased _ a) => s.Spells a
  | field (.raw _) | condition (.raw _) => False
  | table (.named schema n asName) => (∀ q ∈ schema, s.Spells q) ∧ s.Spells n ∧ ∀ a ∈ asName, s.Spells a
  | table (.derived _ a columns) => s.Spells a ∧ ∀ c ∈ columns, s.Spells c
  | table (.join _ _ _ (.using columns)) => ∀ c ∈ columns, s.Spells c
  | commonTable t => s.Spells t.name ∧ ∀ c ∈ t.columns, s.Spells c
  | hint h => ∀ n ∈ h.indexes, s.Spells n
  | _ => True

/-- A node in which nothing is raw text and every name can be written. -/
inductive Plain (s : Settings) : Node → Prop where
  | intro {n : Node} (own : n.OwnPlain s) (parts : ∀ m ∈ n.children, Plain s m) : Plain s n

namespace Plain

variable {s : Settings}

theorem own {n : Node} (h : n.Plain s) : n.OwnPlain s := by
  cases h with
  | intro own parts => exact own

theorem child {n m : Node} (h : n.Plain s) (hm : m ∈ n.children) : m.Plain s := by
  cases h with
  | intro own parts => exact parts m hm

theorem leaf {n : Node} (own : n.OwnPlain s) (none : n.children = []) : n.Plain s := by
  refine .intro own ?_
  rw [none]
  exact List.forall_mem_nil _

/-! ### Conditions and expansions -/

theorem literal (v : Value) : (field (.literal v)).Plain s := .leaf trivial rfl

theorem nullTest {x : Field} (h : (field x).Plain s) (negated : Bool) : (condition (x.nullTest negated)).Plain s := by
  unfold Field.nullTest
  split
  · exact .intro trivial fun m hm => h.child hm
  · exact .intro trivial (List.forall_mem_singleton.2 h)

theorem combined {op : Connective} {cs : List Condition} (h : ∀ c ∈ cs, (condition c).Plain s) :
    (condition (.combined op cs)).Plain s :=
  .intro trivial (List.forall_mem_map.2 h)

theorem join {op : Connective} {l r : Condition} (hl : (condition l).Plain s) (hr : (condition r).Plain s) :
    (condition (l.join op r)).Plain s := by
  refine Condition.join_cases (P := fun c => (condition c).Plain s) op hl hr ?_ ?_
  · exact .combined (List.forall_mem_cons.2 ⟨hl, List.forall_mem_singleton.2 hr⟩)
  · rintro cs rfl
    refine .combined (List.forall_mem_append.2 ⟨fun c hc => hl.child (List.mem_map_of_mem hc), ?_⟩)
    exact List.forall_mem_singleton.2 hr

theorem negate {c : Condition} (h : (condition c).Plain s) : (condition c.negate).Plain s := by
  unfold Condition.negate
  split
  · exact h
  · exact .intro trivial (List.forall_mem_singleton.2 h)

theorem searchedCase {bs : List (Condition × Field)} {otherwise : Option Field}
    (hb : ∀ b ∈ bs, (condition b.1).Plain s ∧ (field b.2).Plain s) (he : ∀ x ∈ otherwise, (field x).Plain s) :
    (field (.searchedCase bs otherwise)).Plain s := by
  refine .intro trivial (List.forall_mem_append.2 ⟨fun m hm => ?_, fun m hm => ?_⟩)
  · obtain ⟨b, hb', hm⟩ := List.mem_flatMap.1 hm
    rcases (by simpa using hm : m = condition b.1 ∨ m = field b.2) with rfl | rfl
    · exact (hb b hb').1
    · exact (hb b hb').2
  · obtain ⟨x, hx, rfl⟩ := List.mem_map.1 hm
    exact he x (Option.mem_toList.1 hx)

theorem expand {which : Extremum} {first second : Field} {rest : List Field} (op : ComparisonOp)
    (h : (field (.extremum which (first :: second :: rest))).Plain s) :
    (field (which.expand op first second rest)).Plain s := by
  have args : ∀ x ∈ first :: second :: rest, (field x).Plain s := fun x hx => h.child (List.mem_map_of_mem hx)
  obtain ⟨hfirst, hsecond, hrest⟩ : (field first).Plain s ∧ (field second).Plain s ∧ ∀ x ∈ rest, (field x).Plain s := by
    simpa using args
  have winner : ∀ x, (field x).Plain s → (field (.extremum which (x :: rest))).Plain s := fun x hx =>
    .intro trivial (List.forall_mem_map.2 (List.forall_mem_cons.2 ⟨hx, hrest⟩))
  refine .searchedCase ?_ ?_
  · refine List.forall_mem_cons.2 ⟨⟨.join (.nullTest hfirst false) (.nullTest hsecond false), ?_⟩, ?_⟩
    · exact .leaf trivial rfl
    · refine List.forall_mem_singleton.2 ⟨?_, winner first hfirst⟩
      exact .intro trivial (List.forall_mem_cons.2 ⟨hfirst, List.forall_mem_singleton.2 hsecond⟩)
  · rintro x ⟨⟩
    exact winner second hsecond

theorem asCase {c : Condition} (h : (condition c).Plain s) : (field c.asCase).Plain s := by
  refine .searchedCase ?_ fun x hx => by cases hx
  exact List.forall_mem_cons.2 ⟨⟨h, literal _⟩, List.forall_mem_singleton.2 ⟨h.negate, literal _⟩⟩

theorem nullKey {x : Field} (h : (field x).Plain s) (nulls : NullOrdering) :
    (field (SortField.nullKey x nulls)).Plain s := by
  unfold SortField.nullKey
  refine .searchedCase (List.forall_mem_singleton.2 ⟨h.nullTest false, literal _⟩) ?_
  rintro x ⟨⟩
  exact literal _

theorem complement {a : Aggregate} (h : (field (.aggregate a)).Plain s) (kind : AggregateKind) :
    (field (.aggregate { a with kind := kind })).Plain s :=
  .intro trivial fun _ hm => h.child hm

/-! ### Selects -/

theorem select_iff {q : Select} : (select q).Plain s ↔
    (∀ t ∈ q.commonTables, (commonTable t).Plain s) ∧ (∀ f ∈ q.fields, (field f).Plain s)
      ∧ (∀ t ∈ q.tables, (table t).Plain s) ∧ (condition q.condition).Plain s ∧ (∀ f ∈ q.groupBy, (field f).Plain s)
      ∧ (condition q.having).Plain s ∧ ∀ e ∈ q.orderBy, (sortField e).Plain s := by
  have parts : (select q).Plain s ↔ ∀ m ∈ (select q).children, m.Plain s :=
    ⟨fun h m hm => h.child hm, fun h => .intro trivial h⟩
  rw [parts, children, clauseChildren]
  simp only [List.forall_mem_append, List.forall_mem_map, List.forall_mem_singleton, and_assoc]

theorem noCondition : (condition .none).Plain s := .leaf trivial rfl

theorem ofFields {fields : List Field} {tables : List Table} {c : Condition} (hf : ∀ f ∈ fields, (field f).Plain s)
    (ht : ∀ t ∈ tables, (table t).Plain s) (hc : (condition c).Plain s) :
    (select { Select.ofFields fields with tables := tables, condition := c }).Plain s :=
  select_iff.2 ⟨List.forall_mem_nil _, hf, ht, hc, List.forall_mem_nil _, noCondition, List.forall_mem_nil _⟩

theorem derived {q : Select} {a : String} (h : (select q).Plain s) (ha : s.Spells a) :
    (table (.derived q a [])).Plain s :=
  .intro ⟨ha, List.forall_mem_nil _⟩ (List.forall_mem_singleton.2 h)

theorem qualified {t c : String} (ht : s.Spells t) (hc : s.Spells c) : (field (.qualified t c)).Plain s := by
  refine .leaf ⟨hc, ?_⟩ rfl
  rintro _ ⟨⟩
  exact ht

/-- The entries of a select list with its rows expanded. -/
theorem flattened {q : Select} (h : (select q).Plain s) : ∀ f ∈ q.flattened, (field f).Plain s := by
  have flatten : ∀ f : Field, (field f).Plain s → ∀ g ∈ f.flatten, (field g).Plain s := by
    intro f
    induction f using Field.flatten.induct
      (motive_2 := fun fs => (∀ f ∈ fs, (field f).Plain s) → ∀ g ∈ Field.flattenAll fs, (field g).Plain s) with
    | case1 members ih =>
      intro h g hg
      rw [Field.flatten] at hg
      exact ih (fun x hx => h.child (List.mem_map_of_mem hx)) g hg
    | case2 members a ih =>
      intro h g hg
      rw [Field.flatten] at hg
      have row : (field (.row members)).Plain s := h.child (.head _)
      exact ih (fun x hx => row.child (List.mem_map_of_mem hx)) g hg
    | case3 f hr ha =>
      intro h g hg
      rw [Field.flatten, List.mem_singleton] at hg
      · rw [hg]
        exact h
      · exact hr
      · exact ha
    | case4 _ g hg =>
      rw [Field.flattenAll] at hg
      cases hg
    | case5 f fs ihf ihfs h g hg =>
      obtain ⟨hf, hfs⟩ := List.forall_mem_cons.1 h
      rw [Field.flattenAll] at hg
      rcases List.mem_append.1 hg with hg | hg
      · exact ihf hf g hg
      · exact ihfs hfs g hg
  intro f hf
  rw [Select.flattened, Field.flattenAll_eq_flatMap] at hf
  obtain ⟨x, hx, hf⟩ := List.mem_flatMap.1 hf
  exact flatten x ((select_iff.1 h).2.1 x hx) f hf

theorem unaliased {x : Field} (h : (field x).Plain s) : (field x.unaliased).Plain s := by
  induction x using Field.unaliased.induct with
  | case1 x a ih =>
    rw [Field.unaliased]
    exact ih (h.child (.head _))
  | case2 x hx =>
    rw [Field.unaliased]
    · exact h
    · exact hx

theorem aliased {x : Field} {a : String} (h : (field x).Plain s) (ha : s.Spells a) :
    (field (.aliased x.unaliased a)).Plain s :=
  .intro ha (List.forall_mem_singleton.2 h.unaliased)

theorem spells_naturalName {x : Field} {n : String} (h : (field x).Plain s) (hn : x.naturalName? = some n) :
    s.Spells n := by
  cases x with
  | aliased x a =>
    cases hn
    exact h.own
  | column c =>
    cases hn
    exact (show s.Spells c.name ∧ _ from h.own).1
  | _ => cases hn

/-- The names that columns are read by are names of the select or made up. -/
theorem spells_outputNames {q : Select} (h : (select q).Plain s) : ∀ n ∈ q.outputNames q.flattened, s.Spells n := by
  intro n hn
  obtain ⟨i, hi⟩ := List.mem_iff_getElem?.1 hn
  have shorter : i < q.flattened.length := by
    rw [← Select.length_nameColumns (q.takenNames q.flattened) 0 [] q.flattened]
    exact (List.getElem?_eq_some_iff.1 hi).1
  have hf := List.getElem?_eq_getElem shorter
  rcases Select.outputNames_cases hf hi with ⟨natural, -⟩ | ⟨-, tries, -, rfl⟩
  · exact (h.flattened _ (List.getElem_mem shorter)).spells_naturalName natural
  · exact s.spells_generatedName i tries

theorem toSelect {q : Select} {names : List String} {plan : Select.Renaming} {a : String} (h : (select q).Plain s)
    (hn : ∀ n ∈ names, s.Spells n) (ha : s.Spells a) (hp : q.rename? names = some plan) :
    (select (plan.toSelect a)).Plain s := by
  have zipped : ∀ (g : Field → String → Field) (ns : List String),
      (∀ f n, (field f).Plain s → n ∈ ns → (field (g f n)).Plain s) →
      (select { q with fields := List.zipWith g q.flattened ns }).Plain s := by
    intro g ns hg
    obtain ⟨ht, -, clauses⟩ := select_iff.1 h
    refine select_iff.2 ⟨ht, fun x hx => ?_, clauses⟩
    rw [← List.map_uncurry_zip_eq_zipWith] at hx
    obtain ⟨⟨f, n⟩, hm, rfl⟩ := List.mem_map.1 hx
    obtain ⟨hf, hn⟩ := List.of_mem_zip hm
    exact hg f n (h.flattened f hf) hn
  unfold Select.rename? at hp
  dsimp only at hp
  split at hp
  · cases hp
  · split at hp
    · cases hp
      exact zipped _ names fun f n hf hm => hf.aliased (hn n hm)
    · cases hp
      have output := h.spells_outputNames
      have inner := zipped Field.named (q.outputNames q.flattened) fun f n hf hm => by
        unfold Field.named
        split
        · exact hf
        · exact hf.aliased (output n hm)
      refine .ofFields ?_ (List.forall_mem_singleton.2 (.derived inner ha)) .noCondition
      intro x hx
      obtain ⟨⟨c, n⟩, hm, rfl⟩ := List.mem_map.1 hx
      obtain ⟨hc, hm⟩ := List.of_mem_zip hm
      exact .intro (hn n hm) (List.forall_mem_singleton.2 (.qualified ha (output c hc)))

theorem countPassing {inner : Select} {columns : List String} {a : String} (h : (select inner).Plain s)
    (hc : ∀ c ∈ columns, s.Spells c) (ha : s.Spells a) (negated : Bool) :
    (select (Select.countPassing inner columns a negated)).Plain s := by
  refine .ofFields ?_ (List.forall_mem_singleton.2 (.derived h ha)) ?_
  · exact List.forall_mem_singleton.2 (.leaf trivial rfl)
  · refine Condition.foldl_join_closed (P := fun c => (condition c).Plain s) (fun _ _ => join) ?_ noCondition
    intro c hm
    obtain ⟨n, hn, rfl⟩ := List.mem_map.1 hm
    exact .nullTest (.qualified ha (hc n hn)) negated

/-! ### Common tables -/

theorem emitted {n : Node} (h : n.Plain s) : ∀ t ∈ n.emitted, (commonTable t).Plain s := by
  induction n using Node.induction with
  | step n ih =>
    intro t ht
    rw [emitted_eq] at ht
    rcases List.mem_append.1 ht with ht | ht
    · obtain ⟨m, hm, ht⟩ := List.mem_flatMap.1 ht
      exact ih m hm (h.child hm) t ht
    · cases n with
      | commonTable u =>
        rw [List.mem_singleton.1 ht]
        exact h
      | _ => cases ht

theorem hoisted {q : Select} {d : Dialect} {w : With} (h : (select q).Plain s) (hw : q.hoisted d = .ok w) :
    ∀ t ∈ w.tables, (commonTable t).Plain s := by
  intro t ht
  rw [Select.tables_of_hoisted hw] at ht
  exact h.emitted t (Hoisting.mem_of_mem_firsts ht)

end Plain

end Node

end SqlDialects
