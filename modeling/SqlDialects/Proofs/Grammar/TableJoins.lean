import SqlDialects.Proofs.Grammar.JoinTokens
import SqlDialects.Proofs.Grammar.Predicates

/-!
# Joins in `FROM` entries

A `FROM` entry is written as the symbols of its joins, one after the other (`Table.write_eq_symbols`), each table and
each condition by itself. This holds of every table in every dialect, so as symbols a tree of joins is always read back.

A text has no symbols, only tokens. A template can stand in a condition or in a subquery and may bring in any of them,
also a parenthesis too many or a `JOIN`, so that the symbols cannot be found again. Where that does not happen
(`Table.Legible`), each table is written as an operand and each condition as a phrase of the grammar
(`Table.IsJoinTree.exists_spelled`), and the tokens of the text are read as the same tree (`Table.joins_read_back`).
-/

set_option autoImplicit false

namespace SqlDialects

open Render

/-! ## The joins of a table -/

/-- What the rows of a join are matched by, if there is anything. -/
def JoinCondition.matching? : JoinCondition → Option (Matching Condition String)
  | none => .none
  | on c => some (.on c)
  | «using» columns => some (.using columns)

namespace Table

/-- Named and derived tables, with hints or without. -/
inductive IsLeaf : Table → Prop where
  | named (schema : Option String) (n : String) (asName : Option String) : IsLeaf (named schema n asName)
  | derived (s : Select) (asName : String) (columns : List String) : IsLeaf (derived s asName columns)
  | hinted {t : Table} (h : t.IsLeaf) (hint : IndexHint) : IsLeaf (hinted t hint)

/-- Joins of named and derived tables. The kinds of joins that take a condition have one. -/
inductive IsJoinTree : Table → Prop where
  | leaf {t : Table} (h : t.IsLeaf) : IsJoinTree t
  | join {type : JoinType} {left right : Table} {matching : JoinCondition} (hl : left.IsJoinTree)
      (hr : right.IsJoinTree) (hm : type.takesCondition = true → matching ≠ .none) :
      IsJoinTree (join type left right matching)

/-- The tree of the joins of a table. The kinds of joins that take no condition drop theirs. -/
def joins : Table → JoinTree Table Condition String
  | join type left right matching =>
    .join type left.joins right.joins (if type.takesCondition then matching.matching? else none)
  | t => .operand t

theorem isJoin_joins (t : Table) : t.joins.isJoin = t.isJoin := by
  cases t <;> rfl

theorem IsLeaf.joins_eq {t : Table} (h : t.IsLeaf) : t.joins = .operand t := by
  cases h <;> rfl

theorem IsJoinTree.isMatched {t : Table} (h : t.IsJoinTree) : t.joins.IsMatched := by
  induction h with
  | leaf h =>
    rw [h.joins_eq]
    exact .operand _
  | @join type left right matching hl hr hm ihl ihr =>
    refine .join ihl ihr ?_
    cases ht : type.takesCondition with
    | false => rfl
    | true =>
      cases matching with
      | none => exact absurd rfl (hm ht)
      | _ => rfl

end Table

/-! ## Written symbol by symbol -/

def JoinSymbol.write : JoinSymbol Table Condition String → Render Unit
  | operand t => (Node.table t).write
  | keyword type => do
    sql " "
    sql type.keyword
    sql " "
  | opening => sql "("
  | closing => sql ")"
  | matching (.on c) => do
    sql " ON "
    (Node.condition c).write
  | matching (.using columns) => do
    sql " USING "
    nameList columns

/-- The symbols of a right operand are written in parentheses exactly if it is a join. -/
theorem JoinSymbol.forM_enclosed (join : Bool) (ss : List (JoinSymbol Table Condition String)) :
    forM (enclosed join ss) write = if join then Render.parenthesized (forM ss write) else forM ss write := by
  cases join <;> simp [enclosed, parenthesized, write]

theorem JoinSymbol.forM_matching (type : JoinType) (m : JoinCondition) :
    forM ((if type.takesCondition then m.matching? else none).map matching).toList write
      = Render.when type.takesCondition (Visitor.joinCondition Node.write m) := by
  cases type.takesCondition with
  | false => simp [Render.when]
  | true =>
    cases m <;> simp [JoinCondition.matching?, Render.when, Visitor.joinCondition, Visitor.condition, write]

/-- A table is written as the symbols of its joins, one after the other. -/
theorem Table.write_eq_symbols (t : Table) : (Node.table t).write = forM t.joins.symbols JoinSymbol.write := by
  fun_induction Table.joins t with
  | case1 type left right matching ihl ihr =>
    rw [Node.write_eq_parts]
    show Visitor.tableParts Node.write (.join type left right matching) = _
    rw [Visitor.tableParts, JoinTree.symbols, ihl, ihr, isJoin_joins]
    simp only [List.forM_append, List.forM_cons, JoinSymbol.forM_enclosed, JoinSymbol.forM_matching, JoinSymbol.write,
      bind_assoc]
    cases right.isJoin <;> rfl
  | case2 t h => simp [JoinTree.symbols, JoinSymbol.write]

/-! ## Tables and conditions that are read as phrases -/

section

variable {d : Dialect} {s : Settings} {π : Place d s}

/-- The subquery of a derived table. Where the alias takes no column list, the columns are renamed inside. -/
def Table.derivedGroup (d : Dialect) (q : Select) (columns : List String) : Render Unit := do
  if columns.isEmpty || Capability.derivedColumnList d then subquery (Node.select q).write
  else
    let inner ← Visitor.renamed q columns "derived column list"
    subquery (Node.select inner).write

/-- A matching whose condition is read as one phrase and whose columns are quoted if they need it. -/
inductive JoinCondition.Legible (π : Place d s) : JoinCondition → Prop where
  | none : Legible π none
  | on {c : Condition} {ts : List Token} (h : Token.isPhrase 0 ts = true)
      (hw : Writes π .gap .joint (Node.condition c).write ts) : Legible π (on c)
  | using {columns : List String} (h : ∀ c ∈ columns, s.Spells c) : Legible π («using» columns)

/-- A table whose subqueries are read as one group each, whose conditions, as far as they are written, are read as one
phrase each, and whose names are quoted if they need it. -/
inductive Table.Legible (π : Place d s) : Table → Prop where
  | named {schema asName : Option String} {n : String} (hs : ∀ x ∈ schema, s.Spells x) (hn : s.Spells n)
      (ha : ∀ a ∈ asName, s.Spells a) : Legible π (named schema n asName)
  | derived {q : Select} {asName : String} {columns : List String} {ts : List Token} (h : Token.balanced 0 ts = true)
      (hw : Writes π .gap .gap (derivedGroup d q columns) (.symbol "(" :: ts ++ [.symbol ")"])) (ha : s.Spells asName)
      (hc : ∀ c ∈ columns, s.Spells c) : Legible π (derived q asName columns)
  | hinted {t : Table} {hint : IndexHint} (h : t.Legible π) (hi : ∀ n ∈ hint.indexes, s.Spells n) :
      Legible π (hinted t hint)
  | join {type : JoinType} {left right : Table} {matching : JoinCondition} (hl : left.Legible π)
      (hr : right.Legible π) (hm : type.takesCondition = true → matching.Legible π) :
      Legible π (join type left right matching)

/-! ### Names -/

theorem Settings.Spells.isKeyword_nameToken {n w : String} (h : s.Spells n) (hw : w ∈ reservedWords) :
    (s.nameToken n).isKeyword w = false := by
  have word : needsQuoting n = false → Token.isKeyword w (.word n) = false := by
    intro hn
    rw [needsQuoting, Bool.or_eq_false_iff, Text.isAnyOf, List.any_eq_false] at hn
    exact Bool.eq_false_iff.2 (hn.2 w hw)
  unfold nameToken
  cases hq : s.quotedNames with
  | always => rfl
  | never => exact word (h hq)
  | asNeeded =>
    cases hn : needsQuoting n with
    | true => rfl
    | false => exact word hn

theorem Settings.nameToken_ne_symbol (s : Settings) (n x : String) : s.nameToken n ≠ .symbol x := by
  rcases s.nameToken_cases n with h | h <;> rw [h] <;> simp

theorem Settings.forall_isName_nameToken (s : Settings) (names : List String) :
    ∀ t ∈ names.map s.nameToken, t.isName = true := by
  refine List.forall_mem_map.2 fun n _ => ?_
  rcases s.nameToken_cases n with h | h <;> rw [h] <;> rfl

theorem Settings.Spells.isPhrase_cons {n : String} {ts : List Token} (h : s.Spells n)
    (hts : Token.isPhrase 0 ts = true) : Token.isPhrase 0 (s.nameToken n :: ts) = true := by
  have reserved : ∀ w ∈ ["ON", "USING", "JOIN"] ++ JoinType.allModifiers, w ∈ reservedWords := by decide
  obtain ⟨stops, modifiers⟩ := List.forall_mem_append.1 reserved
  have same : Token.nesting 0 (s.nameToken n) = 0 := by
    rcases s.nameToken_cases n with h | h <;> rw [h] <;> rfl
  exact Token.isPhrase_cons.2 ⟨s.nameToken_ne_symbol n ")", fun w hw => h.isKeyword_nameToken (stops w hw),
    fun _ w hw => h.isKeyword_nameToken (modifiers w hw), by rwa [same]⟩

namespace Render.Writes

theorem names {names : List String} (h : ∀ n ∈ names, s.Spells n) :
    Writes π .joint .gap (nameList names) (Token.columnList (names.map s.nameToken)) := by
  obtain ⟨ts, ht, written⟩ := Writes.list (π := π) (f := Render.name) (e := fun n => .atom (s.nameToken n))
    fun n hn => (Writes.name (h n hn).plain).ofSign.toJoint
  refine (Writes.parenthesized written).cast ?_
  rw [Token.columnList, List.map_map, List.cons_append, ht]
  rfl

/-- An alias behind what it names. -/
theorem behindAs {asName : String} (h : s.Spells asName) :
    Writes π .joint .joint (do Render.sql " AS "; Render.name asName) [.word "AS", s.nameToken asName] := by
  have keyword : Writes π .joint .gap (Render.sql " AS ") [.word "AS"] :=
    sql (@Lexer.reads_padded d ["AS"] (by decide))
  exact keyword.bind (name h.plain).ofSign.toJoint

end Render.Writes

/-! ### Leaves -/

namespace Table

theorem isPhrase_behindAs {asName : String} {ts : List Token} (h : s.Spells asName) (hts : Token.isPhrase 0 ts = true) :
    Token.isPhrase 0 (.word "AS" :: s.nameToken asName :: ts) = true :=
  Token.isPhrase_cons.2 ⟨by simp, by decide, by rintro ⟨⟩, h.isPhrase_cons hts⟩

theorem exists_writes_named {schema asName : Option String} {n : String} (hs : ∀ x ∈ schema, s.Spells x)
    (hn : s.Spells n) (ha : ∀ a ∈ asName, s.Spells a) :
    ∃ u, Token.IsOperand u ∧ Writes π .gap .joint (Node.table (named schema n asName)).write u := by
  have tail : ∃ ts, Token.isPhrase 0 ts = true ∧ Writes π .joint .joint
      (onSome asName fun a => do sql " AS "; name a) ts := by
    cases asName with
    | none => exact ⟨[], rfl, .pure⟩
    | some a => exact ⟨_, isPhrase_behindAs (ha a rfl) rfl, .behindAs (ha a rfl)⟩
  obtain ⟨ts, phrase, tail⟩ := tail
  have table : Writes π .sign .name (name n) [s.nameToken n] := .name hn.plain
  rw [Node.write_eq_parts]
  cases schema with
  | none =>
    have nothing : Writes π .gap .gap (Pure.pure ()) [] := .pure
    exact ⟨s.nameToken n :: ts, .plain (s.nameToken_ne_symbol n "(") (hn.isPhrase_cons phrase),
      nothing.bind (table.ofSign.toJoint.bind tail)⟩
  | some x =>
    have point : Writes π .name .gap (sql ".") [.symbol "."] := .sql Lexer.reads_point
    have qualifier : Writes π .gap .gap (do name x; sql ".") [s.nameToken x, .symbol "."] :=
      Writes.bind (Writes.name (hs x rfl).plain).ofSign point
    have rest : Token.isPhrase 0 (.symbol "." :: s.nameToken n :: ts) = true :=
      Token.isPhrase_cons.2 ⟨by simp, by decide, by rintro ⟨⟩, hn.isPhrase_cons phrase⟩
    exact ⟨_, .plain (s.nameToken_ne_symbol x "(") ((hs x rfl).isPhrase_cons rest),
      qualifier.bind (table.ofSign.toJoint.bind tail)⟩

theorem exists_writes_derived {q : Select} {asName : String} {columns : List String} {ts : List Token}
    (h : Token.balanced 0 ts = true)
    (hw : Writes π .gap .gap (derivedGroup d q columns) (.symbol "(" :: ts ++ [.symbol ")"])) (ha : s.Spells asName)
    (hc : ∀ c ∈ columns, s.Spells c) :
    ∃ u, Token.IsOperand u ∧ Writes π .gap .joint (Node.table (derived q asName columns)).write u := by
  have operand : ∀ {more : List Token}, Token.isPhrase 0 more = true →
      Token.IsOperand (.symbol "(" :: ts ++ .symbol ")" :: .word "AS" :: s.nameToken asName :: more) :=
    fun hm => .group h (by simp) (isPhrase_behindAs ha hm)
  rw [Node.write_eq_parts]
  show ∃ u, _ ∧ Writes π .gap .joint (Visitor.derived Node.write q asName columns) u
  unfold derivedGroup at hw
  cases native : columns.isEmpty || Capability.derivedColumnList d with
  | true =>
    rw [native, if_pos rfl] at hw
    have list : ∃ more, Token.isPhrase 0 more = true
        ∧ Writes π .joint .joint (Render.when (!columns.isEmpty) (nameList columns)) more := by
      cases columns.isEmpty with
      | true => exact ⟨[], rfl, .pure⟩
      | false =>
        exact ⟨_, (Token.columnList_eq (s.forall_isName_nameToken columns)).1, (Writes.names hc).toJoint⟩
    obtain ⟨more, phrase, list⟩ := list
    refine ⟨_, operand phrase, .dialect ?_⟩
    rw [native, if_pos rfl]
    have whole := hw.bind (f := fun _ => _) ((Writes.behindAs ha).ofJoint.bind (f := fun _ => _) list)
    simpa [bind_assoc] using whole
  | false =>
    rw [native, if_neg (by simp)] at hw
    refine ⟨_, @operand [] rfl, .dialect ?_⟩
    rw [native, if_neg (by simp)]
    have whole := hw.bind (f := fun _ => _) (Writes.behindAs ha).ofJoint
    simpa [bind_assoc] using whole

theorem exists_writes_hinted {t : Table} {hint : IndexHint} {u : List Token} (hu : Token.IsOperand u)
    (hw : Writes π .gap .joint (Node.table t).write u) (hi : ∀ n ∈ hint.indexes, s.Spells n) :
    ∃ u, Token.IsOperand u ∧ Writes π .gap .joint (Node.table (hinted t hint)).write u := by
  rw [Node.write_eq_parts]
  cases available : Capability.indexHints d with
  | false =>
    have nothing : Writes π .joint .joint (do let d ← Render.dialect
                                              Render.when (Capability.indexHints d)
                                                (do sql " "; (Node.hint hint).write)) [] := by
      refine .dialect ?_
      rw [available]
      exact .pure
    exact ⟨_, hu, (hw.bind (f := fun _ => _) nothing).cast (List.append_nil u)⟩
  | true =>
    obtain ⟨w, hk, keyword⟩ : ∃ w, Token.isPhrase 0 [.word w, .word "INDEX"] = true
        ∧ Writes π .gap .gap (sql hint.kind.keyword) [.word w, .word "INDEX"] := by
      cases hint.kind
      · exact ⟨"USE", by decide, .sql (@Lexer.reads_words d ["USE", "INDEX"] (by decide))⟩
      · exact ⟨"FORCE", by decide, .sql (@Lexer.reads_words d ["FORCE", "INDEX"] (by decide))⟩
      · exact ⟨"IGNORE", by decide, .sql (@Lexer.reads_words d ["IGNORE", "INDEX"] (by decide))⟩
    have written : Writes π .joint .joint (do let d ← Render.dialect
                                              Render.when (Capability.indexHints d)
                                                (do sql " "; (Node.hint hint).write))
        ([.word w, .word "INDEX"] ++ Token.columnList (hint.indexes.map s.nameToken)) := by
      refine .dialect ?_
      rw [available, Node.write_eq_parts]
      exact (Writes.blank.bind (keyword.bind (Writes.names hi).ofJoint)).toJoint
    have names := (Token.columnList_eq (s.forall_isName_nameToken hint.indexes)).1
    exact ⟨_, hu.append (Token.isPhrase_append hk names), hw.bind (f := fun _ => _) written⟩

/-- A leaf is written as an operand. -/
theorem IsLeaf.exists_writes {t : Table} (ht : t.IsLeaf) (h : t.Legible π) :
    ∃ u, Token.IsOperand u ∧ Writes π .gap .joint (Node.table t).write u := by
  induction ht with
  | named schema n asName =>
    cases h with
    | named hs hn ha => exact exists_writes_named hs hn ha
  | derived q asName columns =>
    cases h with
    | derived h hw ha hc => exact exists_writes_derived h hw ha hc
  | hinted _ hint ih =>
    cases h with
    | hinted h hi =>
      obtain ⟨u, hu, hw⟩ := ih h
      exact exists_writes_hinted hu hw hi

end Table

/-! ## Trees of tables and of tokens -/

/-- A matching and the tokens that it is written as. -/
inductive Matching.Spelled (π : Place d s) : Matching Condition String → Matching (List Token) Token → Prop where
  | on {c : Condition} {ts : List Token} (h : Writes π .gap .joint (Node.condition c).write ts) :
      Spelled π (on c) (on ts)
  | using (columns : List String) (h : ∀ c ∈ columns, s.Spells c) :
      Spelled π («using» columns) («using» (columns.map s.nameToken))

/-- A tree of tables and the tree of the tokens that they are written as: the joins are the same, of the same types and
matched by the same, and so are the tables. -/
inductive JoinTree.Spelled (π : Place d s) : JoinTree Table Condition String →
    JoinTree (List Token) (List Token) Token → Prop where
  | operand {t : Table} {u : List Token} (h : Writes π .gap .joint (Node.table t).write u) :
      Spelled π (operand t) (operand u)
  | join {type : JoinType} {left right : JoinTree Table Condition String}
      {left' right' : JoinTree (List Token) (List Token) Token} {matching : Option (Matching Condition String)}
      {matching' : Option (Matching (List Token) Token)} (hl : left.Spelled π left') (hr : right.Spelled π right')
      (hm : Option.Rel (Matching.Spelled π) matching matching') :
      Spelled π (join type left right matching) (join type left' right' matching')

namespace JoinTree.Spelled

variable {e : JoinTree Table Condition String} {e' : JoinTree (List Token) (List Token) Token}

theorem isJoin_eq (h : e.Spelled π e') : e'.isJoin = e.isJoin := by
  cases h <;> rfl

theorem isMatched (h : e.Spelled π e') (he : e.IsMatched) : e'.IsMatched := by
  induction h with
  | operand h => exact .operand _
  | join hl hr hm ihl ihr =>
    cases he with
    | join hel her hem =>
      refine .join (ihl hel) (ihr her) (Eq.trans ?_ hem)
      cases hm <;> rfl

end JoinTree.Spelled

theorem JoinType.reads_keyword (type : JoinType) :
    Lexer.Reads d .gap .joint type.keyword.toList (type.words.map .word) := by
  have plain : ∀ w ∈ type.modifiers, isPlainName w = true := by
    cases type <;> decide
  have text : type.keyword.toList = (type.modifiers.flatMap fun w => w.toList ++ [' ']) ++ "JOIN".toList := by
    cases type <;> rfl
  rw [text, JoinType.words, List.map_append]
  exact (Lexer.reads_words plain).append (Lexer.reads_word (by decide)).ofSign.toJoint

theorem Matching.Spelled.writes {matching : Option (Matching Condition String)}
    {matching' : Option (Matching (List Token) Token)} (h : Option.Rel (Matching.Spelled π) matching matching') :
    Writes π .joint .joint (forM (matching.map JoinSymbol.matching).toList JoinSymbol.write)
      ((matching'.map Matching.tokens).getD []) := by
  cases h with
  | none => exact .pure
  | some h =>
    cases h with
    | on h =>
      have keyword : Writes π .joint .gap (sql " ON ") [.word "ON"] :=
        .sql (@Lexer.reads_padded d ["ON"] (by decide))
      simpa [JoinSymbol.write, Matching.tokens] using keyword.bind (f := fun _ => _) h
    | «using» columns h =>
      have keyword : Writes π .joint .gap (sql " USING ") [.word "USING"] :=
        .sql (@Lexer.reads_padded d ["USING"] (by decide))
      simpa [JoinSymbol.write, Matching.tokens] using (keyword.bind (f := fun _ => _) (Writes.names h).ofJoint).toJoint

/-- The symbols of a tree are written as its tokens. -/
theorem JoinTree.Spelled.writes {e : JoinTree Table Condition String} {e' : JoinTree (List Token) (List Token) Token}
    (h : e.Spelled π e') : Writes π .gap .joint (forM e.symbols JoinSymbol.write) e'.tokens := by
  induction h with
  | @operand t u h =>
    show Writes π .gap .joint _ (u ++ [])
    simpa [symbols, JoinSymbol.write] using h
  | @join type left right left' right' matching matching' hl hr hm ihl ihr =>
    have keyword : Writes π .joint .gap (JoinSymbol.write (.keyword type)) (type.words.map .word) :=
      (Writes.blank.bind (f := fun _ => _) ((Writes.sql type.reads_keyword).bind (f := fun _ => _) .blank)).cast
        (List.append_nil _)
    have operand : Writes π .gap .joint (forM (JoinSymbol.enclosed right.isJoin right.symbols) JoinSymbol.write)
        ((JoinSymbol.enclosed right'.isJoin right'.symbols).flatMap JoinSymbol.tokens) := by
      rw [JoinSymbol.forM_enclosed, tokens_enclosed, hr.isJoin_eq]
      cases right.isJoin with
      | true => exact (Writes.parenthesized ihr).ofJoint.toJoint
      | false => exact ihr
    rw [symbols, List.forM_append, List.forM_cons, List.forM_append, tokens_join]
    exact ihl.bind (keyword.bind (operand.bind (Matching.Spelled.writes hm)))

/-- Joins of legible tables are written as legible joins. -/
theorem Table.IsJoinTree.exists_spelled {t : Table} (ht : t.IsJoinTree) (h : t.Legible π) :
    ∃ e, t.joins.Spelled π e ∧ e.IsLegible := by
  induction ht with
  | leaf ht =>
    obtain ⟨u, hu, hw⟩ := ht.exists_writes h
    rw [ht.joins_eq]
    exact ⟨.operand u, .operand hw, .operand hu⟩
  | @join type left right matching hl hr hm ihl ihr =>
    cases h with
    | join hle hre hme =>
      obtain ⟨l, hl, hll⟩ := ihl hle
      obtain ⟨r, hr, hrl⟩ := ihr hre
      have matched : ∃ m, Option.Rel (Matching.Spelled π)
          (if type.takesCondition then matching.matching? else none) m ∧ ∀ m' ∈ m, m'.IsLegible := by
        cases taken : type.takesCondition with
        | false => exact ⟨none, .none, by simp⟩
        | true =>
          have legible := hme taken
          cases legible with
          | none => exact absurd rfl (hm taken)
          | on hp hw => exact ⟨some (.on _), .some (.on hw), by simpa using .on hp⟩
          | @«using» columns hs =>
            have names := Matching.IsLegible.using (s.forall_isName_nameToken columns)
            exact ⟨some (.using _), .some (.using columns hs), by simpa using names⟩
      obtain ⟨m, spelled, legible⟩ := matched
      exact ⟨.join type l r m, .join hl hr spelled, .join hll hrl legible⟩

/-- The tokens that joins of legible tables are written as are read as the same joins. -/
theorem Table.IsJoinTree.exists_joins {t : Table} (ht : t.IsJoinTree) (h : t.Legible π) :
    ∃ ts e, Writes π .gap .joint (Node.table t).write ts ∧ Token.joins? ts = some e ∧ t.joins.Spelled π e := by
  obtain ⟨e, spelled, legible⟩ := ht.exists_spelled h
  refine ⟨e.tokens, e, ?_, JoinTree.joins?_tokens legible (spelled.isMatched ht.isMatched), spelled⟩
  rw [t.write_eq_symbols]
  exact spelled.writes

end

/-- Join trees keep their nesting. A tree of joins of named and derived tables is written as its symbols, one after the
other, and these are read as the same tree. So are the tokens of the written text, if each table and each condition is
read as a phrase of its own. The joins of the tree that is read are of the same types, in the same order, matched by the
same; only what a `CROSS` or a `NATURAL` join was to be matched by is dropped. -/
theorem Table.joins_read_back {t : Table} (ht : t.IsJoinTree) :
    (Node.table t).write = forM t.joins.symbols JoinSymbol.write ∧ JoinTree.read? t.joins.symbols = some t.joins
    ∧ ∀ {d : Dialect} {s : Settings} {π : Place d s}, t.Legible π →
        ∃ ts e, Writes π .gap .joint (Node.table t).write ts ∧ Token.joins? ts = some e ∧ t.joins.Spelled π e
          ∧ (∀ r, (Node.table t).render d s = .ok r → r.tokens? d = some ts)
          ∧ (¬ π.mayFail → ∃ r, (Node.table t).render d s = .ok r) := by
  refine ⟨t.write_eq_symbols, JoinTree.read?_symbols ht.isMatched, ?_⟩
  intro d s π h
  obtain ⟨ts, e, written, read, spelled⟩ := ht.exists_joins h
  exact ⟨ts, e, written, read, spelled, fun r hr => written.tokens? hr, written.exists_render⟩

namespace NestedJoins

/-- `SELECT * FROM c` -/
def rows : Select := { Select.ofFields [] with tables := [.named none "c" none] }

/-- `x.k = q.k` -/
def equal : Condition := .compare .eq (.qualified "x" "k") (.qualified "q" "k")

/-- An inner join on the right of an outer one, and a cross join around both that is given columns to match rows by. -/
def entry : Table :=
  .join .cross
    (.join .left (.named none "a" none)
      (.join .inner (.hinted (.named (some "s") "b" (some "x")) ⟨.use, ["i"]⟩) (.derived rows "q" []) (.on equal))
      (.using ["k"]))
    (.named none "c" none) (.using ["k"])

theorem isJoinTree : entry.IsJoinTree := by
  have named : ∀ schema n asName, (Table.named schema n asName).IsJoinTree := fun _ _ _ => .leaf (.named _ _ _)
  have inner : (Table.join .inner (.hinted (.named (some "s") "b" (some "x")) ⟨.use, ["i"]⟩) (.derived rows "q" [])
      (.on equal)).IsJoinTree :=
    .join (.leaf (.hinted (.named _ _ _) _)) (.leaf (.derived _ _ _)) (by simp)
  exact .join (.join (named _ _ _) inner (by simp)) (named _ _ _) (by simp)

/-- What the subquery is written as on one line. -/
def pieces : List Piece :=
  [.text "(", .edge 1, .text "SELECT ", .text "*", .gap 1, .text "FROM ", .name "c", .edge 0, .text ")"]

theorem write_rows (o : Output) : subquery (Node.select rows).write (.after .mySql8 .default o)
    = .ok () (.after .mySql8 .default (o.writeAll .mySql8 .default pieces)) := by
  have reach : (Node.select rows).reach = 2 := by
    simp [Node.reach_eq, Node.weight, Node.children, Node.clauseChildren, Node.tableChildren, Node.conditionChildren,
      rows, Select.ofFields, Select.commonTables]
  unfold Node.write
  rw [reach]
  rfl

theorem spells_pieces : Lexer.Spells .mySql8 .default .gap .gap pieces
    [.symbol "(", .word "SELECT", .symbol "*", .word "FROM", .word "c", .symbol ")"] := by
  have text : ∀ {a b : Lexer.Edge} {ts : List Token} (t : String), Lexer.Reads .mySql8 a b t.toList ts →
      Lexer.Spells .mySql8 .default a b [.text t] ts :=
    fun t h => Lexer.Reads.spells (p := .text t) (by simp) h
  have edge : ∀ (a : Lexer.Edge) (n : Nat), Lexer.Spells .mySql8 .default a a [.edge n] [] :=
    fun a n => Lexer.Reads.spells (p := .edge n) (by simp) .nil
  have gap : Lexer.Spells .mySql8 .default .joint .gap [.gap 1] [] :=
    Lexer.Reads.spells (p := .gap 1) (by simp) Lexer.reads_blank
  have name : Lexer.Spells .mySql8 .default .sign .name [.name "c"] [.word "c"] :=
    Lexer.Reads.spells (p := .name "c") (by simp) (Lexer.reads_word (by decide))
  have words : ∀ w, isPlainName w = true → Lexer.Spells .mySql8 .default .gap .gap [.text (w ++ " ")] [.word w] := by
    intro w hw
    refine text _ ?_
    simpa using Lexer.reads_words (List.forall_mem_singleton.2 hw)
  have opening : Lexer.Spells .mySql8 .default .gap .gap [.text "(", .edge 1] [.symbol "("] :=
    (text "(" (Lexer.reads_mark (c := '(') (by decide))).ofJoint.append (edge .gap 1)
  have select : Lexer.Spells .mySql8 .default .gap .gap [.text "SELECT ", .text "*"] [.word "SELECT", .symbol "*"] :=
    (words "SELECT" (by decide)).append (text "*" (Lexer.reads_single (c := '*') (by decide))).ofSign
  have source : Lexer.Spells .mySql8 .default .gap .joint [.gap 1, .text "FROM ", .name "c"]
      [.word "FROM", .word "c"] :=
    gap.ofJoint.append ((words "FROM" (by decide)).append name.ofSign.toJoint)
  have closing : Lexer.Spells .mySql8 .default .joint .gap [.edge 0, .text ")"] [.symbol ")"] :=
    (edge .joint 0).append (text ")" (Lexer.reads_mark (c := ')') (by decide)))
  exact opening.append (select.append (source.append closing))

theorem legible : entry.Legible (.outside .mySql8 .default False) := by
  have spells : ∀ n, Settings.default.Spells n := by rintro n ⟨⟩
  have group : Writes (.outside .mySql8 .default False) .gap .gap (Table.derivedGroup .mySql8 rows [])
      (.symbol "(" :: [.word "SELECT", .symbol "*", .word "FROM", .word "c"] ++ [.symbol ")"]) := by
    rintro _ ⟨o, rfl⟩
    have output : ∀ o, (Context.after .mySql8 .default o).output = o := fun _ => rfl
    exact .inl ⟨_, pieces, write_rows o, ⟨_, rfl⟩, by rw [output, output], spells_pieces⟩
  have operand : ∀ t n, (Field.qualified t n).Operand Settings.default :=
    fun t n => .column (spells n) fun t _ => spells t
  have condition : Writes (.outside .mySql8 .default False) .gap .joint (Node.condition equal).write
      [.word "x", .symbol ".", .word "k", .symbol "=", .word "q", .symbol ".", .word "k"] := by
    have symbol : Writes (.outside .mySql8 .default False) .gap .joint (sql "=") [.symbol "="] :=
      .sql (ComparisonOp.reads_symbol .eq .mySql8)
    rw [Node.write_eq_parts]
    exact (operand "x" "k").writes.bind (Writes.blank.bind (symbol.bind (Writes.blank.bind (operand "q" "k").writes)))
  have named : ∀ schema n asName, (Table.named schema n asName).Legible (.outside .mySql8 .default False) :=
    fun _ _ _ => .named (fun _ _ => spells _) (spells _) fun _ _ => spells _
  have inner : (Table.join .inner (.hinted (.named (some "s") "b" (some "x")) ⟨.use, ["i"]⟩) (.derived rows "q" [])
      (.on equal)).Legible (.outside .mySql8 .default False) :=
    .join (.hinted (named _ _ _) fun _ _ => spells _) (.derived (by decide) group (spells _) fun _ _ => spells _)
      fun _ => .on (by decide) condition
  exact .join (.join (named _ _ _) inner fun _ => .using fun _ _ => spells _) (named _ _ _) (by rintro ⟨⟩)

theorem joins_read_back_entry :
    entry.joins = .join .cross (.join .left (.operand (.named none "a" none))
        (.join .inner (.operand (.hinted (.named (some "s") "b" (some "x")) ⟨.use, ["i"]⟩))
          (.operand (.derived rows "q" [])) (some (.on equal)))
        (some (.using ["k"]))) (.operand (.named none "c" none)) none
    ∧ JoinTree.read? entry.joins.symbols = some entry.joins
    ∧ ∃ r ts e, (Node.table entry).render .mySql8 .default = .ok r ∧ r.tokens? .mySql8 = some ts
      ∧ Token.joins? ts = some e ∧ entry.joins.Spelled (.outside .mySql8 .default False) e := by
  obtain ⟨-, symbols, tokens⟩ := Table.joins_read_back isJoinTree
  obtain ⟨ts, e, -, read, spelled, rendered, exists_render⟩ := tokens legible
  obtain ⟨r, hr⟩ := exists_render id
  exact ⟨rfl, symbols, r, ts, e, hr, rendered r hr, read, spelled⟩

end NestedJoins

end SqlDialects
