import SqlDialects.Proofs.Grammar.Joins
import SqlDialects.Proofs.Grammar.Reading

/-!
# Joins among tokens

The symbols of the grammar of joins in the tokens of a text. What stands between them, the operands and the conditions,
is read as one phrase each: it goes on to the next `ON`, `USING`, join or parenthesis that is not inside parentheses of
its own (`Token.cut`). A parenthesis where an operand is expected opens a join if nothing but a symbol follows its end;
a subquery in parentheses is followed by its alias.

So the symbols are found again in their tokens (`Token.symbolsBefore?_tokens`), if the phrases hold together by
themselves: they close what they open and have no such word outside of parentheses, not even the beginning of one at
their end (`Token.isPhrase`).
-/

set_option autoImplicit false

namespace SqlDialects

/-! ## Keywords -/

/-- The words before `JOIN`. -/
def JoinType.modifiers : JoinType → List String
  | inner => []
  | left => ["LEFT"]
  | right => ["RIGHT"]
  | full => ["FULL"]
  | cross => ["CROSS"]
  | naturalLeft => ["NATURAL", "LEFT"]
  | naturalRight => ["NATURAL", "RIGHT"]

def JoinType.words (type : JoinType) : List String := type.modifiers ++ ["JOIN"]

def JoinType.allModifiers : List String := ["LEFT", "RIGHT", "FULL", "CROSS", "NATURAL"]

namespace Token

/-- What stands behind the words that a text begins with. -/
def behindWords? : List String → List Token → Option (List Token)
  | [], ts => some ts
  | _ :: _, [] => none
  | w :: ws, t :: ts => if t.isKeyword w then behindWords? ws ts else none

/-- The kind of the join that a text begins with, and what stands behind. -/
def joinType? (ts : List Token) : Option (JoinType × List Token) :=
  [JoinType.inner, .left, .right, .full, .cross, .naturalLeft, .naturalRight].findSome? fun type =>
    (behindWords? type.words ts).map (type, ·)

/-- Whether a phrase ends before a text. -/
def stops : List Token → Bool
  | [] => true
  | t :: ts => t == .symbol ")" || t.isKeyword "ON" || t.isKeyword "USING" || (joinType? (t :: ts)).isSome

/-! ## Phrases -/

/-- How many parentheses are open behind a token. -/
def nesting (depth : Nat) : Token → Nat
  | .symbol "(" => depth + 1
  | .symbol ")" => depth - 1
  | _ => depth

/-- The phrase that a text begins with, so many parentheses being open, and what stands behind. -/
def cut : Nat → List Token → List Token × List Token
  | _, [] => ([], [])
  | depth, t :: ts =>
    if depth = 0 ∧ stops (t :: ts) = true then ([], t :: ts)
    else (t :: (cut (nesting depth t) ts).1, (cut (nesting depth t) ts).2)

/-- Whether tokens hold together by themselves, so many parentheses being open. -/
def isPhrase : Nat → List Token → Bool
  | depth, [] => depth == 0
  | 0, t :: ts =>
    t != .symbol ")" && !(["ON", "USING", "JOIN"].any t.isKeyword)
      && !(ts.isEmpty && JoinType.allModifiers.any t.isKeyword) && isPhrase (nesting 0 t) ts
  | depth + 1, t :: ts => isPhrase (nesting (depth + 1) t) ts

/-- Whether a text is in parentheses as a whole. -/
def isGroup : List Token → Bool
  | .symbol "(" :: ts => ts.getLast? == some (.symbol ")") && balanced 0 ts.dropLast
  | _ => false

def isName : Token → Bool
  | .word _ | .name _ => true
  | _ => false

/-- The names of a list up to the parenthesis that closes it. -/
def names? : List Token → Option (List Token)
  | [n, .symbol ")"] => if n.isName then some [n] else none
  | n :: .symbol "," :: ts => if n.isName then (names? ts).map (n :: ·) else none
  | _ => none

/-- The names of a list in parentheses. -/
def columns? : List Token → Option (List Token)
  | [.symbol "(", .symbol ")"] => some []
  | .symbol "(" :: ts => names? ts
  | _ => none

theorem cut_append (depth : Nat) (ts : List Token) : (cut depth ts).1 ++ (cut depth ts).2 = ts := by
  fun_induction cut depth ts with
  | case1 => rfl
  | case2 => rfl
  | case3 depth t ts _ ih => rw [List.cons_append, ih]

theorem length_cut_le (depth : Nat) (ts : List Token) : (cut depth ts).2.length ≤ ts.length := by
  have whole := congrArg List.length (cut_append depth ts)
  rw [List.length_append] at whole
  omega

theorem length_behindWords? {ws : List String} {ts rest : List Token} (h : behindWords? ws ts = some rest) :
    ts.length = ws.length + rest.length := by
  fun_induction behindWords? ws ts with
  | case1 ts =>
    cases h
    simp
  | case2 => cases h
  | case3 w ws t ts _ ih =>
    have rest := ih h
    simp only [List.length_cons]
    omega
  | case4 => cases h

theorem length_joinType? {ts rest : List Token} {type : JoinType} (h : joinType? ts = some (type, rest)) :
    rest.length < ts.length := by
  obtain ⟨type', -, ht⟩ := List.exists_of_findSome?_eq_some h
  obtain ⟨rest', hrest, pair⟩ := Option.map_eq_some_iff.1 ht
  cases pair
  have words := length_behindWords? hrest
  rw [JoinType.words, List.length_append, List.length_singleton] at words
  omega

/-! ## Symbols -/

theorem length_tail_of_isGroup {ts : List Token} (h : isGroup (cut 0 ts).1 = true) : ts.tail.length < ts.length := by
  cases ts with
  | nil => cases h
  | cons t ts => simp

theorem length_cut_lt {ts : List Token} (h : (cut 0 ts).1 ≠ []) : (cut 0 ts).2.length < ts.length := by
  have whole := congrArg List.length (cut_append 0 ts)
  have full := List.length_pos_iff.2 h
  rw [List.length_append] at whole
  omega

mutual

/-- The symbols of a text where an operand is expected. -/
def symbolsBefore? (ts : List Token) : Option (List (JoinSymbol (List Token) (List Token) Token)) :=
  if _ : isGroup (cut 0 ts).1 = true then (symbolsBefore? ts.tail).map (.opening :: ·)
  else if _ : (cut 0 ts).1 = [] then none
  else (symbolsBehind? (cut 0 ts).2).map (.operand (cut 0 ts).1 :: ·)
termination_by ts.length
decreasing_by
  · exact length_tail_of_isGroup ‹_›
  · exact length_cut_lt ‹_›

/-- The symbols of a text behind an operand. -/
def symbolsBehind? (ts : List Token) : Option (List (JoinSymbol (List Token) (List Token) Token)) :=
  match ts with
  | [] => some []
  | t :: ts =>
    if t = .symbol ")" then (symbolsBehind? ts).map (.closing :: ·)
    else if t.isKeyword "ON" then (symbolsBehind? (cut 0 ts).2).map (.matching (.on (cut 0 ts).1) :: ·)
    else if t.isKeyword "USING" then
      (columns? (cut 0 ts).1).bind fun ns => (symbolsBehind? (cut 0 ts).2).map (.matching (.using ns) :: ·)
    else
      match _h : joinType? (t :: ts) with
      | none => none
      | some (type, rest) => (symbolsBefore? rest).map (.keyword type :: ·)
termination_by ts.length
decreasing_by
  · exact Nat.lt_succ_self _
  · exact Nat.lt_succ_of_le (length_cut_le 0 ts)
  · exact Nat.lt_succ_of_le (length_cut_le 0 ts)
  · exact length_joinType? ‹_›

end

/-- The tree of joins that a text is read as. -/
def joins? (ts : List Token) : Option (JoinTree (List Token) (List Token) Token) :=
  (symbolsBefore? ts).bind JoinTree.read?

end Token

/-! ## Written down -/

/-- The tokens of a list of names in parentheses. -/
def Token.columnList (ns : List Token) : List Token := .symbol "(" :: Expression.itemTokens (ns.map .atom)

def Matching.tokens : Matching (List Token) Token → List Token
  | on u => .word "ON" :: u
  | «using» ns => .word "USING" :: Token.columnList ns

def JoinSymbol.tokens : JoinSymbol (List Token) (List Token) Token → List Token
  | operand u => u
  | keyword type => type.words.map .word
  | opening => [.symbol "("]
  | closing => [.symbol ")"]
  | matching m => m.tokens

def JoinTree.tokens (e : JoinTree (List Token) (List Token) Token) : List Token := e.symbols.flatMap JoinSymbol.tokens

/-- The tokens of a condition or of names that can be told from what stands behind. -/
inductive Matching.IsLegible : Matching (List Token) Token → Prop where
  | on {u : List Token} (h : Token.isPhrase 0 u = true) : IsLegible (on u)
  | using {ns : List Token} (h : ∀ n ∈ ns, n.isName = true) : IsLegible («using» ns)

/-- The tokens of an operand that can be told from a join and from what stands behind: if they begin with a
parenthesis, more follows on its end. -/
inductive Token.IsOperand : List Token → Prop where
  | plain {t : Token} {ts : List Token} (ht : t ≠ .symbol "(") (h : isPhrase 0 (t :: ts) = true) : IsOperand (t :: ts)
  | group {ts more : List Token} (h : balanced 0 ts = true) (full : more ≠ []) (hm : isPhrase 0 more = true) :
      IsOperand (.symbol "(" :: ts ++ .symbol ")" :: more)

inductive JoinTree.IsLegible : JoinTree (List Token) (List Token) Token → Prop where
  | operand {u : List Token} (h : Token.IsOperand u) : IsLegible (operand u)
  | join {type : JoinType} {left right : JoinTree (List Token) (List Token) Token}
      {matching : Option (Matching (List Token) Token)} (hl : left.IsLegible) (hr : right.IsLegible)
      (hm : ∀ m ∈ matching, m.IsLegible) : IsLegible (join type left right matching)

namespace Token

variable {t : Token} {ts u rest : List Token} {depth : Nat}

/-! ### Parentheses -/

theorem balanced_cons_eq (h : depth = 0 → t ≠ .symbol ")") :
    balanced depth (t :: ts) = balanced (nesting depth t) ts := by
  unfold nesting
  split
  · rfl
  · cases depth with
    | zero => exact absurd rfl (h rfl)
    | succ depth => rfl
  · next ho hc => exact balanced_cons (fun same => ho same) fun same => hc same

theorem balanced_cons_iff :
    balanced depth (t :: ts) = true ↔ (depth = 0 → t ≠ .symbol ")") ∧ balanced (nesting depth t) ts = true := by
  constructor
  · intro h
    have opened : depth = 0 → t ≠ .symbol ")" := by
      rintro rfl rfl
      cases h
    rw [balanced_cons_eq opened] at h
    exact ⟨opened, h⟩
  · intro h
    rw [balanced_cons_eq h.1]
    exact h.2

theorem nesting_succ (h : depth = 0 → t ≠ .symbol ")") : nesting (depth + 1) t = nesting depth t + 1 := by
  unfold nesting
  split
  · rfl
  · cases depth with
    | zero => exact absurd rfl (h rfl)
    | succ depth => rfl
  · rfl

theorem isPhrase_cons : isPhrase 0 (t :: ts) = true ↔ t ≠ .symbol ")"
    ∧ (∀ w ∈ ["ON", "USING", "JOIN"], t.isKeyword w = false)
    ∧ (ts = [] → ∀ w ∈ JoinType.allModifiers, t.isKeyword w = false) ∧ isPhrase (nesting 0 t) ts = true := by
  rw [imp_iff_not_or (a := ts = [])]
  simp [isPhrase, and_assoc]

theorem balanced_append {us : List Token} (h : balanced depth ts = true) (h' : balanced 0 us = true) :
    balanced depth (ts ++ us) = true := by
  induction ts generalizing depth with
  | nil =>
    have closed : depth = 0 := beq_iff_eq.1 h
    rw [closed]
    exact h'
  | cons t ts ih =>
    obtain ⟨opened, h⟩ := balanced_cons_iff.1 h
    exact balanced_cons_iff.2 ⟨opened, ih h⟩

theorem balanced_of_isPhrase (h : isPhrase depth ts = true) : balanced depth ts = true := by
  induction ts generalizing depth with
  | nil => exact h
  | cons t ts ih =>
    cases depth with
    | zero =>
      obtain ⟨hc, -, -, h⟩ := isPhrase_cons.1 h
      exact balanced_cons_iff.2 ⟨fun _ => hc, ih h⟩
    | succ depth => exact balanced_cons_iff.2 ⟨by simp, ih h⟩

/-- In parentheses only what they close is looked at. -/
theorem isPhrase_append_balanced (h : balanced depth ts = true) (more : List Token) :
    isPhrase (depth + 1) (ts ++ more) = isPhrase 1 more := by
  induction ts generalizing depth with
  | nil => rw [show depth = 0 from beq_iff_eq.1 h, List.nil_append]
  | cons t ts ih =>
    obtain ⟨opened, h⟩ := balanced_cons_iff.1 h
    rw [List.cons_append, isPhrase, nesting_succ opened]
    exact ih h

theorem isPhrase_append_group (h : balanced 0 ts = true) (more : List Token) :
    isPhrase 0 (.symbol "(" :: ts ++ .symbol ")" :: more) = isPhrase 0 more := by
  have inside : isPhrase 1 (ts ++ .symbol ")" :: more) = isPhrase 0 more := isPhrase_append_balanced h _
  have opened : ∀ us, isPhrase 0 (.symbol "(" :: us) = true ↔ isPhrase 1 us = true := by
    intro us
    rw [isPhrase_cons]
    constructor
    · intro h
      exact h.2.2.2
    · intro h
      exact ⟨by simp, by simp [isKeyword], by simp [isKeyword], h⟩
  rw [← inside]
  exact Bool.eq_iff_iff.2 (opened _)

theorem isPhrase_group (h : balanced 0 ts = true) : isPhrase 0 (.symbol "(" :: ts ++ [.symbol ")"]) = true :=
  isPhrase_append_group h []

theorem not_balanced_append (h : balanced depth ts = true) (more : List Token) :
    balanced depth (ts ++ .symbol ")" :: more) = false := by
  induction ts generalizing depth with
  | nil =>
    rw [show depth = 0 from beq_iff_eq.1 h]
    rfl
  | cons t ts ih =>
    obtain ⟨opened, h⟩ := balanced_cons_iff.1 h
    rw [List.cons_append, balanced_cons_eq opened]
    exact ih h

theorem isGroup_group (h : balanced 0 ts = true) : isGroup (.symbol "(" :: ts ++ [.symbol ")"]) = true := by
  simp [isGroup, h]

/-! ### Phrases -/

theorem nesting_of_isKeyword {w : String} (h : t.isKeyword w = true) : nesting depth t = depth := by
  cases t with
  | word => rfl
  | _ => cases h

/-- A phrase does not begin with a join, whatever stands behind it. -/
theorem behindWords?_phrase {ws : List String} (hw : ∀ w ∈ ws, w ∈ JoinType.allModifiers) (full : u ≠ [])
    (h : isPhrase 0 u = true) : behindWords? (ws ++ ["JOIN"]) (u ++ rest) = none := by
  induction ws generalizing u with
  | nil =>
    obtain ⟨t, ts, rfl⟩ := List.exists_cons_of_ne_nil full
    have other : t.isKeyword "JOIN" = false := (isPhrase_cons.1 h).2.1 _ (by simp)
    simp [behindWords?, other]
  | cons w ws ih =>
    obtain ⟨t, ts, rfl⟩ := List.exists_cons_of_ne_nil full
    obtain ⟨-, -, begun, h⟩ := isPhrase_cons.1 h
    rw [List.cons_append, List.cons_append, behindWords?]
    by_cases hk : t.isKeyword w = true
    · rw [if_pos hk]
      rw [nesting_of_isKeyword hk] at h
      refine ih (fun w hw' => hw w (by simp [hw'])) ?_ h
      intro missing
      rw [begun missing w (hw w (by simp))] at hk
      cases hk
    · rw [if_neg hk]

theorem stops_phrase (h : isPhrase 0 (t :: ts) = true) : stops (t :: ts ++ rest) = false := by
  have noJoin : joinType? (t :: ts ++ rest) = none := by
    rw [joinType?, List.findSome?_eq_none_iff]
    intro type _
    have modifiers : ∀ w ∈ type.modifiers, w ∈ JoinType.allModifiers := by
      cases type <;> simp [JoinType.modifiers, JoinType.allModifiers]
    rw [JoinType.words, behindWords?_phrase modifiers (by simp) h]
    rfl
  obtain ⟨closing, keywords, -⟩ := isPhrase_cons.1 h
  rw [List.cons_append] at noJoin ⊢
  simp [stops, noJoin, closing, keywords]

theorem isPhrase_append {v : List Token} (h : isPhrase depth u = true) (hv : isPhrase 0 v = true) :
    isPhrase depth (u ++ v) = true := by
  induction u generalizing depth with
  | nil =>
    rw [show depth = 0 from beq_iff_eq.1 h]
    exact hv
  | cons t u ih =>
    cases depth with
    | zero =>
      obtain ⟨closing, keywords, begun, h⟩ := isPhrase_cons.1 h
      refine isPhrase_cons.2 ⟨closing, keywords, fun only => begun ?_, ih h⟩
      exact (List.append_eq_nil_iff.1 only).1
    | succ depth => exact ih h

/-! ### Operands -/

theorem IsOperand.phrase (h : IsOperand u) : isPhrase 0 u = true := by
  cases h with
  | plain ht h => exact h
  | group h full hm => rw [isPhrase_append_group h, hm]

theorem IsOperand.ne_nil (h : IsOperand u) : u ≠ [] := by
  cases h <;> simp

theorem IsOperand.isGroup_eq (h : IsOperand u) : isGroup u = false := by
  cases h with
  | plain ht h =>
    unfold isGroup
    split
    · next same => exact absurd (List.cons.inj same).1 ht
    · rfl
  | @group ts more h full hm =>
    obtain ⟨front, last, rfl⟩ := List.eq_nil_or_concat more |>.resolve_left full
    have open' := not_balanced_append h front
    have dropped : (ts ++ .symbol ")" :: (front ++ [last])).dropLast = ts ++ .symbol ")" :: front := by
      rw [← List.cons_append, ← List.append_assoc, List.dropLast_concat]
    rw [List.cons_append, isGroup, List.concat_eq_append, dropped, open', Bool.and_false]

theorem IsOperand.append {v : List Token} (h : IsOperand u) (hv : isPhrase 0 v = true) : IsOperand (u ++ v) := by
  cases h with
  | plain ht h => exact .plain ht (isPhrase_append h hv)
  | @group ts more h full hm =>
    have longer : (.symbol "(" :: ts ++ .symbol ")" :: more) ++ v
        = .symbol "(" :: ts ++ .symbol ")" :: (more ++ v) := by
      simp
    rw [longer]
    exact .group h (by simp [full]) (isPhrase_append hm hv)

/-! ### Where phrases end -/

/-- A phrase is cut off where it ends. -/
theorem cut_phrase (h : isPhrase depth u = true) (hr : stops rest = true) : cut depth (u ++ rest) = (u, rest) := by
  induction u generalizing depth with
  | nil =>
    have closed : depth = 0 := beq_iff_eq.1 h
    cases rest with
    | nil => rw [List.nil_append, cut]
    | cons t rest => rw [List.nil_append, cut, if_pos ⟨closed, hr⟩]
  | cons t u ih =>
    rw [List.cons_append, cut]
    cases depth with
    | zero =>
      have goesOn : stops (t :: (u ++ rest)) = false := stops_phrase h
      obtain ⟨-, -, -, h⟩ := isPhrase_cons.1 h
      rw [if_neg (by simp [goesOn]), ih h]
    | succ depth =>
      rw [isPhrase] at h
      rw [if_neg (by simp), ih h]

/-! ### Keywords -/

theorem joinType?_words (type : JoinType) : joinType? (type.words.map .word ++ ts) = some (type, ts) := by
  cases type <;> rfl

theorem stops_words (type : JoinType) : stops (type.words.map .word ++ ts) = true := by
  cases type <;> rfl

theorem symbolsBehind?_words (type : JoinType) :
    symbolsBehind? (type.words.map .word ++ ts) = (symbolsBefore? ts).map (.keyword type :: ·) := by
  obtain ⟨w, ws, words⟩ : ∃ w ws, type.words = w :: ws := by cases type <;> exact ⟨_, _, rfl⟩
  have join : joinType? (type.words.map .word ++ ts) = some (type, ts) := joinType?_words type
  have other : isKeyword "ON" (.word w) = false ∧ isKeyword "USING" (.word w) = false := by
    cases type <;> cases words <;> exact ⟨rfl, rfl⟩
  rw [words, List.map_cons, List.cons_append] at join ⊢
  rw [symbolsBehind?]
  simp only [other, reduceCtorEq, if_false, Bool.false_eq_true]
  split
  · next h =>
    rw [join] at h
    cases h
  · next h =>
    rw [join] at h
    cases h
    rfl

/-! ### Names -/

theorem balanced_of_isName {n : Token} (h : n.isName = true) : balanced depth (n :: ts) = balanced depth ts := by
  refine balanced_cons ?_ ?_ <;> rintro rfl <;> cases h

/-- A list of names is in parentheses, and it is read again. -/
theorem itemTokens_names {ns : List Token} (h : ∀ n ∈ ns, n.isName = true) :
    ∃ ts, Expression.itemTokens (ns.map .atom) = ts ++ [.symbol ")"] ∧ balanced 0 ts = true
      ∧ (ns ≠ [] → names? (ts ++ [.symbol ")"]) = some ns) := by
  induction ns with
  | nil => exact ⟨[], rfl, rfl, fun full => absurd rfl full⟩
  | cons n ns ih =>
    obtain ⟨hn, hns⟩ := List.forall_mem_cons.1 h
    obtain ⟨ts, written, closed, read⟩ := ih hns
    cases ns with
    | nil => exact ⟨[n], rfl, by rw [balanced_of_isName hn]; rfl, fun _ => by simp [names?, hn]⟩
    | cons m ms =>
      refine ⟨n :: .symbol "," :: ts, ?_, ?_, fun _ => ?_⟩
      · rw [List.map_cons, List.map_cons, Expression.itemTokens, ← List.map_cons, written]
        · rfl
        · simp
      · rw [balanced_of_isName hn]
        exact closed
      · rw [List.cons_append, List.cons_append, names?, if_pos hn, read (by simp)]
        rfl

theorem columnList_eq {ns : List Token} (h : ∀ n ∈ ns, n.isName = true) :
    isPhrase 0 (columnList ns) = true ∧ columns? (columnList ns) = some ns := by
  obtain ⟨ts, written, closed, read⟩ := itemTokens_names h
  rw [columnList, written]
  refine ⟨isPhrase_group closed, ?_⟩
  cases ns with
  | nil =>
    rw [← written]
    rfl
  | cons n ns =>
    have names := read (by simp)
    rw [columns?]
    · exact names
    · intro only
      rw [only] at names
      cases names

/-! ### Symbols -/

theorem symbolsBehind?_closing :
    symbolsBehind? (.symbol ")" :: ts) = (symbolsBehind? ts).map (.closing :: ·) := by
  rw [symbolsBehind?, if_pos rfl]

theorem symbolsBehind?_matching {m : Matching (List Token) Token} (h : m.IsLegible) (hr : stops rest = true) :
    symbolsBehind? (m.tokens ++ rest) = (symbolsBehind? rest).map (.matching m :: ·) := by
  cases h with
  | @on u h =>
    rw [Matching.tokens, List.cons_append, symbolsBehind?, if_neg (by simp), if_pos (by decide), cut_phrase h hr]
  | @«using» ns h =>
    obtain ⟨phrase, read⟩ := columnList_eq h
    rw [Matching.tokens, List.cons_append, symbolsBehind?, if_neg (by simp), if_neg (by decide), if_pos (by decide),
      cut_phrase phrase hr, read, Option.bind_some]

theorem symbolsBefore?_operand (h : IsOperand u) (hr : stops rest = true) :
    symbolsBefore? (u ++ rest) = (symbolsBehind? rest).map (.operand u :: ·) := by
  rw [symbolsBefore?, cut_phrase h.phrase hr, dif_neg (by simp [h.isGroup_eq]), dif_neg h.ne_nil]

/-- A text in parentheses on its own is read as a join. -/
theorem symbolsBefore?_group (h : balanced 0 ts = true) (hr : stops rest = true) :
    symbolsBefore? (.symbol "(" :: ts ++ [.symbol ")"] ++ rest)
      = (symbolsBefore? (ts ++ .symbol ")" :: rest)).map (.opening :: ·) := by
  rw [symbolsBefore?, cut_phrase (isPhrase_group h) hr, dif_pos (isGroup_group h)]
  simp

end Token

namespace JoinTree

open Token

variable {e : JoinTree (List Token) (List Token) Token} {rest : List Token}

theorem tokens_join (type : JoinType) (left right : JoinTree (List Token) (List Token) Token)
    (matching : Option (Matching (List Token) Token)) :
    (join type left right matching).tokens = left.tokens ++ (type.words.map .word
      ++ ((JoinSymbol.enclosed right.isJoin right.symbols).flatMap JoinSymbol.tokens
        ++ (matching.map Matching.tokens).getD [])) := by
  cases matching <;> simp [tokens, symbols, JoinSymbol.tokens]

theorem tokens_enclosed (right : JoinTree (List Token) (List Token) Token) :
    (JoinSymbol.enclosed right.isJoin right.symbols).flatMap JoinSymbol.tokens
      = if right.isJoin then .symbol "(" :: right.tokens ++ [.symbol ")"] else right.tokens := by
  cases right.isJoin <;> simp [JoinSymbol.enclosed, tokens, JoinSymbol.tokens]

theorem balanced_matching {matching : Option (Matching (List Token) Token)} (h : ∀ m ∈ matching, m.IsLegible) :
    balanced 0 ((matching.map Matching.tokens).getD []) = true := by
  cases matching with
  | none => rfl
  | some m =>
    have legible := h m rfl
    cases legible with
    | on phrase => exact (balanced_cons (by simp) (by simp)).trans (balanced_of_isPhrase phrase)
    | «using» names => exact (balanced_cons (by simp) (by simp)).trans (balanced_of_isPhrase (columnList_eq names).1)

theorem balanced_tokens (h : e.IsLegible) : balanced 0 e.tokens = true := by
  induction h with
  | @operand u h =>
    show balanced 0 (u ++ []) = true
    rw [List.append_nil]
    exact balanced_of_isPhrase h.phrase
  | @join type left right matching hl hr hm ihl ihr =>
    have words : balanced 0 (type.words.map .word) = true := by cases type <;> rfl
    have operand : balanced 0 ((JoinSymbol.enclosed right.isJoin right.symbols).flatMap JoinSymbol.tokens) = true := by
      rw [tokens_enclosed]
      split
      · exact balanced_of_isPhrase (isPhrase_group ihr)
      · exact ihr
    rw [tokens_join]
    exact balanced_append ihl (balanced_append words (balanced_append operand (balanced_matching hm)))

theorem stops_matching {matching : Option (Matching (List Token) Token)} (hr : stops rest = true) :
    stops ((matching.map Matching.tokens).getD [] ++ rest) = true := by
  cases matching with
  | none => exact hr
  | some m => cases m <;> rfl

theorem symbolsBehind?_matching {matching : Option (Matching (List Token) Token)} (h : ∀ m ∈ matching, m.IsLegible)
    (hr : stops rest = true) :
    symbolsBehind? ((matching.map Matching.tokens).getD [] ++ rest)
      = (symbolsBehind? rest).map ((matching.map JoinSymbol.matching).toList ++ ·) := by
  cases matching with
  | none => simp
  | some m => exact Token.symbolsBehind?_matching (h m rfl) hr

/-- The symbols of a tree are found in its tokens, whatever stands behind it. -/
theorem symbolsBefore?_tokens (h : e.IsLegible) (hr : stops rest = true) :
    symbolsBefore? (e.tokens ++ rest) = (symbolsBehind? rest).map (e.symbols ++ ·) := by
  induction h generalizing rest with
  | @operand u h =>
    show symbolsBefore? (u ++ [] ++ rest) = _
    rw [List.append_nil]
    exact symbolsBefore?_operand h hr
  | @join type left right matching hl hrl hm ihl ihr =>
    have operand : ∀ {more : List Token}, stops more = true →
        symbolsBefore? ((JoinSymbol.enclosed right.isJoin right.symbols).flatMap JoinSymbol.tokens ++ more)
          = (symbolsBehind? more).map (JoinSymbol.enclosed right.isJoin right.symbols ++ ·) := by
      intro more hmore
      rw [tokens_enclosed]
      cases right.isJoin with
      | true =>
        rw [if_pos rfl, symbolsBefore?_group (balanced_tokens hrl) hmore, ihr rfl, symbolsBehind?_closing]
        simp [JoinSymbol.enclosed, Function.comp_def]
      | false => exact ihr hmore
    rw [tokens_join, List.append_assoc, List.append_assoc, List.append_assoc, ihl (stops_words type),
      symbolsBehind?_words, operand (stops_matching hr), symbolsBehind?_matching hm hr]
    simp [symbols, Function.comp_def]

/-- A matched tree is read back from its tokens. -/
theorem joins?_tokens (h : e.IsLegible) (hm : e.IsMatched) : Token.joins? e.tokens = some e := by
  have symbols : symbolsBefore? (e.tokens ++ []) = (symbolsBehind? []).map (e.symbols ++ ·) :=
    symbolsBefore?_tokens h rfl
  rw [List.append_nil, symbolsBehind?] at symbols
  rw [joins?, symbols]
  simpa using read?_symbols hm

end JoinTree

end SqlDialects
