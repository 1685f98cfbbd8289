import SqlDialects.Query.Build

/-!
# The grammar of joins

A tree of joins is written as symbols: its operands, the kinds of its joins between them and what their rows are
matched by (`JoinTree.symbols`). Joins associate to the left, so a join is an operand on the left as it is, and on the
right in parentheses.

The reader looks at one symbol after the other. It stands before an operand, behind one, or behind the right operand of
a join that is not matched yet; what is open around it lies on a stack. A join is complete with what it is matched by,
or with its right operand if its kind takes no condition. So a condition belongs to the last join that is not matched,
and a tree whose joins have the conditions that their kinds ask for is read back from its symbols
(`JoinTree.read?_symbols`).
-/

set_option autoImplicit false

namespace SqlDialects

/-- What the rows of a join are matched by: a condition, or columns that both sides have. -/
inductive Matching (β γ : Type) where
  | on (condition : β)
  | «using» (columns : List γ)

/-- A tree of joins over operands, with conditions and columns to match rows by. -/
inductive JoinTree (α β γ : Type) where
  | operand (operand : α)
  | join (type : JoinType) (left right : JoinTree α β γ) (matching : Option (Matching β γ))

inductive JoinSymbol (α β γ : Type) where
  | operand (operand : α)
  | keyword (type : JoinType)
  | opening
  | closing
  | matching (matching : Matching β γ)

variable {α β γ : Type}

/-- The symbols of a right operand, in parentheses if it is a join. -/
def JoinSymbol.enclosed (join : Bool) (ss : List (JoinSymbol α β γ)) : List (JoinSymbol α β γ) :=
  if join then .opening :: ss ++ [.closing] else ss

namespace JoinTree

def isJoin : JoinTree α β γ → Bool
  | join _ _ _ _ => true
  | operand _ => false

def symbols : JoinTree α β γ → List (JoinSymbol α β γ)
  | operand x => [.operand x]
  | join type left right matching =>
    left.symbols ++ .keyword type
      :: (JoinSymbol.enclosed right.isJoin right.symbols ++ (matching.map .matching).toList)

/-- Every join has something to match rows by exactly if its kind takes it. -/
inductive IsMatched : JoinTree α β γ → Prop where
  | operand (x : α) : IsMatched (operand x)
  | join {type : JoinType} {left right : JoinTree α β γ} {matching : Option (Matching β γ)} (hl : left.IsMatched)
      (hr : right.IsMatched) (hm : matching.isSome = type.takesCondition) : IsMatched (join type left right matching)

end JoinTree

/-! ## Reading -/

/-- Where the reader is. Before an operand stands nothing, or what the operand is joined to and how; the same is on
the stack for every parenthesis that is open. -/
inductive JoinReader (α β γ : Type) where
  | before (left : Option (JoinTree α β γ × JoinType)) (outer : List (Option (JoinTree α β γ × JoinType)))
  | behind (tree : JoinTree α β γ) (outer : List (Option (JoinTree α β γ × JoinType)))
  | unmatched (type : JoinType) (left right : JoinTree α β γ) (outer : List (Option (JoinTree α β γ × JoinType)))

namespace JoinReader

/-- Behind an operand. -/
def place (outer : List (Option (JoinTree α β γ × JoinType))) (operand : JoinTree α β γ) :
    Option (JoinTree α β γ × JoinType) → JoinReader α β γ
  | none => behind operand outer
  | some (left, type) =>
    if type.takesCondition then unmatched type left operand outer else behind (.join type left operand none) outer

/-- Reads a symbol, if it may stand there. Only joins stand in parentheses. -/
def step : JoinReader α β γ → JoinSymbol α β γ → Option (JoinReader α β γ)
  | before left outer, .operand x => some (place outer (.operand x) left)
  | before left outer, .opening => some (before none (left :: outer))
  | behind tree outer, .keyword type => some (before (some (tree, type)) outer)
  | behind (.join type left right matching) (around :: outer), .closing =>
    some (place outer (.join type left right matching) around)
  | unmatched type left right outer, .matching m => some (behind (.join type left right (some m)) outer)
  | _, _ => none

/-- The tree that was read, if nothing is open. -/
def tree? : JoinReader α β γ → Option (JoinTree α β γ)
  | behind tree [] => some tree
  | _ => none

end JoinReader

/-- The tree of symbols. -/
def JoinTree.read? (ss : List (JoinSymbol α β γ)) : Option (JoinTree α β γ) :=
  (ss.foldlM JoinReader.step (.before none [])).bind JoinReader.tree?

/-! ## Reading back -/

namespace JoinReader

variable {e : JoinTree α β γ} {rest : List (JoinSymbol α β γ)} {outer : List (Option (JoinTree α β γ × JoinType))}

theorem foldlM_closing (he : e.isJoin = true) (left : Option (JoinTree α β γ × JoinType)) :
    (JoinSymbol.closing :: rest).foldlM step (behind e (left :: outer)) = rest.foldlM step (place outer e left) := by
  cases e with
  | operand x => cases he
  | join type l r matching => rfl

/-- Behind the right operand a join is completed by its matching. -/
theorem foldlM_matching {type : JoinType} {left right : JoinTree α β γ} {matching : Option (Matching β γ)}
    (hm : matching.isSome = type.takesCondition) :
    ((matching.map JoinSymbol.matching).toList ++ rest).foldlM step (place outer right (some (left, type)))
      = rest.foldlM step (behind (.join type left right matching) outer) := by
  cases matching with
  | none =>
    have bare : type.takesCondition = false := hm.symm
    simp [place, bare]
  | some m =>
    have matched : type.takesCondition = true := hm.symm
    simp [place, matched, step]

/-- The symbols of a tree lead from before it to behind it. -/
theorem foldlM_symbols (h : e.IsMatched) :
    (e.symbols ++ rest).foldlM step (before none outer) = rest.foldlM step (behind e outer) := by
  induction h generalizing rest outer with
  | operand x => rfl
  | @join type left right matching hl hr hm ihl ihr =>
    -- The right operand is read like a tree of its own, in parentheses or being only one symbol.
    have operand : ∀ ss : List (JoinSymbol α β γ),
        (JoinSymbol.enclosed right.isJoin right.symbols ++ ss).foldlM step (before (some (left, type)) outer)
          = ss.foldlM step (place outer right (some (left, type))) := by
      intro ss
      cases hj : right.isJoin with
      | true =>
        have inner : (right.symbols ++ .closing :: ss).foldlM step (before none (some (left, type) :: outer))
            = ss.foldlM step (place outer right (some (left, type))) := by
          rw [ihr, foldlM_closing hj]
        simpa [JoinSymbol.enclosed, step] using inner
      | false =>
        cases right with
        | operand x => rfl
        | join => cases hj
    rw [JoinTree.symbols, List.append_assoc, ihl, List.cons_append, List.append_assoc]
    exact (operand _).trans (foldlM_matching hm)

end JoinReader

/-- A tree whose joins are matched is read back from its symbols. -/
theorem JoinTree.read?_symbols {e : JoinTree α β γ} (h : e.IsMatched) : read? e.symbols = some e := by
  have whole : (e.symbols ++ []).foldlM JoinReader.step (.before none []) = some (.behind e []) :=
    JoinReader.foldlM_symbols h
  rw [List.append_nil] at whole
  rw [read?, whole]
  rfl

/-- A condition belongs to the last join in its parentheses that is not matched yet. -/
example : JoinTree.read?
    ([.operand 1, .keyword .left, .opening, .operand 2, .keyword .inner, .operand 3, .matching (.on 0), .closing,
      .matching (.using [4]), .keyword .cross, .operand 5] : List (JoinSymbol Nat Nat Nat))
    = some (.join .cross (.join .left (.operand 1) (.join .inner (.operand 2) (.operand 3) (some (.on 0)))
        (some (.using [4]))) (.operand 5) none) := rfl

end SqlDialects
