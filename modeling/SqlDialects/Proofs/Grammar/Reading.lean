import SqlDialects.Proofs.Grammar.Expression

/-!
# Reading back what a tree is written as

The reader reads a well-formed tree back from its tokens (`Expression.read_tokens`). What makes the induction
go through is that reading an operand does not look at the stack below it: the frame on the top waits for an
operand that binds tighter than it does (`Reader.Holds`), and what follows the operand binds no tighter than
the operand itself (`Reader.Follows`), so nothing is taken apart and nothing below is completed too early.
-/

set_option autoImplicit false

namespace SqlDialects

theorem Token.balanced_cons {t : Token} {ts : List Token} {depth : Nat} (ho : t ≠ .symbol "(")
    (hc : t ≠ .symbol ")") : balanced depth (t :: ts) = balanced depth ts := by
  rw [balanced]
  · exact ho
  · intro _
    exact hc
  · intro _ _
    exact hc

namespace Frame

/-- How tightly the operand that a frame waits for has to hold together. -/
def floor (g : Grammar) : Frame → Nat
  | unary op => op.level
  | binary op _ => g.level op + 1
  | low _ _ | high _ _ _ => 6
  | items _ _ => 0

theorem lt_floor {g : Grammar} {f : Frame} {m : Nat} (h : f.level? g = some m) : m < f.floor g := by
  cases f with
  | unary op => cases op <;> simp [level?, floor, Unary.level] at h ⊢ <;> omega
  | _ => simp [level?, floor] at h ⊢ <;> omega

end Frame

namespace Reader

variable {g : Grammar} {fs : List Frame} {rest : List Token} {k m : Nat}

/-- The innermost frame waits for an operand that holds together so tightly or less. -/
def Holds (g : Grammar) (fs : List Frame) (k : Nat) : Prop :=
  ∀ f ∈ fs.head?, f.floor g ≤ k

/-- What follows binds to the operand before it no tighter than a level. -/
def Follows (g : Grammar) (rest : List Token) (k : Nat) : Prop :=
  ∀ t ∈ rest.head?, ∃ j, g.joint? t = some j ∧ g.jointLevel j ≤ k

theorem Holds.mono (h : Holds g fs k) (hk : k ≤ m) : Holds g fs m :=
  fun f hf => Nat.le_trans (h f hf) hk

theorem Follows.mono (h : Follows g rest k) (hk : k ≤ m) : Follows g rest m := by
  intro t ht
  obtain ⟨j, hj, hl⟩ := h t ht
  exact ⟨j, hj, Nat.le_trans hl hk⟩

theorem holds_cons {f : Frame} (h : f.floor g ≤ k) : Holds g (f :: fs) k := by
  intro f' hf
  cases hf
  exact h

theorem follows_cons {t : Token} {j : Grammar.Joint} (ht : g.joint? t = some j) (h : g.jointLevel j ≤ k) :
    Follows g (t :: rest) k := by
  intro t' ht'
  cases ht'
  exact ⟨j, ht, h⟩

theorem follows_close : Follows g (.symbol ")" :: rest) k :=
  follows_cons (j := .close) rfl (Nat.zero_le k)

theorem follows_comma : Follows g (.symbol "," :: rest) k :=
  follows_cons (j := .comma) rfl (Nat.zero_le k)

theorem follows_nil : Follows g [] k := by
  intro t ht
  cases ht

theorem reduce_of_holds {x : Expression} (h : Holds g fs k) (hk : k ≤ m) : reduce g m x fs = (x, fs) := by
  cases fs with
  | nil => rfl
  | cons f fs =>
    have hf : f.floor g ≤ k := h f rfl
    unfold reduce
    cases hl : f.level? g with
    | none => rfl
    | some n =>
      have hn := Frame.lt_floor hl
      have hm : ¬ m ≤ n := by omega
      simp only [hm, if_false]

/-- A frame is complete before anything that binds no tighter. -/
theorem run_complete {x : Expression} {f : Frame} (hf : f.level? g = some m) (h : Follows g rest m) :
    run g (.operator x (f :: fs)) rest = run g (.operator (f.fill x) fs) rest := by
  have completes : ∀ n, n ≤ m → reduce g n x (f :: fs) = reduce g n (f.fill x) fs := by
    intro n hn
    rw [reduce, hf]
    simp only [hn, if_true]
  cases rest with
  | nil => simp only [run, finish, completes 0 (Nat.zero_le m)]
  | cons t rest =>
    obtain ⟨j, hj, hl⟩ := h t rfl
    have ht : t ≠ .symbol "(" := by
      rintro rfl
      cases hj
    simp only [run, step, ht, if_false, hj, Option.bind_some, completes _ hl]

/-- No operator between operands binds as tightly as one before its operand. -/
theorem jointLevel_ne_level (j : Grammar.Joint) (op : Unary) : g.jointLevel j ≠ op.level := by
  cases j with
  | operator b =>
    cases b with
    | arithmetic a =>
      have ha := g.precedence_lt a
      cases op <;> simp only [Grammar.jointLevel, Grammar.level, Unary.level] <;> omega
    | _ => cases op <;> simp [Grammar.jointLevel, Grammar.level, Unary.level]
  | _ => cases op <;> simp [Grammar.jointLevel, Unary.level]

theorem Follows.below {op : Unary} (h : Follows g rest op.level) : Follows g rest (op.level - 1) := by
  intro t ht
  obtain ⟨j, hj, hl⟩ := h t ht
  have hne := jointLevel_ne_level (g := g) j op
  exact ⟨j, hj, by omega⟩

/-! ## Items in parentheses -/

/-- That an expression is read back wherever it may stand. -/
def ReadBack (g : Grammar) (x : Expression) : Prop :=
  ∀ fs rest, Holds g fs (x.level g) → Follows g rest (x.level g) →
    run g (.operand fs) (x.tokens ++ rest) = run g (.operator x fs) rest

theorem run_items {items : List Expression} (hn : items ≠ []) (h : ∀ x ∈ items, ReadBack g x)
    (f : Option String) (done : List Expression) :
    run g (.operand (.items f done :: fs)) (Expression.itemTokens items ++ rest)
      = run g (.operator (.enclosed f (done ++ items)) fs) rest := by
  induction items generalizing done with
  | nil => exact absurd rfl hn
  | cons x xs ih =>
    have hx := h x (by simp)
    have holds : Holds g (.items f done :: fs) (x.level g) := holds_cons (Nat.zero_le _)
    cases xs with
    | nil =>
      rw [Expression.itemTokens, List.append_assoc, List.singleton_append, hx _ _ holds follows_close]
      rfl
    | cons y ys =>
      have hxs := ih (by simp) (fun z hz => h z (by simp [hz])) (done ++ [x])
      rw [List.append_assoc] at hxs
      rw [Expression.itemTokens, List.append_assoc, List.cons_append, hx _ _ holds follows_comma]
      · exact hxs
      · simp

theorem run_subquery {ts read : List Token} {depth : Nat} (h : Token.balanced depth ts = true) :
    run g (.subquery depth read fs) (ts ++ .symbol ")" :: rest)
      = run g (.operator (.existence (read ++ ts)) fs) rest := by
  induction ts generalizing depth read with
  | nil =>
    have hd : depth = 0 := by simpa [Token.balanced] using h
    subst hd
    simp [run, step]
  | cons t ts ih =>
    have next {n : Nat} (hn : Token.balanced n ts = true) :
        run g (.subquery n (read ++ [t]) fs) (ts ++ .symbol ")" :: rest)
          = run g (.operator (.existence (read ++ t :: ts)) fs) rest := by
      rw [ih hn, List.append_assoc, List.singleton_append]
    by_cases ho : t = .symbol "("
    · subst ho
      exact next h
    · by_cases hc : t = .symbol ")"
      · subst hc
        cases depth with
        | zero => cases h
        | succ depth => exact next h
      · rw [Token.balanced_cons ho hc] at h
        simp only [List.cons_append, run, step, ho, hc, if_false, Option.bind_some]
        exact next h

/-! ## Operators -/

/-- The operators of one token are read as themselves, those of two begin with a negation. -/
theorem joint?_tokens {op : Binary} (ho : op = .xor → g.exclusiveOr = true)
    (hc : g.level op < 10 → g.conditions = true) :
    (∃ t, op.tokens = [t] ∧ g.joint? t = some (.operator op)) ∨
      (g.level op = 5 ∧ g.joint? (.word "NOT") = some .negation ∧ ∃ k, op.tokens = [.word "NOT", .word k] ∧
        ∀ x fs, step g (.negated x fs) (.word k) = some (.operand (.binary op x :: fs))) := by
  cases op with
  | arithmetic a => cases a <;> exact .inl ⟨_, rfl, rfl⟩
  | typed | qualified => exact .inl ⟨_, rfl, rfl⟩
  | or | and =>
    have hg := hc (by simp [Grammar.level])
    exact .inl ⟨_, rfl, by simp +decide [Grammar.joint?, hg]⟩
  | xor =>
    have hg := hc (by simp [Grammar.level])
    exact .inl ⟨_, rfl, by simp +decide [Grammar.joint?, hg, ho rfl]⟩
  | compare c =>
    have hg := hc (by simp [Grammar.level])
    cases c with
    | like => exact .inl ⟨_, rfl, by simp +decide [Grammar.joint?, hg]⟩
    | notLike =>
      refine .inr ⟨rfl, by simp +decide [Grammar.joint?, hg], _, rfl, fun x fs => ?_⟩
      simp +decide [step]
    | _ => exact .inl ⟨_, rfl, rfl⟩
  | member negated =>
    have hg := hc (by simp [Grammar.level])
    cases negated with
    | false => exact .inl ⟨_, rfl, by simp +decide [Grammar.joint?, hg]⟩
    | true =>
      refine .inr ⟨rfl, by simp +decide [Grammar.joint?, hg], _, rfl, fun x fs => ?_⟩
      simp +decide [step]

/-- An `AND` is that of a `BETWEEN` only behind the lower bound, which holds together more tightly. -/
theorem joinStep_operator {op : Binary} {x : Expression} (h : Holds g fs (g.level op)) :
    joinStep x fs (.operator op) = some (.operand (.binary op x :: fs)) := by
  cases op with
  | and =>
    cases fs with
    | nil => rfl
    | cons f fs =>
      cases f with
      | low y n =>
        have hf : (6 : Nat) ≤ 3 := h _ rfl
        omega
      | _ => rfl
  | _ => rfl

/-- What joins an operand leaves what is open below as it is. -/
theorem step_join {t : Token} {j : Grammar.Joint} {x : Expression} (hj : g.joint? t = some j)
    (h : Holds g fs (g.jointLevel j)) : step g (.operator x fs) t = joinStep x fs j := by
  have hp : t ≠ .symbol "(" := by
    rintro rfl
    cases hj
  have kept : reduce g (g.jointLevel j) x fs = (x, fs) := reduce_of_holds h (Nat.le_refl _)
  simp only [step, hp, if_false, hj, Option.bind_some, kept]

theorem run_binary {op : Binary} {l : Expression} (ho : op = .xor → g.exclusiveOr = true)
    (hc : g.level op < 10 → g.conditions = true) (h : Holds g fs (g.level op)) :
    run g (.operator l fs) (op.tokens ++ rest) = run g (.operand (.binary op l :: fs)) rest := by
  rcases joint?_tokens ho hc with ⟨t, ht, hj⟩ | ⟨hl, hj, k, ht, hk⟩
  · rw [ht, List.singleton_append, run, step_join hj h, joinStep_operator h]
    rfl
  · have hn : step g (.operator l fs) (.word "NOT") = some (.negated l fs) :=
      step_join hj (h.mono (Nat.le_of_eq hl))
    rw [ht, List.cons_append, List.singleton_append, run, hn, Option.bind_some, run, hk, Option.bind_some]

theorem follows_binary {op : Binary} (ho : op = .xor → g.exclusiveOr = true)
    (hc : g.level op < 10 → g.conditions = true) (hk : g.level op ≤ k) : Follows g (op.tokens ++ rest) k := by
  rcases joint?_tokens ho hc with ⟨t, ht, hj⟩ | ⟨hl, hj, _, ht, _⟩
  · rw [ht]
    exact follows_cons hj hk
  · rw [ht]
    refine follows_cons hj ?_
    show 5 ≤ k
    omega

/-! ## Trees -/

/-- A well-formed tree is read back wherever it may stand. -/
theorem readBack {x : Expression} (h : x.WellFormed g) : ReadBack g x := by
  induction h with
  | atom h =>
    intro fs rest _ _
    rw [Expression.tokens, List.singleton_append, run, step, h]
    rfl
  | group hn _ ih =>
    intro fs rest _ _
    exact run_items hn ih none []
  | @call f args hf _ ih =>
    intro fs rest _ _
    have head : run g (.operand fs) (.word f :: .symbol "(" :: (Expression.itemTokens args ++ rest))
        = run g (.operand (.items (some f) [] :: fs)) (Expression.itemTokens args ++ rest) := by
      rw [run, step, hf]
      rfl
    rw [Expression.tokens, List.cons_append, List.cons_append, head]
    cases args with
    | nil => rfl
    | cons x xs => exact run_items (by simp) ih (some f) []
  | @unary op x ho _ hx ih =>
    intro fs rest _ hr
    have holds : Holds g (.unary op :: fs) (x.level g) := holds_cons hx
    rw [Expression.tokens, List.cons_append, run, step, ho]
    show run g (.operand (.unary op :: fs)) (x.tokens ++ rest) = _
    rw [ih _ _ holds (hr.mono hx)]
    exact run_complete rfl hr.below
  | @binary op l r ho hc _ _ hl hr ihl ihr =>
    intro fs rest hfs hrest
    have holds : Holds g (.binary op l :: fs) (r.level g) := holds_cons hr
    rw [Expression.tokens, List.append_assoc, List.append_assoc,
      ihl _ _ (hfs.mono hl) (follows_binary ho hc hl), run_binary ho hc hfs,
      ihr _ _ holds (hrest.mono (Nat.le_of_lt hr))]
    exact run_complete rfl hrest
  | @nullTest x negated hc _ hx ih =>
    intro fs rest hfs _
    have hj : g.joint? (.word "IS") = some .nullTest := by simp +decide [Grammar.joint?, hc]
    have hs : step g (.operator x fs) (.word "IS") = some (.nullTest x false fs) :=
      step_join hj hfs
    rw [Expression.tokens, List.append_assoc]
    cases negated
    all_goals
      simp only [Bool.false_eq_true, if_false, if_true, List.cons_append]
      rw [ih _ _ (hfs.mono hx) (follows_cons hj hx), run, hs, Option.bind_some]
      simp +decide [run, step]
  | @range x low high negated hc _ _ _ hx hlow hhigh ihx ihl ihh =>
    intro fs rest hfs hrest
    have hand : g.joint? (.word "AND") = some (.operator .and) := by simp +decide [Grammar.joint?, hc]
    have begins : ∀ ts, run g (.operand fs)
        (x.tokens ++ ((if negated then [.word "NOT", .word "BETWEEN"] else [.word "BETWEEN"]) ++ ts))
          = run g (.operand (.low x negated :: fs)) ts := by
      intro ts
      cases negated with
      | false =>
        have hj : g.joint? (.word "BETWEEN") = some .range := by simp +decide [Grammar.joint?, hc]
        have hs : step g (.operator x fs) (.word "BETWEEN") = some (.operand (.low x false :: fs)) :=
          step_join hj hfs
        simp only [Bool.false_eq_true, if_false, List.cons_append]
        rw [ihx _ _ (hfs.mono hx) (follows_cons hj hx), List.nil_append, run, hs, Option.bind_some]
      | true =>
        have hj : g.joint? (.word "NOT") = some .negation := by simp +decide [Grammar.joint?, hc]
        have hs : step g (.operator x fs) (.word "NOT") = some (.negated x fs) :=
          step_join hj hfs
        simp only [if_true, List.cons_append]
        rw [ihx _ _ (hfs.mono hx) (follows_cons hj hx), run, hs, Option.bind_some]
        simp +decide [run, step]
    have turns : ∀ ts, run g (.operator low (.low x negated :: fs)) (.word "AND" :: ts)
        = run g (.operand (.high x low negated :: fs)) ts := by
      intro ts
      simp [run, step, hand, reduce, Frame.level?, joinStep]
    have hl : 3 ≤ low.level g := by omega
    have parts : (Expression.range x low high negated).tokens ++ rest
        = x.tokens ++ ((if negated then [.word "NOT", .word "BETWEEN"] else [.word "BETWEEN"])
          ++ (low.tokens ++ .word "AND" :: (high.tokens ++ rest))) := by
      simp [Expression.tokens]
    have floorLow : Holds g (.low x negated :: fs) (low.level g) := holds_cons hlow
    have floorHigh : Holds g (.high x low negated :: fs) (high.level g) := holds_cons hhigh
    rw [parts, begins, ihl _ _ floorLow (follows_cons hand hl), turns, ihh _ _ floorHigh (hrest.mono (Nat.le_of_lt hhigh))]
    exact run_complete (m := 5) rfl hrest
  | @existence ts hc h =>
    intro fs rest _ _
    have ho : g.opening? (.word "EXISTS") = some .existence := by simp +decide [Grammar.opening?, hc]
    have hs : run g (.operand fs) (.word "EXISTS" :: .symbol "(" :: (ts ++ .symbol ")" :: rest))
        = run g (.subquery 0 [] fs) (ts ++ .symbol ")" :: rest) := by
      rw [run, step, ho]
      rfl
    simp only [Expression.tokens, List.cons_append, List.append_assoc, List.nil_append]
    rw [hs, run_subquery h, List.nil_append]

end Reader

theorem Expression.read_tokens {g : Grammar} {x : Expression} (h : x.WellFormed g) : read g x.tokens = some x := by
  have hx := Reader.readBack h [] [] (by intro f hf; cases hf) Reader.follows_nil
  rw [List.append_nil] at hx
  rw [read, hx]
  rfl

/-- The language is not ambiguous: no two trees are written with the same tokens. -/
theorem Expression.WellFormed.unique {g : Grammar} {x y : Expression} (hx : x.WellFormed g) (hy : y.WellFormed g)
    (h : x.tokens = y.tokens) : x = y := by
  have hr := read_tokens hx
  rw [h, read_tokens hy] at hr
  exact (Option.some.inj hr).symm

end SqlDialects
