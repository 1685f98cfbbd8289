import SqlDialects.Proofs.Grammar.FixedTexts
import SqlDialects.Proofs.Grammar.TableJoins

/-!
# From one depth of parentheses to another

What a writer writes closes the parentheses that it opens, but the texts that it is put together from do not. So the
tokens of such a text are followed from the number of parentheses that are open before it to the number behind it
(`Token.leads`). Passages that meet at the same number are one passage (`Token.leads_append`), and a whole one, from
outside of parentheses to outside, is balanced, or a phrase if it keeps apart from the words of joins.

On the way it is said that nothing is stray and that no comment is begun.
-/

set_option autoImplicit false

namespace SqlDialects

namespace Token

/-- Whether a token is one of SQL: no comment, and nothing that is left open. -/
def isClean : Token → Bool
  | comment | stray _ => false
  | _ => true

/-- Whether a token may stand outside of parentheses: it closes none, and where words of joins are kept out it is none
of them. The words before `JOIN` may stand anywhere but at the end. -/
def isOutside (apart last : Bool) (t : Token) : Bool :=
  t != .symbol ")"
    && !(apart && (["ON", "USING", "JOIN"].any t.isKeyword || last && JoinType.allModifiers.any t.isKeyword))

/-- Whether tokens lead from one number of open parentheses to another, closing no more than are open. -/
def leads (apart : Bool) (goal : Nat) : Nat → List Token → Bool
  | depth, [] => depth == goal
  | depth, t :: ts =>
    t.isClean && (depth != 0 || t.isOutside apart ts.isEmpty) && leads apart goal (nesting depth t) ts

variable {apart apart' : Bool} {goal depth next : Nat} {t : Token} {ts us : List Token}

theorem leads_cons : leads apart goal depth (t :: ts) = true ↔
    t.isClean = true ∧ (depth = 0 → t.isOutside apart ts.isEmpty = true)
      ∧ leads apart goal (nesting depth t) ts = true := by
  rw [leads, Bool.and_eq_true, Bool.and_eq_true, Bool.or_eq_true, bne_iff_ne, and_assoc, ← imp_iff_not_or]

theorem ne_closing_of_isOutside {last : Bool} (h : t.isOutside apart last = true) : t ≠ .symbol ")" := by
  rw [isOutside, Bool.and_eq_true, bne_iff_ne] at h
  exact h.1

theorem isOutside_mono {last last' : Bool} (h : t.isOutside apart last = true) (ha : apart' = true → apart = true)
    (hl : last' = true → last = true) : t.isOutside apart' last' = true := by
  cases apart' with
  | false =>
    rw [isOutside, Bool.false_and, Bool.not_false, Bool.and_true, bne_iff_ne]
    exact ne_closing_of_isOutside h
  | true =>
    obtain rfl := ha rfl
    cases last' with
    | true => rwa [hl rfl] at h
    | false =>
      rw [isOutside, Bool.and_eq_true] at h ⊢
      refine ⟨h.1, ?_⟩
      cases last with
      | false => exact h.2
      | true =>
        have keywords := h.2
        rw [Bool.true_and, Bool.true_and, Bool.not_eq_true', Bool.or_eq_false_iff] at keywords
        rw [Bool.true_and, Bool.false_and, Bool.or_false, keywords.1]
        rfl

theorem leads_append (h : leads apart next depth ts = true) (hu : leads apart goal next us = true) :
    leads apart goal depth (ts ++ us) = true := by
  induction ts generalizing depth with
  | nil =>
    rw [show depth = next from beq_iff_eq.1 h]
    exact hu
  | cons t ts ih =>
    obtain ⟨clean, outside, h⟩ := leads_cons.1 h
    refine leads_cons.2 ⟨clean, fun zero => isOutside_mono (outside zero) id fun last => ?_, ih h⟩
    exact List.isEmpty_iff.2 (List.append_eq_nil_iff.1 (List.isEmpty_iff.1 last)).1

theorem nesting_add (h : depth = 0 → t ≠ .symbol ")") (k : Nat) : nesting (depth + k) t = nesting depth t + k := by
  induction k with
  | zero => rfl
  | succ k ih =>
    have opened : depth + k = 0 → t ≠ .symbol ")" := fun zero => h (by omega)
    rw [← Nat.add_assoc, nesting_succ opened, ih, Nat.add_assoc]

/-- Within further parentheses tokens lead as far. There the words of joins need not be kept out any longer. -/
theorem leads_within {k : Nat} (h : leads apart goal depth ts = true) (ha : apart' = true → apart = true ∨ 0 < k) :
    leads apart' (goal + k) (depth + k) ts = true := by
  induction ts generalizing depth with
  | nil =>
    rw [show depth = goal from beq_iff_eq.1 h]
    exact beq_self_eq_true _
  | cons t ts ih =>
    obtain ⟨clean, outside, h⟩ := leads_cons.1 h
    refine leads_cons.2 ⟨clean, fun zero => ?_, ?_⟩
    · obtain ⟨hd, hk⟩ : depth = 0 ∧ k = 0 := by omega
      exact isOutside_mono (outside hd) (fun apart => (ha apart).resolve_right (by omega)) id
    · rw [nesting_add (fun zero => ne_closing_of_isOutside (outside zero))]
      exact ih h

/-! ## Whole passages -/

theorem isPhrase_of_leads (h : leads true 0 depth ts = true) : isPhrase depth ts = true := by
  induction ts generalizing depth with
  | nil => exact h
  | cons t ts ih =>
    obtain ⟨-, outside, h⟩ := leads_cons.1 h
    cases depth with
    | succ depth => exact ih h
    | zero =>
      have out := outside rfl
      have keywords := out
      rw [isOutside, Bool.and_eq_true, Bool.true_and, Bool.not_eq_true', Bool.or_eq_false_iff, List.any_eq_false,
        Bool.and_eq_false_imp] at keywords
      refine isPhrase_cons.2 ⟨ne_closing_of_isOutside out, fun w hw => ?_, fun last w hw => ?_, ih h⟩
      · exact Bool.eq_false_iff.2 (keywords.2.1 w hw)
      · exact Bool.eq_false_iff.2 (List.any_eq_false.1 (keywords.2.2 (List.isEmpty_iff.2 last)) w hw)

theorem balanced_of_leads (h : leads apart 0 depth ts = true) : balanced depth ts = true := by
  induction ts generalizing depth with
  | nil => exact h
  | cons t ts ih =>
    obtain ⟨-, outside, h⟩ := leads_cons.1 h
    exact balanced_cons_iff.2 ⟨fun zero => ne_closing_of_isOutside (outside zero), ih h⟩

theorem isClean_of_leads (h : leads apart goal depth ts = true) : ∀ t ∈ ts, t.isClean = true := by
  induction ts generalizing depth with
  | nil => simp
  | cons t ts ih =>
    obtain ⟨clean, -, h⟩ := leads_cons.1 h
    exact List.forall_mem_cons.2 ⟨clean, ih h⟩

/-! ## Names and values -/

/-- A token that is neither a parenthesis nor a word of a join. -/
theorem leads_single (clean : t.isClean = true) (outside : t.isOutside true true = true) (opening : t ≠ .symbol "(") :
    leads apart depth depth [t] = true := by
  have same : nesting depth t = depth := by
    unfold nesting
    split
    · exact absurd rfl opening
    · exact absurd rfl (ne_closing_of_isOutside outside)
    · rfl
  refine leads_cons.2 ⟨clean, fun _ => isOutside_mono outside (fun _ => rfl) fun _ => rfl, ?_⟩
  rw [same]
  exact beq_self_eq_true _

end Token

open Token (leads)

variable {d : Dialect} {s : Settings} {apart : Bool} {depth : Nat}

theorem Settings.Spells.leads_nameToken {n : String} (h : s.Spells n) :
    leads apart depth depth [s.nameToken n] = true := by
  have keywords : ∀ w ∈ ["ON", "USING", "JOIN"] ++ JoinType.allModifiers, (s.nameToken n).isKeyword w = false := by
    intro w hw
    refine h.isKeyword_nameToken ?_
    simp only [JoinType.allModifiers, List.cons_append, List.nil_append, List.mem_cons, List.not_mem_nil,
      or_false] at hw
    rcases hw with rfl | rfl | rfl | rfl | rfl | rfl | rfl | rfl <;> decide
  obtain ⟨out, modifiers⟩ := List.forall_mem_append.1 keywords
  have outside : (s.nameToken n).isOutside true true = true := by
    rw [Token.isOutside, List.any_eq_false.2 fun w hw => Bool.eq_false_iff.1 (out w hw),
      List.any_eq_false.2 fun w hw => Bool.eq_false_iff.1 (modifiers w hw)]
    rcases s.nameToken_cases n with hn | hn <;> rw [hn] <;> rfl
  rcases s.nameToken_cases n with hn | hn <;> rw [hn] at outside ⊢
  · exact Token.leads_single rfl outside (by simp)
  · exact Token.leads_single rfl outside (by simp)

theorem Value.leads_expression (v : Value) : leads apart depth depth (v.expression d).tokens = true := by
  have signed : ∀ (negative : Bool) (t : Token), t.isClean = true → t.isOutside true true = true → t ≠ .symbol "(" →
      leads apart depth depth (Expression.signed negative t).tokens = true := by
    intro negative t clean outside opening
    cases negative with
    | false => exact Token.leads_single clean outside opening
    | true =>
      have minus : leads apart depth depth [.symbol "-"] = true := Token.leads_single rfl rfl (by decide)
      exact Token.leads_append minus (Token.leads_single clean outside opening)
  have typed : ∀ text, leads apart depth depth [.text "" text, .symbol "::", .word "bytea"] = true := by
    intro text
    have word : leads apart depth depth [.word "bytea"] = true := Token.leads_single rfl (by decide) (by decide)
    have sign : leads apart depth depth [.symbol "::"] = true := Token.leads_single rfl rfl (by decide)
    exact Token.leads_append (Token.leads_single rfl rfl (by simp)) (Token.leads_append sign word)
  cases v with
  | null => exact Token.leads_single rfl (by decide) (by decide)
  | bool b =>
    unfold Value.expression
    cases Capability.booleanLiteral d with
    | numeric => exact Token.leads_single rfl rfl (by simp)
    | keyword => cases b <;> exact Token.leads_single rfl (by decide) (by decide)
  | int n => exact signed _ _ rfl rfl (by simp)
  | float x =>
    unfold Value.expression
    dsimp only
    split
    · exact Token.leads_single rfl (by decide) (by decide)
    · split
      · exact signed _ _ rfl rfl (by simp)
      · exact signed _ _ rfl (by decide) (by decide)
  | text s => exact Token.leads_single rfl rfl (by simp)
  | blob bytes =>
    unfold Value.expression
    cases d.family <;> first | exact typed _ | exact Token.leads_single rfl rfl (by simp)

/-! ## Fixed texts -/

/-- A place in a text: the edge that it is at, and how many parentheses are open. -/
structure Spot where
  edge : Lexer.Edge
  depth : Nat

/-- Whether what is at one edge is at another one too. -/
def Lexer.Edge.isAt : Lexer.Edge → Lexer.Edge → Bool
  | _, .joint | .gap, .gap | .gap, .sign | .sign, .sign | .name, .name => true
  | _, _ => false

/-- Whether a fixed text may stand at a spot and leads to another. -/
def Spot.reaches (apart : Bool) (text : String) (p q : Spot) : Bool :=
  text.toList.all Lexer.isFixed && p.edge.allows text.toList
    && (Lexer.skim? text).any fun r => r.1.isAt q.edge && leads apart q.depth p.depth r.2

theorem Lexer.Reads.at {a b b' : Lexer.Edge} {cs : List Char} {ts : List Token} (hb : b.isAt b' = true)
    (h : Lexer.Reads d a b cs ts) : Lexer.Reads d a b' cs ts := by
  intro st hst
  obtain ⟨h, settled⟩ := h st hst
  refine ⟨?_, settled⟩
  cases b' with
  | joint => exact h.joint
  | gap => cases b <;> first | exact h | cases hb
  | sign =>
    cases b with
    | gap => exact .inl h
    | sign => exact h
    | _ => cases hb
  | name => cases b <;> first | exact h | cases hb

theorem Spot.exists_reads {text : String} {p q : Spot} (h : p.reaches apart text q = true) :
    ∃ ts, Lexer.Reads d p.edge q.edge text.toList ts ∧ leads apart q.depth p.depth ts = true := by
  rw [reaches, Bool.and_eq_true, Bool.and_eq_true, Option.any_eq_true] at h
  obtain ⟨⟨fixed, allowed⟩, ⟨b, ts⟩, skimmed, checked⟩ := h
  obtain ⟨hb, hl⟩ := Bool.and_eq_true_iff.1 checked
  exact ⟨ts, (Lexer.reads_fixed fixed allowed skimmed).at hb, hl⟩

end SqlDialects
