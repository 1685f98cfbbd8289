import SqlDialects.Proofs.Grammar.Passages
import SqlDialects.Proofs.Render.Finite
import SqlDialects.Proofs.Render.Nested

/-!
# Steps that lead through a text

A step of a pass **moves** from one spot of a text to another if whatever it adds to the output is read as tokens that
lead there (`Render.Moves`). It may fail, in which case nothing is said of it. There is a rule for each primitive step
and for each way of putting steps together.

What moves from outside of parentheses to outside is a phrase or at least balanced, and it does the same within any
parentheses (`Render.Moves.anywhere`, `Render.Moves.inside`).
-/

set_option autoImplicit false

namespace SqlDialects

/-- Lines are indented with blanks, if they are indented at all. -/
def Settings.Indents (s : Settings) : Prop := s.formatted = true → s.indentation.toList.all (· == ' ') = true

/-- A text that is read as tokens that lead from one spot to another. -/
def Lexer.Passes (d : Dialect) (apart : Bool) (p q : Spot) (text : String) : Prop :=
  ∃ ts, Reads d p.edge q.edge text.toList ts ∧ Token.leads apart q.depth p.depth ts = true

/-- A step that, unless it fails, adds a text that is read as tokens with a property. -/
def Render.Adds (d : Dialect) (s : Settings) (a b : Lexer.Edge) (P : List Token → Prop) {α : Type} (m : Render α) :
    Prop :=
  ∀ c x k, c.dialect = d → c.settings = s → m c = .ok x k →
    k.dialect = d ∧ k.settings = s ∧ ∃ ps ts, k.output = c.output.writeAll d s ps ∧ Lexer.Spells d s a b ps ts ∧ P ts

/-- A step after which, unless it fails, the text has led from one spot to another. -/
def Render.Moves (d : Dialect) (s : Settings) (apart : Bool) (p q : Spot) {α : Type} (m : Render α) : Prop :=
  Render.Adds d s p.edge q.edge (fun ts => Token.leads apart q.depth p.depth ts = true) m

/-- A step that writes a phrase. -/
abbrev Render.Phrase (d : Dialect) (s : Settings) (a : Lexer.Edge) {α : Type} (m : Render α) : Prop :=
  Render.Moves d s true ⟨a, 0⟩ ⟨.joint, 0⟩ m

/-- A step that writes tokens that close what they open. -/
abbrev Render.Closed (d : Dialect) (s : Settings) {α : Type} (m : Render α) : Prop :=
  Render.Moves d s false ⟨.gap, 0⟩ ⟨.joint, 0⟩ m

namespace Lexer.Passes

variable {d : Dialect} {apart : Bool} {p q r : Spot} {text text' : String} {i : Nat}

theorem fixed (h : p.reaches apart text q = true) : Passes d apart p q text := Spot.exists_reads h

theorem append (h : Passes d apart p q text) (h' : Passes d apart q r text') : Passes d apart p r (text ++ text') := by
  obtain ⟨ts, read, leads⟩ := h
  obtain ⟨us, read', leads'⟩ := h'
  refine ⟨ts ++ us, ?_, Token.leads_append leads leads'⟩
  rw [String.toList_append]
  exact read.append read'

theorem digits (n : Nat) : Passes d apart ⟨.sign, i⟩ ⟨.joint, i⟩ (Decimal.digits n) := by
  refine ⟨[.number (Decimal.digits n)], ?_, Token.leads_single rfl rfl (by simp)⟩
  rw [Decimal.digits, String.toList_ofList]
  exact Lexer.reads_digits (Decimal.isNumber_toDigits n)

theorem ofSign (h : Passes d apart ⟨.sign, i⟩ q text) : Passes d apart ⟨.gap, i⟩ q text := by
  obtain ⟨ts, read, leads⟩ := h
  exact ⟨ts, read.ofSign, leads⟩

end Lexer.Passes

namespace Render.Adds

variable {d : Dialect} {s : Settings} {a b c a' b' : Lexer.Edge} {P Q R : List Token → Prop} {α β : Type} {m : Render α}

/-- A step that adds pieces. -/
theorem pieces {ps : List Piece} {ts : List Token} (spells : Lexer.Spells d s a b ps ts) (hP : P ts)
    (h : ∀ k x k', k.dialect = d → k.settings = s → m k = .ok x k' →
      k'.dialect = k.dialect ∧ k'.settings = k.settings ∧ k'.output = k.output.writeAll d s ps) :
    Adds d s a b P m := by
  intro k x k' hd hs hk
  obtain ⟨hd', hs', ho⟩ := h k x k' hd hs hk
  exact ⟨hd'.trans hd, hs'.trans hs, ps, ts, ho, spells, hP⟩

theorem write {piece : Piece} {ts : List Token} (spells : Lexer.Spells d s a b [piece] ts) (hP : P ts) :
    Adds d s a b P (Render.write piece) := by
  refine pieces spells hP ?_
  rintro k _ _ rfl rfl ⟨⟩
  exact ⟨rfl, rfl, rfl⟩

/-- What follows a step is taken for the values only that the step can return. -/
theorem bindReturned {f : α → Render β} (append : ∀ ts us, P ts → Q us → R (ts ++ us)) (hm : Adds d s a b P m)
    (hf : ∀ x, (∃ k k', m k = .ok x k') → Adds d s b c Q (f x)) : Adds d s a c R (m >>= f) := by
  intro k y l hd hs hk
  cases hr : m k with
  | error e k' =>
    rw [bind_error hr] at hk
    cases hk
  | ok x k' =>
    rw [bind_ok hr] at hk
    obtain ⟨hd', hs', ps, ts, ho, spells, hP⟩ := hm k x k' hd hs hr
    obtain ⟨hd'', hs'', ps', ts', ho', spells', hQ⟩ := hf x ⟨k, k', hr⟩ k' y l hd' hs' hk
    refine ⟨hd'', hs'', ps ++ ps', ts ++ ts', ?_, spells.append spells', append ts ts' hP hQ⟩
    rw [ho', ho, Output.writeAll_append]

theorem bind {f : α → Render β} (append : ∀ ts us, P ts → Q us → R (ts ++ us)) (hm : Adds d s a b P m)
    (hf : ∀ x, Adds d s b c Q (f x)) : Adds d s a c R (m >>= f) :=
  .bindReturned append hm fun x _ => hf x

theorem imp (hs : ∀ ps ts, Lexer.Spells d s a b ps ts → Lexer.Spells d s a' b' ps ts) (hP : ∀ ts, P ts → Q ts)
    (h : Adds d s a b P m) : Adds d s a' b' Q m := by
  intro k x k' hd hset hk
  obtain ⟨hd', hs', ps, ts, ho, spells, hts⟩ := h k x k' hd hset hk
  exact ⟨hd', hs', ps, ts, ho, hs ps ts spells, hP ts hts⟩

end Render.Adds

namespace Render.Moves

variable {d : Dialect} {s : Settings} {apart apart' : Bool} {p q r : Spot} {a b : Lexer.Edge} {i j : Nat} {α β : Type}
  {m : Render α}

/-! ## Primitive steps -/

/-- A step that adds nothing. -/
theorem quiet (h : ∀ c x k, m c = .ok x k → k.dialect = c.dialect ∧ k.settings = c.settings ∧ k.output = c.output) :
    Moves d s apart p p m :=
  .pieces .nil (beq_self_eq_true _) fun c x k _ _ hk => h c x k hk

/-- A step that fails. -/
theorem refused (h : ∀ c x k, m c ≠ .ok x k) : Moves d s apart p q m := fun c x k _ _ hk => absurd hk (h c x k)

theorem pure (x : α) : Moves d s apart p p (Pure.pure x : Render α) := by
  refine quiet ?_
  rintro c _ _ ⟨⟩
  exact ⟨rfl, rfl, rfl⟩

theorem throw (e : RenderError) : Moves d s apart p q (MonadExcept.throw e : Render α) :=
  refused fun _ _ _ h => by cases h

theorem unsupported (construct : String) : Moves d s apart p q (Render.unsupported construct : Render α) :=
  refused fun _ _ _ h => by cases h

theorem declare (n : String) (e : Declaration) : Moves d s apart p p (Render.declare n e) := by
  refine quiet ?_
  rintro c _ _ ⟨⟩
  exact ⟨rfl, rfl, rfl⟩

theorem freshAlias (stem : String) : Moves d s apart p p (Render.freshAlias stem) := by
  refine quiet ?_
  rintro c _ _ ⟨⟩
  exact ⟨rfl, rfl, rfl⟩

theorem demand (available : Bool) (construct : String) : Moves d s apart p p (Render.demand available construct) := by
  unfold Render.demand
  split
  · exact .pure ()
  · exact .unsupported construct

theorem write {piece : Piece} {ts : List Token} (spells : Lexer.Spells d s p.edge q.edge [piece] ts)
    (leads : Token.leads apart q.depth p.depth ts = true) : Moves d s apart p q (Render.write piece) :=
  Adds.write spells leads

theorem text {text : String} (h : Lexer.Passes d apart p q text) : Moves d s apart p q (Render.sql text) := by
  obtain ⟨ts, read, leads⟩ := h
  exact .write (Lexer.Reads.spells (by rintro v ⟨⟩) read) leads

/-- A fixed text. Where it leads is computed. -/
theorem sql (q : Spot) {text : String} (h : p.reaches apart text q = true) :
    Moves d s apart p q (Render.sql text) :=
  .text (.fixed h)

/-- The point behind a name that qualifies another. -/
theorem point : Moves d s apart ⟨.name, i⟩ ⟨.sign, i⟩ (Render.sql ".") :=
  .text ⟨[.symbol "."], Lexer.reads_point.at rfl, Token.leads_single rfl rfl (by decide)⟩

theorem name {n : String} (h : s.Spells n) : Moves d s apart ⟨.sign, i⟩ ⟨.name, i⟩ (Render.name n) := by
  have read : Lexer.Reads d .sign .name (spellName d s n).toList [s.nameToken n] := Lexer.reads_name h.plain
  exact .write (Lexer.Reads.spells (by rintro v ⟨⟩) read) h.leads_nameToken

theorem literal (v : Value) : Moves d s apart ⟨.gap, i⟩ ⟨.joint, i⟩ (Render.literal v) :=
  .write (Lexer.Reads.spells (by rintro v ⟨⟩) (Lexer.reads_literal v)) v.leads_expression

theorem value (v : Value) : Moves d s apart ⟨.gap, i⟩ ⟨.joint, i⟩ (Render.bind v) := by
  cases hs : s.paramType with
  | indexed => exact .write (Lexer.spells_bind hs v).ofSign (Token.leads_single rfl rfl (by simp))
  | inlined => exact .write (Lexer.Reads.spellsInlined hs (Lexer.reads_literal v)) v.leads_expression

/-! ## Composition -/

/-- What follows a step moves on for the values only that the step can return. -/
theorem bindReturned {f : α → Render β} (hm : Moves d s apart p q m)
    (hf : ∀ x, (∃ c k, m c = .ok x k) → Moves d s apart q r (f x)) : Moves d s apart p r (m >>= f) :=
  Adds.bindReturned (fun _ _ => Token.leads_append) hm hf

theorem bind {f : α → Render β} (hm : Moves d s apart p q m) (hf : ∀ x, Moves d s apart q r (f x)) :
    Moves d s apart p r (m >>= f) :=
  .bindReturned hm fun x _ => hf x

theorem dialect {f : Dialect → Render α} (h : Moves d s apart p q (f d)) :
    Moves d s apart p q (Render.dialect >>= f) := by
  intro c x k hd hs hk
  rw [Render.dialect_bind, hd] at hk
  exact h c x k hd hs hk

theorem flags {f : RenderFlags → Render α} (h : ∀ flags, Moves d s apart p q (f flags)) :
    Moves d s apart p q (Render.flags >>= f) :=
  fun c x k hd hs hk => h c.flags c x k hd hs hk

theorem scopes {f : ScopeStack String Declaration → Render α} (h : ∀ scopes, Moves d s apart p q (f scopes)) :
    Moves d s apart p q (Render.scopes >>= f) :=
  fun c x k hd hs hk => h c.scopes c x k hd hs hk

/-- A spot at which a step may be taken as well, and one that it leads to as well. -/
theorem imp (hs : ∀ ps ts, Lexer.Spells d s a b ps ts → Lexer.Spells d s p.edge q.edge ps ts)
    (hl : ∀ ts, Token.leads apart j i ts = true → Token.leads apart' q.depth p.depth ts = true)
    (h : Moves d s apart ⟨a, i⟩ ⟨b, j⟩ m) : Moves d s apart' p q m :=
  Adds.imp hs hl h

theorem toJoint (h : Moves d s apart ⟨a, i⟩ ⟨b, j⟩ m) : Moves d s apart ⟨a, i⟩ ⟨.joint, j⟩ m :=
  h.imp (fun _ _ => Lexer.Spells.toJoint) fun _ => id

theorem ofJoint (h : Moves d s apart ⟨.joint, i⟩ ⟨b, j⟩ m) : Moves d s apart ⟨a, i⟩ ⟨b, j⟩ m :=
  h.imp (fun _ _ => Lexer.Spells.ofJoint) fun _ => id

theorem ofSign (h : Moves d s apart ⟨.sign, i⟩ ⟨b, j⟩ m) : Moves d s apart ⟨.gap, i⟩ ⟨b, j⟩ m :=
  h.imp (fun _ _ => Lexer.Spells.ofSign) fun _ => id

/-- A part of a phrase, or a whole one, may stand anywhere. -/
theorem anywhere (h : Moves d s true ⟨a, 0⟩ ⟨b, 0⟩ m) : Moves d s apart ⟨a, i⟩ ⟨b, i⟩ m := by
  refine h.imp (fun _ _ => id) fun ts leads => ?_
  have within : Token.leads apart (0 + i) (0 + i) ts = true := Token.leads_within leads fun _ => .inl rfl
  rwa [Nat.zero_add] at within

/-- What closes what it opens may stand in parentheses. -/
theorem inside (h : Moves d s false ⟨a, 0⟩ ⟨b, 0⟩ m) : Moves d s apart ⟨a, i + 1⟩ ⟨b, i + 1⟩ m := by
  refine h.imp (fun _ _ => id) fun ts leads => ?_
  have within : Token.leads apart (0 + (i + 1)) (0 + (i + 1)) ts = true :=
    Token.leads_within leads fun _ => .inr (Nat.succ_pos i)
  rwa [Nat.zero_add] at within

/-! ## Blanks and parentheses -/

/-- A line break with its indentation. -/
theorem reads_lineBreak (h : s.indentation.toList.all (· == ' ') = true) (depth : Nat) :
    Lexer.Reads d .joint .gap (lineBreak s depth).toList [] := by
  have blanks : ∀ cs : List Char, cs.all (· == ' ') = true → Lexer.Reads d .gap .gap cs [] := by
    intro cs hcs
    induction cs with
    | nil => exact .nil
    | cons c cs ih =>
      rw [List.all_cons, Bool.and_eq_true, beq_iff_eq] at hcs
      rw [hcs.1]
      exact Lexer.reads_blank.ofJoint.append (ih hcs.2)
  have indented : ∀ depth, Lexer.Reads d .gap .gap (String.join (List.replicate depth s.indentation)).toList [] := by
    intro depth
    refine blanks _ ?_
    rw [String.toList_join, List.all_flatMap, List.all_eq_true]
    intro t ht
    rw [List.eq_of_mem_replicate ht]
    exact h
  rw [lineBreak, String.toList_append]
  exact (Lexer.reads_white (by decide)).append (indented depth)

theorem gap (hi : s.Indents) : Moves d s apart ⟨.joint, i⟩ ⟨.gap, i⟩ Render.gap := by
  intro c x k hd hs hk
  have spells : Lexer.Spells d s .joint .gap [.gap c.indent] [] := by
    refine Lexer.Reads.spells (by rintro v ⟨⟩) ?_
    show Lexer.Reads d .joint .gap (if s.formatted = true then lineBreak s c.indent else " ").toList []
    split
    · next formatted => exact reads_lineBreak (hi formatted) _
    · exact Lexer.reads_blank
  exact write (p := ⟨.joint, i⟩) (q := ⟨.gap, i⟩) spells (beq_self_eq_true i) c x k hd hs hk

/-- A line break beside a parenthesis, or nothing. -/
theorem spells_edge (hi : s.Indents) (ha : a = .gap ∨ a = .joint) (depth : Nat) :
    Lexer.Spells d s a a [.edge depth] [] := by
  refine Lexer.Reads.spells (by rintro v ⟨⟩) ?_
  show Lexer.Reads d a a (if s.formatted = true then lineBreak s depth else "").toList []
  split
  · next formatted =>
    have read := reads_lineBreak (d := d) (hi formatted) depth
    rcases ha with rfl | rfl
    · exact read.ofJoint
    · exact read.toJoint
  · exact .nil

theorem adds_indentStart (hi : s.Indents) : Adds d s .gap .gap (· = []) Render.indentStart :=
  fun c x k hd hs hk => Adds.write (P := (· = [])) (spells_edge hi (.inl rfl) (c.indent + 1)) rfl
    { c with indent := c.indent + 1 } x k hd hs hk

theorem adds_indentEnd (hi : s.Indents) : Adds d s .joint .joint (· = []) Render.indentEnd :=
  fun c x k hd hs hk => Adds.write (P := (· = [])) (spells_edge hi (.inr rfl) (c.indent - 1)) rfl
    { c with indent := c.indent - 1 } x k hd hs hk

theorem indentStart (hi : s.Indents) : Moves d s apart ⟨.gap, i⟩ ⟨.gap, i⟩ Render.indentStart :=
  Adds.imp (fun _ _ => id) (by rintro _ rfl; exact beq_self_eq_true i) (adds_indentStart hi)

theorem indentEnd (hi : s.Indents) : Moves d s apart ⟨.joint, i⟩ ⟨.joint, i⟩ Render.indentEnd :=
  Adds.imp (fun _ _ => id) (by rintro _ rfl; exact beq_self_eq_true i) (adds_indentEnd hi)

theorem parenthesized {m : Render Unit} (h : Closed d s m) : Phrase d s a (Render.parenthesized m) :=
  .ofJoint (.bind (.sql ⟨.gap, 1⟩ rfl) fun _ => .bind h.inside fun _ => .sql ⟨.joint, 0⟩ rfl)

/-- Two texts are read as the one that they are together. -/
theorem spells_texts {t u : String} {ts : List Token} (h : Lexer.Spells d s a b [.text (t ++ u)] ts) :
    Lexer.Spells d s a b [.text t, .text u] ts := by
  have bound : s.bound [.text t, .text u] = s.bound [.text (t ++ u)] := by
    unfold Settings.bound
    cases s.paramType <;> rfl
  have chars : ∀ n, Piece.allChars d s n [.text t, .text u] = Piece.allChars d s n [.text (t ++ u)] := by
    intro n
    simp [Piece.allChars, Piece.chars, Piece.spell]
  intro st rest hst values
  rw [bound] at values ⊢
  rw [chars]
  exact h st rest hst values

/-- A name that is read together with the parenthesis behind it. -/
theorem applied {f : String} {m : Render Unit} (hf : Spot.reaches true (f ++ "(") ⟨a, 0⟩ ⟨.gap, 1⟩ = true)
    (h : Closed d s m) : Phrase d s a (do Render.sql f; Render.parenthesized m) := by
  have opening : Moves d s true ⟨a, 0⟩ ⟨.gap, 1⟩ (do Render.sql f; Render.sql "(") := by
    obtain ⟨ts, read, leads⟩ := Spot.exists_reads (d := d) hf
    refine Adds.pieces (spells_texts (Lexer.Reads.spells (by rintro v ⟨⟩) read)) leads ?_
    rintro c _ _ rfl rfl ⟨⟩
    exact ⟨rfl, rfl, rfl⟩
  have whole : Phrase d s a (do (do Render.sql f; Render.sql "("); m; Render.sql ")") :=
    .bind opening fun _ => .bind h.inside fun _ => .sql ⟨.joint, 0⟩ rfl
  rwa [bind_assoc] at whole

/-- A name that is read together with the parenthesis behind it, and what stands behind the other parenthesis. -/
theorem appliedBefore {f : String} {m n : Render Unit} (hf : Spot.reaches true (f ++ "(") ⟨a, 0⟩ ⟨.gap, 1⟩ = true)
    (h : Closed d s m) (hn : Phrase d s .joint n) :
    Phrase d s a (do Render.sql f; Render.parenthesized m; n) := by
  have whole := (applied hf h).bind fun _ => hn
  rwa [bind_assoc] at whole

theorem subquery {m : Render Unit} (hi : s.Indents) (h : Closed d s m) : Phrase d s a (Render.subquery m) :=
  .ofJoint (.bind (.sql ⟨.gap, 1⟩ rfl) fun _ => .bind (.indentStart hi) fun _ => .bind h.inside fun _ =>
    .bind (.indentEnd hi) fun _ => .sql ⟨.joint, 0⟩ rfl)

/-- A step in parentheses writes one group. -/
theorem group {m : Render Unit} (hi : s.Indents) (h : Closed d s m) :
    Adds d s .gap .gap (fun ts => ∃ us, Token.balanced 0 us = true ∧ ts = .symbol "(" :: us ++ [.symbol ")"])
      (Render.subquery m) := by
  have mark : ∀ {t : String} {a : Lexer.Edge}, Lexer.Reads d a .gap t.toList [.symbol t] →
      Adds d s a .gap (· = [.symbol t]) (Render.sql t) := fun read =>
    Adds.write (Lexer.Reads.spells (by rintro v ⟨⟩) read) rfl
  have opening : Adds d s .gap .gap (· = [.symbol "("]) (Render.sql "(") := mark (Lexer.reads_mark (by decide)).ofJoint
  have closing : Adds d s .joint .gap (· = [.symbol ")"]) (Render.sql ")") := mark (Lexer.reads_mark (by decide))
  have closed : Adds d s .joint .gap (· = [.symbol ")"]) (do Render.indentEnd; Render.sql ")") :=
    .bind (by rintro _ _ rfl rfl; rfl) (adds_indentEnd hi) fun _ => closing
  have body : Adds d s .gap .gap (fun ts => ∃ us, Token.balanced 0 us = true ∧ ts = us ++ [.symbol ")"])
      (do m; Render.indentEnd; Render.sql ")") :=
    .bind (by rintro us _ leads rfl; exact ⟨us, Token.balanced_of_leads leads, rfl⟩) h fun _ => closed
  have indented : Adds d s .gap .gap (fun ts => ∃ us, Token.balanced 0 us = true ∧ ts = us ++ [.symbol ")"])
      (do Render.indentStart; m; Render.indentEnd; Render.sql ")") :=
    .bind (by rintro _ ts rfl written; exact written) (adds_indentStart hi) fun _ => body
  exact .bind (by rintro _ _ rfl ⟨us, balanced, rfl⟩; exact ⟨us, balanced, rfl⟩) opening fun _ => indented

/-! ## Steps around steps -/

theorem ite {c : Prop} [Decidable c] {m' : Render α} (h : c → Moves d s apart p q m)
    (h' : ¬ c → Moves d s apart p q m') : Moves d s apart p q (if c then m else m') := by
  split
  · next hc => exact h hc
  · next hc => exact h' hc

theorem when {condition : Bool} {m : Render Unit} (h : condition = true → Moves d s apart p p m) :
    Moves d s apart p p (Render.when condition m) :=
  .ite h fun _ => .pure ()

theorem onSome {value : Option β} {f : β → Render Unit} (h : ∀ x ∈ value, Moves d s apart p p (f x)) :
    Moves d s apart p p (Render.onSome value f) := by
  cases value with
  | none => exact .pure ()
  | some x => exact h x rfl

theorem forM {xs : List β} {f : β → Render PUnit} (h : ∀ x ∈ xs, Moves d s apart p p (f x)) :
    Moves d s apart p p (xs.forM f) := by
  induction xs with
  | nil => exact .pure ()
  | cons x xs ih => exact .bind (h x (by simp)) fun _ => ih fun y hy => h y (by simp [hy])

theorem separated {between : String} {xs : List β} {f : β → Render Unit}
    (hb : Spot.reaches apart between ⟨.joint, 0⟩ ⟨.gap, 0⟩ = true)
    (h : ∀ x ∈ xs, Moves d s apart ⟨.gap, 0⟩ ⟨.joint, 0⟩ (f x)) :
    Moves d s apart ⟨.gap, 0⟩ ⟨.joint, 0⟩ (Render.separated between (xs.map f)) := by
  induction xs with
  | nil => exact .toJoint (.pure ())
  | cons x xs ih =>
    have hx := h x (by simp)
    have hxs := ih fun y hy => h y (by simp [hy])
    cases xs with
    | nil => exact hx
    | cons y ys => exact .bind hx fun _ => .bind (.sql ⟨.gap, 0⟩ hb) fun _ => hxs

theorem nameList {names : List String} (h : ∀ n ∈ names, s.Spells n) : Phrase d s a (Render.nameList names) := by
  have list : Closed d s (Render.separated ", " (names.map Render.name)) :=
    .separated rfl fun n hn => (Moves.name (h n hn)).ofSign.toJoint
  exact list.parenthesized

/-- What is changed for a step and put back behind it is nothing that the text depends on. -/
theorem around {m' : Render α} (enter : Context → Context)
    (same : ∀ c, (enter c).dialect = c.dialect ∧ (enter c).settings = c.settings ∧ (enter c).output = c.output)
    (runs : ∀ c x k, m' c = .ok x k → ∃ k', m (enter c) = .ok x k' ∧ k.dialect = k'.dialect
      ∧ k.settings = k'.settings ∧ k.output = k'.output) (h : Moves d s apart p q m) : Moves d s apart p q m' := by
  intro c x k hd hs hk
  obtain ⟨k', hr, hd', hs', ho⟩ := runs c x k hk
  obtain ⟨sameDialect, sameSettings, sameOutput⟩ := same c
  obtain ⟨hd'', hs'', ps, ts, ho', spells, leads⟩ := h _ x k' (sameDialect.trans hd) (sameSettings.trans hs) hr
  exact ⟨hd'.trans hd'', hs'.trans hs'', ps, ts, by rw [ho, ho', sameOutput], spells, leads⟩

theorem withFlags (flags : RenderFlags) (h : Moves d s apart p q m) :
    Moves d s apart p q (Render.withFlags flags m) := by
  refine .around (fun c => { c with flags := flags }) (fun _ => ⟨rfl, rfl, rfl⟩) (fun c x k hk => ?_) h
  unfold Render.withFlags at hk
  split at hk
  · next hr =>
    cases hk
    exact ⟨_, hr, rfl, rfl, rfl⟩
  · cases hk

theorem onQueryLevel (h : Moves d s apart p q m) : Moves d s apart p q (Render.onQueryLevel m) := by
  refine .around (fun c => { c with scopes := c.scopes.start }) (fun _ => ⟨rfl, rfl, rfl⟩) (fun c x k hk => ?_) h
  unfold Render.onQueryLevel at hk
  split at hk
  · next hr =>
    cases hk
    exact ⟨_, hr, rfl, rfl, rfl⟩
  · cases hk

end Render.Moves

end SqlDialects
