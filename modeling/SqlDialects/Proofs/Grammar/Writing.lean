import SqlDialects.Proofs.Grammar.Literals
import SqlDialects.Proofs.Grammar.Spelling
import SqlDialects.Proofs.Render.Frame
import SqlDialects.Proofs.Render.Levels
import Mathlib.Data.List.Forall2

/-!
# What a step writes

A step of a pass **writes** tokens if what it adds to the output is read as these tokens, wherever the step is
taken (`Render.Writes`). Steps that follow each other write tokens that follow each other (`Render.Writes.bind`), so
there is one rule for each way of putting steps together, and what a whole node is read as follows from its writer.

Where a step is taken is a `Render.Place`: outside of queries, where a pass begins, or anywhere in a pass. A place also
says whether steps may be refused there. Where they may not, a step that writes tokens succeeds.
-/

set_option autoImplicit false

namespace SqlDialects

/-- The context of a pass that is inside no query and has written an output. -/
def Context.after (d : Dialect) (s : Settings) (o : Output) : Context := { Context.new d s with output := o }

/-- The token that a name is written as. -/
def Settings.nameToken (s : Settings) (n : String) : Token :=
  match s.quotedNames with
  | .always => .name n
  | .never => .word n
  | .asNeeded => if needsQuoting n then .name n else .word n

theorem Settings.nameToken_cases (s : Settings) (n : String) : s.nameToken n = .name n ∨ s.nameToken n = .word n := by
  unfold nameToken
  split
  · exact .inl rfl
  · exact .inr rfl
  · split
    · exact .inl rfl
    · exact .inr rfl

/-- A name is read as one token, unless it is to stand without quotes and cannot. -/
theorem Lexer.reads_name {d : Dialect} {s : Settings} {n : String}
    (hn : s.quotedNames = .never → isPlainName n = true) :
    Reads d .sign .name (spellName d s n).toList [s.nameToken n] := by
  unfold spellName Settings.nameToken
  cases hq : s.quotedNames with
  | always => exact reads_quoted n
  | never => exact reads_word (hn hq)
  | asNeeded =>
    cases hneed : needsQuoting n with
    | true => exact reads_quoted n
    | false =>
      rw [needsQuoting, Bool.or_eq_false_iff, Bool.not_eq_false'] at hneed
      exact reads_word hneed.1

/-- The expression that a column is written as. -/
def ColumnRef.expression (s : Settings) (c : ColumnRef) : Expression :=
  match c.table with
  | none => .atom (s.nameToken c.name)
  | some t => .binary .qualified (.atom (s.nameToken t)) (.atom (s.nameToken c.name))

/-- The expression that a value is written as, a placeholder or a literal. -/
def Value.placed (d : Dialect) (s : Settings) (v : Value) : Expression :=
  match s.paramType with
  | .indexed => .atom (.bind v)
  | .inlined => v.expression d

namespace Render

open Lexer (Edge Reads Spells)

/-- Where a step is taken: in which contexts, and whether it may be refused there. A pass begins there, and writing
does not lead away. -/
structure Place (d : Dialect) (s : Settings) where
  here : Context → Prop
  mayFail : Prop
  new : here (.new d s)
  dialect : ∀ {c}, here c → c.dialect = d
  settings : ∀ {c}, here c → c.settings = s
  write : ∀ {c} (p : Piece), here c → here (c.write p)

namespace Place

variable {d : Dialect} {s : Settings}

/-- Outside of queries. -/
def outside (d : Dialect) (s : Settings) (mayFail : Prop) : Place d s where
  here c := ∃ o, c = .after d s o
  mayFail := mayFail
  new := ⟨.empty, rfl⟩
  dialect := by
    rintro _ ⟨o, rfl⟩
    rfl
  settings := by
    rintro _ ⟨o, rfl⟩
    rfl
  write := by
    rintro _ p ⟨o, rfl⟩
    exact ⟨o.write d s p, rfl⟩

/-- Anywhere in a pass. -/
def anywhere (d : Dialect) (s : Settings) : Place d s where
  here c := c.dialect = d ∧ c.settings = s
  mayFail := False
  new := ⟨rfl, rfl⟩
  dialect h := h.1
  settings h := h.2
  write _ h := h

end Place

/-- The step writes tokens from one kind of edge to another: wherever it is taken, it stays there and adds pieces to
the output that are read as the tokens, or it is refused where it may be. -/
def Writes {d : Dialect} {s : Settings} (π : Place d s) (a b : Edge) (m : Render Unit) (ts : List Token) : Prop :=
  ∀ c, π.here c →
    (∃ c' ps, m c = .ok () c' ∧ π.here c' ∧ c'.output = c.output.writeAll d s ps ∧ Spells d s a b ps ts) ∨
      (π.mayFail ∧ ∃ e c', m c = .error e c')

namespace Writes

variable {d : Dialect} {s : Settings} {π : Place d s} {a b c : Edge} {m : Render Unit} {ts ts' : List Token}

theorem map {a' b' : Edge} (hs : ∀ ps, Spells d s a b ps ts → Spells d s a' b' ps ts') (h : Writes π a b m ts) :
    Writes π a' b' m ts' := by
  intro k hk
  rcases h k hk with ⟨k', ps, hr, hk', ho, h⟩ | h
  · exact .inl ⟨k', ps, hr, hk', ho, hs ps h⟩
  · exact .inr h

theorem toJoint (h : Writes π a b m ts) : Writes π a .joint m ts := h.map fun _ => Spells.toJoint

theorem ofSign (h : Writes π .sign b m ts) : Writes π .gap b m ts := h.map fun _ => Spells.ofSign

theorem ofJoint (h : Writes π .joint b m ts) : Writes π a b m ts := h.map fun _ => Spells.ofJoint

theorem cast (h : Writes π a b m ts) (ht : ts = ts') : Writes π a b m ts' := ht ▸ h

/-! ## Rules -/

/-- Steps that follow each other. -/
theorem bind {f : Unit → Render Unit} (hm : Writes π a b m ts) (hf : Writes π b c (f ()) ts') :
    Writes π a c (m >>= f) (ts ++ ts') := by
  intro k hk
  rcases hm k hk with ⟨k', ps, hr, hk', ho, hs⟩ | ⟨hfail, e, k', hr⟩
  · rw [bind_ok hr]
    rcases hf k' hk' with ⟨k'', qs, hr', hk'', ho', hs'⟩ | h
    · refine .inl ⟨k'', ps ++ qs, hr', hk'', ?_, hs.append hs'⟩
      rw [ho', ho, Output.writeAll_append]
    · exact .inr h
  · rw [bind_error hr]
    exact .inr ⟨hfail, e, k', rfl⟩

theorem dialect {f : Dialect → Render Unit} (h : Writes π a b (f d) ts) : Writes π a b (Render.dialect >>= f) ts := by
  intro k hk
  have same : (Render.dialect >>= f) k = f d k := by
    rw [← π.dialect hk]
    rfl
  rw [same]
  exact h k hk

/-- A step that does nothing. -/
theorem pure : Writes π a a (Pure.pure ()) [] := fun k hk => .inl ⟨k, [], rfl, hk, rfl, .nil⟩

theorem write {p : Piece} (h : Spells d s a b [p] ts) : Writes π a b (Render.write p) ts := by
  intro k hk
  refine .inl ⟨k.write p, [p], rfl, π.write p hk, ?_, h⟩
  rw [← π.dialect hk, ← π.settings hk]
  rfl

theorem sql {text : String} (h : Reads d a b text.toList ts) : Writes π a b (Render.sql text) ts :=
  write (Reads.spells (by rintro v ⟨⟩) h)

theorem blank : Writes π .joint .gap (Render.sql " ") [] := sql Lexer.reads_blank

theorem unsupported (h : π.mayFail) (construct : String) : Writes π a b (Render.unsupported construct) ts :=
  fun k _ => .inr ⟨h, .unsupported construct k.dialect, k, rfl⟩

/-- A name is written as one token. -/
theorem name {n : String} (hn : s.quotedNames = .never → isPlainName n = true) :
    Writes π .sign .name (Render.name n) [s.nameToken n] :=
  write (Reads.spells (by rintro v ⟨⟩) (Lexer.reads_name hn))

theorem column {c : ColumnRef} (hn : s.quotedNames = .never → isPlainName c.name = true)
    (ht : ∀ t ∈ c.table, s.quotedNames = .never → isPlainName t = true) :
    Writes π .sign .joint (Visitor.column c) (c.expression s).tokens := by
  obtain ⟨table, n, type⟩ := c
  cases table with
  | none =>
    have nothing : Writes π .sign .sign (Pure.pure ()) [] := pure
    exact nothing.bind (name hn).toJoint
  | some t =>
    have point : Writes π .name .gap (Render.sql ".") [.symbol "."] := sql Lexer.reads_point
    exact ((name (ht t rfl)).bind point).bind (name hn).ofSign.toJoint

theorem literal (v : Value) : Writes π .gap .joint (Render.literal v) (v.expression d).tokens :=
  write (Reads.spells (by rintro v ⟨⟩) (Lexer.reads_literal v))

theorem value (v : Value) : Writes π .gap .joint (Render.bind v) (v.placed d s).tokens := by
  unfold Value.placed
  cases hs : s.paramType with
  | indexed => exact write (Lexer.spells_bind hs v).ofSign
  | inlined => exact write (Reads.spellsInlined hs (Lexer.reads_literal v))

theorem parenthesized (h : Writes π .gap .joint m ts) :
    Writes π .joint .gap (Render.parenthesized m) (.symbol "(" :: ts ++ [.symbol ")"]) := by
  have opening : Writes π .joint .gap (Render.sql "(") [.symbol "("] := sql (Lexer.reads_mark (by decide))
  exact opening.bind (h.bind (sql (Lexer.reads_mark (by decide))))

/-- Steps with commas between them write the items of a list. -/
theorem items {α : Type} {P : α → Expression → Prop} {f : α → Render Unit} {xs : List α}
    (h : ∀ x ∈ xs, ∃ e, P x e ∧ Writes π .gap .joint (f x) e.tokens) :
    ∃ es ts, List.Forall₂ P xs es ∧ ts ++ [.symbol ")"] = Expression.itemTokens es ∧
      Writes π .gap .joint (separated ", " (xs.map f)) ts := by
  induction xs with
  | nil => exact ⟨[], [], .nil, rfl, pure.toJoint⟩
  | cons x xs ih =>
    obtain ⟨e, he, hx⟩ := h x (by simp)
    obtain ⟨es, ts, hes, ht, hxs⟩ := ih fun y hy => h y (by simp [hy])
    cases xs with
    | nil =>
      cases hes
      exact ⟨[e], e.tokens, .cons he .nil, rfl, hx⟩
    | cons y ys =>
      have comma : Writes π .joint .gap (Render.sql ", ") [.symbol ","] :=
        sql ((Lexer.reads_mark (by decide)).append Lexer.reads_blank.ofJoint)
      refine ⟨e :: es, _, .cons he hes, ?_, hx.bind (comma.bind hxs)⟩
      cases hes with
      | cons _ _ => simp [Expression.itemTokens, ← ht]

/-- The items of a list that are written as given expressions. -/
theorem list {α : Type} {f : α → Render Unit} {e : α → Expression} {xs : List α}
    (h : ∀ x ∈ xs, Writes π .gap .joint (f x) (e x).tokens) :
    ∃ ts, ts ++ [.symbol ")"] = Expression.itemTokens (xs.map e) ∧ Writes π .gap .joint (separated ", " (xs.map f)) ts := by
  obtain ⟨es, ts, hes, ht, items⟩ := Writes.items (P := fun x e' => e' = e x) fun x hx => ⟨_, rfl, h x hx⟩
  have same : xs.map e = es := by
    have mapped : List.Forall₂ (· = ·) (xs.map e) es :=
      List.forall₂_map_left_iff.2 (hes.imp fun _ _ h => h.symm)
    rwa [List.forall₂_eq_eq_eq] at mapped
  exact ⟨ts, same ▸ ht, items⟩

end Writes

end Render

/-- What a node writes is what its rendered text is read as. -/
theorem Render.Writes.tokens? {d : Dialect} {s : Settings} {π : Place d s} {b : Lexer.Edge} {n : Node}
    {ts : List Token} {r : Rendered} (h : Render.Writes π .gap b n.write ts) (hr : n.render d s = .ok r) :
    r.tokens? d = some ts := by
  unfold Node.render at hr
  rcases h _ π.new with ⟨c, ps, hw, -, ho, hs⟩ | ⟨-, e, c, hw⟩
  · rw [hw] at hr
    cases hr
    rw [Context.finish, ho]
    exact Rendered.tokens?_of_spells hs
  · rw [hw] at hr
    cases hr

/-- Where no step may be refused, a node that writes tokens is rendered. -/
theorem Render.Writes.exists_render {d : Dialect} {s : Settings} {π : Place d s} {a b : Lexer.Edge} {n : Node}
    {ts : List Token} (h : Render.Writes π a b n.write ts) (hf : ¬ π.mayFail) : ∃ r, n.render d s = .ok r := by
  unfold Node.render
  rcases h _ π.new with ⟨c, ps, hw, -⟩ | ⟨hm, -⟩
  · rw [hw]
    exact ⟨_, rfl⟩
  · exact absurd hm hf

end SqlDialects
